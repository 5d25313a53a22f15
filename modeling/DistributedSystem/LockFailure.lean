import DistributedSystem.LockSafety

/-!
# Calls that fail

None of the callers of INIT_LOCK_MGR, ACQUIRE_LOCK and REQUEST looks at the status
of its call: after a time-out or a lost connection it goes on as if it had a reply. A
call that fails once its handler has finished does no harm, since the caller then
does what it would have done after the reply. A call that fails earlier stands for a
grant that nobody gave.
-/
namespace DistributedSystem.LockProtocol
open LockManager Transition

variable {N A P C : Type}

/-- The handler of the REQUEST has returned. -/
def Request.isReplied : Request N → Bool
  | .replied _ _ => true
  | _ => false

theorem Request.isReplied_iff {r : Request N} :
    r.isReplied = true ↔ ∃ q pack, r = .replied q pack := by
  cases r <;> simp [Request.isReplied]

/-- If the step is a failure of a call, the handler of that call has finished. -/
def calleeFinished (s : State N A P C) : Action P C → Bool
  | .initFail p => s.init p = .served
  | .requestFail x =>
    match s.handler x with
    | .awaiting i => (s.request (x, i)).isReplied
    | _ => false
  | .acquireFail x => s.handler x = .completed
  | _ => true

/-- The guard of the runs in which calls fail only after their handlers have finished. -/
def CalleeFinished (s : State N A P C) (a : Action P C) : Prop := calleeFinished s a = true

instance (s : State N A P C) (a : Action P C) : Decidable (CalleeFinished s a) :=
  inferInstanceAs (Decidable (calleeFinished s a = true))

/-- What a client may rely on when `psu_acquire_lock` has returned: every node it
named that is not its own has granted the call, and no other client is past
`psu_acquire_lock` of the same lock and before `psu_release_lock`. -/
structure ExclusiveGrant (e : Env N A P C) (s : State N A P C) (x : C) : Prop where
  granted : ∀ a ∈ e.names (e.process x), a ∉ e.localIpAddresses (e.node x) →
    ∃ j pack, s.request (x, j) = .replied (e.resolve (e.node x) a) pack
  alone : ∀ y, e.number y = e.number x → s.thread y = .holding → y = x

variable [DecidableEq N] [DecidableEq A] [DecidableEq P] [DecidableEq C]

/-- The step that the caller would take if its call succeeded. -/
def Action.success : Action P C → Action P C
  | .initFail p => .initReturn p
  | .requestFail x => .reply x
  | .acquireFail x => .acquireReturn x
  | a => a

omit [DecidableEq N] [DecidableEq A] [DecidableEq P] [DecidableEq C] in
theorem noFail_success (s : State N A P C) (a : Action P C) : NoFail s a.success := by
  cases a <;> rfl

/-- A call that fails after its handler has finished is as good as one that succeeds. -/
theorem step_success {e : Env N A P C} {s s' : State N A P C} {a : Action P C}
    (hc : CalleeFinished s a) (h : step e s a = some s') : step e s a.success = some s' := by
  cases a with
  | initFail p =>
    have hserved : s.init p = .served := by simpa [CalleeFinished, calleeFinished] using hc
    simpa [step, Action.success, hserved] using h
  | requestFail x =>
    cases hh : s.handler x with
    | awaiting i =>
      have hr : (s.request (x, i)).isReplied = true := by
        simpa [CalleeFinished, calleeFinished, hh] using hc
      obtain ⟨q, pack, hr⟩ := Request.isReplied_iff.mp hr
      simpa [step, Action.success, hh, hr] using h
    | _ => simp [step, hh] at h
  | acquireFail x =>
    have hcompleted : s.handler x = .completed := by
      simpa [CalleeFinished, calleeFinished] using hc
    simpa [step, Action.success, hcompleted] using h
  | _ => exact h

/-- Runs with harmless failures reach no state that runs without failures do not. -/
theorem noFail_of_calleeFinished {e : Env N A P C} {s : State N A P C}
    (h : Reaches (step e) CalleeFinished (initial e) s) :
    Reaches (step e) NoFail (initial e) s := by
  induction h with
  | refl => exact .refl
  | tail _ hc hs ih => exact ih.tail (noFail_success _ _) (step_success hc hs)

/-- As long as calls fail only after their handlers have finished, a client past
`psu_acquire_lock` has been granted the lock by all nodes and holds it alone. -/
theorem exclusiveGrant_of_calleeFinished (e : Env N A P C) (hd : Deployed e)
    {s : State N A P C} (h : Reaches (step e) CalleeFinished (initial e) s) {x : C}
    (hx : s.thread x = .holding) : ExclusiveGrant e s x := by
  have hi := inv_reaches hd.mac_injective (noFail_of_calleeFinished h)
  have hholds : ∀ y, s.thread y = .holding → Holds s y := by
    intro y hy
    exact ⟨hi.clients.returned y (by simp [hy]) (by simp [hy]), by simp [hy]⟩
  refine ⟨hi.loop.granted x (hholds x hx).1, ?_⟩
  intro y hn hy
  exact holds_unique hd hi (hholds y hy) (hholds x hx) hn.symm

/-- Each of the three calls of the first host fails after its handler has finished. -/
theorem exclusiveGrant_twoNodes : ∃ s,
    Reaches (step twoNodes) CalleeFinished (initial twoNodes) s ∧
      s.thread false = .holding ∧ ExclusiveGrant twoNodes s false := by
  let as : List (Action Bool Bool) :=
    [.initCall false, .initServe false, .initFail false, .acquireCall false,
      .acquireArrive false, .acquireEnter false, .send false, .serve false 0,
      .requestFail false, .complete false, .acquireFail false]
  let s := (exec (step twoNodes) (initial twoNodes) as).get (by decide)
  have hr : Reaches (step twoNodes) CalleeFinished (initial twoNodes) s :=
    reaches_of_exec as (Option.some_get _).symm (by decide)
  have hx : s.thread false = .holding := by decide
  exact ⟨s, hr, hx, exclusiveGrant_of_calleeFinished twoNodes twoNodes_deployed hr hx⟩

/-- A REQUEST of a call of `twoNodes` is lost, and the call goes on to its end. -/
def lostRun (x : Bool) : List (Action Bool Bool) :=
  [.requestFail x, .complete x, .acquireReturn x]

/-- The REQUESTs of both hosts are lost, nobody grants anything, and both clients
return from `psu_acquire_lock`. -/
theorem not_exclusiveGrant : ∃ s, Reaches (step twoNodes) anyStep (initial twoNodes) s ∧
    s.thread false = .holding ∧ ¬ ExclusiveGrant twoNodes s false ∧
      (∀ q pack, s.request (false, 0) ≠ .replied q pack) ∧ s.thread true = .holding := by
  let as := requestRun false ++ requestRun true ++ lostRun false ++ lostRun true
  let s := (exec (step twoNodes) (initial twoNodes) as).get (by decide)
  have hr : Reaches (step twoNodes) anyStep (initial twoNodes) s :=
    reaches_of_exec_anyStep as (Option.some_get _).symm
  have hy : s.thread true = .holding := by decide
  have hsent : s.request (false, 0) = .sent true ⟨1, 1, 1⟩ := by decide
  refine ⟨s, hr, by decide, ?_, ?_, hy⟩
  · intro h
    have heq := h.alone true rfl hy
    simp at heq
  · intro q pack hq
    simp [hsent] at hq

end DistributedSystem.LockProtocol
