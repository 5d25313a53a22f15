import DistributedSystem.LockManager
import DistributedSystem.Transition

/-!
# The lock protocol of all nodes

Client processes call `psu_init_lock_mgr` once, and their threads call
`psu_acquire_lock` and `psu_release_lock`. Every call of `psu_acquire_lock` has an
identifier of its own, for which there is a thread of `acquire_lock_1_svc` on its
node, the REQUEST calls that thread makes one after the other, and later the call
of `psu_release_lock` that gives the lock back. A thread can have any number of
calls, and a node any number of processes.

An action is one atomic step: the choice of a sequence number, one run of
`request_1_svc` up to its decision, one `release_lock_1_svc`, one `INIT_LOCK_MGR`,
and the moments at which a message is sent or a call returns to its caller. A call
is in flight from the step that makes it to the step that serves it, and its reply
from there to the step that returns it, so that all delays are arbitrary. The three
actions whose names end in `Fail` are calls that end at their caller with a status
other than `RPC_SUCCESS`, which none of the callers looks at.
-/
namespace DistributedSystem.LockProtocol
open LockManager Transition

/-- The hosts and the calls that are made on them. `resolve p a` is the node that
the host name `a` denotes on node `p`. -/
structure Env (N A P C : Type) where
  mac : N → ℕ
  resolve : N → A → N
  localIpAddresses : N → List A
  host : P → N
  names : P → List A
  process : C → P
  number : C → ℤ

variable {N A P C : Type}

/-- The node on which an acquire call is made. -/
def Env.node (e : Env N A P C) (x : C) : N := e.host (e.process x)

/-- The INIT_LOCK_MGR call of a process, as its server sees it. -/
inductive InitCall where
  | idle | sent | served
  deriving DecidableEq, Repr

/-- The client thread of an acquire call: before the call, inside
`psu_acquire_lock`, past it, inside `psu_release_lock`, and past that. -/
inductive Thread where
  | idle | acquiring | holding | releasing | released
  deriving DecidableEq, Repr

/-- The thread of `acquire_lock_1_svc` for a call: not yet started, at the mutex of
line 123, at the head of the loop of line 127 with index `i`, inside `request_1` for
index `i`, and returned. -/
inductive Handler where
  | idle | waiting | sending (i : ℕ) | awaiting (i : ℕ) | completed
  deriving DecidableEq, Repr

/-- A REQUEST call: not made, on its way to node `dest`, with its handler parked
there, and with its handler there returned. -/
inductive Request (N : Type) where
  | unsent
  | sent (dest : N) (pack : RequestPack ℤ)
  | parked (dest : N) (pack : RequestPack ℤ)
  | replied (dest : N) (pack : RequestPack ℤ)
  deriving DecidableEq, Repr

/-- What unlocking the mutex of a parked handler does: the handler returns. -/
def Request.wake : Request N → Request N
  | .parked dest pack => .replied dest pack
  | r => r

/-- The state of the whole system. REQUEST number `i` of the acquire call `x` and
its handler are called `(x, i)`. -/
structure State (N A P C : Type) where
  server : N → Server ℤ (C × ℕ) A
  init : P → InitCall
  hasInitialized : P → Bool
  thread : C → Thread
  handler : C → Handler
  request : C × ℕ → Request N

def initial (e : Env N A P C) : State N A P C where
  server p := initializeGlobalVariable (e.mac p)
  init _ := .idle
  hasInitialized _ := false
  thread _ := .idle
  handler _ := .idle
  request _ := .unsent

inductive Action (P C : Type) where
  | initCall (p : P)
  | initServe (p : P)
  | initReturn (p : P)
  | initFail (p : P)
  | acquireCall (x : C)
  | acquireArrive (x : C)
  | acquireEnter (x : C)
  | send (x : C)
  | serve (x : C) (i : ℕ)
  | reply (x : C)
  | requestFail (x : C)
  | complete (x : C)
  | acquireReturn (x : C)
  | acquireFail (x : C)
  | releaseCall (x : C)
  | releaseServe (x : C)
  deriving DecidableEq, Repr

variable [DecidableEq N] [DecidableEq A] [DecidableEq P] [DecidableEq C]

/-- One atomic step. After a failure `psu_init_lock_mgr` sets its flag, the loop of
line 127 takes its next turn, and `psu_acquire_lock` returns, as after a reply. -/
def step (e : Env N A P C) (s : State N A P C) : Action P C → Option (State N A P C)
  | .initCall p =>
    if s.init p = .idle then some { s with init := Function.update s.init p .sent } else none
  | .initServe p =>
    if s.init p = .sent then
      some { s with
        init := Function.update s.init p .served
        server := Function.update s.server (e.host p)
          (initLockMgr1Svc (e.localIpAddresses (e.host p)) (e.names p) (s.server (e.host p))) }
    else none
  | .initReturn p =>
    if s.init p = .served then
      some { s with hasInitialized := Function.update s.hasInitialized p true }
    else none
  | .initFail p =>
    if s.init p ≠ .idle then
      some { s with hasInitialized := Function.update s.hasInitialized p true }
    else none
  | .acquireCall x =>
    if s.hasInitialized (e.process x) = true ∧ s.thread x = .idle then
      some { s with thread := Function.update s.thread x .acquiring }
    else none
  | .acquireArrive x =>
    if s.thread x ≠ .idle ∧ s.handler x = .idle then
      some { s with
        handler := Function.update s.handler x .waiting
        server := Function.update s.server (e.node x)
          (acquireFind (e.number x) (s.server (e.node x))) }
    else none
  | .acquireEnter x =>
    if s.handler x = .waiting then
      (acquireEnter (e.number x) (s.server (e.node x))).map fun srv =>
        { s with
          handler := Function.update s.handler x (.sending 0)
          server := Function.update s.server (e.node x) srv }
    else none
  | .send x =>
    match s.handler x with
    | .sending i =>
      (s.server (e.node x)).nodes[i]?.map fun a =>
        { s with
          handler := Function.update s.handler x (.awaiting i)
          request := Function.update s.request (x, i) (.sent (e.resolve (e.node x) a)
            (acquirePack (e.number x) (s.server (e.node x)))) }
    | _ => none
  | .serve x i =>
    match s.request (x, i) with
    | .sent dest pack =>
      let r := request1Svc (x, i) pack (s.server dest)
      some { s with
        server := Function.update s.server dest r.2
        request := Function.update s.request (x, i)
          (if r.1 then .parked dest pack else .replied dest pack) }
    | _ => none
  | .reply x =>
    match s.handler x with
    | .awaiting i =>
      match s.request (x, i) with
      | .replied _ _ => some { s with handler := Function.update s.handler x (.sending (i + 1)) }
      | _ => none
    | _ => none
  | .requestFail x =>
    match s.handler x with
    | .awaiting i => some { s with handler := Function.update s.handler x (.sending (i + 1)) }
    | _ => none
  | .complete x =>
    match s.handler x with
    | .sending i =>
      if (s.server (e.node x)).nodes.length ≤ i then
        some { s with handler := Function.update s.handler x .completed }
      else none
    | _ => none
  | .acquireReturn x =>
    if s.thread x = .acquiring ∧ s.handler x = .completed then
      some { s with thread := Function.update s.thread x .holding }
    else none
  | .acquireFail x =>
    if s.thread x = .acquiring then
      some { s with thread := Function.update s.thread x .holding }
    else none
  | .releaseCall x =>
    if s.thread x = .holding then
      some { s with thread := Function.update s.thread x .releasing }
    else none
  | .releaseServe x =>
    if s.thread x = .releasing then
      (releaseLock1Svc (e.number x) (s.server (e.node x))).map fun r =>
        { s with
          server := Function.update s.server (e.node x) r.2
          thread := Function.update s.thread x .released
          request := fun h => if h ∈ r.1 then (s.request h).wake else s.request h }
    else none

/-- A call ends at its caller with a status other than `RPC_SUCCESS`. -/
def Action.fails : Action P C → Bool
  | .initFail _ | .requestFail _ | .acquireFail _ => true
  | _ => false

/-- The guard of the runs in which all RPCs succeed. -/
def NoFail (_ : State N A P C) (a : Action P C) : Prop := a.fails = false

instance (s : State N A P C) (a : Action P C) : Decidable (NoFail s a) :=
  inferInstanceAs (Decidable (a.fails = false))

/-- The steps of the runs in which all RPCs succeed, with what each of them
requires of the state and what it does to it. -/
inductive Effect (e : Env N A P C) (s : State N A P C) :
    Action P C → State N A P C → Prop
  | initCall (p : P) (hi : s.init p = .idle) :
      Effect e s (.initCall p) { s with init := Function.update s.init p .sent }
  | initServe (p : P) (hi : s.init p = .sent) :
      Effect e s (.initServe p) { s with
        init := Function.update s.init p .served
        server := Function.update s.server (e.host p)
          (initLockMgr1Svc (e.localIpAddresses (e.host p)) (e.names p) (s.server (e.host p))) }
  | initReturn (p : P) (hi : s.init p = .served) :
      Effect e s (.initReturn p)
        { s with hasInitialized := Function.update s.hasInitialized p true }
  | acquireCall (x : C) (hi : s.hasInitialized (e.process x) = true) (ht : s.thread x = .idle) :
      Effect e s (.acquireCall x) { s with thread := Function.update s.thread x .acquiring }
  | acquireArrive (x : C) (ht : s.thread x ≠ .idle) (hh : s.handler x = .idle) :
      Effect e s (.acquireArrive x) { s with
        handler := Function.update s.handler x .waiting
        server := Function.update s.server (e.node x)
          (acquireFind (e.number x) (s.server (e.node x))) }
  | acquireEnter (x : C) (srv : Server ℤ (C × ℕ) A) (hh : s.handler x = .waiting)
      (hs : acquireEnter (e.number x) (s.server (e.node x)) = some srv) :
      Effect e s (.acquireEnter x) { s with
        handler := Function.update s.handler x (.sending 0)
        server := Function.update s.server (e.node x) srv }
  | send (x : C) (i : ℕ) (a : A) (hh : s.handler x = .sending i)
      (ha : (s.server (e.node x)).nodes[i]? = some a) :
      Effect e s (.send x) { s with
        handler := Function.update s.handler x (.awaiting i)
        request := Function.update s.request (x, i) (.sent (e.resolve (e.node x) a)
          (acquirePack (e.number x) (s.server (e.node x)))) }
  | defer (x : C) (i : ℕ) (q : N) (pack : RequestPack ℤ) (hr : s.request (x, i) = .sent q pack)
      (hd : ((s.server q).lockvar pack.lockNumber).defers (s.server q).mac pack = true) :
      Effect e s (.serve x i) { s with
        server := Function.update s.server q (request1Svc (x, i) pack (s.server q)).2
        request := Function.update s.request (x, i) (.parked q pack) }
  | grant (x : C) (i : ℕ) (q : N) (pack : RequestPack ℤ) (hr : s.request (x, i) = .sent q pack)
      (hd : ((s.server q).lockvar pack.lockNumber).defers (s.server q).mac pack = false) :
      Effect e s (.serve x i) { s with
        server := Function.update s.server q (request1Svc (x, i) pack (s.server q)).2
        request := Function.update s.request (x, i) (.replied q pack) }
  | reply (x : C) (i : ℕ) (q : N) (pack : RequestPack ℤ) (hh : s.handler x = .awaiting i)
      (hr : s.request (x, i) = .replied q pack) :
      Effect e s (.reply x) { s with handler := Function.update s.handler x (.sending (i + 1)) }
  | complete (x : C) (i : ℕ) (hh : s.handler x = .sending i)
      (hi : (s.server (e.node x)).nodes.length ≤ i) :
      Effect e s (.complete x) { s with handler := Function.update s.handler x .completed }
  | acquireReturn (x : C) (ht : s.thread x = .acquiring) (hh : s.handler x = .completed) :
      Effect e s (.acquireReturn x) { s with thread := Function.update s.thread x .holding }
  | releaseCall (x : C) (ht : s.thread x = .holding) :
      Effect e s (.releaseCall x) { s with thread := Function.update s.thread x .releasing }
  | releaseServe (x : C) (woken : List (C × ℕ)) (srv : Server ℤ (C × ℕ) A)
      (ht : s.thread x = .releasing)
      (hs : releaseLock1Svc (e.number x) (s.server (e.node x)) = some (woken, srv)) :
      Effect e s (.releaseServe x) { s with
        server := Function.update s.server (e.node x) srv
        thread := Function.update s.thread x .released
        request := fun h => if h ∈ woken then (s.request h).wake else s.request h }

/-- Everything that a step without a failure can do. -/
theorem effect_of_step {e : Env N A P C} {s s' : State N A P C} {a : Action P C}
    (hf : NoFail s a) (h : step e s a = some s') : Effect e s a s' := by
  cases a with
  | initFail p => cases hf
  | requestFail x => cases hf
  | acquireFail x => cases hf
  | initCall p =>
    obtain ⟨hi, hs⟩ := Option.ite_none_right_eq_some.mp h
    obtain rfl := Option.some.inj hs
    exact .initCall p hi
  | initServe p =>
    obtain ⟨hi, hs⟩ := Option.ite_none_right_eq_some.mp h
    obtain rfl := Option.some.inj hs
    exact .initServe p hi
  | initReturn p =>
    obtain ⟨hi, hs⟩ := Option.ite_none_right_eq_some.mp h
    obtain rfl := Option.some.inj hs
    exact .initReturn p hi
  | acquireCall x =>
    obtain ⟨⟨hi, ht⟩, hs⟩ := Option.ite_none_right_eq_some.mp h
    obtain rfl := Option.some.inj hs
    exact .acquireCall x hi ht
  | acquireArrive x =>
    obtain ⟨⟨ht, hh⟩, hs⟩ := Option.ite_none_right_eq_some.mp h
    obtain rfl := Option.some.inj hs
    exact .acquireArrive x ht hh
  | acquireEnter x =>
    obtain ⟨hh, hs⟩ := Option.ite_none_right_eq_some.mp h
    obtain ⟨srv, hsrv, rfl⟩ := Option.map_eq_some_iff.mp hs
    exact .acquireEnter x srv hh hsrv
  | send x =>
    simp only [step] at h
    split at h
    · rename_i i hh
      obtain ⟨a, ha, rfl⟩ := Option.map_eq_some_iff.mp h
      exact .send x i a hh ha
    · cases h
  | serve x i =>
    simp only [step] at h
    split at h
    · rename_i q pack hr
      obtain rfl := Option.some.inj h
      rw [request1Svc_fst]
      cases hd : ((s.server q).lockvar pack.lockNumber).defers (s.server q).mac pack with
      | true => exact .defer x i q pack hr hd
      | false => exact .grant x i q pack hr hd
    · cases h
  | reply x =>
    simp only [step] at h
    split at h
    · rename_i i hh
      split at h
      · rename_i q pack hr
        obtain rfl := Option.some.inj h
        exact .reply x i q pack hh hr
      · cases h
    · cases h
  | complete x =>
    simp only [step] at h
    split at h
    · rename_i i hh
      obtain ⟨hi, hs⟩ := Option.ite_none_right_eq_some.mp h
      obtain rfl := Option.some.inj hs
      exact .complete x i hh hi
    · cases h
  | acquireReturn x =>
    obtain ⟨⟨ht, hh⟩, hs⟩ := Option.ite_none_right_eq_some.mp h
    obtain rfl := Option.some.inj hs
    exact .acquireReturn x ht hh
  | releaseCall x =>
    obtain ⟨ht, hs⟩ := Option.ite_none_right_eq_some.mp h
    obtain rfl := Option.some.inj hs
    exact .releaseCall x ht
  | releaseServe x =>
    obtain ⟨ht, hs⟩ := Option.ite_none_right_eq_some.mp h
    obtain ⟨⟨woken, srv⟩, hsrv, rfl⟩ := Option.map_eq_some_iff.mp hs
    exact .releaseServe x woken srv ht hsrv

/-- The steps of all runs: those above, and the three failures. -/
inductive AnyEffect (e : Env N A P C) (s : State N A P C) :
    Action P C → State N A P C → Prop
  | effect {a : Action P C} {s' : State N A P C} (h : Effect e s a s') : AnyEffect e s a s'
  | initFail (p : P) (hi : s.init p ≠ .idle) :
      AnyEffect e s (.initFail p)
        { s with hasInitialized := Function.update s.hasInitialized p true }
  | requestFail (x : C) (i : ℕ) (hh : s.handler x = .awaiting i) :
      AnyEffect e s (.requestFail x)
        { s with handler := Function.update s.handler x (.sending (i + 1)) }
  | acquireFail (x : C) (ht : s.thread x = .acquiring) :
      AnyEffect e s (.acquireFail x) { s with thread := Function.update s.thread x .holding }

theorem step_of_effect {e : Env N A P C} {s s' : State N A P C} {a : Action P C}
    (h : Effect e s a s') : step e s a = some s' := by
  cases h with
  | initCall p hi => simp [step, hi]
  | initServe p hi => simp [step, hi]
  | initReturn p hi => simp [step, hi]
  | acquireCall x hi ht => simp [step, hi, ht]
  | acquireArrive x ht hh => simp [step, ht, hh]
  | acquireEnter x srv hh hs => simp [step, hh, hs]
  | send x i a hh ha => simp [step, hh, ha]
  | defer x i q pack hr hd => simp [step, hr, request1Svc_fst, hd]
  | grant x i q pack hr hd => simp [step, hr, request1Svc_fst, hd]
  | reply x i q pack hh hr => simp [step, hh, hr]
  | complete x i hh hi => simp [step, hh, hi]
  | acquireReturn x ht hh => simp [step, ht, hh]
  | releaseCall x ht => simp [step, ht]
  | releaseServe x woken srv ht hs => simp [step, ht, hs]

theorem step_eq_some_iff {e : Env N A P C} {s s' : State N A P C} {a : Action P C} :
    step e s a = some s' ↔ AnyEffect e s a s' := by
  constructor
  · intro h
    cases hf : a.fails with
    | false => exact .effect (effect_of_step hf h)
    | true =>
      cases a with
      | initFail p =>
        obtain ⟨hi, hs⟩ := Option.ite_none_right_eq_some.mp h
        obtain rfl := Option.some.inj hs
        exact .initFail p hi
      | requestFail x =>
        simp only [step] at h
        split at h
        · rename_i i hh
          obtain rfl := Option.some.inj h
          exact .requestFail x i hh
        · cases h
      | acquireFail x =>
        obtain ⟨ht, hs⟩ := Option.ite_none_right_eq_some.mp h
        obtain rfl := Option.some.inj hs
        exact .acquireFail x ht
      | _ => cases hf
  · intro h
    cases h with
    | effect h => exact step_of_effect h
    | initFail p hi => simp [step, hi]
    | requestFail x i hh => simp [step, hh]
    | acquireFail x ht => simp [step, ht]

end DistributedSystem.LockProtocol
