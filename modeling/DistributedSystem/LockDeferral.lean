import DistributedSystem.LockHistory

/-!
# Deferred requests

A request that is deferred is in one `deffered` array, once, until a release on that node
answers it. A node whose last call of a lock is released still defers in the name of that
call, since `requesting_cs` is never taken back, and its array is emptied only by a release
of its own: as long as the node does not ask for the lock again, nobody else gets it.
-/
namespace DistributedSystem.LockProtocol
open LockManager Transition

variable {N A P C : Type}

/-! ## Each deferred request is queued once -/

/-- No `deffered` array has a request twice. -/
def Queues (s : State N A P C) : Prop := ∀ p n, (s.lockvar p n).deffered.Nodup

section Moves
variable [DecidableEq N] [DecidableEq C]

theorem queues_move {e : Env N A P C} {s s' : State N A P C} (hk : Locks e s) (hq : Queues s)
    (h : Move e s s') : Queues s' := by
  intro p n
  cases h with
  | quiet hv hr ho =>
    rw [hv]
    exact hq p n
  | send x i q hu hv hr ho =>
    rw [hv]
    exact hq p n
  | enter x hu hx hv hr ho =>
    rw [lockvar_field LockVar.deffered hv rfl]
    exact hq p n
  | grant x i q pack hx hu hd hv hr ho =>
    rw [lockvar_field LockVar.deffered hv rfl]
    exact hq p n
  | defer x i q pack hx hu hd hv hr ho =>
    rw [hv]
    split_ifs with hp
    · -- the request was in flight, and so in no array
      have hnot : (x, i) ∉ (s.lockvar q pack.lockNumber).deffered := by
        intro hmem
        obtain ⟨-, pack', hparked⟩ := (hk.deffered _ _ _).mp hmem
        simp [hu] at hparked
      exact (hq q pack.lockNumber).append (List.nodup_singleton _) (by simpa using hnot)
    · exact hq p n
  | release x hx hv hr ho =>
    rw [hv]
    split_ifs with hp
    · exact List.nodup_nil
    · exact hq p n

end Moves

variable [DecidableEq N] [DecidableEq A] [DecidableEq P] [DecidableEq C]

/-- Where the deferred requests are, and what becomes of them in one step: those that a release
on their node finds are answered, and all others stay. -/
structure DeferredOnce (e : Env N A P C) (s : State N A P C) : Prop where
  once : ∀ g p pack, s.request g = .parked p pack →
    (s.lockvar p (e.number g.1)).deffered.count g = 1
  noOther : ∀ g p n, g ∈ (s.lockvar p n).deffered →
    e.number g.1 = n ∧ ∃ pack, s.request g = .parked p pack
  answered : ∀ g p pack x s', s.request g = .parked p pack → e.node x = p →
    e.number x = e.number g.1 → step e s (.releaseServe x) = some s' →
    s'.request g = .replied p pack
  kept : ∀ g p pack a s', s.request g = .parked p pack → NoFail s a → step e s a = some s' →
    (∀ x, a = .releaseServe x → ¬ (e.node x = p ∧ e.number x = e.number g.1)) →
    s'.request g = .parked p pack

theorem queues_reaches {e : Env N A P C} {s : State N A P C} (hmac : Function.Injective e.mac)
    (h : Reaches (step e) NoFail (initial e) s) : Queues s := by
  have hall : Inv e s ∧ Queues s := by
    refine h.invariant_with (Inv e) Queues (inv_reaches hmac .refl)
      (fun _ _ _ hi hf hs => inv_step hmac hi hf hs) ?_ ?_
    · intro p n
      simp [initial, initializeGlobalVariable, State.lockvar, Server.lockvar, LockVar.new]
    · intro u a u' hi hq hf hs
      exact queues_move hi.locks hq (move_of_effect hi.clients hi.loop (effect_of_step hf hs))
  exact hall.2

/-- Only a release answers a parked request. -/
theorem parked_effect {e : Env N A P C} {s s' : State N A P C} {a : Action P C}
    (hk : Locks e s) (h : Effect e s a s') {g : C × ℕ} {p : N} {pack : RequestPack ℤ}
    (hg : s.request g = .parked p pack) (hl : Loop e s)
    (ha : ∀ x, a = .releaseServe x → ¬ (e.node x = p ∧ e.number x = e.number g.1)) :
    s'.request g = .parked p pack := by
  cases h with
  | send x i b hh hb =>
    have hne : g ≠ (x, i) := by
      rintro rfl
      simp [hl.ahead x i hh i le_rfl] at hg
    rw [← hg]
    exact Function.update_of_ne hne ..
  | defer x i q pack' hr hd =>
    have hne : g ≠ (x, i) := by
      rintro rfl
      simp [hr] at hg
    rw [← hg]
    exact Function.update_of_ne hne ..
  | grant x i q pack' hr hd =>
    have hne : g ≠ (x, i) := by
      rintro rfl
      simp [hr] at hg
    rw [← hg]
    exact Function.update_of_ne hne ..
  | releaseServe x woken srv ht hs =>
    obtain ⟨rfl, -, -, -⟩ := releaseLock1Svc_eq_some hs
    have hnot : g ∉ ((s.server (e.node x)).lockvar (e.number x)).deffered := by
      intro hmem
      obtain ⟨hn, pack', hparked⟩ := (hk.deffered _ _ _).mp hmem
      obtain ⟨rfl, -⟩ : p = e.node x ∧ pack = pack' := by simpa [hg] using hparked
      exact ha x rfl ⟨rfl, hn.symm⟩
    simp only [hnot, if_false]
    exact hg
  | _ => exact hg

/-- In every run in which RPCs succeed, a deferred request is in the array of its lock on the
node that defers it, once, and in no other, until a release of that lock on that node takes it
out and answers it. -/
theorem deferred_once (e : Env N A P C) (hmac : Function.Injective e.mac) {s : State N A P C}
    (h : Reaches (step e) NoFail (initial e) s) : DeferredOnce e s := by
  have hi := inv_reaches hmac h
  have hq := queues_reaches hmac h
  refine ⟨?_, ?_, ?_, ?_⟩
  · intro g p pack hg
    have hmem := (hi.locks.deffered p (e.number g.1) g).mpr ⟨rfl, pack, hg⟩
    exact List.count_eq_one_of_mem (hq p (e.number g.1)) hmem
  · intro g p n hmem
    exact (hi.locks.deffered p n g).mp hmem
  · intro g p pack x s' hg hp hn hs
    have heff := effect_of_step (show NoFail s (Action.releaseServe (P := P) x) from rfl) hs
    cases heff with
    | releaseServe _ woken srv ht hsrv =>
      obtain ⟨rfl, -, -, -⟩ := releaseLock1Svc_eq_some hsrv
      have hmem : g ∈ ((s.server (e.node x)).lockvar (e.number x)).deffered :=
        (hi.locks.deffered _ _ _).mpr ⟨hn.symm, pack, by rw [hp]; exact hg⟩
      simp only [hmem, if_true, hg]
      rfl
  · intro g p pack a s' hg hf hs ha
    exact parked_effect hi.locks (effect_of_step hf hs) hg hi.loop ha

/-- The second host asks while the call of the first one is open, and its request is parked
there. -/
theorem deferred_once_twoNodes : ∃ s,
    Reaches (step twoNodes) NoFail (initial twoNodes) s ∧
      s.request (true, 0) = .parked false ⟨1, 1, 2⟩ ∧
      (s.lockvar false 1).deffered.count (true, 0) = 1 := by
  let as := requestRun false ++ requestRun true ++ [.serve true 0]
  let s := (exec (step twoNodes) (initial twoNodes) as).get (by decide)
  have h : Reaches (step twoNodes) NoFail (initial twoNodes) s :=
    reaches_of_exec as (Option.some_get _).symm (by decide)
  have hg : s.request (true, 0) = .parked false ⟨1, 1, 2⟩ := by decide
  exact ⟨s, h, hg, (deferred_once twoNodes twoNodes_deployed.mac_injective h).once _ _ _ hg⟩

/-! ## A released call goes on deferring -/

/-- A call of lock `n` on node `p` chooses its number. -/
def asks (e : Env N A P C) (p : N) (n : ℤ) : Action P C → Bool
  | .acquireEnter x => decide (e.node x = p ∧ e.number x = n)
  | _ => false

/-- The guard of the runs in which RPCs succeed and node `p` does not ask for lock `n`. -/
def Dormant (e : Env N A P C) (p : N) (n : ℤ) (s : State N A P C) (a : Action P C) : Prop :=
  NoFail s a ∧ asks e p n a = false

instance (e : Env N A P C) (p : N) (n : ℤ) (s : State N A P C) (a : Action P C) :
    Decidable (Dormant e p n s a) :=
  inferInstanceAs (Decidable (_ ∧ _))

/-- Node `p` has no call of lock `n` open and defers in the name of one that was granted
last, with the place `k` in the order. -/
structure Stale (e : Env N A P C) (n : ℤ) (k : Priority) (p : N) (s : State N A P C) : Prop where
  granted : GrantedUpTo e n k p s
  requesting : (s.lockvar p n).requestingCs = true
  myseqno : (s.lockvar p n).myseqno = (ofLex k).1
  closed : ∀ x, Open s x → e.number x = n → e.node x ≠ p

theorem asks_of_handler {e : Env N A P C} {s s' : State N A P C} {a : Action P C}
    (h : Effect e s a s') {x : C} (hx : s.handler x = .waiting) (hx' : s'.handler x = .sending 0) :
    asks e (e.node x) (e.number x) a = true := by
  cases h with
  | acquireArrive y ht hh => by_cases hy : x = y <;> simp_all
  | acquireEnter y srv hh hs => by_cases hy : x = y <;> simp_all [asks]
  | send y i b hh hb => by_cases hy : x = y <;> simp_all
  | reply y i q pack hh hr => by_cases hy : x = y <;> simp_all
  | complete y i hh hi => by_cases hy : x = y <;> simp_all
  | _ => simp [hx] at hx'

/-- A node opens a call of a lock only by asking for it. -/
theorem asks_of_opens {e : Env N A P C} {s s' : State N A P C} {a : Action P C}
    (h : Effect e s a s') {x : C} (hx : ¬ Open s x) (hx' : Open s' x) :
    asks e (e.node x) (e.number x) a = true := by
  have hthread : s.thread x ≠ .released := by
    intro ht
    rcases thread_effect h x with hsame | ⟨-, hmoved⟩
    · exact hx'.2.2 (hsame.trans ht)
    · simp [ht] at hmoved
  have hhandler : s.handler x = .waiting ∧ s'.handler x = .sending 0 := by
    rcases handler_effect h x with hh | ⟨-, ⟨-, -, hh⟩ | hh | ⟨i, b, pack, hh, -⟩ |
      ⟨i, q, pack, hh, -⟩ | ⟨i, hh, -⟩⟩
    · exact (hx ⟨hh ▸ hx'.1, hh ▸ hx'.2.1, hthread⟩).elim
    · exact (hx'.2.1 hh).elim
    · exact hh
    · exact (hx ⟨by simp [hh], by simp [hh], hthread⟩).elim
    · exact (hx ⟨by simp [hh], by simp [hh], hthread⟩).elim
    · exact (hx ⟨by simp [hh], by simp [hh], hthread⟩).elim
  exact asks_of_handler h hhandler.1 hhandler.2

omit [DecidableEq A] [DecidableEq P] in
/-- What a node asks for with a lock changes only when a call of that lock opens there. -/
theorem request_fields_move {e : Env N A P C} {n : ℤ} {p : N} {s s' : State N A P C}
    (hk : Locks e s) (h : Move e s s')
    (hopens : ∀ x, ¬ Open s x → Open s' x → ¬ (e.node x = p ∧ e.number x = n)) :
    (s'.lockvar p n).requestingCs = (s.lockvar p n).requestingCs ∧
      (s'.lockvar p n).myseqno = (s.lockvar p n).myseqno := by
  cases h with
  | quiet hv hr ho => simp [hv]
  | enter x hu hx hv hr ho =>
    have hnot : ¬ Open s x := fun hopen => not_open_of_free hk hx hopen ⟨rfl, rfl⟩
    have hother : ¬ (p = e.node x ∧ n = e.number x) := by
      rintro ⟨rfl, rfl⟩
      exact hopens x hnot ((ho x).mpr (.inl rfl)) ⟨rfl, rfl⟩
    simp [hv, hother]
  | send x i q hu hv hr ho => simp [hv]
  | defer x i q pack hx hu hd hv hr ho =>
    exact ⟨lockvar_field LockVar.requestingCs hv rfl p n, lockvar_field LockVar.myseqno hv rfl p n⟩
  | grant x i q pack hx hu hd hv hr ho =>
    exact ⟨lockvar_field LockVar.requestingCs hv rfl p n, lockvar_field LockVar.myseqno hv rfl p n⟩
  | release x hx hv hr ho =>
    exact ⟨lockvar_field LockVar.requestingCs hv rfl p n, lockvar_field LockVar.myseqno hv rfl p n⟩

omit [DecidableEq A] [DecidableEq P] in
theorem stale_move {e : Env N A P C} {n : ℤ} {k : Priority} {p : N} {s s' : State N A P C}
    (hk : Locks e s) (hst : Stale e n k p s) (h : Move e s s')
    (hopens : ∀ x, ¬ Open s x → Open s' x → ¬ (e.node x = p ∧ e.number x = n)) :
    Stale e n k p s' := by
  obtain ⟨hrequesting, hmyseqno⟩ := request_fields_move hk h hopens
  refine ⟨grantedUpTo_move hk hst.granted h, hrequesting.trans hst.requesting,
    hmyseqno.trans hst.myseqno, ?_⟩
  intro x hx' hn hp
  by_cases hx : Open s x
  · exact hst.closed x hx hn hp
  · exact hopens x hx hx' ⟨hp, hn⟩

omit [DecidableEq N] [DecidableEq A] [DecidableEq P] [DecidableEq C] in
/-- A stale node defers every request of another node. -/
theorem Stale.defers {e : Env N A P C} {n : ℤ} {k : Priority} {p : N} {s : State N A P C}
    (hst : Stale e n k p s) {y : C} (hy : Open s y) (hn : e.number y = n) (hp : e.node y ≠ p) :
    (s.lockvar p n).defers (e.mac p) ⟨n, (mine e s y).myseqno, e.mac (e.node y)⟩ = true := by
  refine (LockVar.defers_iff _ _ _).mpr ⟨hst.requesting, ?_⟩
  have hk : (s.lockvar p n).priority (e.mac p) = k := by
    rw [LockVar.priority, hst.myseqno, ← hst.granted.mac]
    rfl
  rw [hk]
  exact hst.granted.elsewhere y hy hn hp

omit [DecidableEq A] [DecidableEq P] in
/-- A stale node answers nobody. -/
theorem unanswered_move {e : Env N A P C} {n : ℤ} {k : Priority} {p : N} {s s' : State N A P C}
    (hk : Locks e s) (hst : Stale e n k p s) (h : Move e s s') {y : C} (hn : e.number y = n)
    (hp : e.node y ≠ p) (hy : ∀ j pack, s.request (y, j) ≠ .replied p pack) :
    ∀ j pack, s'.request (y, j) ≠ .replied p pack := by
  intro j pack' hrep
  apply hy j pack'
  rw [← hrep]
  cases h with
  | quiet hv hr ho => rw [hr]
  | enter x hu hx hv hr ho => rw [hr]
  | send x i q hu hv hr ho =>
    have hne : (y, j) ≠ (x, i) := by
      intro heq
      simp [hr, heq] at hrep
    rw [hr, Function.update_of_ne hne]
  | defer x i q pack hx hu hd hv hr ho =>
    have hne : (y, j) ≠ (x, i) := by
      intro heq
      simp [hr, heq] at hrep
    rw [hr, Function.update_of_ne hne]
  | grant x i q pack hx hu hd hv hr ho =>
    have hne : (y, j) ≠ (x, i) := by
      intro heq
      obtain ⟨rfl, rfl⟩ := Prod.mk.inj heq
      obtain ⟨rfl, rfl⟩ : q = p ∧ pack = pack' := by simpa [hr] using hrep
      have hpack := hk.pack y j q pack hx (.inl hu)
      have hdefers := hst.defers hx hn hp
      have hnum : pack.lockNumber = e.number y := by rw [hpack]
      rw [← hn, ← hpack] at hdefers
      rw [hnum, hdefers] at hd
      cases hd
    rw [hr, Function.update_of_ne hne]
  | release x hx hv hr ho =>
    have hnot : (y, j) ∉ (mine e s x).deffered := by
      intro hmem
      obtain ⟨hnum, pack, hparked⟩ := (hk.deffered _ _ _).mp hmem
      rw [hr, if_pos hmem, hparked] at hrep
      obtain ⟨hnode, -⟩ : e.node x = p ∧ pack = pack' := by simpa [Request.wake] using hrep
      exact hst.closed x hx (hnum.symm.trans hn) hnode
    rw [hr, if_neg hnot]

/-- After a release, the node defers in the name of the call that is over. -/
theorem stale_of_release {e : Env N A P C} {s s' : State N A P C} {x : C} (hd : Deployed e)
    (hi : Inv e s) (hf : Fresh e s) (h : Effect e s (.releaseServe x) s') :
    Stale e (e.number x) (priority e s x) (e.node x) s' := by
  have hmove := move_of_effect hi.clients hi.loop h
  have hx : Holds s x := by
    cases h with
    | releaseServe _ woken srv ht hs =>
      exact ⟨hi.clients.returned x (by simp [ht]) (by simp [ht]), by simp [ht]⟩
  have hx' : ¬ Open s' x := by
    cases h with
    | releaseServe _ woken srv ht hs => simp [Open]
  have hg := grantedUpTo_of_holds hd hi hf hx
  have hfield : mine e s' x = (mine e s x).renewDeffered.unlockMutex := by
    cases h with
    | releaseServe _ woken srv ht hs =>
      obtain ⟨-, -, -, hv⟩ := releaseLock1Svc_eq_some hs
      rw [mine, lockvar_update_entry rfl hv, if_pos ⟨rfl, rfl⟩]
      rfl
  refine ⟨grantedUpTo_move hi.locks hg hmove, ?_, ?_, ?_⟩
  · exact (congrArg LockVar.requestingCs hfield).trans (hi.locks.requesting x hx.isOpen)
  · show (mine e s' x).myseqno = (mine e s x).myseqno
    rw [hfield]
    rfl
  · intro y hy' hn hp
    by_cases hy : Open s y
    · obtain rfl := hi.locks.unique x y hx.isOpen hy hp.symm hn.symm
      exact hx' hy'
    · have := asks_of_opens h hy hy'
      simp [asks] at this

/-- After the release of a call, its node answers no further request of its lock from another
node, and the calls that still need its answer never complete, unless the node itself asks for
the lock again. -/
theorem released_node_blocks (e : Env N A P C) (hd : Deployed e) {s s₁ s₂ : State N A P C}
    {x y : C} (h : Reaches (step e) NoFail (initial e) s)
    (hs : step e s (.releaseServe x) = some s₁) (hn : e.number y = e.number x)
    (hp : e.node y ≠ e.node x) (hy : ∀ j pack, s₁.request (y, j) ≠ .replied (e.node x) pack)
    (h' : Reaches (step e) (Dormant e (e.node x) (e.number x)) s₁ s₂) :
    s₂.handler y ≠ .completed := by
  have hi := inv_reaches hd.mac_injective h
  have hf : NoFail s (Action.releaseServe (P := P) x) := rfl
  have hst := stale_of_release hd hi (fresh_reaches hd.mac_injective h) (effect_of_step hf hs)
  have hall : Inv e s₂ ∧ (Stale e (e.number x) (priority e s x) (e.node x) s₂ ∧
      ∀ j pack, s₂.request (y, j) ≠ .replied (e.node x) pack) := by
    refine h'.invariant_with (Inv e)
      (fun u => Stale e (e.number x) (priority e s x) (e.node x) u ∧
        ∀ j pack, u.request (y, j) ≠ .replied (e.node x) pack)
      (inv_step hd.mac_injective hi hf hs)
      (fun u a u' hiu hg hsu => inv_step hd.mac_injective hiu hg.1 hsu) ⟨hst, hy⟩ ?_
    intro u a u' hiu hu hg hsu
    have heff := effect_of_step hg.1 hsu
    have hmove := move_of_effect hiu.clients hiu.loop heff
    refine ⟨stale_move hiu.locks hu.1 hmove ?_, unanswered_move hiu.locks hu.1 hmove hn hp hu.2⟩
    intro z hz hz' hat
    have hasks := asks_of_opens heff hz hz'
    rw [hat.1, hat.2, hg.2] at hasks
    cases hasks
  intro hcompleted
  obtain ⟨j, pack, hrep⟩ := granted_of_completed hd hall.1.loop hcompleted hp.symm
  exact hall.2.2 j pack hrep

/-- The second host asks after the first one has released the lock, and waits. -/
theorem released_node_blocks_twoNodes : ∃ s s₁ s₂,
    Reaches (step twoNodes) NoFail (initial twoNodes) s ∧
      step twoNodes s (.releaseServe false) = some s₁ ∧
      Reaches (step twoNodes) (Dormant twoNodes false 1) s₁ s₂ ∧ Open s₂ true ∧
      s₂.handler true ≠ .completed := by
  let as := requestRun false ++ grantRun false ++ [.releaseCall false]
  let bs := requestRun true ++ [.serve true 0]
  let s := (exec (step twoNodes) (initial twoNodes) as).get (by decide)
  let s₁ := (step twoNodes s (.releaseServe false)).get (by decide)
  let s₂ := (exec (step twoNodes) s₁ bs).get (by decide)
  have h : Reaches (step twoNodes) NoFail (initial twoNodes) s :=
    reaches_of_exec as (Option.some_get _).symm (by decide)
  have hs : step twoNodes s (.releaseServe false) = some s₁ := (Option.some_get _).symm
  have h' : Reaches (step twoNodes) (Dormant twoNodes false 1) s₁ s₂ :=
    reaches_of_exec bs (Option.some_get _).symm (by decide)
  have hy : ∀ j pack, s₁.request (true, j) ≠ .replied (twoNodes.node false) pack := by
    intro j pack hrep
    cases j with
    | zero => exact absurd hrep (by simp [show s₁.request (true, 0) = .unsent from by decide])
    | succ j => cases hrep
  exact ⟨s, s₁, s₂, h, hs, h', by decide,
    released_node_blocks twoNodes twoNodes_deployed h hs rfl (by decide) hy h'⟩

end DistributedSystem.LockProtocol
