import DistributedSystem.LockSafety

/-!
# Deadlock

`release_lock_1_svc` does not take `requesting_cs` back, so that a node goes on
deferring requests in the name of an acquire call that is over. Such a request stays
parked although nobody holds the lock. As long as no request meets a stale flag in
this way, a parked request always waits for an open call that comes before it, and
the pending call that comes first can move.
-/
namespace DistributedSystem.LockProtocol
open LockManager Transition

variable {N A P C : Type}

/-- The acquire call has chosen its sequence number and is not complete. -/
def Pending (s : State N A P C) (x : C) : Prop := Open s x ∧ s.handler x ≠ .completed

instance (s : State N A P C) (x : C) : Decidable (Pending s x) :=
  inferInstanceAs (Decidable (_ ∧ _))

/-- `request_1_svc` defers a request on a node on which the mutex of the lock is
free, so that no acquire call of the lock is open there. -/
def staleDeferral (s : State N A P C) : Action P C → Bool
  | .serve x i =>
    match s.request (x, i) with
    | .sent q pack => !(s.lockvar q pack.lockNumber).lock &&
        (s.lockvar q pack.lockNumber).defers (s.server q).mac pack
    | _ => false
  | _ => false

/-- The guard of the runs in which RPCs succeed and no request meets a stale flag. -/
def NotStale (s : State N A P C) (a : Action P C) : Prop :=
  NoFail s a ∧ staleDeferral s a = false

instance (s : State N A P C) (a : Action P C) : Decidable (NotStale s a) :=
  inferInstanceAs (Decidable (_ ∧ _))

/-- Every parked request waits for an open call that comes before its own. -/
def Blocked (e : Env N A P C) (s : State N A P C) : Prop :=
  ∀ x i q pack, s.request (x, i) = .parked q pack →
    ∃ y, Open s y ∧ e.node y = q ∧ e.number y = e.number x ∧ priority e s y < priority e s x

/-- The call that a deferred request waits for. -/
theorem blocker_of_defers {e : Env N A P C} {s : State N A P C} (hi : Inv e s) {x : C} {i : ℕ}
    {q : N} {pack : RequestPack ℤ} (hr : s.request (x, i) = .sent q pack)
    (hlock : (s.lockvar q pack.lockNumber).lock = true)
    (hd : (s.lockvar q pack.lockNumber).defers (s.server q).mac pack = true) :
    ∃ y, Open s y ∧ e.node y = q ∧ e.number y = e.number x ∧ priority e s y < priority e s x := by
  have hx := open_of_madeTo hi.clients hi.loop (.inl hr) (by simp [hr])
  have hpack := hi.locks.pack x i q pack hx (.inl hr)
  have hnum : pack.lockNumber = e.number x := by rw [hpack]
  obtain ⟨y, hy, hnode, hyn⟩ := (hi.locks.locked q pack.lockNumber).mp hlock
  refine ⟨y, hy, hnode, hyn.trans hnum, ?_⟩
  have hlt := ((LockVar.defers_iff _ _ _).mp hd).2
  have hmine : s.lockvar q pack.lockNumber = mine e s y := by rw [mine, hnode, hyn]
  have hprio : pack.priority = priority e s x := by
    rw [hpack]
    rfl
  rw [hmine, hi.clients.mac, hprio, ← hnode] at hlt
  exact hlt

/-- The position of a pending call in the order of priorities, in which every
chain that goes down is finite because sequence numbers are positive. -/
def rank (e : Env N A P C) (s : State N A P C) (x : C) : ℕ ×ₗ ℕ :=
  toLex ((mine e s x).myseqno.toNat, e.mac (e.node x))

theorem rank_lt_rank {e : Env N A P C} {s : State N A P C} (hk : Locks e s) {x y : C}
    (hx : Open s x) (hy : Open s y) (h : priority e s y < priority e s x) :
    rank e s y < rank e s x := by
  have hposx := hk.seqno_pos x hx
  have hposy := hk.seqno_pos y hy
  refine Prod.Lex.toLex_lt_toLex.mpr ?_
  rcases Prod.Lex.toLex_lt_toLex.mp h with hlt | ⟨heq, hmac⟩
  · exact .inl ((Int.toNat_lt_toNat hposx).mpr hlt)
  · exact .inr ⟨congrArg Int.toNat heq, hmac⟩

variable [DecidableEq N] [DecidableEq A] [DecidableEq P] [DecidableEq C]

/-- The call `x` can go on, or one of its messages is under way: a REQUEST in flight,
a reply in flight, its next REQUEST to send, or its acquire to complete. -/
def Moving (e : Env N A P C) (s : State N A P C) (x : C) : Prop :=
  (∃ i q pack, s.request (x, i) = .sent q pack) ∨
    (∃ i q pack, s.handler x = .awaiting i ∧ s.request (x, i) = .replied q pack) ∨
    (step e s (.send x)).isSome ∨ (step e s (.complete x)).isSome

/-- If some acquire call of lock `n` is pending and none holds the lock, then some
call of `n` is moving. -/
def DeadlockFree (e : Env N A P C) (s : State N A P C) (n : ℤ) : Prop :=
  (∃ x, e.number x = n ∧ Pending s x) → (∀ y, e.number y = n → ¬ Holds s y) →
    ∃ x, e.number x = n ∧ Moving e s x

/-- Only a run of its own handler parks a request. -/
theorem serve_of_parked {e : Env N A P C} {s s' : State N A P C} {a : Action P C} {x : C}
    {i : ℕ} {q : N} {pack : RequestPack ℤ} (h : Effect e s a s')
    (hr : s.request (x, i) = .sent q pack) (hr' : s'.request (x, i) = .parked q pack) :
    a = .serve x i ∧ (s.lockvar q pack.lockNumber).defers (s.server q).mac pack = true := by
  cases h with
  | send y j b hh hb =>
    by_cases hx : (x, i) = (y, j)
    · simp [hx] at hr'
    · simp [Function.update_of_ne hx, hr] at hr'
  | defer y j q' pack' hs hd =>
    by_cases hx : (x, i) = (y, j)
    · obtain ⟨rfl, rfl⟩ := Prod.mk.inj hx
      obtain ⟨rfl, rfl⟩ : q = q' ∧ pack = pack' := by simpa [hr] using hs
      exact ⟨rfl, hd⟩
    · simp [Function.update_of_ne hx, hr] at hr'
  | grant y j q' pack' hs hd =>
    by_cases hx : (x, i) = (y, j)
    · simp [hx] at hr'
    · simp [Function.update_of_ne hx, hr] at hr'
  | releaseServe y woken srv ht hs =>
    by_cases hw : (x, i) ∈ woken <;> simp [hw, hr, Request.wake] at hr'
  | _ => simp [hr] at hr'

omit [DecidableEq A] [DecidableEq P] in
/-- An open call stays open, or its release answers all requests parked for its
lock on its node. -/
theorem open_or_answered {e : Env N A P C} {s s' : State N A P C} (hk : Locks e s)
    (h : Move e s s') {y : C} (hy : Open s y) :
    Open s' y ∨ ∀ g pack, e.number g.1 = e.number y → s.request g = .parked (e.node y) pack →
      s'.request g = .replied (e.node y) pack := by
  cases h with
  | quiet hv hr ho => exact .inl ((ho y).mpr hy)
  | enter z hu hz hv hr ho => exact .inl ((ho y).mpr (.inr hy))
  | send z i q hu hv hr ho => exact .inl ((ho y).mpr hy)
  | defer z i q pack hz hu hd hv hr ho => exact .inl ((ho y).mpr hy)
  | grant z i q pack hz hu hd hv hr ho => exact .inl ((ho y).mpr hy)
  | release z hz hv hr ho =>
    by_cases hyz : y = z
    · subst hyz
      right
      intro g pack hn hp
      have hmem : g ∈ (mine e s y).deffered := (hk.deffered _ _ g).mpr ⟨hn, pack, hp⟩
      rw [hr, if_pos hmem, hp]
      rfl
    · exact .inl ((ho y).mpr ⟨hy, hyz⟩)

theorem blocked_effect {e : Env N A P C} {s s' : State N A P C} {a : Action P C}
    (hi : Inv e s) (hb : Blocked e s) (heff : Effect e s a s')
    (hs : staleDeferral s a = false) : Blocked e s' := by
  intro x i q pack hp
  have hmove := move_of_effect hi.clients hi.loop heff
  have hkeep : ∀ y, Open s x → Open s y → Open s' y → e.node y = q →
      e.number y = e.number x → priority e s y < priority e s x →
      ∃ y, Open s' y ∧ e.node y = q ∧ e.number y = e.number x ∧
        priority e s' y < priority e s' x := by
    intro y hx hy hy' hnode hn hlt
    refine ⟨y, hy', hnode, hn, ?_⟩
    rw [priority_move hi.locks hmove hx, priority_move hi.locks hmove hy]
    exact hlt
  rcases request_effect heff x i with hr | ⟨-, -, q', pack', hr⟩ | ⟨q', pack', hr, hr'⟩ |
    ⟨q', pack', -, hr⟩
  · have hr₀ : s.request (x, i) = .parked q pack := hr.symm.trans hp
    have hx := open_of_madeTo hi.clients hi.loop (.inr (.inl hr₀)) (by simp [hr₀])
    obtain ⟨y, hy, rfl, hn, hlt⟩ := hb x i q pack hr₀
    rcases open_or_answered hi.locks hmove hy with hy' | hans
    · exact hkeep y hx hy hy' rfl hn hlt
    · simp [hans (x, i) pack hn.symm hr₀] at hp
  · simp [hp] at hr
  · obtain ⟨rfl, rfl⟩ : q = q' ∧ pack = pack' := by simpa [Request.SeenBy, hp] using hr'
    have hx := open_of_madeTo hi.clients hi.loop (.inl hr) (by simp [hr])
    obtain ⟨rfl, hd⟩ := serve_of_parked heff hr hp
    have hlock : (s.lockvar q pack.lockNumber).lock = true := by
      simpa [staleDeferral, hr, hd] using hs
    obtain ⟨y, hy, hnode, hn, hlt⟩ := blocker_of_defers hi hr hlock hd
    have hthread := (seenBy_of_serve hr heff).2
    exact hkeep y hx hy (open_effect heff hy (hthread ▸ hy.2.2)) hnode hn hlt
  · simp [hp] at hr

theorem blocked_reaches {e : Env N A P C} {s : State N A P C} (hd : Deployed e)
    (h : Reaches (step e) NotStale (initial e) s) : Blocked e s := by
  have hall : Inv e s ∧ Blocked e s := by
    refine h.invariant_with (Inv e) (Blocked e) (inv_reaches hd.mac_injective .refl)
      (fun u a u' hi hg hs => inv_step hd.mac_injective hi hg.1 hs) ?_ ?_
    · intro x i q pack hp
      simp [initial] at hp
    · intro u a u' hi hb hg hs
      exact blocked_effect hi hb (effect_of_step hg.1 hs) hg.2
  exact hall.2

/-- A pending call, or one before it that it waits for, is moving. -/
theorem moving_of_pending {e : Env N A P C} {s : State N A P C} (hi : Inv e s)
    (hb : Blocked e s) {n : ℤ} (hn : ∀ y, e.number y = n → ¬ Holds s y) (x : C)
    (hx : Pending s x) (hxn : e.number x = n) : ∃ z, e.number z = n ∧ Moving e s z := by
  -- a parked request leads to an open call of smaller rank
  induction hk : rank e s x using WellFoundedLT.induction generalizing x with
  | ind k ih =>
    obtain ⟨hopen, hnot⟩ := hx
    cases hh : s.handler x with
    | idle => exact (hopen.1 hh).elim
    | waiting => exact (hopen.2.1 hh).elim
    | completed => exact (hnot hh).elim
    | sending i =>
      refine ⟨x, hxn, .inr (.inr ?_)⟩
      rcases Nat.lt_or_ge i (s.server (e.node x)).nodes.length with hlt | hge
      · exact .inl (by simp [step, hh, hlt])
      · exact .inr (by simp [step, hh, hge])
    | awaiting i =>
      obtain ⟨a, pack, -, hr | hr | hr⟩ := hi.loop.current x i hh
      · exact ⟨x, hxn, .inl ⟨i, _, pack, hr⟩⟩
      · obtain ⟨y, hy, -, hyn, hlt⟩ := hb x i _ pack hr
        have hyn' : e.number y = n := hyn.trans hxn
        have hpend : Pending s y := ⟨hy, fun hc => hn y hyn' ⟨hc, hy.2.2⟩⟩
        exact ih _ (hk ▸ rank_lt_rank hi.locks hopen hy hlt) y hpend hyn' rfl
      · exact ⟨x, hxn, .inr (.inl ⟨i, _, pack, hh, hr⟩)⟩

/-- In every run in which no request meets a stale flag, whenever acquire calls of a
lock are pending and nobody holds it, one of them is moving. -/
theorem deadlock_free_of_notStale (e : Env N A P C) (hd : Deployed e) {s : State N A P C}
    (h : Reaches (step e) NotStale (initial e) s) (n : ℤ) : DeadlockFree e s n := by
  rintro ⟨x, hxn, hx⟩ hn
  have hi := inv_reaches hd.mac_injective (h.mono fun _ _ hg => hg.1)
  exact moving_of_pending hi (blocked_reaches hd h) hn x hx hxn

/-- The second host's request is parked behind the open call of the first one, whose
own request is still in flight. -/
theorem deadlock_free_of_notStale_twoNodes : ∃ s,
    Reaches (step twoNodes) NotStale (initial twoNodes) s ∧ Pending s false ∧ Pending s true ∧
      (∀ y, ¬ Holds s y) ∧ ∃ x, Moving twoNodes s x := by
  let as := requestRun false ++ requestRun true ++ [.serve true 0]
  let s := (exec (step twoNodes) (initial twoNodes) as).get (by decide)
  have hr : Reaches (step twoNodes) NotStale (initial twoNodes) s :=
    reaches_of_exec as (Option.some_get _).symm (by decide)
  have hx : Pending s false := by decide
  have hn : ∀ y, ¬ Holds s y := by decide
  obtain ⟨x, -, hm⟩ := deadlock_free_of_notStale twoNodes twoNodes_deployed hr 1
    ⟨false, rfl, hx⟩ (fun y _ => hn y)
  exact ⟨s, hr, hx, by decide, hn, x, hm⟩

/-- The first host acquires and releases, then the second one asks. -/
def staleRun : List (Action Bool Bool) :=
  requestRun false ++ grantRun false ++ [.releaseCall false, .releaseServe false] ++
    requestRun true ++ [.serve true 0]

/-- The first host has released the lock and parks the second host's request. -/
theorem not_deadlockFree : ∃ s, Reaches (step twoNodes) NoFail (initial twoNodes) s ∧
    ¬ DeadlockFree twoNodes s 1 := by
  let s := (exec (step twoNodes) (initial twoNodes) staleRun).get (by decide)
  have hr : Reaches (step twoNodes) NoFail (initial twoNodes) s :=
    reaches_of_exec staleRun (Option.some_get _).symm (by decide)
  refine ⟨s, hr, ?_⟩
  intro hfree
  have hn : ∀ y, ¬ Holds s y := by decide
  have hfirst : s.handler false = .completed := by decide
  have hsecond : s.handler true = .awaiting 0 := by decide
  have hreplied : s.request (false, 0) = .replied true ⟨1, 1, 1⟩ := by decide
  have hparked : s.request (true, 0) = .parked false ⟨1, 2, 2⟩ := by decide
  have hunsent : ∀ x i, i ≠ 0 → s.request (x, i) = .unsent := by
    intro x i hi
    cases i with
    | zero => exact (hi rfl).elim
    | succ i => cases x <;> rfl
  obtain ⟨x, -, hm⟩ := hfree ⟨true, rfl, by decide⟩ (fun y _ => hn y)
  rcases hm with ⟨i, q, pack, hq⟩ | ⟨i, q, pack, hh, hq⟩ | hsend | hcomplete
  · by_cases hi : i = 0
    · subst hi
      cases x
      · simp [hreplied] at hq
      · simp [hparked] at hq
    · simp [hunsent x i hi] at hq
  · cases x
    · simp [hfirst] at hh
    · obtain rfl : 0 = i := by simpa [hsecond] using hh
      simp [hparked] at hq
  · cases x
    · simp [step, hfirst] at hsend
    · simp [step, hsecond] at hsend
  · cases x
    · simp [step, hfirst] at hcomplete
    · simp [step, hsecond] at hcomplete

end DistributedSystem.LockProtocol
