import DistributedSystem.LockSafety

/-!
# The order in which a lock is granted

Results on whole runs of the lock protocol in which RPCs succeed: what a call that has held
a lock leaves behind for all later calls of that lock. Its number stays in the
`highestseqno` of every other node, so that whoever asks later comes after it.

A node does not count its own requests in its `highestseqno`. Two calls of one node that
follow each other can therefore have the same number.
-/
namespace DistributedSystem.LockProtocol
open LockManager Transition

variable {N A P C : Type}

/-- The number of an open call is at most one more than its node has seen. -/
def Fresh (e : Env N A P C) (s : State N A P C) : Prop :=
  ∀ x, Open s x → (mine e s x).myseqno ≤ (mine e s x).highestseqno + 1

/-- All calls of lock `n` that are open or open later come after the place `k` in the order,
which a call on node `p` has had. -/
structure GrantedUpTo (e : Env N A P C) (n : ℤ) (k : Priority) (p : N) (s : State N A P C) :
    Prop where
  mac : (ofLex k).2 = e.mac p
  own : (ofLex k).1 ≤ (s.lockvar p n).highestseqno + 1
  others : ∀ q, q ≠ p → (ofLex k).1 ≤ (s.lockvar q n).highestseqno
  here : ∀ y, Open s y → e.number y = n → e.node y = p → k ≤ priority e s y
  elsewhere : ∀ y, Open s y → e.number y = n → e.node y ≠ p → k < priority e s y

section Moves
variable [DecidableEq N] [DecidableEq C]

/-- No step lowers a `highestseqno`. -/
theorem highest_move {e : Env N A P C} {s s' : State N A P C} (h : Move e s s') (p : N) (n : ℤ) :
    (s.lockvar p n).highestseqno ≤ (s'.lockvar p n).highestseqno := by
  have hserve : ∀ (q : N) (pack : RequestPack ℤ) (v : LockVar ℤ (C × ℕ)),
      (∀ p n, s'.lockvar p n =
        if p = q ∧ n = pack.lockNumber then v else s.lockvar p n) →
      v.highestseqno = MAX pack.seqno (s.lockvar q pack.lockNumber).highestseqno →
      (s.lockvar p n).highestseqno ≤ (s'.lockvar p n).highestseqno := by
    intro q pack v hv hhigh
    rw [hv]
    split_ifs with hp
    · rw [hp.1, hp.2, hhigh, MAX_eq_max]
      exact le_max_right _ _
    · exact le_rfl
  cases h with
  | quiet hv hr ho => rw [hv]
  | enter x hu hx hv hr ho => exact (lockvar_field LockVar.highestseqno hv rfl p n).ge
  | send x i q hu hv hr ho => rw [hv]
  | defer x i q pack hx hu hd hv hr ho => exact hserve q pack _ hv rfl
  | grant x i q pack hx hu hd hv hr ho => exact hserve q pack _ hv rfl
  | release x hx hv hr ho => exact (lockvar_field LockVar.highestseqno hv rfl p n).ge

/-- A call opens with a number that is one more than its node has seen. -/
theorem myseqno_of_opens {e : Env N A P C} {s s' : State N A P C} (h : Move e s s') {y : C}
    (hy : ¬ Open s y) (hy' : Open s' y) :
    (mine e s' y).myseqno = (mine e s y).highestseqno + 1 := by
  cases h with
  | enter x hu hx hv hr ho =>
    obtain rfl : y = x := ((ho y).mp hy').resolve_right hy
    rw [mine, hv, if_pos ⟨rfl, rfl⟩]
    rfl
  | quiet hv hr ho => exact (hy ((ho y).mp hy')).elim
  | send x i q hu hv hr ho => exact (hy ((ho y).mp hy')).elim
  | defer x i q pack hx hu hd hv hr ho => exact (hy ((ho y).mp hy')).elim
  | grant x i q pack hx hu hd hv hr ho => exact (hy ((ho y).mp hy')).elim
  | release x hx hv hr ho => exact (hy ((ho y).mp hy').1).elim

theorem myseqno_move {e : Env N A P C} {s s' : State N A P C} (hk : Locks e s)
    (h : Move e s s') {x : C} (hx : Open s x) : (mine e s' x).myseqno = (mine e s x).myseqno := by
  have hprio := priority_move hk h hx
  exact congrArg (fun k => (ofLex k).1) hprio

theorem fresh_move {e : Env N A P C} {s s' : State N A P C} (hk : Locks e s) (hf : Fresh e s)
    (h : Move e s s') : Fresh e s' := by
  intro x hx'
  have hhigh := highest_move h (e.node x) (e.number x)
  by_cases hx : Open s x
  · have hle := hf x hx
    rw [myseqno_move hk h hx]
    unfold mine at *
    omega
  · rw [myseqno_of_opens h hx hx']
    unfold mine at *
    omega

theorem grantedUpTo_move {e : Env N A P C} {n : ℤ} {k : Priority} {p : N}
    {s s' : State N A P C} (hk : Locks e s) (hg : GrantedUpTo e n k p s) (h : Move e s s') :
    GrantedUpTo e n k p s' := by
  have hhigh := fun q => highest_move h q n
  refine ⟨hg.mac, ?_, ?_, ?_, ?_⟩
  · have := hhigh p
    have := hg.own
    omega
  · intro q hq
    have := hhigh q
    have := hg.others q hq
    omega
  · intro y hy' hn hnode
    by_cases hy : Open s y
    · rw [priority_move hk h hy]
      exact hg.here y hy hn hnode
    · have hseqno := myseqno_of_opens h hy hy'
      have hown := hg.own
      rw [mine, mine, hn, hnode] at hseqno
      refine Prod.Lex.le_iff.mpr ?_
      show (ofLex k).1 < (mine e s' y).myseqno ∨
        (ofLex k).1 = (mine e s' y).myseqno ∧ (ofLex k).2 ≤ e.mac (e.node y)
      rw [mine, hn, hnode, hg.mac]
      omega
  · intro y hy' hn hnode
    by_cases hy : Open s y
    · rw [priority_move hk h hy]
      exact hg.elsewhere y hy hn hnode
    · have hseqno := myseqno_of_opens h hy hy'
      have hothers := hg.others (e.node y) hnode
      rw [mine, mine, hn] at hseqno
      refine Prod.Lex.lt_iff.mpr (.inl ?_)
      show (ofLex k).1 < (mine e s' y).myseqno
      rw [mine, hn]
      omega

end Moves

/-- When a call holds the lock, every other node has replied to it and so has seen its
number. -/
theorem grantedUpTo_of_holds {e : Env N A P C} {s : State N A P C} (hd : Deployed e)
    (hi : Inv e s) (hf : Fresh e s) {x : C} (hx : Holds s x) :
    GrantedUpTo e (e.number x) (priority e s x) (e.node x) s := by
  refine ⟨rfl, hf x hx.isOpen, ?_, ?_, ?_⟩
  · intro q hq
    obtain ⟨j, pack, hr⟩ := granted_of_completed hd hi.loop hx.1 hq
    exact hi.locks.seen x j q pack hx.isOpen (.inr hr)
  · intro y hy hn hnode
    obtain rfl : x = y := hi.locks.unique x y hx.isOpen hy hnode.symm hn.symm
    exact le_rfl
  · intro y hy hn hnode
    refine priority_of_completed hd hi hx hy hn ?_
    rintro rfl
    exact hnode rfl

variable [DecidableEq N] [DecidableEq A] [DecidableEq P] [DecidableEq C]

theorem fresh_reaches {e : Env N A P C} {s : State N A P C} (hmac : Function.Injective e.mac)
    (h : Reaches (step e) NoFail (initial e) s) : Fresh e s := by
  have hall : Inv e s ∧ Fresh e s := by
    refine h.invariant_with (Inv e) (Fresh e) (inv_reaches hmac .refl)
      (fun _ _ _ hi hf hs => inv_step hmac hi hf hs) ?_ ?_
    · intro x hx
      simp [Open, initial] at hx
    · intro u a u' hi hfresh hf hs
      exact fresh_move hi.locks hfresh
        (move_of_effect hi.clients hi.loop (effect_of_step hf hs))
  exact hall.2

theorem grantedUpTo_reaches {e : Env N A P C} {n : ℤ} {k : Priority} {p : N}
    {s s' : State N A P C} (hmac : Function.Injective e.mac) (hi : Inv e s)
    (hg : GrantedUpTo e n k p s) (h : Reaches (step e) NoFail s s') :
    Inv e s' ∧ GrantedUpTo e n k p s' := by
  refine h.invariant_with (Inv e) (GrantedUpTo e n k p) hi
    (fun _ _ _ hi hf hs => inv_step hmac hi hf hs) hg ?_
  intro u a u' hiu hgu hf hs
  exact grantedUpTo_move hiu.locks hgu
    (move_of_effect hiu.clients hiu.loop (effect_of_step hf hs))

/-- Once a call has held a lock, every call of that lock that is open then or later has at
least its place in the order, and a later one if it is made on another node. -/
theorem grants_in_order (e : Env N A P C) (hd : Deployed e) {s s' : State N A P C} {x y : C}
    (h : Reaches (step e) NoFail (initial e) s) (hx : Holds s x)
    (h' : Reaches (step e) NoFail s s') (hy : Open s' y) (hn : e.number y = e.number x) :
    priority e s x ≤ priority e s' y ∧
      (e.node y ≠ e.node x → priority e s x < priority e s' y) := by
  have hi := inv_reaches hd.mac_injective h
  have hg := grantedUpTo_of_holds hd hi (fresh_reaches hd.mac_injective h) hx
  have hg' := (grantedUpTo_reaches hd.mac_injective hi hg h').2
  refine ⟨?_, hg'.elsewhere y hy hn⟩
  by_cases hnode : e.node y = e.node x
  · exact hg'.here y hy hn hnode
  · exact (hg'.elsewhere y hy hn hnode).le

/-- The second host asks after the first one has released the lock, and its request is parked
there. -/
theorem grants_in_order_twoNodes : ∃ s s',
    Reaches (step twoNodes) NoFail (initial twoNodes) s ∧ Holds s false ∧
      Reaches (step twoNodes) NoFail s s' ∧ ¬ Holds s' false ∧ Open s' true ∧
      priority twoNodes s false < priority twoNodes s' true := by
  let as := requestRun false ++ grantRun false
  let bs : List (Action Bool Bool) :=
    [.releaseCall false, .releaseServe false] ++ requestRun true ++ [.serve true 0]
  let s := (exec (step twoNodes) (initial twoNodes) as).get (by decide)
  let s' := (exec (step twoNodes) s bs).get (by decide)
  have h : Reaches (step twoNodes) NoFail (initial twoNodes) s :=
    reaches_of_exec as (Option.some_get _).symm (by decide)
  have h' : Reaches (step twoNodes) NoFail s s' :=
    reaches_of_exec bs (Option.some_get _).symm (by decide)
  have hx : Holds s false := by decide
  have hy : Open s' true := by decide
  exact ⟨s, s', h, hx, h', by decide, hy,
    (grants_in_order twoNodes twoNodes_deployed h hx h' hy rfl).2 (by decide)⟩

/-! ## The lock that the protocol implements -/

/-- A lock as its users see it: the call that holds it, if any, and the place in the order
that was granted last. -/
structure Lock (C K : Type) where
  holder : Option C
  last : Option K
  deriving DecidableEq

inductive LockEvent (C K : Type) where
  | grant (x : C) (k : K)
  | free (x : C)
  deriving DecidableEq

/-- A free lock is granted, to a call that does not come before the last one, and the call that
holds the lock frees it. -/
def Lock.step {K : Type} [LE K] [DecidableLE K] (l : Lock C K) :
    LockEvent C K → Option (Lock C K)
  | .grant x k => if l.holder = none ∧ ∀ k' ∈ l.last, k' ≤ k then some ⟨some x, some k⟩ else none
  | .free x => if l.holder = some x then some { l with holder := none } else none

/-- What the steps show of lock `n`: an acquire call completes, and a release is served. -/
def lockEvents (e : Env N A P C) (n : ℤ) (s : State N A P C) :
    Action P C → List (LockEvent C Priority)
  | .complete x => if e.number x = n then [.grant x (priority e s x)] else []
  | .releaseServe x => if e.number x = n then [.free x] else []
  | _ => []

/-- The lock `n` that a state of the protocol stands for. -/
structure Implements (e : Env N A P C) (n : ℤ) (s : State N A P C) (l : Lock C Priority) :
    Prop where
  holder : ∀ x, l.holder = some x ↔ Holds s x ∧ e.number x = n
  last : ∀ k ∈ l.last, ∃ p, GrantedUpTo e n k p s

/-- The thread of a call comes to its end in the step that completes the call. -/
theorem completed_iff_effect {e : Env N A P C} {s s' : State N A P C} {a : Action P C}
    (h : Effect e s a s') (y : C) :
    s'.handler y = .completed ↔ s.handler y = .completed ∨ a = .complete y := by
  cases h with
  | acquireArrive x ht hh => by_cases hy : y = x <;> simp [hy, hh]
  | acquireEnter x srv hh hs => by_cases hy : y = x <;> simp [hy, hh]
  | send x i b hh hb => by_cases hy : y = x <;> simp [hy, hh]
  | reply x i q pack hh hr => by_cases hy : y = x <;> simp [hy, hh]
  | complete x i hh hi => by_cases hy : y = x <;> simp [hy, eq_comm]
  | _ => simp

theorem released_iff_effect {e : Env N A P C} {s s' : State N A P C} {a : Action P C}
    (h : Effect e s a s') (y : C) :
    s'.thread y = .released ↔ s.thread y = .released ∨ a = .releaseServe y := by
  cases h with
  | acquireCall x hi ht => by_cases hy : y = x <;> simp [hy, ht]
  | acquireReturn x ht hh => by_cases hy : y = x <;> simp [hy, ht]
  | releaseCall x ht => by_cases hy : y = x <;> simp [hy, ht]
  | releaseServe x woken srv ht hs => by_cases hy : y = x <;> simp [hy, eq_comm]
  | _ => simp

/-- A call holds its lock from the step that completes it to the one that releases it. -/
theorem holds_effect {e : Env N A P C} {s s' : State N A P C} {a : Action P C}
    (hc : Clients e s) (h : Effect e s a s') (y : C) :
    Holds s' y ↔ a = .complete y ∨ Holds s y ∧ a ≠ .releaseServe y := by
  have hreleased : a = .complete y → s.thread y ≠ .released := by
    rintro rfl ht
    have hcompleted := hc.returned y (by simp [ht]) (by simp [ht])
    cases h with
    | complete _ i hh hi => simp [hh] at hcompleted
  unfold Holds
  rw [completed_iff_effect h, Ne, released_iff_effect h]
  grind

omit [DecidableEq N] [DecidableEq A] [DecidableEq P] [DecidableEq C] in
theorem implements_initial (e : Env N A P C) (n : ℤ) : Implements e n (initial e) ⟨none, none⟩ := by
  constructor
  · simp [Holds, initial]
  · simp

/-- A step that shows nothing of the lock leaves its holder alone. -/
theorem implements_of_silent {e : Env N A P C} {n : ℤ} {s s' : State N A P C} {a : Action P C}
    {l : Lock C Priority} (hi : Inv e s) (hl : Implements e n s l) (h : Effect e s a s')
    (hcomplete : ∀ x, a = .complete x → e.number x ≠ n)
    (hrelease : ∀ x, a = .releaseServe x → e.number x ≠ n) : Implements e n s' l := by
  have hmove := move_of_effect hi.clients hi.loop h
  constructor
  · intro x
    rw [hl.holder, holds_effect hi.clients h]
    constructor
    · intro ⟨hx, hn⟩
      exact ⟨.inr ⟨hx, fun ha => hrelease x ha hn⟩, hn⟩
    · intro ⟨hx, hn⟩
      rcases hx with ha | hx
      · exact (hcomplete x ha hn).elim
      · exact ⟨hx.1, hn⟩
  · intro k hk
    obtain ⟨p, hg⟩ := hl.last k hk
    exact ⟨p, grantedUpTo_move hi.locks hg hmove⟩

/-- The step that completes a call finds the lock free and not granted beyond that call. -/
theorem implements_complete {e : Env N A P C} {s s' : State N A P C} {l : Lock C Priority} {x : C}
    (hd : Deployed e) (hi : Inv e s) (hi' : Inv e s') (hf' : Fresh e s')
    (hl : Implements e (e.number x) s l) (h : Effect e s (.complete x) s') :
    ∃ l', l.step (.grant x (priority e s x)) = some l' ∧ Implements e (e.number x) s' l' := by
  have hholds := fun y => holds_effect hi.clients h y
  have hx : Holds s' x := (hholds x).mpr (.inl rfl)
  have hnot : s.handler x ≠ .completed := by
    cases h with
    | complete _ i hh _ => simp [hh]
  have hopen : Open s x := by
    cases h with
    | complete _ i hh _ => exact ⟨by simp [hh], by simp [hh], hx.2⟩
  have hmove := move_of_effect hi.clients hi.loop h
  have hfree : l.holder = none := by
    cases hholder : l.holder with
    | none => rfl
    | some y =>
      obtain ⟨hy, hn⟩ := (hl.holder y).mp hholder
      have hy' : Holds s' y := (hholds y).mpr (.inr ⟨hy, by simp⟩)
      obtain rfl := holds_unique hd hi' hx hy' hn
      exact (hnot hy.1).elim
  have hlast : ∀ k ∈ l.last, k ≤ priority e s x := by
    intro k hk
    obtain ⟨p, hg⟩ := hl.last k hk
    by_cases hp : e.node x = p
    · exact hg.here x hopen rfl hp
    · exact (hg.elsewhere x hopen rfl hp).le
  refine ⟨⟨some x, some (priority e s x)⟩, if_pos ⟨hfree, hlast⟩, ?_, ?_⟩
  · intro y
    rw [hholds y]
    constructor
    · intro hy
      obtain rfl : x = y := Option.some.inj hy
      exact ⟨.inl rfl, rfl⟩
    · intro ⟨hy, hn⟩
      exact congrArg some (holds_unique hd hi' hx ((hholds y).mpr hy) hn)
  · intro k hk
    obtain rfl : priority e s x = k := Option.some.inj hk
    rw [← priority_move hi.locks hmove hopen]
    exact ⟨e.node x, grantedUpTo_of_holds hd hi' hf' hx⟩

/-- The step that serves a release is taken for the call that holds the lock. -/
theorem implements_release {e : Env N A P C} {s s' : State N A P C} {l : Lock C Priority} {x : C}
    (hd : Deployed e) (hi : Inv e s) (hl : Implements e (e.number x) s l)
    (h : Effect e s (.releaseServe x) s') :
    ∃ l', l.step (.free x) = some l' ∧ Implements e (e.number x) s' l' := by
  have hx : Holds s x := by
    cases h with
    | releaseServe _ woken srv ht hs =>
      exact ⟨hi.clients.returned x (by simp [ht]) (by simp [ht]), by simp [ht]⟩
  have hmove := move_of_effect hi.clients hi.loop h
  refine ⟨{ l with holder := none }, if_pos ((hl.holder x).mpr ⟨hx, rfl⟩), ?_, ?_⟩
  · intro y
    rw [holds_effect hi.clients h]
    constructor
    · intro hy
      cases hy
    · intro ⟨hy, hn⟩
      rcases hy with hy | ⟨hy, hne⟩
      · cases hy
      · exact (hne (congrArg _ (holds_unique hd hi hx hy hn))).elim
  · intro k hk
    obtain ⟨p, hg⟩ := hl.last k hk
    exact ⟨p, grantedUpTo_move hi.locks hg hmove⟩

/-- The lock can do what one step of the protocol shows of it. -/
theorem implements_step {e : Env N A P C} {n : ℤ} {s s' : State N A P C} {a : Action P C}
    {l : Lock C Priority} (hd : Deployed e) (hi : Inv e s ∧ Fresh e s)
    (hl : Implements e n s l) (hf : NoFail s a) (hs : step e s a = some s') :
    ∃ l', exec Lock.step l (lockEvents e n s a) = some l' ∧ Implements e n s' l' := by
  have heff := effect_of_step hf hs
  have hmove := move_of_effect hi.1.clients hi.1.loop heff
  have hi' := inv_step hd.mac_injective hi.1 hf hs
  by_cases hevent : ∃ x, e.number x = n ∧ (a = .complete x ∨ a = .releaseServe x)
  · obtain ⟨x, rfl, rfl | rfl⟩ := hevent
    · obtain ⟨l', hl', himp⟩ := implements_complete hd hi.1 hi'
        (fresh_move hi.1.locks hi.2 hmove) hl heff
      exact ⟨l', by simp [lockEvents, exec, hl'], himp⟩
    · obtain ⟨l', hl', himp⟩ := implements_release hd hi.1 hl heff
      exact ⟨l', by simp [lockEvents, exec, hl'], himp⟩
  · refine ⟨l, ?_, implements_of_silent hi.1 hl heff ?_ ?_⟩
    · cases a with
      | complete x =>
        have hn : e.number x ≠ n := fun hn => hevent ⟨x, hn, .inl rfl⟩
        simp [lockEvents, exec, hn]
      | releaseServe x =>
        have hn : e.number x ≠ n := fun hn => hevent ⟨x, hn, .inr rfl⟩
        simp [lockEvents, exec, hn]
      | _ => rfl
    · intro x ha hn
      exact hevent ⟨x, hn, .inl ha⟩
    · intro x ha hn
      exact hevent ⟨x, hn, .inr ha⟩

/-- The protocol implements each of its locks: what any run shows of lock `n` is a run of one
lock that is granted to one call at a time and in the order of the calls, and that is held in
the end by the call that holds it in the protocol. -/
theorem protocol_implements_lock (e : Env N A P C) (hd : Deployed e) (n : ℤ)
    (as : List (Action P C)) {s : State N A P C}
    (hf : Along (step e) NoFail (initial e) as) (h : exec (step e) (initial e) as = some s) :
    ∃ l, exec Lock.step ⟨none, none⟩ (observed (step e) (lockEvents e n) (initial e) as) = some l ∧
      ∀ x, l.holder = some x ↔ Holds s x ∧ e.number x = n := by
  obtain ⟨l, hl, himp⟩ := exists_exec_observed (J := fun s => Inv e s ∧ Fresh e s)
    (R := Implements e n)
    (fun s a s' hi hf hs => ⟨inv_step hd.mac_injective hi.1 hf hs,
      fresh_move hi.1.locks hi.2
        (move_of_effect hi.1.clients hi.1.loop (effect_of_step hf hs))⟩)
    (fun s a s' l hi hl hf hs => implements_step hd hi hl hf hs) as
    ⟨inv_reaches hd.mac_injective .refl, fresh_reaches hd.mac_injective .refl⟩
    (implements_initial e n) hf h
  exact ⟨l, hl, himp.holder⟩

/-- Both hosts ask, the first one gets the lock and releases it, and then the second one gets
it. -/
def handOverRun : List (Action Bool Bool) :=
  requestRun false ++ requestRun true ++ grantRun false ++ [.serve true 0] ++
    [.releaseCall false, .releaseServe false, .reply true, .complete true]

theorem protocol_implements_lock_twoNodes : ∃ l,
    exec Lock.step ⟨none, none⟩
        (observed (step twoNodes) (lockEvents twoNodes 1) (initial twoNodes) handOverRun) = some l ∧
      l.holder = some true := by
  obtain ⟨l, hl, hholder⟩ := protocol_implements_lock twoNodes twoNodes_deployed 1 handOverRun
    (by decide) (Option.some_get (by decide) : _ = _).symm
  exact ⟨l, hl, (hholder true).mpr ⟨by decide, rfl⟩⟩

/-! ## How large the numbers get -/

/-- The steps in which a call of lock `n` chooses its number. -/
def chooses (e : Env N A P C) (n : ℤ) : Action P C → Bool
  | .acquireEnter x => decide (e.number x = n)
  | _ => false

/-- All sequence numbers of lock `n`, on the nodes and in the requests, lie between 0
and `k`. -/
structure Numbers (n : ℤ) (k : ℕ) (s : State N A P C) : Prop where
  highest : ∀ p, (s.lockvar p n).highestseqno ∈ Set.Icc 0 (k : ℤ)
  own : ∀ p, (s.lockvar p n).myseqno ∈ Set.Icc 0 (k : ℤ)
  packs : ∀ g q pack, (s.request g).MadeTo q pack → pack.lockNumber = n →
    pack.seqno ∈ Set.Icc 0 (k : ℤ)

omit [DecidableEq N] [DecidableEq A] [DecidableEq P] [DecidableEq C] in
theorem Numbers.mono {n : ℤ} {k k' : ℕ} {s : State N A P C} (h : Numbers n k s) (hk : k ≤ k') :
    Numbers n k' s := by
  have hsub : Set.Icc 0 (k : ℤ) ⊆ Set.Icc 0 (k' : ℤ) :=
    Set.Icc_subset_Icc_right (Int.ofNat_le.mpr hk)
  exact ⟨fun p => hsub (h.highest p), fun p => hsub (h.own p),
    fun g q pack hm hn => hsub (h.packs g q pack hm hn)⟩

omit [DecidableEq N] [DecidableEq A] [DecidableEq P] [DecidableEq C] in
theorem numbers_initial (e : Env N A P C) (n : ℤ) : Numbers n 0 (initial e) := by
  constructor
  · simp [initial, initializeGlobalVariable, State.lockvar, Server.lockvar, LockVar.new]
  · simp [initial, initializeGlobalVariable, State.lockvar, Server.lockvar, LockVar.new]
  · simp [initial, Request.MadeTo]

omit [DecidableEq A] [DecidableEq P] [DecidableEq C] in
/-- A step that leaves the requests alone and changes one entry. -/
theorem Numbers.of_entry {n m : ℤ} {k : ℕ} {s s' : State N A P C} {p : N}
    {v : LockVar ℤ (C × ℕ)} (h : Numbers n k s)
    (hv : ∀ q l, s'.lockvar q l = if q = p ∧ l = m then v else s.lockvar q l)
    (hhighest : m = n → v.highestseqno ∈ Set.Icc 0 (k : ℤ))
    (hown : m = n → v.myseqno ∈ Set.Icc 0 (k : ℤ))
    (hpacks : ∀ g q pack, (s'.request g).MadeTo q pack → (s.request g).MadeTo q pack) :
    Numbers n k s' := by
  refine ⟨?_, ?_, ?_⟩
  · intro q
    rw [hv]
    split_ifs with hq
    · exact hhighest hq.2.symm
    · exact h.highest q
  · intro q
    rw [hv]
    split_ifs with hq
    · exact hown hq.2.symm
    · exact h.own q
  · intro g q pack hm hn
    exact h.packs g q pack (hpacks g q pack hm) hn

omit [DecidableEq A] [DecidableEq P] in
/-- A run of `request_1_svc` up to its decision brings no number that was not in its
request. -/
theorem Numbers.serve {n : ℤ} {k : ℕ} {s : State N A P C} (h : Numbers n k s) {x : C} {i : ℕ}
    {q : N} {pack : RequestPack ℤ} {r : Request N} (hr : s.request (x, i) = .sent q pack)
    (hm : ∀ q' pack', r.MadeTo q' pack' → q' = q ∧ pack' = pack) :
    Numbers n k { s with
      server := Function.update s.server q (request1Svc (x, i) pack (s.server q)).2
      request := Function.update s.request (x, i) r } := by
  refine h.of_entry (lockvar_update_entry rfl (lockvar_request1Svc (x, i) pack (s.server q)))
    ?_ ?_ ?_
  · intro hn
    have hpack := h.packs (x, i) q pack (.inl hr) hn
    have hhigh := hn ▸ h.highest q
    have hmax : MAX pack.seqno ((s.server q).lockvar pack.lockNumber).highestseqno ∈
        Set.Icc 0 (k : ℤ) := by
      rw [MAX_eq_max]
      exact ⟨le_max_of_le_left hpack.1, max_le hpack.2 hhigh.2⟩
    simp only
    split_ifs
    · exact hmax
    · exact hmax
  · intro hn
    have hown := hn ▸ h.own q
    simp only
    split_ifs
    · exact hown
    · exact hown
  · intro g q' pack' hmade
    by_cases hg : g = (x, i)
    · subst hg
      obtain ⟨rfl, rfl⟩ := hm q' pack' (by simpa using hmade)
      exact .inl hr
    · simpa [hg] using hmade

/-- Only a call that chooses its number makes the numbers grow, by one at most. -/
theorem numbers_effect {e : Env N A P C} {n : ℤ} {k : ℕ} {s s' : State N A P C}
    {a : Action P C} (h : Numbers n k s) (heff : Effect e s a s') :
    Numbers n (k + if chooses e n a then 1 else 0) s' := by
  cases heff with
  | initServe p hi =>
    refine Numbers.mono (k := k) ?_ (by simp [chooses])
    have hv : ∀ q l, State.lockvar { s with
        init := Function.update s.init p .served
        server := Function.update s.server (e.host p)
          (initLockMgr1Svc (e.localIpAddresses (e.host p)) (e.names p) (s.server (e.host p))) } q l =
        s.lockvar q l := by
      intro q l
      rw [lockvar_update rfl]
      split_ifs with hq
      · subst hq
        rfl
      · rfl
    exact ⟨fun q => hv q n ▸ h.highest q, fun q => hv q n ▸ h.own q, h.packs⟩
  | acquireArrive x ht hh =>
    refine Numbers.mono (k := k) ?_ (by simp [chooses])
    refine h.of_entry (m := e.number x) (lockvar_update_entry rfl (v := mine e s x) ?_) ?_ ?_ ?_
    · intro l
      rw [lockvar_acquireFind]
      split_ifs with hl
      · rw [hl]
        rfl
      · rfl
    · rintro rfl
      exact h.highest _
    · rintro rfl
      exact h.own _
    · exact fun g q pack hm => hm
  | acquireEnter x srv hh hs =>
    obtain ⟨-, -, -, hv⟩ := acquireEnter_eq_some hs
    refine (h.mono (le_add_of_nonneg_right (by split_ifs <;> simp))).of_entry
      (lockvar_update_entry rfl hv) ?_ ?_ ?_
    · rintro rfl
      have hhigh := h.highest (e.node x)
      exact ⟨hhigh.1, hhigh.2.trans (by simp [chooses])⟩
    · rintro rfl
      have hhigh := h.highest (e.node x)
      simp only [chooses, decide_true, if_true, Nat.cast_add, Nat.cast_one]
      exact ⟨Int.add_nonneg hhigh.1 (by simp), Int.add_le_add_right hhigh.2 1⟩
    · exact fun g q pack hm => hm
  | send x i b hh hb =>
    refine Numbers.mono (k := k) ?_ (by simp [chooses])
    refine ⟨h.highest, h.own, ?_⟩
    intro g q pack hm hn
    by_cases hg : g = (x, i)
    · subst hg
      obtain ⟨-, rfl⟩ : _ ∧ acquirePack (e.number x) (s.server (e.node x)) = pack := by
        simpa [Request.MadeTo] using hm
      have hown := h.own (e.node x)
      rw [← hn] at hown
      exact hown
    · exact h.packs g q pack (by simpa [hg] using hm) hn
  | defer x i q pack hr hd =>
    refine Numbers.mono (k := k) (h.serve hr ?_) (by simp [chooses])
    intro q' pack' hm
    simpa [Request.MadeTo, eq_comm] using hm
  | grant x i q pack hr hd =>
    refine Numbers.mono (k := k) (h.serve hr ?_) (by simp [chooses])
    intro q' pack' hm
    simpa [Request.MadeTo, eq_comm] using hm
  | releaseServe x woken srv ht hs =>
    obtain ⟨-, -, -, hv⟩ := releaseLock1Svc_eq_some hs
    refine Numbers.mono (k := k) ?_ (by simp [chooses])
    refine h.of_entry (lockvar_update_entry rfl hv) ?_ ?_ ?_
    · intro hn
      exact hn ▸ h.highest (e.node x)
    · intro hn
      exact hn ▸ h.own (e.node x)
    · intro g q pack hm
      by_cases hg : g ∈ woken
      · simp only [hg, if_true] at hm
        cases hr : s.request g with
        | parked q' pack' => simpa [hr, Request.wake, Request.MadeTo] using hm
        | _ => simpa [hr, Request.wake] using hm
      · simpa [hg] using hm
  | _ => exact Numbers.mono (k := k) ⟨h.highest, h.own, h.packs⟩ (by simp [chooses])

theorem numbers_step {e : Env N A P C} {n : ℤ} {k : ℕ} {s s' : State N A P C}
    {a : Action P C} (h : Numbers n k s) (hs : step e s a = some s') :
    Numbers n (k + if chooses e n a then 1 else 0) s' := by
  cases step_eq_some_iff.mp hs with
  | effect heff => exact numbers_effect h heff
  | _ => exact Numbers.mono (k := k) ⟨h.highest, h.own, h.packs⟩ (by simp [chooses])

/-- In every run, whatever fails, the sequence numbers of a lock are at most the number of times
that a call of that lock has chosen one: below `2 ^ 31` such calls, no `int` overflows. -/
theorem numbers_le_choices (e : Env N A P C) (n : ℤ) (as : List (Action P C))
    {s : State N A P C} (h : exec (step e) (initial e) as = some s) :
    Numbers n (as.countP (chooses e n)) s := by
  have hnum := exec_countP (I := fun k s => Numbers n k s)
    (fun k u a u' hu hs => numbers_step hu hs) as (numbers_initial e n) h
  simpa using hnum

theorem numbers_le_choices_twoNodes : ∃ s,
    exec (step twoNodes) (initial twoNodes) handOverRun = some s ∧ Numbers 1 2 s := by
  let s := (exec (step twoNodes) (initial twoNodes) handOverRun).get (by decide)
  have h : exec (step twoNodes) (initial twoNodes) handOverRun = some s := (Option.some_get _).symm
  exact ⟨s, h, numbers_le_choices twoNodes 1 handOverRun h⟩

end DistributedSystem.LockProtocol
