import DistributedSystem.LockOrder

/-!
# Mutual exclusion and overtaking

What the invariants of the lock protocol give for runs in which RPCs succeed: at
most one acquire call of a lock has completed and is not released, it comes before
all other open calls, and no call can overtake one whose request its node has seen.
Nothing here depends on `requesting_cs` being taken back, which the code never does.
-/
namespace DistributedSystem.LockProtocol
open LockManager Transition

variable {N A P C : Type}

/-- The assumptions on a deployment: hardware addresses differ, a local address
denotes the node itself, and every process names every other node, in any order,
with repetitions, and possibly its own. -/
structure Deployed (e : Env N A P C) : Prop where
  mac_injective : Function.Injective e.mac
  local_self : ∀ p, ∀ a ∈ e.localIpAddresses p, e.resolve p a = p
  covers : ∀ p q, q ≠ e.host p → ∃ a ∈ e.names p, e.resolve (e.host p) a = q

/-- All other nodes have replied to an acquire call that has completed. -/
theorem granted_of_completed {e : Env N A P C} {s : State N A P C} (hd : Deployed e)
    (hl : Loop e s) {x : C} (hx : s.handler x = .completed) {q : N} (hq : q ≠ e.node x) :
    ∃ j pack, s.request (x, j) = .replied q pack := by
  obtain ⟨a, ha, rfl⟩ := hd.covers (e.process x) q hq
  have hloc : a ∉ e.localIpAddresses (e.node x) := by
    intro hmem
    exact hq (hd.local_self _ a hmem)
  exact hl.granted x hx a ha hloc

theorem priority_of_completed {e : Env N A P C} {s : State N A P C} (hd : Deployed e)
    (hi : Inv e s) {x y : C} (hx : Holds s x) (hy : Open s y) (hn : e.number y = e.number x)
    (hxy : x ≠ y) : priority e s x < priority e s y := by
  have hnode : e.node y ≠ e.node x := by
    intro hnode
    exact hxy (hi.locks.unique x y hx.isOpen hy hnode.symm hn.symm)
  obtain ⟨j, pack, hr⟩ := granted_of_completed hd hi.loop hx.1 hnode
  exact hi.locks.order x y j pack hx.isOpen hy hn hnode hr

/-- Two calls that both hold a lock would each have to come before the other. -/
theorem holds_unique {e : Env N A P C} {s : State N A P C} (hd : Deployed e) (hi : Inv e s)
    {x y : C} (hx : Holds s x) (hy : Holds s y) (hn : e.number y = e.number x) : x = y := by
  by_contra hxy
  have hlt := priority_of_completed hd hi hx hy.isOpen hn hxy
  have hgt := priority_of_completed hd hi hy hx.isOpen hn.symm (Ne.symm hxy)
  exact lt_asymm hlt hgt

instance (s : State N A P C) (x : C) : Decidable (Holds s x) :=
  inferInstanceAs (Decidable (_ ∧ _))

instance (s : State N A P C) (x : C) : Decidable (Open s x) :=
  inferInstanceAs (Decidable (_ ∧ _ ∧ _))

/-- Two hosts with one process and one acquire call of lock 1 each, both of them
naming both hosts. -/
def twoNodes : Env Bool Bool Bool Bool where
  mac p := if p then 2 else 1
  resolve _ a := a
  localIpAddresses p := [p]
  host p := p
  names _ := [false, true]
  process x := x
  number _ := 1

theorem twoNodes_deployed : Deployed twoNodes where
  mac_injective := by
    intro p q
    cases p <;> cases q <;> simp [twoNodes]
  local_self := by simp [twoNodes]
  covers := by simp [twoNodes]

/-- The call `x` of `twoNodes` from `psu_init_lock_mgr` to its REQUEST in flight. -/
def requestRun (x : Bool) : List (Action Bool Bool) :=
  [.initCall x, .initServe x, .initReturn x, .acquireCall x, .acquireArrive x,
    .acquireEnter x, .send x]

/-- The further steps of an acquire call of `twoNodes` whose REQUEST is granted. -/
def grantRun (x : Bool) : List (Action Bool Bool) :=
  [.serve x 0, .reply x, .complete x, .acquireReturn x]

variable [DecidableEq N] [DecidableEq A] [DecidableEq P] [DecidableEq C]

/-- At most one acquire call of a lock has completed and is not yet released, and it
comes, in the order of sequence numbers and addresses, before every other call that
has chosen its number and is not released. -/
theorem mutual_exclusion (e : Env N A P C) (hd : Deployed e) {s : State N A P C}
    (h : Reaches (step e) NoFail (initial e) s) (n : ℤ) :
    (∀ x y, e.number x = n → e.number y = n → Holds s x → Holds s y → x = y) ∧
      ∀ x y, e.number x = n → e.number y = n → Holds s x → Open s y → x ≠ y →
        priority e s x < priority e s y := by
  have hi := inv_reaches hd.mac_injective h
  refine ⟨?_, ?_⟩
  · intro x y hxn hyn hx hy
    exact holds_unique hd hi hx hy (hyn.trans hxn.symm)
  · intro x y hxn hyn hx hy hxy
    exact priority_of_completed hd hi hx hy (hyn.trans hxn.symm) hxy

/-- Both hosts choose their numbers before either sees the other's request. -/
theorem mutual_exclusion_twoNodes : ∃ s,
    Reaches (step twoNodes) NoFail (initial twoNodes) s ∧ Holds s false ∧ Open s true ∧
      priority twoNodes s false < priority twoNodes s true := by
  let as := requestRun false ++ requestRun true ++ grantRun false ++ [.serve true 0]
  let s := (exec (step twoNodes) (initial twoNodes) as).get (by decide)
  have hr : Reaches (step twoNodes) NoFail (initial twoNodes) s :=
    reaches_of_exec as (Option.some_get _).symm (by decide)
  have hx : Holds s false := by decide
  have hy : Open s true := by decide
  have hme := mutual_exclusion twoNodes twoNodes_deployed hr 1
  exact ⟨s, hr, hx, hy, hme.2 false true rfl rfl hx hy (by decide)⟩

/-! ## Overtaking -/

omit [DecidableEq A] [DecidableEq P] in
/-- An open call keeps its priority until it is released. -/
theorem priority_move {e : Env N A P C} {s s' : State N A P C} (hk : Locks e s)
    (h : Move e s s') {x : C} (hx : Open s x) : priority e s' x = priority e s x := by
  apply priority_congr
  cases h with
  | quiet hv hr ho => rw [mine, mine, hv]
  | enter z hu hz hv hr ho =>
    rw [mine, mine, hv, if_neg (not_open_of_free hk hz hx)]
  | send z i q hu hv hr ho => rw [mine, mine, hv]
  | defer z i q pack hz hu hd hv hr ho => exact lockvar_field LockVar.myseqno hv rfl _ _
  | grant z i q pack hz hu hd hv hr ho => exact lockvar_field LockVar.myseqno hv rfl _ _
  | release z hz hv hr ho => exact lockvar_field LockVar.myseqno hv rfl _ _

omit [DecidableEq A] [DecidableEq P] in
/-- A call that opens comes after every open call whose request its node has seen. -/
theorem priority_of_opens {e : Env N A P C} {s s' : State N A P C} (hk : Locks e s)
    (h : Move e s s') {x y : C} {i : ℕ} {pack : RequestPack ℤ} (hx : Open s x)
    (hseen : (s.request (x, i)).SeenBy (e.node y) pack) (hn : e.number y = e.number x)
    (hy : ¬ Open s y) (hy' : Open s' y) : priority e s' x < priority e s' y := by
  rw [priority_move hk h hx]
  cases h with
  | enter z hu hz hv hr ho =>
    obtain rfl : y = z := ((ho y).mp hy').resolve_right hy
    have hle := hk.seen x i (e.node y) pack hx hseen
    rw [← hn] at hle
    refine Prod.Lex.toLex_lt_toLex.mpr (.inl ?_)
    rw [mine, mine, hv, if_pos ⟨rfl, rfl⟩]
    exact Int.lt_add_one_of_le hle
  | quiet hv hr ho => exact (hy ((ho y).mp hy')).elim
  | send z i q hu hv hr ho => exact (hy ((ho y).mp hy')).elim
  | defer z i q pack hz hu hd hv hr ho => exact (hy ((ho y).mp hy')).elim
  | grant z i q pack hz hu hd hv hr ho => exact (hy ((ho y).mp hy')).elim
  | release z hz hv hr ho => exact (hy ((ho y).mp hy').1).elim

/-- The call `y` has not entered, or it comes after the call `x` that is open. -/
structure Behind (e : Env N A P C) (x y : C) (i : ℕ) (s : State N A P C) : Prop where
  isOpen : Open s x
  seen : ∃ pack, (s.request (x, i)).SeenBy (e.node y) pack
  after : s.handler y = .idle ∨ s.handler y = .waiting ∨
    Open s y ∧ priority e s x < priority e s y

omit [DecidableEq N] [DecidableEq A] [DecidableEq P] [DecidableEq C] in
/-- A call behind an open call of another node cannot have completed, for that
node would have had to reply to it. -/
theorem Behind.not_completed {e : Env N A P C} {s : State N A P C} {x y : C} {i : ℕ}
    (hd : Deployed e) (hi : Inv e s) (hb : Behind e x y i s) (hne : e.node x ≠ e.node y)
    (hn : e.number y = e.number x) : s.handler y ≠ .completed := by
  intro hy
  rcases hb.after with h | h | ⟨hopen, hlt⟩
  · simp [hy] at h
  · simp [hy] at h
  · have hxy : y ≠ x := by
      rintro rfl
      exact hne rfl
    have hgt := priority_of_completed hd hi ⟨hy, hopen.2.2⟩ hb.isOpen hn.symm hxy
    exact lt_asymm hlt hgt

theorem behind_step {e : Env N A P C} {s s' : State N A P C} {a : Action P C} {x y : C} {i : ℕ}
    (hd : Deployed e) (hi : Inv e s) (hb : Behind e x y i s) (hne : e.node x ≠ e.node y)
    (hn : e.number y = e.number x) (heff : Effect e s a s') (hx : s'.thread x ≠ .released) :
    Behind e x y i s' := by
  have hmove := move_of_effect hi.clients hi.loop heff
  have hc := clients_effect hi.clients heff
  obtain ⟨pack, hseen⟩ := hb.seen
  refine ⟨open_effect heff hb.isOpen hx, ⟨pack, seenBy_effect hi.loop heff hseen⟩, ?_⟩
  have hopens : ¬ Open s y → Open s' y → priority e s' x < priority e s' y :=
    priority_of_opens hi.locks hmove hb.isOpen hseen hn
  have hnot := hb.not_completed hd hi hne hn
  have hthread : s.handler y ≠ .completed → s'.thread y ≠ .released := by
    intro hy ht
    rcases thread_effect heff y with hsame | ⟨hh, -⟩
    · exact hy (hi.clients.returned y (by simp [← hsame, ht]) (by simp [← hsame, ht]))
    · exact hy (hh ▸ hc.returned y (by simp [ht]) (by simp [ht]))
  by_cases hy : Open s y
  · have hlt : priority e s x < priority e s y := by
      rcases hb.after with h | h | h
      · exact (hy.1 h).elim
      · exact (hy.2.1 h).elim
      · exact h.2
    refine .inr (.inr ⟨open_effect heff hy (hthread hnot), ?_⟩)
    rw [priority_move hi.locks hmove hb.isOpen, priority_move hi.locks hmove hy]
    exact hlt
  · by_cases hidle : s'.handler y = .idle
    · exact .inl hidle
    by_cases hwaiting : s'.handler y = .waiting
    · exact .inr (.inl hwaiting)
    have hy' : Open s' y := ⟨hidle, hwaiting, hthread hnot⟩
    exact .inr (.inr ⟨hy', hopens hy hy'⟩)

/-- The step of a handler that gets to its decision. -/
theorem seenBy_of_serve {e : Env N A P C} {s s' : State N A P C} {x : C} {i : ℕ} {q : N}
    {pack : RequestPack ℤ} (hr : s.request (x, i) = .sent q pack)
    (h : Effect e s (.serve x i) s') :
    (s'.request (x, i)).SeenBy q pack ∧ s'.thread = s.thread := by
  cases h with
  | defer _ _ q' pack' hr' hd =>
    obtain ⟨rfl, rfl⟩ : q = q' ∧ pack = pack' := by simpa [hr] using hr'
    exact ⟨.inl (by simp), rfl⟩
  | grant _ _ q' pack' hr' hd =>
    obtain ⟨rfl, rfl⟩ : q = q' ∧ pack = pack' := by simpa [hr] using hr'
    exact ⟨.inr (by simp), rfl⟩

/-- From the step in which a node decides on a request of another node's call `x`
until `x` is released, no call `y` of the same lock completes there that chooses its
number after that step. -/
theorem no_overtaking (e : Env N A P C) (hd : Deployed e) {s s₁ s₂ : State N A P C} {x y : C}
    {i : ℕ} {pack : RequestPack ℤ} (h : Reaches (step e) NoFail (initial e) s)
    (hr : s.request (x, i) = .sent (e.node y) pack) (hs : step e s (.serve x i) = some s₁)
    (hne : e.node x ≠ e.node y) (hn : e.number y = e.number x)
    (hy : s₁.handler y = .idle ∨ s₁.handler y = .waiting)
    (h' : Reaches (step e) NoFail s₁ s₂) (hx : s₂.thread x ≠ .released) :
    s₂.handler y ≠ .completed := by
  have hi := inv_reaches hd.mac_injective h
  have hf : NoFail s (Action.serve (P := P) x i) := rfl
  have hi₁ := inv_step hd.mac_injective hi hf hs
  have heff := effect_of_step hf hs
  obtain ⟨hseen, hthread⟩ := seenBy_of_serve hr heff
  have hopen : Open s x := open_of_madeTo hi.clients hi.loop (.inl hr) (by simp [hr])
  have hb : Behind e x y i s₁ := by
    refine ⟨open_effect heff hopen (hthread ▸ hopen.2.2), ⟨pack, hseen⟩, ?_⟩
    rcases hy with hy | hy
    · exact .inl hy
    · exact .inr (.inl hy)
  -- `y` stays behind `x` until the step that releases `x`
  have hall : Inv e s₂ ∧ (s₂.thread x = .released ∨ Behind e x y i s₂) := by
    refine h'.invariant_with (Inv e) (fun u => u.thread x = .released ∨ Behind e x y i u) hi₁
      (fun u a u' hiu hfu hsu => inv_step hd.mac_injective hiu hfu hsu) (.inr hb) ?_
    intro u a u' hiu hu hfu hsu
    have heffu := effect_of_step hfu hsu
    by_cases hrel : u'.thread x = .released
    · exact .inl hrel
    rcases hu with hu | hu
    · rcases thread_effect heffu x with ht | ⟨-, ht⟩
      · exact .inl (ht.trans hu)
      · simp [hu] at ht
    · exact .inr (behind_step hd hiu hu hne hn heffu hrel)
  rcases hall.2 with hrel | hb₂
  · exact (hx hrel).elim
  · exact hb₂.not_completed hd hall.1 hne hn

/-- The request of the first host is seen by the second before that host enters,
and is granted; the second host then chooses its number and asks in turn. -/
theorem no_overtaking_twoNodes : ∃ s,
    Reaches (step twoNodes) NoFail (initial twoNodes) s ∧ Open s false ∧ Open s true ∧
      s.handler true ≠ .completed := by
  let as := requestRun false
  let bs := requestRun true ++ [.serve true 0]
  let s := (exec (step twoNodes) (initial twoNodes) as).get (by decide)
  let s₁ := (step twoNodes s (.serve false 0)).get (by decide)
  let s₂ := (exec (step twoNodes) s₁ bs).get (by decide)
  have h : Reaches (step twoNodes) NoFail (initial twoNodes) s :=
    reaches_of_exec as (Option.some_get _).symm (by decide)
  have hs : step twoNodes s (.serve false 0) = some s₁ := (Option.some_get _).symm
  have h' : Reaches (step twoNodes) NoFail s₁ s₂ :=
    reaches_of_exec bs (Option.some_get _).symm (by decide)
  have hr : s.request (false, 0) = .sent (twoNodes.node true) ⟨1, 1, 1⟩ := by decide
  have hf : NoFail s (.serve false 0) := rfl
  have hover : s₂.handler true ≠ .completed :=
    no_overtaking twoNodes twoNodes_deployed h hr hs (by decide) rfl (by decide) h' (by decide)
  exact ⟨s₂, (h.tail hf hs).trans h', by decide, by decide, hover⟩

end DistributedSystem.LockProtocol
