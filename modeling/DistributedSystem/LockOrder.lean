import DistributedSystem.LockInvariant

/-!
# The lock variables of all nodes

The invariant `Locks` of the lock protocol, for runs in which RPCs succeed. Only
a few steps touch what it speaks about; `Move` is the list of these, and one lemma
for each of them shows that it keeps the invariant.
-/
namespace DistributedSystem.LockProtocol
open LockManager Transition

variable {N A P C : Type}

/-- The lock variables of all nodes and the requests under way, with the two
facts that make the protocol safe: a node that has got to its decision on a
request has a `highestseqno` at least as large as its number (`seen`), and an open
call on a node that has replied to a request comes after it (`order`). -/
structure Locks (e : Env N A P C) (s : State N A P C) : Prop where
  pack : ∀ x j q pack, Open s x → (s.request (x, j)).MadeTo q pack →
    pack = ⟨e.number x, (mine e s x).myseqno, e.mac (e.node x)⟩
  deffered : ∀ p n h, h ∈ (s.lockvar p n).deffered ↔
    e.number h.1 = n ∧ ∃ pack, s.request h = .parked p pack
  locked : ∀ p n, (s.lockvar p n).lock = true ↔
    ∃ x, Open s x ∧ e.node x = p ∧ e.number x = n
  unique : ∀ x y, Open s x → Open s y → e.node x = e.node y → e.number x = e.number y → x = y
  requesting : ∀ x, Open s x → (mine e s x).requestingCs = true
  highest_nonneg : ∀ p n, 0 ≤ (s.lockvar p n).highestseqno
  seqno_pos : ∀ x, Open s x → 0 < (mine e s x).myseqno
  seen : ∀ x j q pack, Open s x → (s.request (x, j)).SeenBy q pack →
    (mine e s x).myseqno ≤ (s.lockvar q (e.number x)).highestseqno
  order : ∀ x y j pack, Open s x → Open s y → e.number y = e.number x → e.node y ≠ e.node x →
    s.request (x, j) = .replied (e.node y) pack → priority e s x < priority e s y

/-- Before its handler has replied, a REQUEST keeps its acquire call open. -/
theorem open_of_madeTo {e : Env N A P C} {s : State N A P C} (hc : Clients e s)
    (hl : Loop e s) {x : C} {j : ℕ} {q : N} {pack : RequestPack ℤ}
    (hm : (s.request (x, j)).MadeTo q pack) (hr : s.request (x, j) ≠ .replied q pack) :
    Open s x := by
  have hu : s.request (x, j) ≠ .unsent := by
    intro hu
    simp [Request.MadeTo, hu] at hm
  refine ⟨fun hh => hu (hl.before x (.inl hh) j), fun hh => hu (hl.before x (.inr hh) j), ?_⟩
  intro ht
  have hh := hc.returned x (by simp [ht]) (by simp [ht])
  rcases hl.answered x hh j with h | ⟨q', pack', h⟩
  · exact hu h
  · simp [Request.MadeTo, h] at hm
    exact hr (by rw [h, hm.1, hm.2])

/-- A call keeps its place in the order as long as its number stays. -/
theorem priority_congr {e : Env N A P C} {s s' : State N A P C} {x : C}
    (h : (mine e s' x).myseqno = (mine e s x).myseqno) : priority e s' x = priority e s x := by
  rw [priority, priority, LockVar.priority, LockVar.priority, h]

/-- On a node whose mutex of a lock is free, no call of that lock is open. -/
theorem not_open_of_free {e : Env N A P C} {s : State N A P C} (hk : Locks e s) {x y : C}
    (hx : (mine e s x).lock = false) (hy : Open s y) :
    ¬ (e.node y = e.node x ∧ e.number y = e.number x) := by
  intro hyx
  have hlock : (mine e s x).lock = true :=
    (hk.locked (e.node x) (e.number x)).mpr ⟨y, hy, hyx⟩
  simp [hx] at hlock

theorem locks_initial (e : Env N A P C) : Locks e (initial e) := by
  constructor <;> simp [initial, initializeGlobalVariable, Open, State.lockvar, Server.lockvar,
    LockVar.new]

theorem locks_quiet {e : Env N A P C} {s s' : State N A P C} (hk : Locks e s)
    (hv : ∀ p n, s'.lockvar p n = s.lockvar p n) (hr : s'.request = s.request)
    (ho : ∀ x, Open s' x ↔ Open s x) : Locks e s' := by
  have hm : ∀ x, mine e s' x = mine e s x := fun x => hv _ _
  constructor <;> simp only [hv, hr, ho, hm, priority]
  · exact hk.pack
  · exact hk.deffered
  · exact hk.locked
  · exact hk.unique
  · exact hk.requesting
  · exact hk.highest_nonneg
  · exact hk.seqno_pos
  · exact hk.seen
  · exact hk.order

/-- A reply goes to a call that comes before those that are open on the node:
the test of lines 172 to 174 has failed, and no two nodes have the same address. -/
theorem order_of_not_defers {e : Env N A P C} {s : State N A P C}
    (hmac : Function.Injective e.mac) (hk : Locks e s) {x y : C} {i : ℕ} {q : N}
    {pack : RequestPack ℤ} (hx : Open s x) (hu : s.request (x, i) = .sent q pack)
    (hd : (s.lockvar q pack.lockNumber).defers (e.mac q) pack = false) (hy : Open s y)
    (hnum : e.number y = e.number x) (hq : e.node y = q) (hne : e.node y ≠ e.node x) :
    priority e s x < priority e s y := by
  have hpack := hk.pack x i q pack hx (.inl hu)
  have hnumber : pack.lockNumber = e.number x := by rw [hpack]
  have hmine : s.lockvar q pack.lockNumber = mine e s y := by
    rw [hnumber, mine, hq, hnum]
  have hprio : pack.priority = priority e s x := by rw [hpack]; rfl
  have hnot : ¬ priority e s y < priority e s x := by
    intro hlt
    have := (LockVar.defers_iff (e.mac q) pack (mine e s y)).mpr
      ⟨hk.requesting y hy, by rw [hprio, ← hq]; exact hlt⟩
    rw [hmine] at hd
    simp [hd] at this
  refine lt_of_le_of_ne (not_lt.mp hnot) fun heq => hne ?_
  have := congrArg (fun k => (ofLex k).2) heq
  exact hmac this.symm

section Calls
variable [DecidableEq C]

/-- A call whose thread of `acquire_lock_1_svc` goes on inside its loop stays open. -/
theorem open_update_handler {s s' : State N A P C} {x : C} {k : Handler}
    (hh : s'.handler = Function.update s.handler x k) (ht : s'.thread = s.thread)
    (hx : s.handler x = .idle ∧ k = .waiting ∨ s.handler x ≠ .idle ∧ s.handler x ≠ .waiting ∧
      k ≠ .idle ∧ k ≠ .waiting) (y : C) : Open s' y ↔ Open s y := by
  by_cases hy : y = x
  · subst hy
    rcases hx with ⟨hidle, rfl⟩ | ⟨h₁, h₂, h₃, h₄⟩
    · simp [Open, hh, hidle]
    · simp [Open, hh, ht, h₁, h₂, h₃, h₄]
  · simp [Open, hh, ht, hy]

theorem open_update_thread {s s' : State N A P C} {x : C} {t : Thread}
    (hh : s'.handler = s.handler) (ht : s'.thread = Function.update s.thread x t)
    (hx : s.thread x ≠ .released) (hx' : t ≠ .released) (y : C) : Open s' y ↔ Open s y := by
  by_cases hy : y = x
  · subst hy
    simp [Open, hh, ht, hx, hx']
  · simp [Open, hh, ht, hy]

theorem locks_send {e : Env N A P C} {s s' : State N A P C} (hk : Locks e s) {x : C} {i : ℕ}
    {q : N} (hu : s.request (x, i) = .unsent) (hv : ∀ p n, s'.lockvar p n = s.lockvar p n)
    (hr : s'.request = Function.update s.request (x, i)
      (.sent q ⟨e.number x, (mine e s x).myseqno, e.mac (e.node x)⟩))
    (ho : ∀ y, Open s' y ↔ Open s y) : Locks e s' := by
  have hm : ∀ y, mine e s' y = mine e s y := fun y => hv _ _
  have hsame : ∀ h r, r ≠ .unsent → (∀ p pack, r ≠ .sent p pack) →
      (s'.request h = r ↔ s.request h = r) := by
    intro h r hunsent hsent
    by_cases hh : h = (x, i)
    · subst hh
      simp [hr, hu, hunsent.symm, (hsent _ _).symm]
    · simp [hr, hh]
  have hparked : ∀ h p pack, s'.request h = .parked p pack ↔ s.request h = .parked p pack :=
    fun h p pack => hsame h _ (by simp) (by simp)
  have hreplied : ∀ h p pack, s'.request h = .replied p pack ↔ s.request h = .replied p pack :=
    fun h p pack => hsame h _ (by simp) (by simp)
  have hpack : ∀ y j p pack, Open s y → (s'.request (y, j)).MadeTo p pack →
      pack = ⟨e.number y, (mine e s y).myseqno, e.mac (e.node y)⟩ := by
    intro y j p pack hy hmade
    by_cases hh : (y, j) = (x, i)
    · obtain ⟨rfl, rfl⟩ := Prod.mk.inj hh
      simp only [hr, Request.MadeTo, Function.update_self, Request.sent.injEq, reduceCtorEq,
        or_false] at hmade
      exact hmade.2.symm
    · rw [hr, Function.update_of_ne hh] at hmade
      exact hk.pack y j p pack hy hmade
  constructor <;> simp only [hv, ho, hm, priority, Request.SeenBy, hparked, hreplied]
  · exact hpack
  · exact hk.deffered
  · exact hk.locked
  · exact hk.unique
  · exact hk.requesting
  · exact hk.highest_nonneg
  · exact hk.seqno_pos
  · exact hk.seen
  · exact hk.order

end Calls

variable [DecidableEq N]

theorem lockvar_update {s s' : State N A P C} {p : N} {srv : Server ℤ (C × ℕ) A}
    (hs : s'.server = Function.update s.server p srv) (q : N) (n : ℤ) :
    s'.lockvar q n = if q = p then srv.lockvar n else s.lockvar q n := by
  by_cases hq : q = p
  · subst hq
    simp [State.lockvar, hs]
  · simp [State.lockvar, hs, hq]

/-- A server whose entry of lock `n` alone has changed. -/
theorem lockvar_update_entry {s s' : State N A P C} {p : N} {srv : Server ℤ (C × ℕ) A} {n : ℤ}
    {v : LockVar ℤ (C × ℕ)} (hs : s'.server = Function.update s.server p srv)
    (hv : ∀ m, srv.lockvar m = if m = n then v else (s.server p).lockvar m) (q : N) (m : ℤ) :
    s'.lockvar q m = if q = p ∧ m = n then v else s.lockvar q m := by
  rw [lockvar_update hs, hv]
  by_cases hq : q = p
  · subst hq
    simp [State.lockvar]
  · simp [hq]

/-- What a step leaves alone in the one entry that it changes is the same in all entries. -/
theorem lockvar_field {β : Type} {s s' : State N A P C} {q : N} {n : ℤ}
    {v : LockVar ℤ (C × ℕ)} (f : LockVar ℤ (C × ℕ) → β)
    (hv : ∀ p m, s'.lockvar p m = if p = q ∧ m = n then v else s.lockvar p m)
    (hf : f v = f (s.lockvar q n)) (p : N) (m : ℤ) :
    f (s'.lockvar p m) = f (s.lockvar p m) := by
  rw [hv]
  split_ifs with hp
  · rw [hp.1, hp.2, hf]
  · rfl

/-- Entering with a free mutex: nobody has the lock open on this node, and the new
number is larger than that of every request the node has decided on. -/
theorem locks_enter {e : Env N A P C} {s s' : State N A P C} (hk : Locks e s) {x : C}
    (hu : ∀ j, s.request (x, j) = .unsent) (hx : (mine e s x).lock = false)
    (hv : ∀ p n, s'.lockvar p n = if p = e.node x ∧ n = e.number x then
      (mine e s x).lockMutex.setRequesting.chooseSeqno else s.lockvar p n)
    (hr : s'.request = s.request) (ho : ∀ y, Open s' y ↔ y = x ∨ Open s y) : Locks e s' := by
  have hfree : ∀ y, Open s y → ¬ (e.node y = e.node x ∧ e.number y = e.number x) :=
    fun y hy => not_open_of_free hk hx hy
  have hself : mine e s' x = (mine e s x).lockMutex.setRequesting.chooseSeqno := by
    rw [mine, hv, if_pos ⟨rfl, rfl⟩]
  have hother : ∀ y, Open s y → mine e s' y = mine e s y := by
    intro y hy
    rw [mine, hv, if_neg (hfree y hy)]
    rfl
  have hhigh : ∀ p n, (s'.lockvar p n).highestseqno = (s.lockvar p n).highestseqno :=
    lockvar_field LockVar.highestseqno hv rfl
  have hdef : ∀ p n, (s'.lockvar p n).deffered = (s.lockvar p n).deffered :=
    lockvar_field LockVar.deffered hv rfl
  refine ⟨?_, ?_, ?_, ?_, ?_, ?_, ?_, ?_, ?_⟩
  · intro y j q pack hy hm
    rw [hr] at hm
    rcases (ho y).mp hy with rfl | hy
    · simp [Request.MadeTo, hu j] at hm
    · rw [hother y hy]
      exact hk.pack y j q pack hy hm
  · intro p n h
    rw [hr, hdef]
    exact hk.deffered p n h
  · intro p n
    rw [hv]
    split_ifs with hp
    · simp only [LockVar.chooseSeqno, LockVar.setRequesting, LockVar.lockMutex, true_iff]
      exact ⟨x, (ho x).mpr (.inl rfl), hp.1.symm, hp.2.symm⟩
    · rw [hk.locked]
      constructor
      · rintro ⟨y, hy, hyp⟩
        exact ⟨y, (ho y).mpr (.inr hy), hyp⟩
      · rintro ⟨y, hy, hyp, hyn⟩
        rcases (ho y).mp hy with rfl | hy
        · exact (hp ⟨hyp.symm, hyn.symm⟩).elim
        · exact ⟨y, hy, hyp, hyn⟩
  · intro y z hy hz hn hl
    rcases (ho y).mp hy with rfl | hy <;> rcases (ho z).mp hz with rfl | hz
    · rfl
    · exact (hfree z hz ⟨hn.symm, hl.symm⟩).elim
    · exact (hfree y hy ⟨hn, hl⟩).elim
    · exact hk.unique y z hy hz hn hl
  · intro y hy
    rcases (ho y).mp hy with rfl | hy
    · rw [hself]
      rfl
    · rw [hother y hy]
      exact hk.requesting y hy
  · intro p n
    rw [hhigh]
    exact hk.highest_nonneg p n
  · intro y hy
    rcases (ho y).mp hy with rfl | hy
    · have := hk.highest_nonneg (e.node y) (e.number y)
      rw [hself]
      simp only [LockVar.chooseSeqno, LockVar.setRequesting, LockVar.lockMutex, mine]
      omega
    · rw [hother y hy]
      exact hk.seqno_pos y hy
  · intro y j q pack hy hm
    rw [hr] at hm
    rw [hhigh]
    rcases (ho y).mp hy with rfl | hy
    · simp [Request.SeenBy, hu j] at hm
    · rw [hother y hy]
      exact hk.seen y j q pack hy hm
  · intro y z j pack hy hz hn hl hm
    rw [hr] at hm
    rcases (ho y).mp hy with rfl | hy
    · simp [hu j] at hm
    rcases (ho z).mp hz with rfl | hz
    · -- the node has replied to `y` before, so its new number is larger
      have hseen := hk.seen y j (e.node z) pack hy (.inr hm)
      rw [← hn] at hseen
      rw [priority, priority, hother y hy, hself]
      refine Prod.Lex.toLex_lt_toLex.mpr (.inl ?_)
      simp only [LockVar.chooseSeqno, LockVar.setRequesting, LockVar.lockMutex]
      exact Int.lt_add_one_of_le hseen
    · rw [priority, priority, hother y hy, hother z hz]
      exact hk.order y z j pack hy hz hn hl hm

variable [DecidableEq C]

/-- A run of `request_1_svc` raises `highestseqno` and may park its handler. It
keeps the invariant if a reply goes only to a call that comes before those that
are open on the node. -/
theorem locks_serve {e : Env N A P C} {s s' : State N A P C} (hk : Locks e s) {x : C} {i : ℕ}
    {q : N} {pack : RequestPack ℤ} {v : LockVar ℤ (C × ℕ)} {r : Request N} (hx : Open s x)
    (hu : s.request (x, i) = .sent q pack)
    (hlock : v.lock = (s.lockvar q pack.lockNumber).lock)
    (hmy : v.myseqno = (s.lockvar q pack.lockNumber).myseqno)
    (hreq : v.requestingCs = (s.lockvar q pack.lockNumber).requestingCs)
    (hhigh : v.highestseqno = max pack.seqno (s.lockvar q pack.lockNumber).highestseqno)
    (hdef : ∀ h, h ∈ v.deffered ↔
      h ∈ (s.lockvar q pack.lockNumber).deffered ∨ h = (x, i) ∧ r = .parked q pack)
    (hseen : r.SeenBy q pack)
    (hord : r = .replied q pack → ∀ y, Open s y → e.number y = e.number x → e.node y = q →
      e.node y ≠ e.node x → priority e s x < priority e s y)
    (hv : ∀ p n, s'.lockvar p n = if p = q ∧ n = pack.lockNumber then v else s.lockvar p n)
    (hr : s'.request = Function.update s.request (x, i) r)
    (ho : ∀ y, Open s' y ↔ Open s y) : Locks e s' := by
  have hpack := hk.pack x i q pack hx (.inl hu)
  have hn : pack.lockNumber = e.number x := by rw [hpack]
  have hlock' : ∀ p n, (s'.lockvar p n).lock = (s.lockvar p n).lock :=
    lockvar_field LockVar.lock hv hlock
  have hmy' : ∀ y, (mine e s' y).myseqno = (mine e s y).myseqno :=
    fun y => lockvar_field LockVar.myseqno hv hmy (e.node y) (e.number y)
  have hreq' : ∀ y, (mine e s' y).requestingCs = (mine e s y).requestingCs :=
    fun y => lockvar_field LockVar.requestingCs hv hreq (e.node y) (e.number y)
  have hhigh' : ∀ p n, (s.lockvar p n).highestseqno ≤ (s'.lockvar p n).highestseqno := by
    intro p n
    rw [hv]
    split_ifs with hp
    · rw [hp.1, hp.2, hhigh]
      exact le_max_right _ _
    · exact le_rfl
  have hprio : ∀ y, priority e s' y = priority e s y := fun y => priority_congr (hmy' y)
  have hold : ∀ h, h ≠ (x, i) → s'.request h = s.request h := by
    intro h hh
    rw [hr, Function.update_of_ne hh]
  have hnew : s'.request (x, i) = r := by rw [hr, Function.update_self]
  constructor <;> try simp only [ho, hlock', hmy', hreq', hprio]
  · intro y j p pk hy hm
    by_cases hh : (y, j) = (x, i)
    · obtain ⟨rfl, rfl⟩ := Prod.mk.inj hh
      rw [hnew] at hm
      obtain rfl : pk = pack := by
        rcases hseen with rfl | rfl <;> simp [Request.MadeTo] at hm <;> exact hm.2.symm
      exact hpack
    · exact hk.pack y j p pk hy (hold _ hh ▸ hm)
  · intro p n h
    have hiff : (∃ pk, s'.request h = .parked p pk) ↔ (∃ pk, s.request h = .parked p pk) ∨
        h = (x, i) ∧ p = q ∧ r = .parked q pack := by
      by_cases hh : h = (x, i)
      · subst hh
        rw [hnew]
        rcases hseen with rfl | rfl <;> simp [hu, eq_comm]
      · simp [hold h hh, hh]
    rw [hiff, hv]
    split_ifs with hp
    · obtain ⟨rfl, rfl⟩ := hp
      rw [hdef, hk.deffered]
      constructor
      · rintro (⟨hn', hpk⟩ | ⟨rfl, hpk⟩)
        · exact ⟨hn', .inl hpk⟩
        · exact ⟨hn.symm, .inr ⟨rfl, rfl, hpk⟩⟩
      · rintro ⟨hn', hpk | ⟨rfl, -, hpk⟩⟩
        · exact .inl ⟨hn', hpk⟩
        · exact .inr ⟨rfl, hpk⟩
    · rw [hk.deffered]
      constructor
      · rintro ⟨hn', hpk⟩
        exact ⟨hn', .inl hpk⟩
      · rintro ⟨hn', hpk | ⟨rfl, hpq, -⟩⟩
        · exact ⟨hn', hpk⟩
        · exact (hp ⟨hpq, hn'.symm.trans hn.symm⟩).elim
  · exact hk.locked
  · exact hk.unique
  · exact hk.requesting
  · intro p n
    exact (hk.highest_nonneg p n).trans (hhigh' p n)
  · exact hk.seqno_pos
  · intro y j p pk hy hm
    by_cases hh : (y, j) = (x, i)
    · obtain ⟨rfl, rfl⟩ := Prod.mk.inj hh
      rw [hnew] at hm
      obtain rfl : p = q := by
        rcases hseen with rfl | rfl <;> simp [Request.SeenBy] at hm <;> exact hm.1.symm
      rw [hv, if_pos ⟨rfl, hn.symm⟩, hhigh, hpack]
      exact le_max_left _ _
    · exact (hk.seen y j p pk hy (hold _ hh ▸ hm)).trans (hhigh' _ _)
  · intro y z j pk hy hz hnum hne hm
    by_cases hh : (y, j) = (x, i)
    · obtain ⟨rfl, rfl⟩ := Prod.mk.inj hh
      rw [hnew] at hm
      obtain ⟨hq, rfl⟩ : e.node z = q ∧ pk = pack := by
        rcases hseen with rfl | rfl <;> simp at hm
        exact ⟨hm.1.symm, hm.2.symm⟩
      exact hord (hq ▸ hm) z hz hnum hq hne
    · exact hk.order y z j pk hy hz hnum hne (hold _ hh ▸ hm)

/-- A release answers all requests that its node has parked for the lock, and
leaves no call open there that would have to come after them. -/
theorem locks_release {e : Env N A P C} {s s' : State N A P C} (hk : Locks e s) {x : C}
    (hx : Open s x)
    (hv : ∀ p n, s'.lockvar p n = if p = e.node x ∧ n = e.number x then
      (mine e s x).renewDeffered.unlockMutex else s.lockvar p n)
    (hr : ∀ h, s'.request h =
      if h ∈ (mine e s x).deffered then (s.request h).wake else s.request h)
    (ho : ∀ y, Open s' y ↔ Open s y ∧ y ≠ x) : Locks e s' := by
  have hwoken : ∀ h, h ∈ (mine e s x).deffered ↔
      e.number h.1 = e.number x ∧ ∃ pack, s.request h = .parked (e.node x) pack :=
    fun h => hk.deffered (e.node x) (e.number x) h
  have hmy : ∀ y, (mine e s' y).myseqno = (mine e s y).myseqno :=
    fun y => lockvar_field LockVar.myseqno hv rfl (e.node y) (e.number y)
  have hreq : ∀ y, (mine e s' y).requestingCs = (mine e s y).requestingCs :=
    fun y => lockvar_field LockVar.requestingCs hv rfl (e.node y) (e.number y)
  have hhigh : ∀ p n, (s'.lockvar p n).highestseqno = (s.lockvar p n).highestseqno :=
    lockvar_field LockVar.highestseqno hv rfl
  have hprio : ∀ y, priority e s' y = priority e s y := fun y => priority_congr (hmy y)
  have hseen : ∀ h p pack, (s'.request h).SeenBy p pack ↔ (s.request h).SeenBy p pack := by
    intro h p pack
    rw [hr]
    split_ifs with hh
    · cases hreq : s.request h <;> simp [Request.wake, Request.SeenBy]
    · rfl
  have hmade : ∀ h p pack, (s'.request h).MadeTo p pack ↔ (s.request h).MadeTo p pack := by
    intro h p pack
    rw [hr]
    split_ifs with hh
    · cases hreq : s.request h <;> simp [Request.wake, Request.MadeTo]
    · rfl
  have hparked : ∀ h p pack, s'.request h = .parked p pack ↔
      h ∉ (mine e s x).deffered ∧ s.request h = .parked p pack := by
    intro h p pack
    rw [hr]
    split_ifs with hh
    · cases hreq : s.request h <;> simp [Request.wake, hh]
    · simp [hh]
  constructor <;> try simp only [ho, hmy, hreq, hhigh, hprio, hseen, hmade, hparked]
  · exact fun y j q pack hy => hk.pack y j q pack hy.1
  · intro p n h
    rw [hv]
    split_ifs with hp
    · obtain ⟨rfl, rfl⟩ := hp
      simp only [LockVar.unlockMutex, LockVar.renewDeffered, List.not_mem_nil, false_iff]
      rintro ⟨hn, pack, hnot, hpk⟩
      exact hnot ((hwoken h).mpr ⟨hn, pack, hpk⟩)
    · rw [hk.deffered]
      constructor
      · rintro ⟨hn, pack, hpk⟩
        refine ⟨hn, pack, fun hmem => hp ?_, hpk⟩
        obtain ⟨hn', pack', hpk'⟩ := (hwoken h).mp hmem
        obtain ⟨rfl, -⟩ : p = e.node x ∧ pack = pack' := by simpa [hpk] using hpk'
        exact ⟨rfl, hn.symm.trans hn'⟩
      · rintro ⟨hn, pack, -, hpk⟩
        exact ⟨hn, pack, hpk⟩
  · intro p n
    rw [hv]
    split_ifs with hp
    · obtain ⟨rfl, rfl⟩ := hp
      simp only [LockVar.unlockMutex, Bool.false_eq_true, false_iff]
      rintro ⟨y, ⟨hy, hne⟩, hnode, hnum⟩
      exact hne (hk.unique y x hy hx hnode hnum)
    · rw [hk.locked]
      constructor
      · rintro ⟨y, hy, hnode, hnum⟩
        exact ⟨y, ⟨hy, fun h => hp (by rw [← hnode, ← hnum, h]; exact ⟨rfl, rfl⟩)⟩, hnode, hnum⟩
      · rintro ⟨y, ⟨hy, -⟩, hnode, hnum⟩
        exact ⟨y, hy, hnode, hnum⟩
  · exact fun y z hy hz => hk.unique y z hy.1 hz.1
  · exact fun y hy => hk.requesting y hy.1
  · exact hk.highest_nonneg
  · exact fun y hy => hk.seqno_pos y hy.1
  · exact fun y j q pack hy => hk.seen y j q pack hy.1
  · intro y z j pack hy hz hnum hne hrep
    rw [hr] at hrep
    split_ifs at hrep with hh
    · -- `y` has just been answered, by the node that has no open call any more
      obtain ⟨hn, pack', hpk⟩ := (hwoken (y, j)).mp hh
      have hnode : e.node x = e.node z := by
        simp only [hpk, Request.wake, Request.replied.injEq] at hrep
        exact hrep.1
      exact (hz.2 (hk.unique z x hz.1 hx hnode.symm (hnum.trans hn))).elim
    · exact hk.order y z j pack hy.1 hz.1 hnum hne hrep

/-- The steps, as far as they concern lock variables, requests and open calls. -/
inductive Move (e : Env N A P C) (s s' : State N A P C) : Prop
  | quiet (hv : ∀ p n, s'.lockvar p n = s.lockvar p n) (hr : s'.request = s.request)
      (ho : ∀ x, Open s' x ↔ Open s x)
  | enter (x : C) (hu : ∀ j, s.request (x, j) = .unsent) (hx : (mine e s x).lock = false)
      (hv : ∀ p n, s'.lockvar p n = if p = e.node x ∧ n = e.number x then
        (mine e s x).lockMutex.setRequesting.chooseSeqno else s.lockvar p n)
      (hr : s'.request = s.request) (ho : ∀ y, Open s' y ↔ y = x ∨ Open s y)
  | send (x : C) (i : ℕ) (q : N) (hu : s.request (x, i) = .unsent)
      (hv : ∀ p n, s'.lockvar p n = s.lockvar p n)
      (hr : s'.request = Function.update s.request (x, i)
        (.sent q ⟨e.number x, (mine e s x).myseqno, e.mac (e.node x)⟩))
      (ho : ∀ y, Open s' y ↔ Open s y)
  | defer (x : C) (i : ℕ) (q : N) (pack : RequestPack ℤ) (hx : Open s x)
      (hu : s.request (x, i) = .sent q pack)
      (hd : (s.lockvar q pack.lockNumber).defers (e.mac q) pack = true)
      (hv : ∀ p n, s'.lockvar p n = if p = q ∧ n = pack.lockNumber then
        ((s.lockvar q pack.lockNumber).writeHighest pack.seqno
          (s.lockvar q pack.lockNumber).highestseqno).park (x, i)
        else s.lockvar p n)
      (hr : s'.request = Function.update s.request (x, i) (.parked q pack))
      (ho : ∀ y, Open s' y ↔ Open s y)
  | grant (x : C) (i : ℕ) (q : N) (pack : RequestPack ℤ) (hx : Open s x)
      (hu : s.request (x, i) = .sent q pack)
      (hd : (s.lockvar q pack.lockNumber).defers (e.mac q) pack = false)
      (hv : ∀ p n, s'.lockvar p n = if p = q ∧ n = pack.lockNumber then
        (s.lockvar q pack.lockNumber).writeHighest pack.seqno
          (s.lockvar q pack.lockNumber).highestseqno
        else s.lockvar p n)
      (hr : s'.request = Function.update s.request (x, i) (.replied q pack))
      (ho : ∀ y, Open s' y ↔ Open s y)
  | release (x : C) (hx : Open s x)
      (hv : ∀ p n, s'.lockvar p n = if p = e.node x ∧ n = e.number x then
        (mine e s x).renewDeffered.unlockMutex else s.lockvar p n)
      (hr : ∀ h, s'.request h =
        if h ∈ (mine e s x).deffered then (s.request h).wake else s.request h)
      (ho : ∀ y, Open s' y ↔ Open s y ∧ y ≠ x)

theorem locks_move {e : Env N A P C} {s s' : State N A P C} (hmac : Function.Injective e.mac)
    (hk : Locks e s) (h : Move e s s') : Locks e s' := by
  cases h with
  | quiet hv hr ho => exact locks_quiet hk hv hr ho
  | enter x hu hx hv hr ho => exact locks_enter hk hu hx hv hr ho
  | send x i q hu hv hr ho => exact locks_send hk hu hv hr ho
  | defer x i q pack hx hu hd hv hr ho =>
    refine locks_serve hk hx hu ?_ ?_ ?_ ?_ ?_ (.inl rfl) (by simp) hv hr ho
    · rfl
    · rfl
    · rfl
    · exact MAX_eq_max _ _
    · simp [LockVar.park, LockVar.writeHighest]
  | grant x i q pack hx hu hd hv hr ho =>
    have hord := fun y (hy : Open s y) => order_of_not_defers hmac hk hx hu hd hy
    refine locks_serve hk hx hu ?_ ?_ ?_ ?_ ?_ (.inr rfl) (fun _ => hord) hv hr ho
    · rfl
    · rfl
    · rfl
    · exact MAX_eq_max _ _
    · simp [LockVar.writeHighest]
  | release x hx hv hr ho => exact locks_release hk hx hv hr ho

variable [DecidableEq A] [DecidableEq P]

theorem move_of_effect {e : Env N A P C} {s s' : State N A P C} {a : Action P C}
    (hc : Clients e s) (hl : Loop e s) (h : Effect e s a s') : Move e s s' := by
  cases h with
  | initCall p hi => exact .quiet (fun _ _ => rfl) rfl fun _ => Iff.rfl
  | initServe p hi =>
    refine .quiet (fun q n => ?_) rfl fun _ => Iff.rfl
    rw [lockvar_update rfl]
    split_ifs with hq
    · subst hq
      rfl
    · rfl
  | initReturn p hi => exact .quiet (fun _ _ => rfl) rfl fun _ => Iff.rfl
  | acquireCall x hi ht =>
    exact .quiet (fun _ _ => rfl) rfl (open_update_thread rfl rfl (by simp [ht]) (by simp))
  | acquireArrive x ht hh =>
    refine .quiet (fun q n => ?_) rfl (open_update_handler rfl rfl (.inl ⟨hh, rfl⟩))
    rw [lockvar_update rfl]
    split_ifs with hq
    · subst hq
      exact lockvar_acquireFind _ _ _
    · rfl
  | acquireEnter x srv hh hs =>
    obtain ⟨hlock, -, -, hv⟩ := acquireEnter_eq_some hs
    refine .enter x (hl.before x (.inr hh)) hlock (lockvar_update_entry rfl hv) rfl fun y => ?_
    have ht : s.thread x ≠ .released := by
      intro ht
      have := hc.returned x (by simp [ht]) (by simp [ht])
      simp [hh] at this
    by_cases hy : y = x
    · subst hy
      simp [Open, ht]
    · simp [Open, hy]
  | send x i b hh hb =>
    refine .send x i (e.resolve (e.node x) b) (hl.ahead x i hh i le_rfl) (fun _ _ => rfl) ?_
      (open_update_handler rfl rfl (.inr (by simp [hh])))
    simp only [acquirePack, hc.mac]
    rfl
  | defer x i q pack hr hd =>
    have hx := open_of_madeTo hc hl (.inl hr) (by simp [hr])
    refine .defer x i q pack hx hr (hc.mac q ▸ hd) (lockvar_update_entry rfl fun m => ?_) rfl
      fun _ => Iff.rfl
    rw [lockvar_request1Svc]
    simp only [hd, if_true]
    rfl
  | grant x i q pack hr hd =>
    have hx := open_of_madeTo hc hl (.inl hr) (by simp [hr])
    refine .grant x i q pack hx hr (hc.mac q ▸ hd) (lockvar_update_entry rfl fun m => ?_) rfl
      fun _ => Iff.rfl
    rw [lockvar_request1Svc]
    simp only [hd, Bool.false_eq_true, if_false]
    rfl
  | reply x i q pack hh hr =>
    exact .quiet (fun _ _ => rfl) rfl (open_update_handler rfl rfl (.inr (by simp [hh])))
  | complete x i hh hi =>
    exact .quiet (fun _ _ => rfl) rfl (open_update_handler rfl rfl (.inr (by simp [hh])))
  | acquireReturn x ht hh =>
    exact .quiet (fun _ _ => rfl) rfl (open_update_thread rfl rfl (by simp [ht]) (by simp))
  | releaseCall x ht =>
    exact .quiet (fun _ _ => rfl) rfl (open_update_thread rfl rfl (by simp [ht]) (by simp))
  | releaseServe x woken srv ht hs =>
    obtain ⟨rfl, -, -, hv⟩ := releaseLock1Svc_eq_some hs
    have hh := hc.returned x (by simp [ht]) (by simp [ht])
    refine .release x ⟨by simp [hh], by simp [hh], by simp [ht]⟩ (lockvar_update_entry rfl hv)
      (fun _ => rfl) fun y => ?_
    by_cases hy : y = x
    · subst hy
      simp [Open]
    · simp [Open, hy]

/-- The three layers of invariants together. -/
structure Inv (e : Env N A P C) (s : State N A P C) : Prop where
  clients : Clients e s
  loop : Loop e s
  locks : Locks e s

theorem inv_step {e : Env N A P C} {s s' : State N A P C} {a : Action P C}
    (hmac : Function.Injective e.mac) (hi : Inv e s) (hf : NoFail s a)
    (h : step e s a = some s') : Inv e s' := by
  have heff := effect_of_step hf h
  have hmove := move_of_effect hi.clients hi.loop heff
  exact ⟨clients_effect hi.clients heff, loop_effect hi.clients hi.loop heff,
    locks_move hmac hi.locks hmove⟩

/-- The invariants hold in every state of every run in which RPCs succeed. -/
theorem inv_reaches {e : Env N A P C} {s : State N A P C} (hmac : Function.Injective e.mac)
    (h : Reaches (step e) NoFail (initial e) s) : Inv e s :=
  h.invariant (Inv e) ⟨clients_initial e, loop_initial e, locks_initial e⟩
    fun _ _ _ hi hf hs => inv_step hmac hi hf hs

end DistributedSystem.LockProtocol
