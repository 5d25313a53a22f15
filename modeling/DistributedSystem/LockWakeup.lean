import DistributedSystem.LockThreads

/-!
# Wake-ups of deferred requests

A thread of `request_1_svc` that defers its reply publishes its mutex on line 180,
locks it on line 183 and waits for someone else to unlock it on line 184. The loop of
`release_lock_1_svc` unlocks the mutexes that it finds, and the array is then thrown
away. A mutex that is unlocked before its thread has locked it, or that is published
after the loop has ended, is never unlocked again.
-/
namespace DistributedSystem.LockThreads
open LockManager Transition

variable {H C : Type}

/-- The thread has executed line 180 and has not returned. -/
def RequestThread.parked : RequestThread → Bool
  | .line183 _ | .line184 _ => true
  | _ => false

/-- The mutex has been unlocked after its thread locked it for the first time. -/
def Woken (s : State H C) (h : H) : Prop :=
  (∃ pack, s.request h = .line184 pack) ∧ s.mutex h = false

/-- Line 152 unlocks a mutex whose thread has not yet executed line 183. -/
def unlocksEarly (s : State H C) : Action H C → Bool
  | .run x =>
    match s.thread x with
    | .line152 i =>
      match s.lockvar.deffered[i]?.map s.request with
      | some (.line183 _) => true
      | _ => false
    | _ => false
  | _ => false

/-- The statement is line 180. -/
def publishes (s : State H C) : Action H C → Bool
  | .request h =>
    match s.request h with
    | .line180 _ => true
    | _ => false
  | _ => false

/-- The guard of the runs in which no mutex is unlocked before its thread has locked
it, and none is published after a release has left its loop and before it has put
the new array in place. -/
def Orderly (s : State H C) (a : Action H C) : Prop :=
  unlocksEarly s a = false ∧
    (publishes s a = true → ∀ x, s.thread x ≠ .line156 ∧ s.thread x ≠ .line157)

instance [Fintype C] (s : State H C) (a : Action H C) : Decidable (Orderly s a) :=
  inferInstanceAs (Decidable (_ ∧ (_ → _)))

/-- The loop variable of a release is in the range that its line asks for. -/
def LocalThread.Within (len : ℕ) : LocalThread → Prop
  | .line150 i => i ≤ len
  | .line152 i | .line153 i => i < len
  | _ => True

/-- The entries of `deffered` that the call will still unlock if its release is on
the way, and all entries otherwise. -/
def LocalThread.ahead (l : List H) : LocalThread → List H
  | .line150 i | .line152 i => l.drop i
  | .line153 i => l.drop (i + 1)
  | .line156 | .line157 => []
  | _ => l

theorem LocalThread.within_mono {t : LocalThread} {m k : ℕ} (h : t.Within m) (hmk : m ≤ k) :
    t.Within k := by
  cases t <;> simp only [LocalThread.Within] at h ⊢ <;> omega

theorem LocalThread.within_of_outside {t : LocalThread} (h : t.inside = false) (len : ℕ) :
    t.Within len := by
  cases t <;> simp [LocalThread.Within, LocalThread.inside] at h ⊢

/-- What lies ahead of a call stays ahead when another mutex is published. -/
theorem LocalThread.mem_ahead_append {t : LocalThread} {l : List H} {h g : H}
    (hh : h ∈ t.ahead l) : h ∈ t.ahead (l ++ [g]) := by
  have hdrop : ∀ i, h ∈ l.drop i → h ∈ (l ++ [g]).drop i := by
    intro i hi
    rw [List.drop_append]
    exact List.mem_append_left _ hi
  cases t with
  | line150 i => exact hdrop i hh
  | line152 i => exact hdrop i hh
  | line153 i => exact hdrop (i + 1) hh
  | line156 => exact hh
  | line157 => exact hh
  | _ => exact List.mem_append_left _ hh

/-- A mutex that is published lies ahead of a call that has not left its loop. -/
theorem LocalThread.mem_ahead_append_self {t : LocalThread} {l : List H} (h : H)
    (hw : t.Within l.length) (h156 : t ≠ .line156) (h157 : t ≠ .line157) :
    h ∈ t.ahead (l ++ [h]) := by
  have hdrop : ∀ i, i ≤ l.length → h ∈ (l ++ [h]).drop i := by
    intro i hi
    rw [List.drop_append_of_le_length hi]
    simp
  cases t with
  | line150 i => exact hdrop i hw
  | line152 i => exact hdrop i (Nat.le_of_lt hw)
  | line153 i => exact hdrop (i + 1) hw
  | line156 => exact (h156 rfl).elim
  | line157 => exact (h157 rfl).elim
  | _ => simp [LocalThread.ahead]

/-- The mutex is in the array, and ahead of every call. -/
def Queued (s : State H C) (h : H) : Prop :=
  h ∈ s.lockvar.deffered ∧ ∀ x, h ∈ (s.thread x).ahead s.lockvar.deffered

/-- What is known of the release loop and of the threads it has to wake. -/
structure Wakeups (s : State H C) : Prop where
  within : ∀ x, (s.thread x).Within s.lockvar.deffered.length
  waiting : ∀ h, (s.request h).parked = true → Woken s h ∨ Queued s h

theorem wakeups_initial (n : ℤ) : Wakeups (initial n : State H C) := by
  constructor <;> simp [initial, LocalThread.Within, RequestThread.parked]

variable [DecidableEq H] [DecidableEq C]

/-- Whatever else happens, the thread has returned or its next statement returns. -/
def Returns (mac : ℕ) (s : State H C) (h : H) : Prop :=
  ∀ s', Reaches (step mac) anyStep s s' → (∃ pack, s'.request h = .returned pack) ∨
    ∃ s'' pack, step mac s' (.request h) = some s'' ∧ s''.request h = .returned pack

/-- Line 152 unlocks the mutex of the thread `h`. -/
def unlocks (h : H) (s : State H C) : Action H C → Bool
  | .run x =>
    match s.thread x with
    | .line152 i => s.lockvar.deffered[i]? = some h
    | _ => false
  | _ => false

/-- Whatever else happens, the mutex is in the array until a release unlocks it. -/
def Kept (mac : ℕ) (s : State H C) (h : H) : Prop :=
  ∀ s', Reaches (step mac) (fun u a => unlocks h u a = false) s s' → h ∈ s'.lockvar.deffered

/-- Every thread that has published its mutex and has not returned is in the array,
from which only a release that unlocks it will take it, or its mutex has been unlocked
after its first lock and it will return. -/
def NoLostWakeup (mac : ℕ) (s : State H C) : Prop :=
  ∀ h, (s.request h).parked = true →
    (h ∈ s.lockvar.deffered ∧ Kept mac s h) ∨ (Woken s h ∧ Returns mac s h)

omit [DecidableEq C] in
theorem unlocks_iff {h : H} {s : State H C} {a : Action H C} : unlocks h s a = true ↔
    ∃ x i, a = .run x ∧ s.thread x = .line152 i ∧ s.lockvar.deffered[i]? = some h := by
  cases a with
  | run x => cases ht : s.thread x <;> simp [unlocks, ht]
  | _ => simp [unlocks]

/-- Only its own thread locks a mutex. -/
theorem woken_effect {mac : ℕ} {s s' : State H C} {a : Action H C} (h : Effect mac s a s')
    {g : H} (hg : Woken s g) : Woken s' g ∨ ∃ pack, s'.request g = .returned pack := by
  obtain ⟨⟨p, hp⟩, hm⟩ := hg
  have hother : ∀ (k : H) (pc : RequestThread), s.request k ≠ .line184 p →
      Function.update s.request k pc g = .line184 p := by
    intro k pc hk
    have hgk : g ≠ k := by
      rintro rfl
      exact hk hp
    rw [Function.update_of_ne hgk, hp]
  cases h with
  | arrive k pack hr => exact .inl ⟨⟨p, hother k _ (by simp [hr])⟩, hm⟩
  | readHighest k pack hr => exact .inl ⟨⟨p, hother k _ (by simp [hr])⟩, hm⟩
  | writeHighest k pack read hr => exact .inl ⟨⟨p, hother k _ (by simp [hr])⟩, hm⟩
  | defer k pack hr hd => exact .inl ⟨⟨p, hother k _ (by simp [hr])⟩, hm⟩
  | grant k pack hr hd => exact .inl ⟨⟨p, hother k _ (by simp [hr])⟩, hm⟩
  | park k pack hr => exact .inl ⟨⟨p, hother k _ (by simp [hr])⟩, hm⟩
  | lockFirst k pack hr hk =>
    have hgk : g ≠ k := by
      rintro rfl
      simp [hp] at hr
    exact .inl ⟨⟨p, hother k _ (by simp [hr])⟩, by simpa [Function.update_of_ne hgk] using hm⟩
  | lockSecond k pack hr hk =>
    by_cases hgk : g = k
    · subst hgk
      exact .inr ⟨pack, by simp⟩
    · refine .inl ⟨⟨p, ?_⟩, ?_⟩
      · simpa [Function.update_of_ne hgk] using hp
      · simpa [Function.update_of_ne hgk] using hm
  | wake x i k ht hk =>
    refine .inl ⟨⟨p, hp⟩, ?_⟩
    by_cases hgk : g = k
    · simp [hgk]
    · simpa [Function.update_of_ne hgk] using hm
  | _ => exact .inl ⟨⟨p, hp⟩, hm⟩

theorem returned_request_effect {mac : ℕ} {s s' : State H C} {a : Action H C}
    (h : Effect mac s a s') {g : H} {p : RequestPack ℤ} (hp : s.request g = .returned p) :
    s'.request g = .returned p := by
  rcases request_effect h g with heq | hnext
  · exact heq.trans hp
  · rw [hp] at hnext
    cases hnext

/-- A thread whose mutex has been unlocked after its first lock needs nothing more. -/
theorem returns_of_woken {mac : ℕ} {s : State H C} {h : H} (hw : Woken s h) :
    Returns mac s h := by
  intro s' hs
  have hall : Woken s' h ∨ ∃ pack, s'.request h = .returned pack := by
    refine hs.invariant (fun u => Woken u h ∨ ∃ pack, u.request h = .returned pack) (.inl hw) ?_
    rintro u a u' hu - hstep
    have heff := effect_of_step hstep
    rcases hu with hu | ⟨pack, hu⟩
    · exact woken_effect heff hu
    · exact .inr ⟨pack, returned_request_effect heff hu⟩
  rcases hall with ⟨⟨pack, hr⟩, hm⟩ | hret
  · right
    refine ⟨{ s' with
      mutex := Function.update s'.mutex h true
      request := Function.update s'.request h (.returned pack) }, pack, ?_, by simp⟩
    simp [step, hr, hm]
  · exact .inl hret

/-- The loop variable of a release stays in range. -/
theorem within_effect {mac : ℕ} {s s' : State H C} {a : Action H C} (ho : Owned s)
    (hw : ∀ x, (s.thread x).Within s.lockvar.deffered.length) (h : Effect mac s a s') (x : C) :
    (s'.thread x).Within s'.lockvar.deffered.length := by
  have hmove : ∀ (y : C) (pc : LocalThread), pc.Within s.lockvar.deffered.length →
      (Function.update s.thread y pc x).Within s.lockvar.deffered.length := by
    intro y pc hpc
    exact (Function.forall_update_iff s.thread fun _ t => t.Within s.lockvar.deffered.length).mpr
      ⟨hpc, fun z _ => hw z⟩ x
  -- when the array is emptied, no other call is in its loop
  have hempty : ∀ (y : C) (pc : LocalThread), (s.thread y).inside = true → pc.Within 0 →
      (Function.update s.thread y pc x).Within 0 := by
    intro y pc hy hpc
    refine (Function.forall_update_iff s.thread fun _ t => t.Within 0).mpr ⟨hpc, ?_⟩ x
    intro z hz
    refine LocalThread.within_of_outside ?_ 0
    by_contra hin
    exact hz (ho.unique z y (by simpa using hin) hy)
  cases h with
  | park k pack hr => exact LocalThread.within_mono (hw x) (by simp [LockVar.park])
  | start y ht => exact hmove y _ trivial
  | lockMutex y ht hl => exact hmove y _ trivial
  | setRequesting y ht => exact hmove y _ trivial
  | chooseSeqno y ht => exact hmove y _ trivial
  | release y ht => exact hmove y (.line150 0) (Nat.zero_le _)
  | more y i ht hi => exact hmove y (.line152 i) hi
  | done y i ht hi => exact hmove y _ trivial
  | wake y i k ht hk =>
    have hi := hw y
    rw [ht] at hi
    exact hmove y (.line153 i) hi
  | next y i ht =>
    have hi := hw y
    rw [ht] at hi
    exact hmove y (.line150 (i + 1)) hi
  | free y ht => exact hempty y _ (by rw [ht]; rfl) trivial
  | renew y ht => exact hempty y _ (by rw [ht]; rfl) trivial
  | unlockMutex y ht => exact hmove y _ trivial
  | _ => exact hw x

/-- A thread that is not parked after a step need not be considered; one that is was
parked before, unless it has just published its mutex. -/
theorem parked_effect {mac : ℕ} {s s' : State H C} {a : Action H C} (h : Effect mac s a s')
    {g : H} (hg : (s'.request g).parked = true) :
    (s.request g).parked = true ∨ ∃ pack, s.request g = .line180 pack := by
  rcases request_effect h g with heq | hnext
  · exact .inl (heq ▸ hg)
  · generalize s.request g = t at hnext
    generalize s'.request g = t' at hnext hg
    cases hnext <;> simp [RequestThread.parked] at hg ⊢

/-- A thread at line 180 that is parked after the step has published its mutex. -/
theorem publishes_of_parked {mac : ℕ} {s s' : State H C} {a : Action H C}
    (h : Effect mac s a s') {g : H} {pack : RequestPack ℤ} (hr : s.request g = .line180 pack)
    (hg : (s'.request g).parked = true) :
    publishes s a = true ∧ s'.lockvar = s.lockvar.park g ∧ s'.thread = s.thread := by
  have hother : ∀ (k : H) (pc : RequestThread), s.request k ≠ .line180 pack →
      (Function.update s.request k pc g).parked = false := by
    intro k pc hk
    have hgk : g ≠ k := by
      rintro rfl
      exact hk hr
    simp [Function.update_of_ne hgk, hr, RequestThread.parked]
  have hstay : (s.request g).parked = false := by simp [hr, RequestThread.parked]
  cases h with
  | park k p hk =>
    by_cases hgk : g = k
    · subst hgk
      exact ⟨by simp [publishes, hr], rfl, rfl⟩
    · simp [Function.update_of_ne hgk, hstay] at hg
  | arrive k p hk => simp [hother k _ (by simp [hk])] at hg
  | readHighest k p hk => simp [hother k _ (by simp [hk])] at hg
  | writeHighest k p r hk => simp [hother k _ (by simp [hk])] at hg
  | defer k p hk hd => simp [hother k _ (by simp [hk])] at hg
  | grant k p hk hd => simp [hother k _ (by simp [hk])] at hg
  | lockFirst k p hk hm => simp [hother k _ (by simp [hk])] at hg
  | lockSecond k p hk hm => simp [hother k _ (by simp [hk])] at hg
  | _ => simp [hstay] at hg

/-- A mutex that is ahead of all calls stays so until it is unlocked. -/
theorem queued_effect {mac : ℕ} {s s' : State H C} {a : Action H C} (h : Effect mac s a s')
    {g : H} (hq : Queued s g) : Queued s' g ∨ unlocks g s a = true := by
  have hmove : ∀ (y : C) (pc : LocalThread), g ∈ pc.ahead s.lockvar.deffered →
      ∀ x, g ∈ (Function.update s.thread y pc x).ahead s.lockvar.deffered := by
    intro y pc hpc
    exact (Function.forall_update_iff s.thread fun _ t => g ∈ t.ahead s.lockvar.deffered).mpr
      ⟨hpc, fun x _ => hq.2 x⟩
  cases h with
  | park k pack hr =>
    exact .inl ⟨List.mem_append_left _ hq.1, fun x => LocalThread.mem_ahead_append (hq.2 x)⟩
  | start y ht => exact .inl ⟨hq.1, hmove y _ hq.1⟩
  | lockMutex y ht hl => exact .inl ⟨hq.1, hmove y _ hq.1⟩
  | setRequesting y ht => exact .inl ⟨hq.1, hmove y _ hq.1⟩
  | chooseSeqno y ht => exact .inl ⟨hq.1, hmove y _ hq.1⟩
  | release y ht =>
    exact .inl ⟨hq.1, hmove y (.line150 0) (by simpa [LocalThread.ahead] using hq.1)⟩
  | more y i ht hi =>
    have hahead := hq.2 y
    rw [ht] at hahead
    exact .inl ⟨hq.1, hmove y (.line152 i) hahead⟩
  | done y i ht hi =>
    have hahead := hq.2 y
    rw [ht, LocalThread.ahead, List.drop_eq_nil_of_le hi] at hahead
    exact absurd hahead List.not_mem_nil
  | wake y i k ht hk =>
    have hahead := hq.2 y
    obtain ⟨hi, rfl⟩ := List.getElem?_eq_some_iff.mp hk
    rw [ht, LocalThread.ahead, List.drop_eq_getElem_cons hi, List.mem_cons] at hahead
    rcases hahead with heq | hahead
    · exact .inr (unlocks_iff.mpr ⟨y, i, rfl, ht, by rw [heq]; exact hk⟩)
    · exact .inl ⟨hq.1, hmove y (.line153 i) hahead⟩
  | next y i ht =>
    have hahead := hq.2 y
    rw [ht] at hahead
    exact .inl ⟨hq.1, hmove y (.line150 (i + 1)) hahead⟩
  | free y ht =>
    have hahead := hq.2 y
    rw [ht] at hahead
    exact absurd hahead List.not_mem_nil
  | renew y ht =>
    have hahead := hq.2 y
    rw [ht] at hahead
    exact absurd hahead List.not_mem_nil
  | unlockMutex y ht => exact .inl ⟨hq.1, hmove y _ hq.1⟩
  | _ => exact .inl hq

theorem kept_of_queued {mac : ℕ} {s : State H C} {h : H} (hq : Queued s h) : Kept mac s h := by
  intro s' hs
  have hqueued : Queued s' h := by
    refine hs.invariant (fun u => Queued u h) hq ?_
    intro u a u' hu hnot hstep
    rcases queued_effect (effect_of_step hstep) hu with hu' | hunlocks
    · exact hu'
    · simp [hnot] at hunlocks
  exact hqueued.1

/-- In an orderly step, a parked thread whose mutex is unlocked has locked it before. -/
theorem woken_of_unlocks {mac : ℕ} {s s' : State H C} {a : Action H C} {g : H}
    (hs : Orderly s a) (hstep : step mac s a = some s') (hp : (s.request g).parked = true)
    (hu : unlocks g s a = true) : Woken s' g := by
  obtain ⟨x, i, rfl, ht, hk⟩ := unlocks_iff.mp hu
  obtain rfl : _ = s' := by simpa [step, ht, hk] using hstep
  refine ⟨?_, by simp⟩
  have hearly := hs.1
  simp only [unlocksEarly, ht, hk, Option.map_some] at hearly
  cases hr : s.request g with
  | line183 pack => simp [hr] at hearly
  | line184 pack => exact ⟨pack, rfl⟩
  | _ => simp [hr, RequestThread.parked] at hp

theorem wakeups_step {mac : ℕ} {s s' : State H C} {a : Action H C} (ho : Owned s)
    (hw : Wakeups s) (hs : Orderly s a) (hstep : step mac s a = some s') : Wakeups s' := by
  have heff := effect_of_step hstep
  refine ⟨within_effect ho hw.within heff, ?_⟩
  intro g hg
  rcases parked_effect heff hg with hp | ⟨pack, hr⟩
  · rcases hw.waiting g hp with hwoken | hq
    · rcases woken_effect heff hwoken with hwoken' | ⟨pack, hret⟩
      · exact .inl hwoken'
      · simp [hret, RequestThread.parked] at hg
    · rcases queued_effect heff hq with hq' | hunlocks
      · exact .inr hq'
      · exact .inl (woken_of_unlocks hs hstep hp hunlocks)
  · right
    obtain ⟨hpub, hv, ht⟩ := publishes_of_parked heff hr hg
    have hline := hs.2 hpub
    rw [Queued, hv, ht]
    refine ⟨by simp [LockVar.park], ?_⟩
    intro x
    exact LocalThread.mem_ahead_append_self g (hw.within x) (hline x).1 (hline x).2

/-- In every run in which no mutex is unlocked before its thread has locked it and
none is published after a release has left its loop, no wake-up is lost. -/
theorem noLostWakeup_of_orderly (n : ℤ) (mac : ℕ) {s : State H C}
    (h : Reaches (step mac) Orderly (initial n) s) : NoLostWakeup mac s := by
  have hall : Owned s ∧ Wakeups s := by
    refine h.invariant_with Owned Wakeups (owned_initial n)
      (fun u a u' ho _ hstep => owned_effect ho (effect_of_step hstep)) (wakeups_initial n) ?_
    intro u a u' ho hw hs hstep
    exact wakeups_step ho hw hs hstep
  intro g hg
  rcases hall.2.waiting g hg with hwoken | hq
  · exact .inr ⟨hwoken, returns_of_woken hwoken⟩
  · exact .inl ⟨hq.1, kept_of_queued hq⟩

/-- A local call up to line 150, with a request that arrives in its REQUEST loop and is
deferred; the thread of that request is at line 180. -/
def deferRun : List (Action Unit Unit) :=
  [.run (), .run (), .run (), .run (), .arrive () ⟨1, 1, 2⟩, .request (), .request (),
    .request (), .run ()]

/-- The thread publishes and locks its mutex before the release unlocks it, and the
array is replaced while the thread is still on its way. -/
theorem noLostWakeup_deferRun : ∃ s : State Unit Unit,
    Reaches (step 1) Orderly (initial 1) s ∧ s.lockvar.deffered = [] ∧
      (s.request ()).parked = true ∧ Woken s () ∧ Returns 1 s () := by
  let as := deferRun ++ [.request (), .request (), .run (), .run (), .run (), .run (), .run ()]
  let s := (exec (step 1) (initial 1) as).get (by decide)
  have hs : Reaches (step 1) Orderly (initial 1) s :=
    reaches_of_exec as (Option.some_get _).symm (by decide)
  have hempty : s.lockvar.deffered = [] := by decide
  have hparked : (s.request ()).parked = true := by decide
  rcases noLostWakeup_of_orderly 1 1 hs () hparked with ⟨hmem, -⟩ | ⟨hwoken, hret⟩
  · simp [hempty] at hmem
  · exact ⟨s, hs, hempty, hparked, hwoken, hret⟩

/-- The thread publishes its mutex after the loop has ended and before the array is
replaced, and then waits for a wake-up that no release will give. -/
theorem not_noLostWakeup : ∃ s : State Unit Unit, Reaches (step 1) anyStep (initial 1) s ∧
    (s.request ()).parked = true ∧ () ∉ s.lockvar.deffered ∧ ¬ Woken s () ∧
      ¬ NoLostWakeup 1 s := by
  let as := deferRun ++ [.run (), .request (), .run (), .run (), .run (), .request ()]
  let s := (exec (step 1) (initial 1) as).get (by decide)
  have hs : Reaches (step 1) anyStep (initial 1) s :=
    reaches_of_exec_anyStep as (Option.some_get _).symm
  have hparked : (s.request ()).parked = true := by decide
  have hnotin : () ∉ s.lockvar.deffered := by decide
  have hlocked : s.mutex () = true := by decide
  have hnot : ¬ Woken s () := by
    rintro ⟨-, hm⟩
    rw [hlocked] at hm
    cases hm
  refine ⟨s, hs, hparked, hnotin, hnot, ?_⟩
  intro h
  rcases h () hparked with ⟨hmem, -⟩ | ⟨hwoken, -⟩
  · exact hnotin hmem
  · exact hnot hwoken

end DistributedSystem.LockThreads
