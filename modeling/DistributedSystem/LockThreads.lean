import DistributedSystem.LockManager
import DistributedSystem.Transition

/-!
# The threads of one lock manager process

`dispatcher` starts one thread for every call, so that the service routines of one
node run concurrently. Here the C statements of `acquire_lock_1_svc`,
`release_lock_1_svc` and `request_1_svc` on the variables of one lock are separate
steps, in any order of the threads; the read and the write of line 170 are two. A
thread is at the line that it executes next.

A local call is one acquire together with the release that follows it. How often it
takes a turn of its REQUEST loop, and when it leaves that loop, is left open, since
it depends on other nodes.
-/
namespace DistributedSystem.LockThreads
open LockManager Transition

variable {H C : Type}

/-- A thread of `request_1_svc`. At the write of line 170 it has read `highestseqno`;
at line 180 its mutex is created and not locked. -/
inductive RequestThread where
  | idle
  | line170 (pack : RequestPack ℤ)
  | line170Write (pack : RequestPack ℤ) (read : ℤ)
  | line172 (pack : RequestPack ℤ)
  | line180 (pack : RequestPack ℤ)
  | line183 (pack : RequestPack ℤ)
  | line184 (pack : RequestPack ℤ)
  | returned (pack : RequestPack ℤ)
  deriving DecidableEq, Repr

/-- The thread of `acquire_lock_1_svc` and then that of `release_lock_1_svc` for one
local call. At line 127 it is in the REQUEST loop or past it and not yet releasing;
from line 150 to line 153 it carries the loop variable of the release. -/
inductive LocalThread where
  | idle
  | line123
  | line125
  | line126
  | line127
  | line150 (i : ℕ)
  | line152 (i : ℕ)
  | line153 (i : ℕ)
  | line156
  | line157
  | line159
  | returned
  deriving DecidableEq, Repr

/-- The variables of one lock on one node, its mutexes, its threads, and the REQUESTs
that its local calls have sent. Every entry of `deffered` is the thread of
`request_1_svc` whose mutex it is, and `mutex` says whether that mutex is locked. -/
structure State (H C : Type) where
  lockvar : LockVar ℤ H
  mutex : H → Bool
  request : H → RequestThread
  thread : C → LocalThread
  sent : C → List (RequestPack ℤ)

def initial (n : ℤ) : State H C where
  lockvar := LockVar.new n
  mutex _ := false
  request _ := .idle
  thread _ := .idle
  sent _ := []

/-- A REQUEST arrives, the thread `h` of `request_1_svc` executes its next statement,
the local call `x` takes a turn of its REQUEST loop, and it executes its next
statement elsewhere. -/
inductive Action (H C : Type) where
  | arrive (h : H) (pack : RequestPack ℤ)
  | request (h : H)
  | send (x : C)
  | run (x : C)
  deriving DecidableEq, Repr

/-- Lines 129 to 132 of `acquire_lock_1_svc` on a node with address `mac`. -/
def requestPack (mac : ℕ) (v : LockVar ℤ H) : RequestPack ℤ where
  lockNumber := v.lockNumber
  seqno := v.myseqno
  mac := mac

variable [DecidableEq H] [DecidableEq C]

/-- One statement on a node with address `mac`. A default mutex that is locked holds
up every thread, also the one that locked it, and `pthread_mutex_unlock` of line 152
leaves it unlocked whatever it was. `pthread_mutex_destroy` of line 153 does not lock
it again, and line 156 leaves nothing of the old array. -/
def step (mac : ℕ) (s : State H C) : Action H C → Option (State H C)
  | .arrive h pack =>
    match s.request h with
    | .idle => some { s with request := Function.update s.request h (.line170 pack) }
    | _ => none
  | .request h =>
    match s.request h with
    | .idle => none
    | .line170 pack =>
      some { s with
        request := Function.update s.request h (.line170Write pack s.lockvar.highestseqno) }
    | .line170Write pack read =>
      some { s with
        lockvar := s.lockvar.writeHighest pack.seqno read
        request := Function.update s.request h (.line172 pack) }
    | .line172 pack =>
      some { s with
        request := Function.update s.request h
          (if s.lockvar.defers mac pack then .line180 pack else .returned pack) }
    | .line180 pack =>
      some { s with
        lockvar := s.lockvar.park h
        request := Function.update s.request h (.line183 pack) }
    | .line183 pack =>
      if s.mutex h then none
      else some { s with
        mutex := Function.update s.mutex h true
        request := Function.update s.request h (.line184 pack) }
    | .line184 pack =>
      if s.mutex h then none
      else some { s with
        mutex := Function.update s.mutex h true
        request := Function.update s.request h (.returned pack) }
    | .returned _ => none
  | .send x =>
    if s.thread x = .line127 then
      some { s with
        sent := Function.update s.sent x (s.sent x ++ [requestPack mac s.lockvar]) }
    else none
  | .run x =>
    match s.thread x with
    | .idle => some { s with thread := Function.update s.thread x .line123 }
    | .line123 =>
      if s.lockvar.lock then none
      else some { s with
        lockvar := s.lockvar.lockMutex
        thread := Function.update s.thread x .line125 }
    | .line125 =>
      some { s with
        lockvar := s.lockvar.setRequesting
        thread := Function.update s.thread x .line126 }
    | .line126 =>
      some { s with
        lockvar := s.lockvar.chooseSeqno
        thread := Function.update s.thread x .line127 }
    | .line127 => some { s with thread := Function.update s.thread x (.line150 0) }
    | .line150 i =>
      some { s with
        thread := Function.update s.thread x
          (if i < s.lockvar.deffered.length then .line152 i else .line156) }
    | .line152 i =>
      s.lockvar.deffered[i]?.map fun h =>
        { s with
          mutex := Function.update s.mutex h false
          thread := Function.update s.thread x (.line153 i) }
    | .line153 i => some { s with thread := Function.update s.thread x (.line150 (i + 1)) }
    | .line156 =>
      some { s with
        lockvar := s.lockvar.renewDeffered
        thread := Function.update s.thread x .line157 }
    | .line157 =>
      some { s with
        lockvar := s.lockvar.renewDeffered
        thread := Function.update s.thread x .line159 }
    | .line159 =>
      some { s with
        lockvar := s.lockvar.unlockMutex
        thread := Function.update s.thread x .returned }
    | .returned => none

/-- The statements, with what each of them requires of the state and what it does
to it. -/
inductive Effect (mac : ℕ) (s : State H C) : Action H C → State H C → Prop
  | arrive (h : H) (pack : RequestPack ℤ) (hr : s.request h = .idle) :
      Effect mac s (.arrive h pack)
        { s with request := Function.update s.request h (.line170 pack) }
  | readHighest (h : H) (pack : RequestPack ℤ) (hr : s.request h = .line170 pack) :
      Effect mac s (.request h) { s with
        request := Function.update s.request h (.line170Write pack s.lockvar.highestseqno) }
  | writeHighest (h : H) (pack : RequestPack ℤ) (read : ℤ)
      (hr : s.request h = .line170Write pack read) :
      Effect mac s (.request h) { s with
        lockvar := s.lockvar.writeHighest pack.seqno read
        request := Function.update s.request h (.line172 pack) }
  | defer (h : H) (pack : RequestPack ℤ) (hr : s.request h = .line172 pack)
      (hd : s.lockvar.defers mac pack = true) :
      Effect mac s (.request h)
        { s with request := Function.update s.request h (.line180 pack) }
  | grant (h : H) (pack : RequestPack ℤ) (hr : s.request h = .line172 pack)
      (hd : s.lockvar.defers mac pack = false) :
      Effect mac s (.request h)
        { s with request := Function.update s.request h (.returned pack) }
  | park (h : H) (pack : RequestPack ℤ) (hr : s.request h = .line180 pack) :
      Effect mac s (.request h) { s with
        lockvar := s.lockvar.park h
        request := Function.update s.request h (.line183 pack) }
  | lockFirst (h : H) (pack : RequestPack ℤ) (hr : s.request h = .line183 pack)
      (hm : s.mutex h = false) :
      Effect mac s (.request h) { s with
        mutex := Function.update s.mutex h true
        request := Function.update s.request h (.line184 pack) }
  | lockSecond (h : H) (pack : RequestPack ℤ) (hr : s.request h = .line184 pack)
      (hm : s.mutex h = false) :
      Effect mac s (.request h) { s with
        mutex := Function.update s.mutex h true
        request := Function.update s.request h (.returned pack) }
  | send (x : C) (ht : s.thread x = .line127) :
      Effect mac s (.send x) { s with
        sent := Function.update s.sent x (s.sent x ++ [requestPack mac s.lockvar]) }
  | start (x : C) (ht : s.thread x = .idle) :
      Effect mac s (.run x) { s with thread := Function.update s.thread x .line123 }
  | lockMutex (x : C) (ht : s.thread x = .line123) (hl : s.lockvar.lock = false) :
      Effect mac s (.run x) { s with
        lockvar := s.lockvar.lockMutex
        thread := Function.update s.thread x .line125 }
  | setRequesting (x : C) (ht : s.thread x = .line125) :
      Effect mac s (.run x) { s with
        lockvar := s.lockvar.setRequesting
        thread := Function.update s.thread x .line126 }
  | chooseSeqno (x : C) (ht : s.thread x = .line126) :
      Effect mac s (.run x) { s with
        lockvar := s.lockvar.chooseSeqno
        thread := Function.update s.thread x .line127 }
  | release (x : C) (ht : s.thread x = .line127) :
      Effect mac s (.run x) { s with thread := Function.update s.thread x (.line150 0) }
  | more (x : C) (i : ℕ) (ht : s.thread x = .line150 i) (hi : i < s.lockvar.deffered.length) :
      Effect mac s (.run x) { s with thread := Function.update s.thread x (.line152 i) }
  | done (x : C) (i : ℕ) (ht : s.thread x = .line150 i) (hi : s.lockvar.deffered.length ≤ i) :
      Effect mac s (.run x) { s with thread := Function.update s.thread x .line156 }
  | wake (x : C) (i : ℕ) (h : H) (ht : s.thread x = .line152 i)
      (hh : s.lockvar.deffered[i]? = some h) :
      Effect mac s (.run x) { s with
        mutex := Function.update s.mutex h false
        thread := Function.update s.thread x (.line153 i) }
  | next (x : C) (i : ℕ) (ht : s.thread x = .line153 i) :
      Effect mac s (.run x) { s with thread := Function.update s.thread x (.line150 (i + 1)) }
  | free (x : C) (ht : s.thread x = .line156) :
      Effect mac s (.run x) { s with
        lockvar := s.lockvar.renewDeffered
        thread := Function.update s.thread x .line157 }
  | renew (x : C) (ht : s.thread x = .line157) :
      Effect mac s (.run x) { s with
        lockvar := s.lockvar.renewDeffered
        thread := Function.update s.thread x .line159 }
  | unlockMutex (x : C) (ht : s.thread x = .line159) :
      Effect mac s (.run x) { s with
        lockvar := s.lockvar.unlockMutex
        thread := Function.update s.thread x .returned }

/-- Everything that a statement can do. -/
theorem effect_of_step {mac : ℕ} {s s' : State H C} {a : Action H C}
    (h : step mac s a = some s') : Effect mac s a s' := by
  cases a with
  | arrive g pack =>
    cases hr : s.request g with
    | idle =>
      obtain rfl : _ = s' := by simpa [step, hr] using h
      exact .arrive g pack hr
    | _ => simp [step, hr] at h
  | request g =>
    cases hr : s.request g with
    | idle => simp [step, hr] at h
    | line170 pack =>
      obtain rfl : _ = s' := by simpa [step, hr] using h
      exact .readHighest g pack hr
    | line170Write pack read =>
      obtain rfl : _ = s' := by simpa [step, hr] using h
      exact .writeHighest g pack read hr
    | line172 pack =>
      cases hd : s.lockvar.defers mac pack with
      | true =>
        obtain rfl : _ = s' := by simpa [step, hr, hd] using h
        exact .defer g pack hr hd
      | false =>
        obtain rfl : _ = s' := by simpa [step, hr, hd] using h
        exact .grant g pack hr hd
    | line180 pack =>
      obtain rfl : _ = s' := by simpa [step, hr] using h
      exact .park g pack hr
    | line183 pack =>
      simp only [step, hr] at h
      obtain ⟨hm, hs⟩ := Option.ite_none_left_eq_some.mp h
      obtain rfl := Option.some.inj hs
      exact .lockFirst g pack hr (by simpa using hm)
    | line184 pack =>
      simp only [step, hr] at h
      obtain ⟨hm, hs⟩ := Option.ite_none_left_eq_some.mp h
      obtain rfl := Option.some.inj hs
      exact .lockSecond g pack hr (by simpa using hm)
    | returned pack => simp [step, hr] at h
  | send x =>
    obtain ⟨ht, hs⟩ := Option.ite_none_right_eq_some.mp h
    obtain rfl := Option.some.inj hs
    exact .send x ht
  | run x =>
    cases ht : s.thread x with
    | idle =>
      obtain rfl : _ = s' := by simpa [step, ht] using h
      exact .start x ht
    | line123 =>
      simp only [step, ht] at h
      obtain ⟨hl, hs⟩ := Option.ite_none_left_eq_some.mp h
      obtain rfl := Option.some.inj hs
      exact .lockMutex x ht (by simpa using hl)
    | line125 =>
      obtain rfl : _ = s' := by simpa [step, ht] using h
      exact .setRequesting x ht
    | line126 =>
      obtain rfl : _ = s' := by simpa [step, ht] using h
      exact .chooseSeqno x ht
    | line127 =>
      obtain rfl : _ = s' := by simpa [step, ht] using h
      exact .release x ht
    | line150 i =>
      rcases Nat.lt_or_ge i s.lockvar.deffered.length with hi | hi
      · obtain rfl : _ = s' := by simpa [step, ht, hi] using h
        exact .more x i ht hi
      · obtain rfl : _ = s' := by simpa [step, ht, Nat.not_lt.mpr hi] using h
        exact .done x i ht hi
    | line152 i =>
      simp only [step, ht] at h
      obtain ⟨g, hg, rfl⟩ := Option.map_eq_some_iff.mp h
      exact .wake x i g ht hg
    | line153 i =>
      obtain rfl : _ = s' := by simpa [step, ht] using h
      exact .next x i ht
    | line156 =>
      obtain rfl : _ = s' := by simpa [step, ht] using h
      exact .free x ht
    | line157 =>
      obtain rfl : _ = s' := by simpa [step, ht] using h
      exact .renew x ht
    | line159 =>
      obtain rfl : _ = s' := by simpa [step, ht] using h
      exact .unlockMutex x ht
    | returned => simp [step, ht] at h

/-- Where a local call goes from a line. -/
inductive LocalThread.Next : LocalThread → LocalThread → Prop
  | start : Next .idle .line123
  | lockMutex : Next .line123 .line125
  | setRequesting : Next .line125 .line126
  | chooseSeqno : Next .line126 .line127
  | release : Next .line127 (.line150 0)
  | more (i : ℕ) : Next (.line150 i) (.line152 i)
  | done (i : ℕ) : Next (.line150 i) .line156
  | wake (i : ℕ) : Next (.line152 i) (.line153 i)
  | next (i : ℕ) : Next (.line153 i) (.line150 (i + 1))
  | free : Next .line156 .line157
  | renew : Next .line157 .line159
  | unlockMutex : Next .line159 .returned

/-- A statement moves one local call at most, along the lines of its routine. -/
theorem thread_effect {mac : ℕ} {s s' : State H C} {a : Action H C} (h : Effect mac s a s')
    (x : C) : s'.thread x = s.thread x ∨ (s.thread x).Next (s'.thread x) := by
  have hmove : ∀ (y : C) (pc : LocalThread), (s.thread y).Next pc →
      Function.update s.thread y pc x = s.thread x ∨
        (s.thread x).Next (Function.update s.thread y pc x) := by
    intro y pc hpc
    exact (Function.forall_update_iff s.thread fun x t => t = s.thread x ∨ (s.thread x).Next t).mpr
      ⟨.inr hpc, fun _ _ => .inl rfl⟩ x
  cases h with
  | start y ht => exact hmove y _ (ht ▸ .start)
  | lockMutex y ht hl => exact hmove y _ (ht ▸ .lockMutex)
  | setRequesting y ht => exact hmove y _ (ht ▸ .setRequesting)
  | chooseSeqno y ht => exact hmove y _ (ht ▸ .chooseSeqno)
  | release y ht => exact hmove y _ (ht ▸ .release)
  | more y i ht hi => exact hmove y _ (ht ▸ .more i)
  | done y i ht hi => exact hmove y _ (ht ▸ .done i)
  | wake y i g ht hg => exact hmove y _ (ht ▸ .wake i)
  | next y i ht => exact hmove y _ (ht ▸ .next i)
  | free y ht => exact hmove y _ (ht ▸ .free)
  | renew y ht => exact hmove y _ (ht ▸ .renew)
  | unlockMutex y ht => exact hmove y _ (ht ▸ .unlockMutex)
  | _ => exact .inl rfl

/-- Where a thread of `request_1_svc` goes from a line. -/
inductive RequestThread.Next : RequestThread → RequestThread → Prop
  | arrive (pack : RequestPack ℤ) : Next .idle (.line170 pack)
  | readHighest (pack : RequestPack ℤ) (read : ℤ) :
      Next (.line170 pack) (.line170Write pack read)
  | writeHighest (pack : RequestPack ℤ) (read : ℤ) :
      Next (.line170Write pack read) (.line172 pack)
  | defer (pack : RequestPack ℤ) : Next (.line172 pack) (.line180 pack)
  | grant (pack : RequestPack ℤ) : Next (.line172 pack) (.returned pack)
  | park (pack : RequestPack ℤ) : Next (.line180 pack) (.line183 pack)
  | lockFirst (pack : RequestPack ℤ) : Next (.line183 pack) (.line184 pack)
  | lockSecond (pack : RequestPack ℤ) : Next (.line184 pack) (.returned pack)

/-- A statement moves one thread of `request_1_svc` at most, along its lines. -/
theorem request_effect {mac : ℕ} {s s' : State H C} {a : Action H C} (h : Effect mac s a s')
    (g : H) : s'.request g = s.request g ∨ (s.request g).Next (s'.request g) := by
  have hmove : ∀ (k : H) (pc : RequestThread), (s.request k).Next pc →
      Function.update s.request k pc g = s.request g ∨
        (s.request g).Next (Function.update s.request k pc g) := by
    intro k pc hpc
    exact (Function.forall_update_iff s.request fun g t =>
      t = s.request g ∨ (s.request g).Next t).mpr ⟨.inr hpc, fun _ _ => .inl rfl⟩ g
  cases h with
  | arrive k pack hr => exact hmove k _ (hr ▸ .arrive pack)
  | readHighest k pack hr => exact hmove k _ (hr ▸ .readHighest pack _)
  | writeHighest k pack read hr => exact hmove k _ (hr ▸ .writeHighest pack read)
  | defer k pack hr hd => exact hmove k _ (hr ▸ .defer pack)
  | grant k pack hr hd => exact hmove k _ (hr ▸ .grant pack)
  | park k pack hr => exact hmove k _ (hr ▸ .park pack)
  | lockFirst k pack hr hm => exact hmove k _ (hr ▸ .lockFirst pack)
  | lockSecond k pack hr hm => exact hmove k _ (hr ▸ .lockSecond pack)
  | _ => exact .inl rfl

/-! ## The mutex of the lock -/

/-- The call is past line 123 and has not executed line 159. -/
def LocalThread.inside : LocalThread → Bool
  | .idle | .line123 | .returned => false
  | _ => true

/-- The mutex `lock` lets one local call at a time past line 123. -/
structure Owned (s : State H C) : Prop where
  locked : ∀ x, (s.thread x).inside = true → s.lockvar.lock = true
  unique : ∀ x y, (s.thread x).inside = true → (s.thread y).inside = true → x = y

omit [DecidableEq H] [DecidableEq C] in
theorem owned_initial (n : ℤ) : Owned (initial n : State H C) := by
  constructor <;> simp [initial, LocalThread.inside]

/-- A step leaves every call on its side of the mutex and the mutex as it is, or it
takes one call in through the free mutex, or out of it. -/
theorem inside_effect {mac : ℕ} {s s' : State H C} {a : Action H C} (h : Effect mac s a s') :
    (s'.lockvar.lock = s.lockvar.lock ∧ ∀ x, (s'.thread x).inside = (s.thread x).inside) ∨
      (s.lockvar.lock = false ∧ s'.lockvar.lock = true ∧ ∃ x, ∀ y,
        (s'.thread y).inside = if y = x then true else (s.thread y).inside) ∨
      (∃ x, (s.thread x).inside = true ∧ ∀ y,
        (s'.thread y).inside = if y = x then false else (s.thread y).inside) := by
  have hkeep : ∀ (x : C) (pc : LocalThread), pc.inside = (s.thread x).inside →
      ∀ y, (Function.update s.thread x pc y).inside = (s.thread y).inside := by
    intro x pc hpc
    exact (Function.forall_update_iff s.thread fun y t => t.inside = (s.thread y).inside).mpr
      ⟨hpc, fun _ _ => rfl⟩
  cases h with
  | lockMutex x ht hl =>
    refine .inr (.inl ⟨hl, rfl, x, ?_⟩)
    intro y
    by_cases hy : y = x <;> simp [hy, LocalThread.inside]
  | unlockMutex x ht =>
    refine .inr (.inr ⟨x, by simp [ht, LocalThread.inside], ?_⟩)
    intro y
    by_cases hy : y = x <;> simp [hy, LocalThread.inside]
  | start x ht => exact .inl ⟨rfl, hkeep x _ (by rw [ht]; rfl)⟩
  | setRequesting x ht => exact .inl ⟨rfl, hkeep x _ (by rw [ht]; rfl)⟩
  | chooseSeqno x ht => exact .inl ⟨rfl, hkeep x _ (by rw [ht]; rfl)⟩
  | release x ht => exact .inl ⟨rfl, hkeep x _ (by rw [ht]; rfl)⟩
  | more x i ht hi => exact .inl ⟨rfl, hkeep x _ (by rw [ht]; rfl)⟩
  | done x i ht hi => exact .inl ⟨rfl, hkeep x _ (by rw [ht]; rfl)⟩
  | wake x i g ht hg => exact .inl ⟨rfl, hkeep x _ (by rw [ht]; rfl)⟩
  | next x i ht => exact .inl ⟨rfl, hkeep x _ (by rw [ht]; rfl)⟩
  | free x ht => exact .inl ⟨rfl, hkeep x _ (by rw [ht]; rfl)⟩
  | renew x ht => exact .inl ⟨rfl, hkeep x _ (by rw [ht]; rfl)⟩
  | _ => exact .inl ⟨rfl, fun _ => rfl⟩

theorem owned_effect {mac : ℕ} {s s' : State H C} {a : Action H C} (ho : Owned s)
    (h : Effect mac s a s') : Owned s' := by
  rcases inside_effect h with ⟨hl, hin⟩ | ⟨hfree, hl, x, hin⟩ | ⟨x, hx, hin⟩
  · refine ⟨?_, ?_⟩
    · intro y hy
      rw [hl]
      exact ho.locked y ((hin y).symm.trans hy)
    · intro y z hy hz
      exact ho.unique y z ((hin y).symm.trans hy) ((hin z).symm.trans hz)
  · have hnone : ∀ y, (s.thread y).inside = false := by
      intro y
      by_contra hy
      have hlocked := ho.locked y (by simpa using hy)
      simp [hfree] at hlocked
    have honly : ∀ y, (s'.thread y).inside = true → y = x := by
      intro y hy
      by_contra hne
      rw [hin, if_neg hne, hnone] at hy
      cases hy
    refine ⟨fun _ _ => hl, ?_⟩
    intro y z hy hz
    exact (honly y hy).trans (honly z hz).symm
  · have hnone : ∀ y, (s'.thread y).inside = false := by
      intro y
      rw [hin]
      split_ifs with hy
      · rfl
      · by_contra hne
        exact hy (ho.unique y x (by simpa using hne) hx)
    constructor <;> simp [hnone]

theorem owned_reaches {mac : ℕ} {n : ℤ} {G : State H C → Action H C → Prop} {s : State H C}
    (h : Reaches (step mac) G (initial n) s) : Owned s :=
  h.invariant Owned (owned_initial n) fun _ _ _ ho _ hs => owned_effect ho (effect_of_step hs)

end DistributedSystem.LockThreads
