import DistributedSystem.LockManager
import DistributedSystem.Transition

/-!
# Sequence numbers as 32-bit words

In the code `myseqno`, `highestseqno` and the `seqno` of a REQUEST are `int`s: addition
wraps around at `2 ^ 31` and the comparisons are signed. Here the service routines run on
`Int32`, one after the other on one node. An acquire chooses `highestseqno + 1`, which is
greater than all sequence numbers seen so far unless the greatest of them is the last
`int`, and nothing keeps such a number out: it comes from the network as it is.
-/
namespace DistributedSystem.LockSeqno
open LockManager Transition

variable {ι A : Type}

/-- A complete run of `request_1_svc` by the handler thread `h`, the prologue of an acquire,
or a complete release. -/
inductive Event (ι : Type) where
  | request (h : ι) (pack : RequestPack Int32)
  | acquire (n : ℤ)
  | release (n : ℤ)
  deriving DecidableEq, Repr

/-- An acquire waits while the mutex is locked, and a release of a lock that no call has
named ends the process. -/
def step (srv : Server Int32 ι A) : Event ι → Option (Server Int32 ι A)
  | .request h pack => some (request1Svc h pack srv).2
  | .acquire n => acquireEnter n (acquireFind n srv)
  | .release n => (releaseLock1Svc n srv).map Prod.snd

/-- The sequence number that an event brings to the node for lock `n`. -/
def Event.seqno (n : ℤ) : Event ι → Option Int32
  | .request _ pack => if pack.lockNumber = n then some pack.seqno else none
  | _ => none

/-- The sequence numbers of the REQUEST calls for lock `n`. -/
def seqnos (n : ℤ) (events : List (Event ι)) : List Int32 := events.filterMap (Event.seqno n)

/-- `highest` is the greatest of 0 and the numbers seen. -/
structure Highest (seen : List Int32) (highest : Int32) : Prop where
  nonneg : 0 ≤ highest
  bound : ∀ seqno ∈ seen, seqno ≤ highest
  attained : highest = 0 ∨ highest ∈ seen

theorem highest_nil : Highest [] 0 := by
  refine ⟨Int32.le_refl 0, ?_, .inl rfl⟩
  simp

/-- The macro `MAX` takes one more number into account. -/
theorem Highest.max {seen : List Int32} {highest : Int32} (h : Highest seen highest)
    (seqno : Int32) : Highest (seen ++ [seqno]) (MAX seqno highest) := by
  obtain ⟨hnonneg, hbound, hattained⟩ := h
  have hle : seqno ≤ MAX seqno highest ∧ highest ≤ MAX seqno highest := by
    unfold MAX
    grind
  have hor : MAX seqno highest = seqno ∨ MAX seqno highest = highest := by
    unfold MAX
    grind
  constructor
  · exact Int32.le_trans hnonneg hle.2
  · intro x hx
    rcases List.mem_append.mp hx with hseen | hlast
    · exact Int32.le_trans (hbound x hseen) hle.2
    · rw [List.mem_singleton.mp hlast]
      exact hle.1
  · rcases hor with hnew | hold
    · right
      simp [hnew]
    · rw [hold]
      exact hattained.imp_right (List.mem_append_left [seqno])

/-- A step changes `highestseqno` of a lock only when it handles a REQUEST for it. -/
theorem highestseqno_step {srv srv' : Server Int32 ι A} {event : Event ι} (n : ℤ)
    (h : step srv event = some srv') :
    (srv'.lockvar n).highestseqno =
      match event.seqno n with
      | some seqno => MAX seqno (srv.lockvar n).highestseqno
      | none => (srv.lockvar n).highestseqno := by
  cases event with
  | request i pack =>
    obtain rfl := Option.some.inj h
    rw [lockvar_request1Svc]
    by_cases hn : n = pack.lockNumber
    · subst hn
      cases hd : (srv.lockvar pack.lockNumber).defers srv.mac pack <;>
        simp [Event.seqno, hd, LockVar.writeHighest, LockVar.park]
    · simp [Event.seqno, hn, Ne.symm hn]
  | acquire m =>
    obtain ⟨-, -, -, hsrv⟩ := acquireEnter_eq_some h
    rw [hsrv]
    by_cases hn : n = m
    · subst hn
      simp [Event.seqno, LockVar.chooseSeqno, LockVar.setRequesting, LockVar.lockMutex]
    · simp [Event.seqno, hn]
  | release m =>
    obtain ⟨⟨woken, srv''⟩, hr, rfl⟩ := Option.map_eq_some_iff.mp h
    obtain ⟨-, -, -, hsrv⟩ := releaseLock1Svc_eq_some hr
    rw [hsrv]
    by_cases hn : n = m
    · subst hn
      simp [Event.seqno, LockVar.unlockMutex, LockVar.renewDeffered]
    · simp [Event.seqno, hn]

/-- In every run `highestseqno` of a lock is the greatest of 0 and the sequence numbers of
the REQUEST calls for it. -/
theorem highest_exec {srv srv' : Server Int32 ι A} (n : ℤ) (events : List (Event ι))
    {seen : List Int32} (hseen : Highest seen (srv.lockvar n).highestseqno)
    (h : exec step srv events = some srv') :
    Highest (seen ++ seqnos n events) (srv'.lockvar n).highestseqno := by
  induction events generalizing srv seen with
  | nil =>
    obtain rfl : srv = srv' := by simpa [exec] using h
    simpa [seqnos] using hseen
  | cons event events ih =>
    obtain ⟨s, hs, h⟩ := Option.bind_eq_some_iff.mp h
    have hstep := highestseqno_step n hs
    cases hq : event.seqno n with
    | none =>
      rw [hq] at hstep
      rw [seqnos, List.filterMap_cons_none hq]
      exact ih (hstep ▸ hseen) h
    | some seqno =>
      rw [hq] at hstep
      rw [seqnos, List.filterMap_cons_some hq, List.append_cons]
      exact ih (hstep ▸ hseen.max seqno) h

/-- For every history of one node and every acquire after it: the chosen `myseqno` is greater
than every sequence number that the node has processed for the lock if and only if none of
these is the last `int`. -/
theorem seqno_lt_myseqno_iff (nodes : List A) (mac : ℕ) {history : List (Event ι)}
    {srv srv' : Server Int32 ι A} {n : ℤ}
    (hrun : exec step ⟨nodes, mac, []⟩ history = some srv)
    (hacquire : step srv (.acquire n) = some srv') :
    (∀ seqno ∈ seqnos n history, seqno < (srv'.lockvar n).myseqno) ↔
      ∀ seqno ∈ seqnos n history, seqno ≠ Int32.maxValue := by
  have hhighest : Highest (seqnos n history) (srv.lockvar n).highestseqno := by
    simpa using highest_exec n history highest_nil hrun
  have hchosen : (srv'.lockvar n).myseqno = (srv.lockvar n).highestseqno + 1 := by
    obtain ⟨-, -, -, hsrv⟩ := acquireEnter_eq_some hacquire
    rw [hsrv, if_pos rfl, lockvar_acquireFind]
    rfl
  obtain ⟨hnonneg, hbound, hattained⟩ := hhighest
  rw [hchosen]
  constructor
  · rintro hall seqno hseqno rfl
    -- the greatest number is the last one, and its successor is the first one
    have hle := hbound _ hseqno
    have hlt := hall _ hseqno
    grind
  · intro hne seqno hseqno
    have hle := hbound seqno hseqno
    have hlast : (srv.lockvar n).highestseqno ≠ Int32.maxValue := by
      rcases hattained with hzero | hmem
      · rw [hzero]
        decide
      · exact hne _ hmem
    grind

/-- A REQUEST with number 5, and two acquires of which the second is the one in question. -/
theorem seqno_lt_myseqno_five : ∃ srv srv' : Server Int32 Unit Unit,
    exec step ⟨[], 0, []⟩ [.request () ⟨1, 5, 7⟩, .acquire 1, .release 1] = some srv ∧
      step srv (.acquire 1) = some srv' ∧
      ∀ seqno ∈ seqnos 1 ([.request () ⟨1, 5, 7⟩, .acquire 1, .release 1] : List (Event Unit)),
        seqno < (srv'.lockvar 1).myseqno := by
  refine ⟨_, _, rfl, rfl, ?_⟩
  refine (seqno_lt_myseqno_iff [] 0 (n := 1) rfl rfl).mpr ?_
  have hseqnos : seqnos 1 ([.request () ⟨1, 5, 7⟩, .acquire 1, .release 1] : List (Event Unit)) =
    [5] := rfl
  simp only [hseqnos, List.mem_singleton, forall_eq]
  decide

/-- After one REQUEST with the last `int` an acquire chooses the first one. -/
theorem not_seqno_lt_myseqno : ∃ srv srv' : Server Int32 Unit Unit,
    exec step ⟨[], 0, []⟩ [.request () ⟨1, Int32.maxValue, 7⟩] = some srv ∧
      step srv (.acquire 1) = some srv' ∧ (srv'.lockvar 1).myseqno = Int32.minValue ∧
      ¬ ∀ seqno ∈ seqnos 1 [.request () ⟨1, Int32.maxValue, 7⟩],
        seqno < (srv'.lockvar 1).myseqno := by
  refine ⟨_, _, rfl, rfl, rfl, ?_⟩
  intro hall
  have hlt := hall Int32.maxValue List.mem_cons_self
  revert hlt
  decide

end DistributedSystem.LockSeqno
