import DistributedSystem.DsmInvariant

/-!
# Remote calls that fail

A remote call that brings back no reply returns NULL to the handler that made it. The
handlers print a message then and go on: they follow the null pointer, which ends the
process, or they do not look at it at all and report success.
-/
namespace DistributedSystem.Dsm
open LinkedList Rpc

/-- The handler of the procedure makes remote calls. -/
def Call.nests : Call → Bool
  | .pageLocate _ | .pageCreat _ | .pageRequest _ => true
  | _ => false

/-- The reply tells the caller that what it asked for was done. -/
def Reported : Call → Reply → Prop
  | .pageLocate _, r => ∃ ip, r = .host ip ∧ cstr ip.toList ≠ []
  | .pageCreat _, r => r = .int 1
  | .pageRequest _, r => ∃ page, r = .page page
  | _, _ => False

/-- One of the calls has failed. -/
def Failed (trace : List (Ip × Call × Answer Reply)) : Prop := ∃ call ∈ trace, call.2.2 = .failed

/-- After a failure, the handler of `c` that has started in the state `s` goes on without its
result until it returns, does not report success, and has left both lists as they were. -/
def Intact (c : Call) (s : Server) (trace : List (Ip × Call × Answer Reply)) (q : Handler) :
    Prop :=
  Failed trace → ∃ s' r, q = .ret s' r ∧ ¬ Reported c r ∧
    s'.dir = s.dir ∧ s'.dirHeap = s.dirHeap ∧ s'.dsm = s.dsm ∧ s'.dsmHeap = s.dsmHeap

/-- The search through the other servers comes to an end only before a failure. -/
theorem exits_locateRemote {argp : PageId} {ips : List Ip} {s s' : Server} {r : Reply}
    {trace : List (Ip × Call × Answer Reply)}
    (h : (locateRemote argp ips s).Runs trace (.ret s' r)) : ¬ Failed trace := by
  induction ips generalizing trace with
  | nil =>
    cases h with
    | refl => simp [Failed]
  | cons ip ips ih =>
    rw [locateRemote] at h
    split_ifs at h with hlocal
    · exact ih h
    · cases h with
      | @call _ _ _ _ _ trace ans h =>
        dsimp only at h
        split at h
        · cases h with
          | refl => simp [Failed]
        · have hrest := ih h
          simpa [Failed] using hrest
        · cases h

/-- A handler that returns after a failure reports success. -/
theorem reported_of_failed {c : Call} (hc : c.nests = true) {s s' : Server} {r : Reply}
    {trace : List (Ip × Call × Answer Reply)} (h : (psuDsm1 c s).Runs trace (.ret s' r))
    (hfailed : Failed trace) : Reported c r := by
  have htrue : Kept fun _ => True := by constructor <;> intros <;> trivial
  obtain ⟨-, hreplies⟩ := (htrue.psuDsm1 c trivial).runs h
  cases c with
  | pageCreat argp => exact hreplies
  | pageRequest argp => exact hreplies
  | pageLocate argp =>
    have hnil : ¬ Failed [] := by simp [Failed]
    rcases runs_orExit h with ⟨rfl, -⟩ | ⟨found, -, h⟩
    · exact (hnil hfailed).elim
    · cases found with
      | none =>
        cases h with
        | refl => exact (hnil hfailed).elim
      | some p => exact (exits_locateRemote h hfailed).elim
  | _ => cases hc

/-- For every state, every pattern of answers and every run of PAGE_LOCATE, PAGE_CREAT or
PAGE_REQUEST up to its end: the handler deals with failures of its calls as it should if and
only if there are none. After a failure the process ends or success is reported. -/
theorem intact_iff {c : Call} (hc : c.nests = true) {s : Server}
    {trace : List (Ip × Call × Answer Reply)} {q : Handler} (h : (psuDsm1 c s).Runs trace q)
    (hq : q.Final) :
    (Intact c s trace q ↔ ¬ Failed trace) ∧
      (Failed trace → (∃ s', q = .exit s') ∨ ∃ s' r, q = .ret s' r ∧ Reported c r) := by
  constructor
  · constructor
    · intro hintact hfailed
      obtain ⟨s', r, rfl, hnot, -⟩ := hintact hfailed
      exact hnot (reported_of_failed hc h hfailed)
    · intro hnone hfailed
      exact (hnone hfailed).elim
  · intro hfailed
    cases q with
    | ret s' r => exact .inr ⟨s', r, rfl, reported_of_failed hc h hfailed⟩
    | exit s' => exact .inl ⟨s', rfl⟩
    | call s' ip c' k => exact hq.elim

/-- The run of PAGE_CREAT for "hello" at the first server of the table in which the PAGE_FIND at
the second one brings back no reply. -/
theorem runs_pageCreat_failed :
    (psuDsm1 (.pageCreat hello) (startedTable false).state).Runs
      [(serverIp true, .pageFind hello, .failed)] (.exit (startedTable false).state) := by
  obtain ⟨k, hcall, hfailed, -, -⟩ := pageCreat_startedTable
  show (psuDsmPageCreat1Svc hello (startedTable false).state).Runs _ _
  rw [hcall]
  refine .call .failed ?_
  rw [hfailed]
  exact .refl _

/-- It ends the process. -/
theorem not_intact_hello :
    (psuDsm1 (.pageCreat hello) (startedTable false).state).Runs
        [(serverIp true, .pageFind hello, .failed)] (.exit (startedTable false).state) ∧
      ¬ Intact (.pageCreat hello) (startedTable false).state
        [(serverIp true, .pageFind hello, .failed)] (.exit (startedTable false).state) := by
  refine ⟨runs_pageCreat_failed, ?_⟩
  intro h
  obtain ⟨s', r, hq, -⟩ := h ⟨_, List.mem_singleton_self _, rfl⟩
  cases hq

/-- PAGE_CREAT of "hello" at that server returns when the second one answers that it does not
have the page. -/
theorem intact_creat : ∃ s',
    (psuDsm1 (.pageCreat hello) (startedTable false).state).Runs
        [(serverIp true, .pageFind hello, .reply (.int 0))] (.ret s' (.int 1)) ∧
      Intact (.pageCreat hello) (startedTable false).state
        [(serverIp true, .pageFind hello, .reply (.int 0))] (.ret s' (.int 1)) := by
  obtain ⟨k, hcall, -, hmissing, -⟩ := pageCreat_startedTable
  obtain ⟨s', hlocal⟩ : ∃ s', creatLocal hello (startedTable false).state = .ret s' (.int 1) :=
    ⟨_, rfl⟩
  have hruns : (psuDsm1 (.pageCreat hello) (startedTable false).state).Runs
      [(serverIp true, .pageFind hello, .reply (.int 0))] (.ret s' (.int 1)) := by
    show (psuDsmPageCreat1Svc hello (startedTable false).state).Runs _ _
    rw [hcall]
    apply Prog.Runs.call
    rw [hmissing, hlocal]
    exact .refl _
  have hfinal : (Prog.ret s' (.int 1) : Handler).Final := trivial
  exact ⟨s', hruns, (intact_iff rfl hruns hfinal).1.mpr (by simp [Failed])⟩

end DistributedSystem.Dsm
