import DistributedSystem.DsmClient
import DistributedSystem.DsmDirectory
import DistributedSystem.DsmStrings

/-!
# The index of a server in the table

`get_server_id` finds the bit of a server in a directory entry by its address. PAGE_REQUEST
looks for the address in the field `from` of the request. Requests are sent by
`psu_dsm_page_creat_1_svc` and by `segv_handler`, and neither of them sets that field.
-/
namespace DistributedSystem.Dsm
open LinkedList Rpc

/-! ## The requests that are sent -/

/-- A request that is sent on behalf of `host`, where `u` is what its sender finds in memory
that it has not set. -/
inductive Sends (host : Ip) (u : Undef) : Request → Prop
  | creat {s : Server} {page : PageId} {ip : Ip} {argp : Request} (hhost : s.localHost = host)
      (hu : s.undef 0 = u) (h : (psuDsmPageCreat1Svc page s).Calls ip (.pageRequest argp)) :
      Sends host u argp
  | fault {c : Client} {addr : ℕ} {entry : DsmEntry} (write : Bool) (hu : c.undef 0 = u)
      (h : getNameFromAddr ⟨u.page, u.addr, u.sender⟩ addr c.cdsm = some entry) :
      Sends host u { pageid := entry.page, mode := if write then .RW else .RO, sender := u.sender }

theorem calls_orExit {α : Type} {s : Server} {r : Option α} {k : α → Handler} {ip : Ip} {c : Call}
    (h : (orExit s r k).Calls ip c) : ∃ a, r = some a ∧ (k a).Calls ip c := by
  cases r with
  | none =>
    obtain ⟨trace, s', k', h⟩ := h
    cases h
  | some a => exact ⟨a, rfl, h⟩

theorem not_calls_ret {s : Server} {r : Reply} {ip : Ip} {c : Call} :
    ¬ (Prog.ret s r : Handler).Calls ip c := by
  rintro ⟨trace, s', k, h⟩
  cases h

theorem not_calls_exit {s : Server} {ip : Ip} {c : Call} :
    ¬ (Prog.exit s : Handler).Calls ip c := by
  rintro ⟨trace, s', k, h⟩
  cases h

/-- A handler that makes a call makes this one first, or another one after its answer. -/
theorem calls_call {s : Server} {ip ip' : Ip} {c c' : Call} {k : Server → Answer Reply → Handler}
    (h : (Prog.call s ip c k).Calls ip' c') : c' = c ∨ ∃ ans, (k s ans).Calls ip' c' := by
  obtain ⟨trace, s', k', h⟩ := h
  cases h with
  | refl => exact .inl rfl
  | call ans h => exact .inr ⟨ans, _, s', k', h⟩

theorem not_calls_creatAttach {pageid : PageId} {bytes : Bytes} {location : Ip} {s : Server}
    {ip : Ip} {c : Call} : ¬ (creatAttach pageid bytes location s).Calls ip c := by
  intro h
  obtain ⟨s₁, -, h⟩ := calls_orExit h
  obtain ⟨s₂, -, h⟩ := calls_orExit h
  exact not_calls_ret h

theorem not_calls_creatLocal {pageid : PageId} {s : Server} {ip : Ip} {c : Call} :
    ¬ (creatLocal pageid s).Calls ip c := by
  intro h
  obtain ⟨s₁, -, h⟩ := calls_orExit h
  obtain ⟨s₂, -, h⟩ := calls_orExit h
  exact not_calls_ret h

theorem sender_of_creatRemote {pageid : PageId} {ips : List Ip} {s : Server} {ip : Ip}
    {argp : Request} (h : (creatRemote pageid ips s).Calls ip (.pageRequest argp)) :
    argp.sender = (s.undef 0).sender := by
  induction ips with
  | nil => exact (not_calls_creatLocal h).elim
  | cons ip' ips ih =>
    rw [creatRemote] at h
    split_ifs at h with hlocal
    · exact ih h
    · obtain h | ⟨ans, h⟩ := calls_call h
      · cases h
      · split at h
        · obtain h | ⟨ans, h⟩ := calls_call h
          · cases h
            rfl
          · split at h
            · exact (not_calls_exit h).elim
            · exact (not_calls_creatAttach h).elim
        · exact ih h
        · exact (not_calls_exit h).elim

/-- The field `from` of every request is what its sender has found there. -/
theorem Sends.sender {host : Ip} {u : Undef} {argp : Request} (h : Sends host u argp) :
    argp.sender = u.sender := by
  cases h with
  | @creat s page ip argp hhost hu h =>
    subst hu
    obtain ⟨found, -, h⟩ := calls_orExit h
    cases found with
    | none => exact sender_of_creatRemote h
    | some p =>
      obtain h | ⟨ans, h⟩ := calls_call h
      · cases h
        rfl
      · split at h
        · exact (not_calls_creatAttach h).elim
        · exact (not_calls_exit h).elim
        · exact (not_calls_exit h).elim
  | fault write hu h => rfl

/-! ## The index -/

end DistributedSystem.Dsm
