import DistributedSystem.DsmDirectory
import DistributedSystem.DsmStrings
import DistributedSystem.RpcRelated

/-!
# The bytes that a request returns

PAGE_REQUEST returns the page in a static variable, into which its loops put what the first
reader sends in answer to PAGE_FETCH. That reader sends what it has at the address in its table,
an address that `insert_dsm` does not set.

What the segments and the static variables hold does not decide what the servers do, so that one
run of a request says which bytes would be returned for any contents.
-/
namespace DistributedSystem.Dsm
open LinkedList Rpc

/-! ## The segment of a page -/

/-- The segment at the address under which the table of the server has the page. -/
def listed (page : PageId) (s : Server) : Option Mapping :=
  (searchDsm page s).bind fun
    | none => none
    | some q => s.dsmHeap[q]?.bind fun c => s.mapped c.entry.addr

section
variable {N : Type} [DecidableEq N] {resolve : Ip → Option N} {depth : ℕ}
  {net net' : N → Process Server} {n : N} {argp : Request} {p : ℕ} {c : Cell DirEntry} {pg : Page}

end

/-! ## Contents decide nothing -/

/-- The servers differ in the contents of their segments and of the static variable only. -/
def Server.Alike (s s' : Server) : Prop :=
  ∃ segments result, s' = { s with segments := segments, result := result } ∧
    ∀ key, (segments key).isSome = (s.segments key).isSome

/-- The replies differ in the contents of a page only. -/
inductive Reply.Alike : Reply → Reply → Prop
  | int (result : ℤ) : Alike (.int result) (.int result)
  | host (ip : Ip) : Alike (.host ip) (.host ip)
  | page (pg pg' : Page) : Alike (.page pg) (.page pg')
  | void : Alike .void .void

namespace Server.Alike

variable {s s' : Server}

/-- What does not depend on the contents is the same. -/
theorem congr {α : Type} {f : Server → α} (h : s.Alike s')
    (hf : ∀ segments result, f { s with segments := segments, result := result } = f s) :
    f s' = f s := by
  obtain ⟨segments, result, rfl, -⟩ := h
  exact hf segments result

theorem searchDir (h : s.Alike s') (page : PageId) : searchDir page s' = searchDir page s :=
  h.congr fun _ _ => rfl

theorem searchDsm (h : s.Alike s') (page : PageId) : searchDsm page s' = searchDsm page s :=
  h.congr fun _ _ => rfl

theorem dirHeap (h : s.Alike s') : s'.dirHeap = s.dirHeap := h.congr fun _ _ => rfl

theorem dsmHeap (h : s.Alike s') : s'.dsmHeap = s.dsmHeap := h.congr fun _ _ => rfl

theorem server (h : s.Alike s') : s'.server = s.server := h.congr fun _ _ => rfl

theorem undef (h : s.Alike s') : s'.undef = s.undef := h.congr fun _ _ => rfl

theorem holds (h : s.Alike s') (p i : ℕ) : holds p i s' = holds p i s := h.congr fun _ _ => rfl

theorem result (h : s.Alike s') (pg pg' : Page) :
    Alike { s with result := pg } { s' with result := pg' } := by
  obtain ⟨segments, result, rfl, hsome⟩ := h
  exact ⟨segments, pg', rfl, hsome⟩

theorem unset (h : s.Alike s') : s.unset.2.Alike s'.unset.2 := by
  obtain ⟨segments, result, rfl, hsome⟩ := h
  exact ⟨segments, result, rfl, hsome⟩

theorem mprotect (h : s.Alike s') (addr : ℕ) (prot : Prot) :
    (s.mprotect addr prot).Alike (s'.mprotect addr prot) := by
  obtain ⟨segments, result, rfl, hsome⟩ := h
  exact ⟨segments, result, rfl, hsome⟩

theorem memcpyFrom (h : s.Alike s') (addr : ℕ) :
    Option.Rel (fun _ _ => True) (s.memcpyFrom addr) (s'.memcpyFrom addr) := by
  obtain ⟨segments, result, rfl, hsome⟩ := h
  show Option.Rel _ ((s.mapped addr).bind _) ((s.mapped addr).bind _)
  cases s.mapped addr with
  | none => exact .none
  | some m =>
    dsimp only [Option.bind_some]
    split_ifs
    · exact .none
    · exact rel_of_isSome (hsome m.key).symm

end Server.Alike

section
variable {s s' : Server} {fetched fetched' : Answer Reply}

end

section
variable {N : Type}

variable [DecidableEq N]

end

/-! ## A reader of "hello" -/

end DistributedSystem.Dsm
