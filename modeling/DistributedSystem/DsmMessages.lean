import DistributedSystem.DsmInvariant
import DistributedSystem.RpcEncoding
import DistributedSystem.Xdr

/-!
# Messages of the distributed memory

The calls and replies of the distributed memory as they travel: the routines of
`psu_dsm_msg_xdr.c`, what the stubs of `psu_dsm_msg_clnt.c` write and read, and the switch of
`psu_dsm_1` in `psu_dsm_msg_svc.c`, which decodes the argument into memory that it has
zeroed, or answers with an error and does nothing else.

Replies can be sent, and the memory of arguments can be freed.
-/
namespace DistributedSystem.Dsm
open Rpc Transition Xdr

/-! ## Routines -/

/-- The mode that a number stands for. No handler tells the numbers other than those of `RO`
and `RW` apart. -/
def Mode.ofNumber (n : ℕ) : Mode := if n = 1 then .RO else if n = 2 then .RW else .NA

def xdrModeT : Proc Mode := xdrNumber 4 (fun m => m.val.toNat) Mode.ofNumber

def xdrHostT : Proc Ip := xdrVector ipLen xdrChar

def xdrPageT : Proc Page :=
  (xdrUInt.onField Page.size fun objp x => { objp with size := x }).andThen <|
  (xdrVector pageSize xdrChar).onField (fun objp => Vector.ofFn objp.addr)
    fun objp x => { objp with addr := x.get }

def xdrPageidT : Proc PageId :=
  ((xdrVector nameLen xdrChar).onField PageId.name fun objp x => { objp with name := x }).andThen <|
  xdrUInt.onField PageId.size fun objp x => { objp with size := x }

def xdrRequestT : Proc Request :=
  (xdrPageidT.onField Request.pageid fun objp x => { objp with pageid := x }).andThen <|
  (xdrModeT.onField Request.mode fun objp x => { objp with mode := x }).andThen <|
  (xdrVector ipLen xdrChar).onField Request.sender fun objp x => { objp with sender := x }

theorem codec_xdrModeT : ∃ enc, Codec xdrModeT enc := by
  refine ⟨_, codec_xdrNumber ?_⟩
  intro m
  cases m <;> rfl

theorem codec_xdrHostT : ∃ enc, Codec xdrHostT enc := by
  obtain ⟨enc, hchar⟩ := codec_xdrChar
  exact ⟨_, codec_xdrVector hchar⟩

theorem get_ofFn {n : ℕ} (f : Fin n → UInt8) : (Vector.ofFn f).get = f := by
  funext i
  show (Vector.ofFn f)[i.val] = f i
  simp

theorem codec_xdrPageT : ∃ enc, Codec xdrPageT enc := by
  obtain ⟨enc, hchar⟩ := codec_xdrChar
  have hset : ∀ obj : Page, { obj with addr := (Vector.ofFn obj.addr).get } = obj := by
    intro obj
    rw [get_ofFn]
  have hsize : Codes (xdrUInt.onField Page.size fun objp x => { objp with size := x }) _ _ :=
    codec_xdrUInt.onField fun _ => rfl
  have haddr : Codes ((xdrVector pageSize xdrChar).onField
      (fun objp : Page => Vector.ofFn objp.addr) fun objp x => { objp with addr := x.get }) _ _ :=
    (codec_xdrVector hchar).onField hset
  refine ⟨_, (hsize.andThen haddr).encode, ?_⟩
  intro obj obj₀ rest inline
  obtain ⟨inline', hdecode⟩ := (hsize.andThen haddr).decode obj obj₀ rest inline
  refine ⟨inline', ?_⟩
  simp only [get_ofFn] at hdecode
  exact hdecode

theorem codec_xdrPageidT : ∃ enc, Codec xdrPageidT enc := by
  obtain ⟨enc, hchar⟩ := codec_xdrChar
  exact ⟨_, ((codec_xdrVector hchar).onField fun _ => rfl).andThen <|
    codec_xdrUInt.onField fun _ => rfl⟩

theorem codec_xdrRequestT : ∃ enc, Codec xdrRequestT enc := by
  obtain ⟨enc, hchar⟩ := codec_xdrChar
  obtain ⟨encPageid, hpageid⟩ := codec_xdrPageidT
  obtain ⟨encMode, hmode⟩ := codec_xdrModeT
  exact ⟨_, (hpageid.onField fun _ => rfl).andThen <| (hmode.onField fun _ => rfl).andThen <|
    (codec_xdrVector hchar).onField fun _ => rfl⟩

theorem fixedSize_xdrPageidT : FixedSize xdrPageidT 132 :=
  (((fixedSize_xdrNumber 4 _ _).xdrVector nameLen).onField _ _).andThen <|
    (fixedSize_xdrNumber 4 _ _).onField _ _

theorem fixedSize_xdrRequestT : FixedSize xdrRequestT 200 :=
  (fixedSize_xdrPageidT.onField _ _).andThen <| ((fixedSize_xdrNumber 4 _ _).onField _ _).andThen <|
    ((fixedSize_xdrNumber 4 _ _).xdrVector ipLen).onField _ _

/-! ## Procedures -/

/-- The cases of the switch in `psu_dsm_1`. -/
inductive Procedure where
  | pageFind | pageLocate | pageCreat | pageUpdate | pageRequest | pageFetch | pageAck
  deriving DecidableEq, Repr

def Procedure.ofRqProc (rqProc : UInt32) : Option Procedure :=
  if rqProc = 1 then some .pageFind
  else if rqProc = 2 then some .pageLocate
  else if rqProc = 3 then some .pageCreat
  else if rqProc = 4 then some .pageUpdate
  else if rqProc = 5 then some .pageRequest
  else if rqProc = 6 then some .pageFetch
  else if rqProc = 7 then some .pageAck
  else none

/-- How many bytes the argument takes. -/
def Procedure.argSize : Procedure → ℕ
  | .pageFind | .pageLocate | .pageCreat | .pageAck => 132
  | .pageUpdate | .pageRequest | .pageFetch => 200

def zeroPageId : PageId := ⟨Vector.replicate nameLen 0, 0⟩

def zeroRequest : Request := ⟨zeroPageId, .NA, Vector.replicate ipLen 0⟩

/-- `svc_getargs` into the zeroed argument: the routine of the procedure with its argument. -/
def svcGetargs (args : List UInt8) : Procedure → Option Call
  | .pageFind => (xdrPageidT.parse zeroPageId args).map .pageFind
  | .pageLocate => (xdrPageidT.parse zeroPageId args).map .pageLocate
  | .pageCreat => (xdrPageidT.parse zeroPageId args).map .pageCreat
  | .pageUpdate => (xdrRequestT.parse zeroRequest args).map .pageUpdate
  | .pageRequest => (xdrRequestT.parse zeroRequest args).map .pageRequest
  | .pageFetch => (xdrRequestT.parse zeroRequest args).map .pageFetch
  | .pageAck => (xdrPageidT.parse zeroPageId args).map .pageAck

/-- What comes back to a stub: the bytes of a result, or one of two errors. -/
inductive Message where
  | success (bytes : List UInt8)
  | noproc
  | cantDecode
  deriving DecidableEq, Repr

/-- The procedure that a stub calls and the bytes of the argument that it sends. -/
def Call.message : Call → UInt32 × List UInt8
  | .pageFind pageid => (1, xdrPageidT.bytes pageid)
  | .pageLocate pageid => (2, xdrPageidT.bytes pageid)
  | .pageCreat pageid => (3, xdrPageidT.bytes pageid)
  | .pageUpdate request => (4, xdrRequestT.bytes request)
  | .pageRequest request => (5, xdrRequestT.bytes request)
  | .pageFetch request => (6, xdrRequestT.bytes request)
  | .pageAck pageid => (7, xdrPageidT.bytes pageid)

/-- The bytes of a result. -/
def Reply.bytes : Reply → List UInt8
  | .int result => xdrInt.bytes (Int32.ofInt result)
  | .host ip => xdrHostT.bytes ip
  | .page p => xdrPageT.bytes p
  | .void => []

/-- What a stub makes of the bytes of a result, in its own variable that it has zeroed. The
variable of `psu_dsm_page_locate_1` is an `int`: the characters of a host that come behind it are
taken to stay where they are written. -/
def clntResult (bytes : List UInt8) : Call → Option Reply
  | .pageFind _ | .pageCreat _ | .pageUpdate _ =>
    (xdrInt.parse 0 bytes).map fun result => .int result.toInt
  | .pageLocate _ => (xdrHostT.parse (Vector.replicate ipLen 0) bytes).map .host
  | .pageRequest _ | .pageFetch _ => (xdrPageT.parse ⟨0, fun _ => 0⟩ bytes).map .page
  | .pageAck _ => some .void

/-- A stub that gets an error, or bytes that it cannot decode, returns NULL. -/
def stubResult (c : Call) : Message → Answer Reply
  | .success bytes =>
    match clntResult bytes c with
    | some r => .reply r
    | none => .failed
  | _ => .failed

/-- The stubs. -/
def stubs : Encoding Call Reply (UInt32 × List UInt8) Message where
  call := Call.message
  reply _ r := .success r.bytes
  read := stubResult

/-- `psu_dsm_1` with the bytes of a call, whose handlers call the stubs. -/
def psuDsm1Switch (call : UInt32 × List UInt8) (s : Server) :
    Prog Ip Server (UInt32 × List UInt8) Message :=
  if call.1 = 0 then .ret s (.success [])
  else
    match Procedure.ofRqProc call.1 with
    | none => .ret s .noproc
    | some p =>
      match svcGetargs call.2 p with
      | none => .ret s .cantDecode
      | some c => (psuDsm1 c s).encoded stubs c

/-- The servers that exchange these messages. -/
def messageService {N : Type} (resolve : Ip → Option N) :
    Service N Ip Server (UInt32 × List UInt8) Message where
  resolve := resolve
  handler := psuDsm1Switch

/-! ## What a stub sends is what the switch decodes -/

theorem svcGetargs_message (c : Call) :
    c.message.1 ≠ 0 ∧ ∃ p, Procedure.ofRqProc c.message.1 = some p ∧
      svcGetargs c.message.2 p = some c := by
  obtain ⟨encPageid, hpageid⟩ := codec_xdrPageidT
  obtain ⟨encRequest, hrequest⟩ := codec_xdrRequestT
  have hp : ∀ (f : PageId → Call) pageid,
      (xdrPageidT.parse zeroPageId (xdrPageidT.bytes pageid)).map f = some (f pageid) := by
    intro f pageid
    rw [hpageid.parse_bytes, Option.map_some]
  have hr : ∀ (f : Request → Call) request,
      (xdrRequestT.parse zeroRequest (xdrRequestT.bytes request)).map f = some (f request) := by
    intro f request
    rw [hrequest.parse_bytes, Option.map_some]
  cases c with
  | pageFind pageid => exact ⟨by simp [Call.message], .pageFind, rfl, hp _ pageid⟩
  | pageLocate pageid => exact ⟨by simp [Call.message], .pageLocate, rfl, hp _ pageid⟩
  | pageCreat pageid => exact ⟨by simp [Call.message], .pageCreat, rfl, hp _ pageid⟩
  | pageUpdate request => exact ⟨by simp [Call.message], .pageUpdate, rfl, hr _ request⟩
  | pageRequest request => exact ⟨by simp [Call.message], .pageRequest, rfl, hr _ request⟩
  | pageFetch request => exact ⟨by simp [Call.message], .pageFetch, rfl, hr _ request⟩
  | pageAck pageid => exact ⟨by simp [Call.message], .pageAck, rfl, hp _ pageid⟩

/-- The switch runs the handler of the call whose message it gets. -/
theorem psuDsm1Switch_message (c : Call) (s : Server) :
    psuDsm1Switch c.message s = (psuDsm1 c s).encoded stubs c := by
  obtain ⟨hproc, p, hp, hargs⟩ := svcGetargs_message c
  simp only [psuDsm1Switch, if_neg hproc, hp, hargs]

/-- The replies of the handlers, whose numbers are small. -/
def smallReplies (c : Call) (r : Reply) : Prop :=
  replies c r ∧ ∀ result, r = .int result → result = 0 ∨ result = 1

theorem psuDsm1_smallReplies (c : Call) (s : Server) :
    (psuDsm1 c s).Meets (fun _ => True) smallReplies (smallReplies c) := by
  have hkept : Kept fun _ => True := Kept.of_fixed fun _ _ _ h => h
  have hall : (∀ r, replies c r → ∀ result, r = .int result → result = 0 ∨ result = 1) →
      (psuDsm1 c s).Meets (fun _ => True) smallReplies (smallReplies c) := fun hsmall =>
    (hkept.psuDsm1 c trivial).mono (fun _ _ _ => trivial) fun r hr => ⟨hr, hsmall r hr⟩
  cases c with
  | pageFind argp =>
    refine orExit_meets trivial ?_
    intro found _
    cases found with
    | none => exact ⟨trivial, ⟨0, rfl⟩, by simp⟩
    | some p => exact ⟨trivial, ⟨1, rfl⟩, by simp⟩
  | pageLocate argp => exact hall (by simp [replies])
  | pageCreat argp => exact hall (by simp [replies])
  | pageUpdate argp => exact hall (by simp [replies])
  | pageRequest argp => exact hall (by simp [replies])
  | pageFetch argp => exact hall (by simp [replies])
  | pageAck argp => exact hall (by simp [replies])

theorem parse_bytes_int {result : ℤ} (h : result = 0 ∨ result = 1) :
    (xdrInt.parse 0 (Reply.int result).bytes).map (fun i => Reply.int i.toInt) =
      some (.int result) := by
  rw [Reply.bytes, codec_xdrInt.parse_bytes]
  rcases h with rfl | rfl
  · rfl
  · rfl

theorem parse_bytes_host (ip : Ip) :
    xdrHostT.parse (Vector.replicate ipLen 0) (Reply.host ip).bytes = some ip := by
  obtain ⟨enc, hhost⟩ := codec_xdrHostT
  rw [Reply.bytes, hhost.parse_bytes]

theorem parse_bytes_page (page : Page) :
    xdrPageT.parse ⟨0, fun _ => 0⟩ (Reply.page page).bytes = some page := by
  obtain ⟨enc, hpage⟩ := codec_xdrPageT
  rw [Reply.bytes, hpage.parse_bytes]

/-- A stub reads the reply that the handler of its call has given. -/
theorem clntResult_bytes {c : Call} {r : Reply} (h : smallReplies c r) :
    clntResult r.bytes c = some r := by
  obtain ⟨hr, hsmall⟩ := h
  cases c with
  | pageFind argp =>
    obtain ⟨result, rfl⟩ := hr
    rw [clntResult, parse_bytes_int (hsmall result rfl)]
  | pageLocate argp =>
    obtain ⟨ip, rfl⟩ := hr
    rw [clntResult, parse_bytes_host, Option.map_some]
  | pageCreat argp =>
    obtain rfl := hr
    rw [clntResult, parse_bytes_int (.inr rfl)]
  | pageUpdate argp =>
    obtain rfl := hr
    rw [clntResult, parse_bytes_int (.inl rfl)]
  | pageRequest argp =>
    obtain ⟨page, rfl⟩ := hr
    rw [clntResult, parse_bytes_page, Option.map_some]
  | pageFetch argp =>
    obtain ⟨page, rfl⟩ := hr
    rw [clntResult, parse_bytes_page, Option.map_some]
  | pageAck argp =>
    obtain rfl := hr
    rw [clntResult]

theorem read_reply {c : Call} {r : Reply} (h : smallReplies c r) :
    stubs.read c (stubs.reply c r) = .reply r := by
  show stubResult c (.success r.bytes) = .reply r
  rw [stubResult, clntResult_bytes h]

variable {N : Type} [DecidableEq N]

/-- Servers that exchange the bytes of calls and replies serve every call, with all the calls
that its handler makes in turn, as if the calls and replies themselves were exchanged; and the
stub of the caller returns what the handler has replied. -/
theorem served_by_messages (resolve : Ip → Option N) (depth : ℕ) (busy : List N) (n : N)
    (c : Call) (net : N → Process Server) :
    serve (messageService resolve) depth busy n c.message net =
        (serve (service resolve) depth busy n c net).map (fun r => (stubs.answer c r.1, r.2)) ∧
      ∀ r, serve (service resolve) depth busy n c net = some r →
        stubs.readAnswer c (stubs.answer c r.1) = r.1 := by
  exact serve_encoded (fun _ _ => read_reply) rfl psuDsm1Switch_message psuDsm1_smallReplies depth
    busy n c net

/-- In every order in which calls arrive and handlers run, on any number of servers in whatever
states: servers that exchange the bytes can take the same steps as servers that exchange the
calls and replies themselves, and then each of them is in the same state, at the same point and
waits for the same server. -/
theorem runs_by_messages (resolve : Ip → Option N) (server : N → Server)
    (as : List (Action N Call)) :
    (exec (step (messageService resolve)) (fun n => .idle (server n))
        (as.map (Action.encoded stubs))).map (fun st n => (st n).shape) =
      (exec (step (service resolve)) (fun n => .idle (server n)) as).map
        fun st n => (st n).shape := by
  have hobey : AllObey (fun _ _ => True) smallReplies (fun _ => True)
      fun n => (.idle (server n) : Status N Ip Server Call Reply) := fun _ => trivial
  have hencode : AllEncode stubs (fun n => (.idle (server n) : Status N Ip Server Call Reply))
      fun n => .idle (server n) := fun _ => rfl
  have hrel : Option.Rel (AllEncode stubs)
      (exec (step (service resolve)) (fun n => .idle (server n)) as)
      (exec (step (messageService resolve)) (fun n => .idle (server n))
        (as.map (Action.encoded stubs))) :=
    exec_encoded (fun _ _ => read_reply) rfl psuDsm1Switch_message psuDsm1_smallReplies hobey
      hencode as
  generalize exec (step (service resolve)) (fun n => .idle (server n)) as = next at hrel ⊢
  generalize exec (step (messageService resolve)) (fun n => .idle (server n))
    (as.map (Action.encoded stubs)) = next' at hrel ⊢
  cases hrel with
  | none => rfl
  | some hencode =>
    have hshape := funext hencode.shape
    exact congrArg some hshape

theorem isSome_svcGetargs (args : List UInt8) (p : Procedure) :
    (svcGetargs args p).isSome = true ↔ p.argSize ≤ args.length := by
  have hpageid : ∀ f : PageId → Call,
      ((xdrPageidT.parse zeroPageId args).map f).isSome = true ↔ 132 ≤ args.length := by
    intro f
    rw [Option.isSome_map]
    exact fixedSize_xdrPageidT.isSome_parse zeroPageId args
  have hrequest : ∀ f : Request → Call,
      ((xdrRequestT.parse zeroRequest args).map f).isSome = true ↔ 200 ≤ args.length := by
    intro f
    rw [Option.isSome_map]
    exact fixedSize_xdrRequestT.isSome_parse zeroRequest args
  cases p with
  | pageFind => exact hpageid _
  | pageLocate => exact hpageid _
  | pageCreat => exact hpageid _
  | pageUpdate => exact hrequest _
  | pageRequest => exact hrequest _
  | pageFetch => exact hrequest _
  | pageAck => exact hpageid _

/-- A call that the switch decodes is answered by the bytes of a result, if at all. -/
theorem success_of_decoded {resolve : Ip → Option N} {depth : ℕ} {busy : List N} {n : N}
    {call : UInt32 × List UInt8} {c : Call} {net net' : N → Process Server} {m : Message}
    (hswitch : ∀ s, psuDsm1Switch call s = (psuDsm1 c s).encoded stubs c)
    (h : serve (messageService resolve) depth busy n call net = some (.reply m, net')) :
    ∃ bytes, m = .success bytes := by
  have hsame : serve (messageService resolve) depth busy n call net =
      serve (messageService resolve) depth busy n c.message net := by
    cases depth with
    | zero => rfl
    | succ depth =>
      have hhandler : (messageService resolve).handler call (net n).state =
          (messageService resolve).handler c.message (net n).state :=
        (hswitch _).trans (psuDsm1Switch_message c _).symm
      rw [serve, serve, hhandler]
  rw [hsame, (served_by_messages resolve depth busy n c net).1] at h
  obtain ⟨r, -, hr⟩ := Option.map_eq_some_iff.mp h
  obtain ⟨hans, -⟩ := Prod.mk.inj hr
  cases hr₁ : r.1 with
  | unreachable =>
    rw [hr₁] at hans
    cases hans
  | failed =>
    rw [hr₁] at hans
    cases hans
  | reply x =>
    rw [hr₁] at hans
    injection hans with hm
    exact ⟨x.bytes, hm.symm⟩

/-- For every server that is running and every call of a procedure other than NULLPROC,
whatever its bytes: an error comes back and all servers are as they were, if and only if the
procedure is not of the interface or fewer bytes have arrived than its argument takes. -/
theorem refused_iff (resolve : Ip → Option N) (depth : ℕ) {busy : List N} {n : N}
    {net : N → Process Server} (hbusy : n ∉ busy) (hrunning : (net n).exited = false)
    {rqProc : UInt32} (hproc : rqProc ≠ 0) (args : List UInt8) :
    (∃ m, (m = .noproc ∨ m = .cantDecode) ∧
        serve (messageService resolve) (depth + 1) busy n (rqProc, args) net =
          some (.reply m, net)) ↔
      ∀ p, Procedure.ofRqProc rqProc = some p → args.length < p.argSize := by
  have hret : ∀ m, psuDsm1Switch (rqProc, args) (net n).state = .ret (net n).state m →
      serve (messageService resolve) (depth + 1) busy n (rqProc, args) net =
        some (.reply m, net) := by
    intro m hm
    rw [serve_running hbusy hrunning]
    show execute _ _ n (psuDsm1Switch (rqProc, args) (net n).state) net = _
    rw [hm, execute, update_running hrunning]
  cases hp : Procedure.ofRqProc rqProc with
  | none =>
    simp only [reduceCtorEq, false_imp_iff, implies_true, iff_true]
    refine ⟨.noproc, .inl rfl, hret _ ?_⟩
    simp only [psuDsm1Switch, if_neg hproc, hp]
  | some p =>
    simp only [Option.some.injEq, forall_eq']
    have hsome := isSome_svcGetargs args p
    cases hargs : svcGetargs args p with
    | none =>
      rw [hargs] at hsome
      simp only [Option.isSome_none, Bool.false_eq_true, false_iff, not_le] at hsome
      refine iff_of_true ⟨.cantDecode, .inr rfl, hret _ ?_⟩ hsome
      simp only [psuDsm1Switch, if_neg hproc, hp, hargs]
    | some c =>
      rw [hargs] at hsome
      simp only [Option.isSome_some, true_iff] at hsome
      refine iff_of_false ?_ (by omega)
      rintro ⟨m, hm, hserve⟩
      have hswitch : ∀ s, psuDsm1Switch (rqProc, args) s = (psuDsm1 c s).encoded stubs c := by
        intro s
        simp only [psuDsm1Switch, if_neg hproc, hp, hargs]
      obtain ⟨bytes, rfl⟩ := success_of_decoded hswitch hserve
      simp at hm

theorem refused_iff_nine :
    ∃ m, (m = .noproc ∨ m = .cantDecode) ∧
      serve (messageService resolveTable) 1 [] false (9, []) startedTable =
        some (.reply m, startedTable) :=
  (refused_iff resolveTable 0 (by simp) rfl (by decide) []).mpr (by simp [Procedure.ofRqProc])

end DistributedSystem.Dsm
