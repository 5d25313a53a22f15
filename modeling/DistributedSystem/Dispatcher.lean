import DistributedSystem.NodeList
import DistributedSystem.Xdr

/-!
# Calls as they arrive at the lock manager

`dispatcher` in `utility.c` takes a call apart with `parse_thread_data` of
`psu_dist_lock_mgr_msg_svc.c` and starts a thread that runs the service routine and sends its
reply. `parse_thread_data` zeroes the argument, decodes the bytes of the call into it, and
sends an error when the procedure is unknown or the bytes do not decode. It comes back with
a routine and an argument in either case.

Memory can be allocated and replies can be sent. A call through a null pointer and a failed
assertion end the process.
-/
namespace DistributedSystem.Dispatcher
open LockManager NodeList Xdr

variable {ι : Type}

/-- What the process does not decide itself: the addresses of its host, and what stands in the
buffer of a string that was allocated and not filled. -/
structure Host where
  localIpAddresses : List CString
  junk : Option CString

/-! ## Arguments -/

/-- `RequestPack` as it is declared. -/
structure RpcRequestPack where
  lockNumber : Int32
  seqno : Int32
  mac : UInt64
  deriving DecidableEq, Repr

def RpcRequestPack.toRequestPack (pack : RpcRequestPack) : RequestPack Int32 where
  lockNumber := pack.lockNumber.toInt
  seqno := pack.seqno
  mac := pack.mac.toNat

def xdrRequestPack : Proc RpcRequestPack :=
  (xdrInt.onField RpcRequestPack.lockNumber fun objp x => { objp with lockNumber := x }).andThen <|
  (xdrInt.onField RpcRequestPack.seqno fun objp x => { objp with seqno := x }).andThen <|
  xdrUHyper.onField RpcRequestPack.mac fun objp x => { objp with mac := x }

/-- The string that starts at the first of the bytes. -/
def cString : List UInt8 → CString
  | [] => []
  | b :: bytes => if h : b ≠ 0 then ⟨b, h⟩ :: cString bytes else []

/-- `xdr_wrapstring` on a pointer, where `none` is NULL, as in xdr(3) and glibc's sunrpc, which
set no limit but that of a `u_int` (libtirpc stops at 9000). A length that leaves no room for
the final zero is refused, and the buffer is allocated before the bytes are read. -/
def xdrWrapstring (host : Host) : Proc (Option CString) := fun xdrs cpp =>
  match xdrs.op with
  | .encode =>
    match cpp with
    | none => ⟨false, none, xdrs⟩
    | some str =>
      let size := xdrUInt xdrs (UInt32.ofNat str.length)
      if size.ok ∧ size.obj.toNat + 1 < 2 ^ 32 then
        ⟨true, cpp, size.xdrs.putBytes (padded ((str.map Subtype.val).take size.obj.toNat))⟩
      else ⟨false, cpp, size.xdrs⟩
  | .decode =>
    let size := xdrUInt xdrs 0
    if size.ok ∧ size.obj.toNat + 1 < 2 ^ 32 then
      match size.xdrs.getOpaque size.obj with
      | some (sp, xdrs) => ⟨true, some (cString sp.1), xdrs⟩
      | none => ⟨false, host.junk, size.xdrs⟩
    else ⟨false, cpp, size.xdrs⟩
  | .free => ⟨true, none, xdrs⟩

/-! ## Procedures -/

/-- The procedures of the interface, which are the cases of the switch. -/
inductive Procedure where
  | initLockMgr | acquireLock | releaseLock | request
  deriving DecidableEq, Repr

def NULLPROC : UInt32 := 0

def Procedure.ofRqProc (rqProc : UInt32) : Option Procedure :=
  if rqProc = 1 then some .initLockMgr
  else if rqProc = 2 then some .acquireLock
  else if rqProc = 3 then some .releaseLock
  else if rqProc = 4 then some .request
  else none

/-- A service routine with its argument. -/
inductive Call where
  | initLockMgr (nodeStr : Option CString)
  | acquireLock (number : Int32)
  | releaseLock (number : Int32)
  | request (pack : RpcRequestPack)
  deriving DecidableEq

/-- `svc_getargs` into the zeroed argument: whether it succeeds, and the routine of the
procedure with what the argument holds then. -/
def svcGetargs (host : Host) (args : List UInt8) : Procedure → Bool × Call
  | .initLockMgr =>
    let r := xdrWrapstring host ⟨.decode, args, fun _ => false⟩ none
    (r.ok, .initLockMgr r.obj)
  | .acquireLock =>
    let r := xdrInt ⟨.decode, args, fun _ => false⟩ 0
    (r.ok, .acquireLock r.obj)
  | .releaseLock =>
    let r := xdrInt ⟨.decode, args, fun _ => false⟩ 0
    (r.ok, .releaseLock r.obj)
  | .request =>
    let r := xdrRequestPack ⟨.decode, args, fun _ => false⟩ ⟨0, 0, 0⟩
    (r.ok, .request r.obj)

/-- What the process does about a call that can be seen: the replies it sends, and the
routines that its thread runs. -/
inductive Event where
  | svcerrNoproc
  | svcerrDecode
  | sendreply
  | run (c : Call)
  deriving DecidableEq

/-- `parse_thread_data`: what it sends, and the thread data. An unknown procedure has left the
decoding routine at NULL, and `svc_getargs` calls it all the same. -/
def parseThreadData (host : Host) (rqProc : UInt32) (args : List UInt8) :
    List Event × Option Call :=
  match Procedure.ofRqProc rqProc with
  | none => ([.svcerrNoproc], none)
  | some p =>
    let r := svcGetargs host args p
    (if r.1 then [] else [.svcerrDecode], some r.2)

/-! ## The thread of a call -/

/-- A routine has returned, or it waits, for a mutex or the reply of another node, or it has
ended the process. -/
inductive Progress (ι : Type) where
  | returned (srv : Server Int32 ι CString)
  | waiting (srv : Server Int32 ι CString)
  | ended

/-- The variables of the process, as long as there is one. -/
def Progress.server : Progress ι → Option (Server Int32 ι CString)
  | .returned srv => some srv
  | .waiting srv => some srv
  | .ended => none

def Progress.isReturned : Progress ι → Bool
  | .returned _ => true
  | _ => false

/-- The service routine, by the thread `h`, up to where it first waits. -/
def Call.exec (host : Host) (h : ι) (srv : Server Int32 ι CString) : Call → Progress ι
  | .initLockMgr none => .ended
  | .initLockMgr (some nodeStr) =>
    match initLockMgrString host.localIpAddresses nodeStr srv with
    | some srv => .returned srv
    | none => .ended
  | .acquireLock number =>
    let srv := acquireFind number.toInt srv
    match acquireEnter number.toInt srv with
    | some srv => if srv.nodes = [] then .returned srv else .waiting srv
    | none => .waiting srv
  | .releaseLock number =>
    match releaseLock1Svc number.toInt srv with
    | some (_, srv) => .returned srv
    | none => .ended
  | .request pack =>
    let r := request1Svc h pack.toRequestPack srv
    if r.1 then .waiting r.2 else .returned r.2

/-- How far the handling of a call has come. -/
structure Handling (ι : Type) where
  events : List Event
  progress : Progress ι

/-- `run` of `utility.c`: the routine, and the reply if it has returned. All four return
true. -/
def run (host : Host) (h : ι) (c : Call) (srv : Server Int32 ι CString) : Handling ι :=
  let progress := c.exec host h srv
  ⟨.run c :: if progress.isReturned then [.sendreply] else [], progress⟩

/-- `dispatcher`, and its thread up to where the routine first waits. -/
def dispatcher (host : Host) (h : ι) (rqProc : UInt32) (args : List UInt8)
    (srv : Server Int32 ι CString) : Handling ι :=
  if rqProc = NULLPROC then ⟨[.sendreply], .returned srv⟩
  else
    match parseThreadData host rqProc args with
    | (events, none) => ⟨events, .ended⟩
    | (events, some c) =>
      let r := run host h c srv
      ⟨events ++ r.events, r.progress⟩

/-- A routine that waited returns, when the variables have become `srv`. -/
def Handling.comeBack (srv : Server Int32 ι CString) (r : Handling ι) : Handling ι :=
  match r.progress with
  | .waiting _ => ⟨r.events ++ [.sendreply], .returned srv⟩
  | _ => r

/-- What the handling of a call is at some time. -/
def Handles (host : Host) (h : ι) (rqProc : UInt32) (args : List UInt8)
    (srv : Server Int32 ι CString) (r : Handling ι) : Prop :=
  r = dispatcher host h rqProc args srv ∨
    ∃ srv', r = (dispatcher host h rqProc args srv).comeBack srv'

/-! ## Calls that are refused and calls that are served -/

def Event.isReply : Event → Bool
  | .run _ => false
  | _ => true

def Event.isError (e : Event) : Prop := e = .svcerrNoproc ∨ e = .svcerrDecode

/-- No routine is run, all variables are as they were, and one reply is sent, an error. -/
structure Refused (srv : Server Int32 ι CString) (r : Handling ι) : Prop where
  noRoutine : ∀ c, .run c ∉ r.events
  unchanged : r.progress.server = some srv
  oneReply : ∃ e : Event, e.isError ∧ r.events.filter Event.isReply = [e]

/-- The routine `c` and nothing else is run, and its reply is the only one. -/
def Served (c : Call) (r : Handling ι) : Prop :=
  r.events = .run c :: if r.progress.isReturned then [.sendreply] else []

/-- The call that was meant: there is none if the procedure is unknown or `svc_getargs`
fails. -/
def decodeCall (host : Host) (rqProc : UInt32) (args : List UInt8) : Option Call :=
  (Procedure.ofRqProc rqProc).bind fun p =>
    let r := svcGetargs host args p
    if r.1 then some r.2 else none

/-- Calls that do not decode are refused, and all others are served. -/
def Guarded (host : Host) (h : ι) (rqProc : UInt32) (args : List UInt8)
    (srv : Server Int32 ι CString) : Prop :=
  match decodeCall host rqProc args with
  | none => ∀ r, Handles host h rqProc args srv r → Refused srv r
  | some c => (dispatcher host h rqProc args srv).progress = c.exec host h srv ∧
      ∀ r, Handles host h rqProc args srv r → Served c r

/-- The bytes hold an argument of the procedure: a string of a length that is followed by as
many bytes, filled up to full units, or one number, or two and one of double size. -/
def Procedure.WellFormed (args : List UInt8) : Procedure → Prop
  | .initLockMgr =>
    let size := ofBigEndian (args.take 4)
    size + 1 < 2 ^ 32 ∧ 4 + size + padding size ≤ args.length
  | .acquireLock => 4 ≤ args.length
  | .releaseLock => 4 ≤ args.length
  | .request => 16 ≤ args.length

instance (args : List UInt8) : (p : Procedure) → Decidable (p.WellFormed args)
  | .initLockMgr => inferInstanceAs (Decidable (_ ∧ _))
  | .acquireLock | .releaseLock => inferInstanceAs (Decidable (4 ≤ args.length))
  | .request => inferInstanceAs (Decidable (16 ≤ args.length))

theorem fixedSize_xdrInt : FixedSize xdrInt 4 := fixedSize_xdrNumber 4 _ _

theorem fixedSize_xdrRequestPack : FixedSize xdrRequestPack 16 :=
  (fixedSize_xdrInt.onField _ _).andThen <| (fixedSize_xdrInt.onField _ _).andThen <|
    (fixedSize_xdrNumber 8 _ _).onField _ _

theorem xdrWrapstring_ok (host : Host) (args : List UInt8) (inline : ℕ → Bool) :
    (xdrWrapstring host ⟨.decode, args, inline⟩ none).ok = true ↔
      Procedure.initLockMgr.WellFormed args := by
  by_cases h4 : 4 ≤ args.length
  · have hlt : ofBigEndian (args.take 4) < 2 ^ 32 := by
      have := ofBigEndian_lt (args.take 4)
      rwa [List.length_take_of_le h4] at this
    have hsize : (UInt32.ofNat (ofBigEndian (args.take 4))).toNat = ofBigEndian (args.take 4) :=
      UInt32.toNat_ofNat_of_lt hlt
    have hsome := Stream.isSome_getOpaque (UInt32.ofNat (ofBigEndian (args.take 4)))
      ⟨.decode, args.drop 4, inline⟩
    rw [hsize, List.length_drop] at hsome
    simp only [xdrWrapstring, Procedure.WellFormed, xdrUInt, xdrNumber_decode, if_pos h4, hsize,
      true_and]
    split_ifs with hroom
    · cases hget : Stream.getOpaque (UInt32.ofNat (ofBigEndian (args.take 4)))
          ⟨.decode, args.drop 4, inline⟩ with
      | none =>
        rw [hget] at hsome
        simp only [Option.isSome_none, Bool.false_eq_true, false_iff] at hsome ⊢
        omega
      | some r =>
        rw [hget] at hsome
        simp only [Option.isSome_some, true_iff] at hsome ⊢
        omega
    · simp only [false_iff]
      omega
  · simp only [xdrWrapstring, Procedure.WellFormed, xdrUInt, xdrNumber_decode, if_neg h4,
      Bool.false_eq_true, false_and, if_false, false_iff]
    omega

/-- `svc_getargs` succeeds on well-formed bytes and on no others. -/
theorem svcGetargs_ok (host : Host) (args : List UInt8) (p : Procedure) :
    (svcGetargs host args p).1 = true ↔ p.WellFormed args := by
  cases p with
  | initLockMgr => exact xdrWrapstring_ok host args _
  | acquireLock => exact fixedSize_xdrInt.ok args _ 0
  | releaseLock => exact fixedSize_xdrInt.ok args _ 0
  | request => exact fixedSize_xdrRequestPack.ok args _ _

section Dispatch
variable (host : Host) (h : ι) {rqProc : UInt32} (args : List UInt8)
  (srv : Server Int32 ι CString) {p : Procedure}

theorem dispatcher_of_unknown (hproc : rqProc ≠ NULLPROC)
    (hp : Procedure.ofRqProc rqProc = none) :
    dispatcher host h rqProc args srv = ⟨[.svcerrNoproc], .ended⟩ := by
  simp only [dispatcher, if_neg hproc, parseThreadData, hp]

theorem dispatcher_of_known (hproc : rqProc ≠ NULLPROC)
    (hp : Procedure.ofRqProc rqProc = some p) :
    dispatcher host h rqProc args srv =
      let r := svcGetargs host args p
      ⟨(if r.1 then [] else [.svcerrDecode]) ++ (run host h r.2 srv).events,
        r.2.exec host h srv⟩ := by
  simp only [dispatcher, if_neg hproc, parseThreadData, hp]
  rfl

/-- The reply of a routine that comes back is the one that it still owed. -/
theorem Served.comeBack {c : Call} {r : Handling ι} (hr : Served c r)
    (srv : Server Int32 ι CString) : Served c (r.comeBack srv) := by
  obtain ⟨events, progress⟩ := r
  cases progress with
  | returned srv => exact hr
  | ended => exact hr
  | waiting srv =>
    have hevents : events = [.run c] := hr
    simp [Served, Handling.comeBack, hevents, Progress.isReturned]

/-- For every state of the lock manager and every call of a procedure other than NULLPROC:
calls that do not decode are refused and all others are served, if and only if this is a call
of a procedure of the interface and has an argument of it. -/
theorem guarded_iff (hproc : rqProc ≠ NULLPROC) :
    Guarded host h rqProc args srv ↔
      ∃ p, Procedure.ofRqProc rqProc = some p ∧ p.WellFormed args := by
  cases hp : Procedure.ofRqProc rqProc with
  | none =>
    have hnone : decodeCall host rqProc args = none := by simp [decodeCall, hp]
    have hended := dispatcher_of_unknown host h args srv hproc hp
    simp only [Guarded, hnone]
    constructor
    · intro hall
      have hsrv := (hall _ (.inl rfl)).unchanged
      rw [hended] at hsrv
      cases hsrv
    · rintro ⟨p, hp', -⟩
      cases hp'
  | some p =>
    have hknown := dispatcher_of_known host h args srv hproc hp
    simp only [Option.some.injEq, exists_eq_left']
    rw [← svcGetargs_ok host]
    cases hok : (svcGetargs host args p).1 with
    | false =>
      have hnone : decodeCall host rqProc args = none := by simp [decodeCall, hp, hok]
      simp only [Guarded, hnone, Bool.false_eq_true, iff_false]
      intro hall
      refine (hall _ (.inl rfl)).noRoutine (svcGetargs host args p).2 ?_
      simp [hknown, run]
    | true =>
      have hsome : decodeCall host rqProc args = some (svcGetargs host args p).2 := by
        simp [decodeCall, hp, hok]
      have hserved : Served (svcGetargs host args p).2 (dispatcher host h rqProc args srv) := by
        simp [Served, hknown, hok, run]
      simp only [Guarded, hsome, iff_true]
      refine ⟨by rw [hknown], ?_⟩
      rintro r (rfl | ⟨srv', rfl⟩)
      · exact hserved
      · exact hserved.comeBack srv'

end Dispatch

/-- A host with one address, on which unfilled buffers happen to be empty. -/
def hostAt (address : CString) : Host := ⟨[address], some []⟩

def newServer : Server Int32 ℕ CString := initializeGlobalVariable 1

/-- An ACQUIRE_LOCK call with the number seven. -/
theorem guarded_seven :
    Guarded (hostAt (letter 0)) 0 2 [0, 0, 0, 7] newServer ∧
      (dispatcher (hostAt (letter 0)) 0 2 [0, 0, 0, 7] newServer).events =
        [.run (.acquireLock 7), .sendreply] := by
  constructor
  · refine (guarded_iff (hostAt (letter 0)) 0 [0, 0, 0, 7] newServer (by decide)).mpr ?_
    exact ⟨.acquireLock, by decide, by decide⟩
  · decide

/-- An ACQUIRE_LOCK call without an argument is answered by an error, takes lock 0, and is
answered once more; a call of a procedure that does not exist is answered by an error and ends
the process. -/
theorem not_guarded :
    (dispatcher (hostAt (letter 0)) 0 2 [] newServer).events =
        [.svcerrDecode, .run (.acquireLock 0), .sendreply] ∧
      ((dispatcher (hostAt (letter 0)) 0 2 [] newServer).progress.server.map
        fun srv => (srv.lockvar 0).lock) = some true ∧
      (dispatcher (hostAt (letter 0)) 0 5 [] newServer).progress.server.isNone ∧
      ¬ Guarded (hostAt (letter 0)) 0 2 [] newServer ∧
      ¬ Guarded (hostAt (letter 0)) 0 5 [] newServer := by
  refine ⟨by decide, by decide, by decide, ?_, ?_⟩
  · intro hguarded
    refine (hguarded _ (.inl rfl)).noRoutine (.acquireLock 0) ?_
    decide
  · intro hguarded
    have hsrv := (hguarded _ (.inl rfl)).unchanged
    cases hsrv

end DistributedSystem.Dispatcher
