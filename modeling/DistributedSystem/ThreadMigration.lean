import DistributedSystem.Xdr

/-!
# The context of a migrating thread

`psu_thread_migrate` sends the context of the calling thread, its registers and its stack,
in a MIGRATE call, and `migrate_1_svc` builds a context from what arrives, from
`psu_thread.c`, `psu_thread_server.c` and `psu_thread_msg_xdr.c`. The types of the message
have the layout of their counterparts in glibc, so that copying one onto the other keeps
the value, and one type stands for both.
-/
namespace DistributedSystem.ThreadMigration
open Xdr

/-! ## The types of the message -/

/-- `rpc__sigset_t` -/
structure RpcSigset where
  val : Vector UInt64 16
  deriving DecidableEq

/-- `rpc_libc_fpxreg` -/
structure RpcLibcFpxreg where
  significand : Vector UInt16 4
  exponent : UInt16
  padding : Vector UInt16 3
  deriving DecidableEq

/-- `rpc_libc_xmmreg` -/
structure RpcLibcXmmreg where
  element : Vector UInt32 4
  deriving DecidableEq

/-- `rpc_libc_fpstate` -/
structure RpcLibcFpstate where
  cwd : UInt16
  swd : UInt16
  ftw : UInt16
  fop : UInt16
  rip : UInt64
  rdp : UInt64
  mxcsr : UInt32
  mxcrMask : UInt32
  st : Vector RpcLibcFpxreg 8
  xmm : Vector RpcLibcXmmreg 16
  padding : Vector UInt32 24
  deriving DecidableEq

abbrev RpcGregset := Vector UInt64 23

/-- `rpc_mcontext` -/
structure RpcMcontext where
  gregs : RpcGregset
  fpregs : RpcLibcFpstate
  reserved1 : Vector UInt64 8
  deriving DecidableEq

/-- `rpc_stack_t` -/
structure RpcStack where
  ssFlags : Int32
  ssSp : Opaque
  deriving DecidableEq

/-- `rpc_ucontext` -/
structure RpcUcontext where
  ucFlags : UInt64
  ucStack : RpcStack
  ucMcontext : RpcMcontext
  ucSigmask : RpcSigset
  fpregsMem : RpcLibcFpstate
  deriving DecidableEq

/-! ## The routines of the message -/

def xdrRpcSigset : Proc RpcSigset :=
  (xdrVector 16 xdrUHyper).onField RpcSigset.val fun objp x => { objp with val := x }

def xdrRpcLibcFpxreg : Proc RpcLibcFpxreg :=
  ((xdrVector 4 xdrUShort).onField RpcLibcFpxreg.significand
      fun objp x => { objp with significand := x }).andThen <|
  (xdrUShort.onField RpcLibcFpxreg.exponent fun objp x => { objp with exponent := x }).andThen <|
  (xdrVector 3 xdrUShort).onField RpcLibcFpxreg.padding fun objp x => { objp with padding := x }

/-- Without a buffer, and to free, this is `xdr_vector`. -/
def xdrRpcLibcXmmreg : Proc RpcLibcXmmreg := fun xdrs objp =>
  let vector := (xdrVector 4 xdrUInt).onField RpcLibcXmmreg.element
    fun objp x => { objp with element := x }
  match xdrs.op with
  | .encode =>
    let (buf, xdrs) := xdrs.xdrInline 16
    if buf then ⟨true, objp, xdrs.putBytes (ixdrPutULongs objp.element)⟩ else vector xdrs objp
  | .decode =>
    let (buf, xdrs) := xdrs.xdrInline 16
    if buf then
      ⟨true, ⟨ixdrGetULongs 4 (xdrs.bytes.take 16)⟩, { xdrs with bytes := xdrs.bytes.drop 16 }⟩
    else vector xdrs objp
  | .free => vector xdrs objp

def xdrRpcLibcFpstate : Proc RpcLibcFpstate :=
  (xdrUShort.onField RpcLibcFpstate.cwd fun objp x => { objp with cwd := x }).andThen <|
  (xdrUShort.onField RpcLibcFpstate.swd fun objp x => { objp with swd := x }).andThen <|
  (xdrUShort.onField RpcLibcFpstate.ftw fun objp x => { objp with ftw := x }).andThen <|
  (xdrUShort.onField RpcLibcFpstate.fop fun objp x => { objp with fop := x }).andThen <|
  (xdrUHyper.onField RpcLibcFpstate.rip fun objp x => { objp with rip := x }).andThen <|
  (xdrUHyper.onField RpcLibcFpstate.rdp fun objp x => { objp with rdp := x }).andThen <|
  (xdrUInt.onField RpcLibcFpstate.mxcsr fun objp x => { objp with mxcsr := x }).andThen <|
  (xdrUInt.onField RpcLibcFpstate.mxcrMask fun objp x => { objp with mxcrMask := x }).andThen <|
  ((xdrVector 8 xdrRpcLibcFpxreg).onField RpcLibcFpstate.st
      fun objp x => { objp with st := x }).andThen <|
  ((xdrVector 16 xdrRpcLibcXmmreg).onField RpcLibcFpstate.xmm
      fun objp x => { objp with xmm := x }).andThen <|
  (xdrVector 24 xdrUInt).onField RpcLibcFpstate.padding fun objp x => { objp with padding := x }

def xdrRpcGreg : Proc UInt64 := xdrUHyper

def xdrRpcGregset : Proc RpcGregset := xdrVector 23 xdrRpcGreg

def xdrRpcMcontext : Proc RpcMcontext :=
  (xdrRpcGregset.onField RpcMcontext.gregs fun objp x => { objp with gregs := x }).andThen <|
  (xdrRpcLibcFpstate.onField RpcMcontext.fpregs fun objp x => { objp with fpregs := x }).andThen <|
  (xdrVector 8 xdrUHyper).onField RpcMcontext.reserved1 fun objp x => { objp with reserved1 := x }

def xdrRpcStack : Proc RpcStack :=
  (xdrInt.onField RpcStack.ssFlags fun objp x => { objp with ssFlags := x }).andThen <|
  xdrBytes.onField RpcStack.ssSp fun objp x => { objp with ssSp := x }

def xdrRpcUcontext : Proc RpcUcontext :=
  (xdrUHyper.onField RpcUcontext.ucFlags fun objp x => { objp with ucFlags := x }).andThen <|
  (xdrRpcStack.onField RpcUcontext.ucStack fun objp x => { objp with ucStack := x }).andThen <|
  (xdrRpcMcontext.onField RpcUcontext.ucMcontext
      fun objp x => { objp with ucMcontext := x }).andThen <|
  (xdrRpcSigset.onField RpcUcontext.ucSigmask fun objp x => { objp with ucSigmask := x }).andThen <|
  xdrRpcLibcFpstate.onField RpcUcontext.fpregsMem fun objp x => { objp with fpregsMem := x }

/-! ## Each of them writes what it can read back -/

theorem codec_xdrRpcSigset : ∃ enc, Codec xdrRpcSigset enc :=
  ⟨_, (codec_xdrVector codec_xdrUHyper).onField fun _ => rfl⟩

theorem codec_xdrRpcLibcFpxreg : ∃ enc, Codec xdrRpcLibcFpxreg enc :=
  ⟨_, ((codec_xdrVector codec_xdrUShort).onField fun _ => rfl).andThen <|
    (codec_xdrUShort.onField fun _ => rfl).andThen <|
    (codec_xdrVector codec_xdrUShort).onField fun _ => rfl⟩

/-- Both paths write the same bytes, and each of them reads what the other has written. -/
theorem codec_xdrRpcLibcXmmreg :
    Codec xdrRpcLibcXmmreg fun objp => ixdrPutULongs objp.element := by
  have hvector : Codes ((xdrVector 4 xdrUInt).onField RpcLibcXmmreg.element
      fun objp x => { objp with element := x }) (fun objp => ixdrPutULongs objp.element)
      fun objp _ => objp :=
    (codec_xdrVector codec_xdrUInt).onField fun _ => rfl
  constructor
  · intro objp bytes inline
    by_cases hbuf : inline 0
    · refine ⟨fun i => inline (i + 1), ?_⟩
      simp [xdrRpcLibcXmmreg, Stream.xdrInline, hbuf, Stream.putBytes]
    · obtain ⟨inline', h⟩ := hvector.encode objp bytes fun i => inline (i + 1)
      refine ⟨inline', ?_⟩
      simpa [xdrRpcLibcXmmreg, Stream.xdrInline, hbuf] using h
  · intro objp objp₀ rest inline
    by_cases hbuf : inline 0
    · have hlen : (ixdrPutULongs objp.element).length = 16 := length_ixdrPutULongs objp.element
      have hget := ixdrGetULongs_ixdrPutULongs objp.element []
      rw [List.append_nil] at hget
      refine ⟨fun i => inline (i + 1), ?_⟩
      simp [xdrRpcLibcXmmreg, Stream.xdrInline, hbuf, hlen, List.take_left' hlen,
        List.drop_left' hlen, hget]
    · obtain ⟨inline', h⟩ := hvector.decode objp objp₀ rest fun i => inline (i + 1)
      refine ⟨inline', ?_⟩
      simpa [xdrRpcLibcXmmreg, Stream.xdrInline, hbuf] using h

theorem codec_xdrRpcLibcFpstate : ∃ enc, Codec xdrRpcLibcFpstate enc := by
  obtain ⟨enc, hfpxreg⟩ := codec_xdrRpcLibcFpxreg
  exact ⟨_, (codec_xdrUShort.onField fun _ => rfl).andThen <|
    (codec_xdrUShort.onField fun _ => rfl).andThen <|
    (codec_xdrUShort.onField fun _ => rfl).andThen <|
    (codec_xdrUShort.onField fun _ => rfl).andThen <|
    (codec_xdrUHyper.onField fun _ => rfl).andThen <|
    (codec_xdrUHyper.onField fun _ => rfl).andThen <|
    (codec_xdrUInt.onField fun _ => rfl).andThen <|
    (codec_xdrUInt.onField fun _ => rfl).andThen <|
    ((codec_xdrVector hfpxreg).onField fun _ => rfl).andThen <|
    ((codec_xdrVector codec_xdrRpcLibcXmmreg).onField fun _ => rfl).andThen <|
    (codec_xdrVector codec_xdrUInt).onField fun _ => rfl⟩

theorem codec_xdrRpcMcontext : ∃ enc, Codec xdrRpcMcontext enc := by
  obtain ⟨enc, hfpstate⟩ := codec_xdrRpcLibcFpstate
  exact ⟨_, ((codec_xdrVector codec_xdrUHyper).onField fun _ => rfl).andThen <|
    (hfpstate.onField fun _ => rfl).andThen <|
    (codec_xdrVector codec_xdrUHyper).onField fun _ => rfl⟩

theorem codec_xdrRpcStack : ∃ enc, Codec xdrRpcStack enc :=
  ⟨_, (codec_xdrInt.onField fun _ => rfl).andThen <| codec_xdrBytes.onField fun _ => rfl⟩

theorem codec_xdrRpcUcontext : ∃ enc, Codec xdrRpcUcontext enc := by
  obtain ⟨encStack, hstack⟩ := codec_xdrRpcStack
  obtain ⟨encMcontext, hmcontext⟩ := codec_xdrRpcMcontext
  obtain ⟨encSigset, hsigset⟩ := codec_xdrRpcSigset
  obtain ⟨encFpstate, hfpstate⟩ := codec_xdrRpcLibcFpstate
  exact ⟨_, (codec_xdrUHyper.onField fun _ => rfl).andThen <|
    (hstack.onField fun _ => rfl).andThen <|
    (hmcontext.onField fun _ => rfl).andThen <|
    (hsigset.onField fun _ => rfl).andThen <|
    hfpstate.onField fun _ => rfl⟩

/-! ## The contexts on both hosts -/

/-- `ucontext_t`. `stack` are the `ss_size` bytes at the address `ssSp`, and `fpregs` is
what the pointer of that name points to. -/
structure Ucontext where
  ucFlags : UInt64
  ucLink : UInt64
  ssSp : UInt64
  ssFlags : Int32
  stack : List UInt8
  gregs : Vector UInt64 23
  fpregs : RpcLibcFpstate
  reserved1 : Vector UInt64 8
  sigmask : RpcSigset
  fpregsMem : RpcLibcFpstate

def Ucontext.ssSize (context : Ucontext) : ℕ := context.stack.length

/-- The index of the stack pointer in `gregs`. -/
def REG_RSP : Fin 23 := 15

/-- Lines 49 to 66 of `psu_thread_migrate`: the argument of its MIGRATE call. The size of
the stack is cut down to a `u_int`. -/
def psuThreadMigrate (context : Ucontext) : RpcUcontext where
  ucFlags := context.ucFlags
  ucStack :=
    { ssFlags := context.ssFlags
      ssSp := ⟨context.stack.take (context.ssSize % 2 ^ 32), by
        rw [List.length_take]
        exact (min_le_left _ _).trans_lt (Nat.mod_lt _ (by norm_num))⟩ }
  ucMcontext :=
    { reserved1 := context.reserved1
      fpregs := context.fpregs
      gregs := context.gregs }
  ucSigmask := context.sigmask
  fpregsMem := context.fpregsMem

/-- Lines 23 to 40 of `migrate_1_svc`, where `cont` is what `getcontext` has left and `sp` the
address at which `xdr_bytes` has put the stack. -/
def migrate1Svc (context : RpcUcontext) (sp : UInt64) (cont : Ucontext) : Ucontext :=
  let cont := { cont with
    ucFlags := context.ucFlags
    ssFlags := context.ucStack.ssFlags
    ssSp := sp
    stack := context.ucStack.ssSp.1
    reserved1 := context.ucMcontext.reserved1
    fpregs := context.ucMcontext.fpregs
    gregs := context.ucMcontext.gregs
    sigmask := context.ucSigmask
    fpregsMem := context.fpregsMem }
  { cont with gregs := cont.gregs.set REG_RSP cont.ssSp }

/-- What a migrated thread finds again: everything but the place of its stack. -/
structure SameContext (context cont : Ucontext) : Prop where
  ucFlags : cont.ucFlags = context.ucFlags
  ssFlags : cont.ssFlags = context.ssFlags
  stack : cont.stack = context.stack
  ssSize : cont.ssSize = context.ssSize
  gregs : ∀ i : Fin 23, i ≠ REG_RSP → cont.gregs[i] = context.gregs[i]
  fpregs : cont.fpregs = context.fpregs
  fpregsMem : cont.fpregsMem = context.fpregsMem
  reserved1 : cont.reserved1 = context.reserved1
  sigmask : cont.sigmask = context.sigmask

/-- The copies on both hosts name the same fields. -/
theorem sameContext_migrate1Svc {context : Ucontext} (h : context.ssSize < 2 ^ 32) (sp : UInt64)
    (cont : Ucontext) : SameContext context (migrate1Svc (psuThreadMigrate context) sp cont) := by
  have hstack : context.stack.take (context.ssSize % 2 ^ 32) = context.stack := by
    rw [Nat.mod_eq_of_lt h, Ucontext.ssSize, List.take_length]
  constructor
  · rfl
  · rfl
  · exact hstack
  · exact congrArg List.length hstack
  · intro i hi
    exact Vector.getElem_set_ne REG_RSP.isLt i.isLt (Fin.val_ne_of_ne hi.symm)
  · rfl
  · rfl
  · rfl
  · rfl

/-- What arrives on the other host is what `psu_thread_migrate` has packed. -/
theorem transferred (context : Ucontext) (inline inline' : ℕ → Bool) (rest : List UInt8)
    (argument : RpcUcontext) :
    let sent := xdrRpcUcontext ⟨.encode, [], inline⟩ (psuThreadMigrate context)
    let received := xdrRpcUcontext ⟨.decode, sent.xdrs.bytes ++ rest, inline'⟩ argument
    sent.ok = true ∧ received.ok = true ∧ received.xdrs.bytes = rest ∧
      received.obj = psuThreadMigrate context := by
  intro sent received
  obtain ⟨enc, hcodec⟩ := codec_xdrRpcUcontext
  obtain ⟨_, hsent⟩ := hcodec.encode (psuThreadMigrate context) [] inline
  obtain ⟨_, hreceived⟩ := hcodec.decode (psuThreadMigrate context) argument rest inline'
  have hbytes : sent.xdrs.bytes = enc (psuThreadMigrate context) := by
    simp only [sent, hsent, List.nil_append]
  rw [← hbytes] at hreceived
  exact ⟨by simp only [sent, hsent], by simp only [received, hreceived],
    by simp only [received, hreceived], by simp only [received, hreceived]⟩

/-- For every context with a stack of less than `2 ^ 32` bytes, and whether or not
`XDR_INLINE` yields a buffer at any place on either host: packing and encoding succeed;
decoding takes exactly the encoded bytes and succeeds, whatever stands behind them and into
whatever object; and the context that is built from the object is the one that was sent. -/
theorem migration_round_trip (context : Ucontext) (h : context.ssSize < 2 ^ 32)
    (inline inline' : ℕ → Bool) (rest : List UInt8) (argument : RpcUcontext) (sp : UInt64)
    (cont : Ucontext) :
    let sent := xdrRpcUcontext ⟨.encode, [], inline⟩ (psuThreadMigrate context)
    let received := xdrRpcUcontext ⟨.decode, sent.xdrs.bytes ++ rest, inline'⟩ argument
    sent.ok = true ∧ received.ok = true ∧ received.xdrs.bytes = rest ∧
      SameContext context (migrate1Svc received.obj sp cont) := by
  intro sent received
  obtain ⟨hok, hok', hrest, hobj⟩ := transferred context inline inline' rest argument
  refine ⟨hok, hok', hrest, ?_⟩
  rw [hobj]
  exact sameContext_migrate1Svc h sp cont

/-- The floating-point state of a thread that has computed nothing. -/
def emptyFpstate : RpcLibcFpstate where
  cwd := 0x37f
  swd := 0
  ftw := 0
  fop := 0
  rip := 0
  rdp := 0
  mxcsr := 0x1f80
  mxcrMask := 0xffff
  st := Vector.replicate 8 ⟨Vector.replicate 4 0, 0, Vector.replicate 3 0⟩
  xmm := Vector.replicate 16 ⟨Vector.replicate 4 0⟩
  padding := Vector.replicate 24 0

def noStack : Ucontext where
  ucFlags := 0
  ucLink := 0
  ssSp := 0
  ssFlags := 0
  stack := []
  gregs := Vector.replicate 23 0
  fpregs := emptyFpstate
  reserved1 := Vector.replicate 8 0
  sigmask := ⟨Vector.replicate 16 0⟩
  fpregsMem := emptyFpstate

def fiveBytes : Ucontext :=
  { noStack with
    ucFlags := 7
    ssSp := 4096
    ssFlags := -1
    stack := [1, 2, 3, 4, 5]
    gregs := Vector.ofFn fun i => UInt64.ofNat i.val }

/-- A thread with a stack of five bytes: the receiver decodes with a buffer what the sender has
encoded without one, and leaves the byte behind it. -/
theorem migration_round_trip_five :
    let sent := xdrRpcUcontext ⟨.encode, [], fun _ => false⟩ (psuThreadMigrate fiveBytes)
    let received := xdrRpcUcontext ⟨.decode, sent.xdrs.bytes ++ [0], fun _ => true⟩
      (psuThreadMigrate noStack)
    sent.ok = true ∧ received.ok = true ∧ received.xdrs.bytes = [0] ∧
      SameContext fiveBytes (migrate1Svc received.obj 8192 noStack) :=
  migration_round_trip fiveBytes (by decide) (fun _ => false) (fun _ => true) [0]
    (psuThreadMigrate noStack) 8192 noStack

/-! ## The stack pointer -/

def Ucontext.rsp (context : Ucontext) : UInt64 := context.gregs[REG_RSP]

/-- The stack pointer lies inside the stack. -/
def Ucontext.OnStack (context : Ucontext) : Prop :=
  context.ssSp.toNat ≤ context.rsp.toNat ∧
    context.rsp.toNat < context.ssSp.toNat + context.ssSize

/-- The bytes of the stack at the stack pointer and above. -/
def Ucontext.inUse (context : Ucontext) : List UInt8 :=
  context.stack.drop (context.rsp.toNat - context.ssSp.toNat)

/-- Both stack pointers are equally far from the bases of their stacks, and the bytes from
there on are the same. -/
structure SamePosition (context cont : Ucontext) : Prop where
  offset : (cont.rsp.toNat : ℤ) - cont.ssSp.toNat = context.rsp.toNat - context.ssSp.toNat
  inUse : cont.inUse = context.inUse

/-- The thread starts with its stack pointer at the base of the copied stack. -/
theorem rsp_migrate1Svc (context : RpcUcontext) (sp : UInt64) (cont : Ucontext) :
    (migrate1Svc context sp cont).rsp = sp := by
  simp [Ucontext.rsp, migrate1Svc, REG_RSP]

theorem samePosition_migrate1Svc_iff (context : Ucontext) (sp : UInt64) (cont : Ucontext) :
    SamePosition context (migrate1Svc (psuThreadMigrate context) sp cont) ↔
      context.rsp = context.ssSp ∧ context.ssSize < 2 ^ 32 := by
  have hrsp := rsp_migrate1Svc (psuThreadMigrate context) sp cont
  have hsp : (migrate1Svc (psuThreadMigrate context) sp cont).ssSp = sp := rfl
  have hinUse : (migrate1Svc (psuThreadMigrate context) sp cont).inUse =
      context.stack.take (context.ssSize % 2 ^ 32) := by
    rw [Ucontext.inUse, hrsp, hsp, Nat.sub_self, List.drop_zero]
    rfl
  constructor
  · rintro ⟨hoffset, hbytes⟩
    rw [hrsp, hsp] at hoffset
    have hbase : context.rsp = context.ssSp := UInt64.toNat_inj.mp (by omega)
    rw [hinUse, Ucontext.inUse, hbase, Nat.sub_self, List.drop_zero] at hbytes
    have hlength := congrArg List.length hbytes
    rw [List.length_take] at hlength
    have hmod := Nat.mod_lt context.ssSize (show 0 < 2 ^ 32 by norm_num)
    refine ⟨hbase, ?_⟩
    unfold Ucontext.ssSize at *
    omega
  · rintro ⟨hbase, hsize⟩
    refine ⟨?_, ?_⟩
    · rw [hrsp, hsp, hbase]
      omega
    · rw [hinUse, Ucontext.inUse, hbase, Nat.sub_self, List.drop_zero, Nat.mod_eq_of_lt hsize,
        Ucontext.ssSize, List.take_length]

/-- For every context, whether or not its stack pointer lies inside its stack, and whatever
happens on the way: the migrated thread has its stack pointer at the same place of its stack
if and only if the stack pointer was at the base of a stack of less than `2 ^ 32` bytes. -/
theorem samePosition_iff (context : Ucontext) (inline inline' : ℕ → Bool) (rest : List UInt8)
    (argument : RpcUcontext) (sp : UInt64) (cont : Ucontext) :
    let sent := xdrRpcUcontext ⟨.encode, [], inline⟩ (psuThreadMigrate context)
    let received := xdrRpcUcontext ⟨.decode, sent.xdrs.bytes ++ rest, inline'⟩ argument
    SamePosition context (migrate1Svc received.obj sp cont) ↔
      context.rsp = context.ssSp ∧ context.ssSize < 2 ^ 32 := by
  intro sent received
  obtain ⟨-, -, -, hobj⟩ := transferred context inline inline' rest argument
  rw [hobj]
  exact samePosition_migrate1Svc_iff context sp cont

/-- A thread whose stack pointer is not at the base of its stack loses its place. -/
theorem not_samePosition_of_ne (context : Ucontext) (h : context.rsp ≠ context.ssSp)
    (inline inline' : ℕ → Bool) (rest : List UInt8) (argument : RpcUcontext) (sp : UInt64)
    (cont : Ucontext) :
    let sent := xdrRpcUcontext ⟨.encode, [], inline⟩ (psuThreadMigrate context)
    let received := xdrRpcUcontext ⟨.decode, sent.xdrs.bytes ++ rest, inline'⟩ argument
    ¬ SamePosition context (migrate1Svc received.obj sp cont) := by
  intro sent received
  obtain ⟨-, -, -, hobj⟩ := transferred context inline inline' rest argument
  rw [hobj, samePosition_migrate1Svc_iff]
  exact fun hsame => h hsame.1

/-- The thread with five bytes of stack, with its stack pointer at the third of them. -/
def twoBelow : Ucontext := { fiveBytes with gregs := fiveBytes.gregs.set REG_RSP 4098 }

/-- It is to go on with the bytes `[3, 4, 5]`, and does not. -/
theorem not_samePosition :
    twoBelow.OnStack ∧ twoBelow.inUse = [3, 4, 5] ∧
      let sent := xdrRpcUcontext ⟨.encode, [], fun _ => false⟩ (psuThreadMigrate twoBelow)
      let received := xdrRpcUcontext ⟨.decode, sent.xdrs.bytes ++ [0], fun _ => false⟩
        (psuThreadMigrate noStack)
      ¬ SamePosition twoBelow (migrate1Svc received.obj 8192 noStack) := by
  have hon : twoBelow.OnStack := by
    unfold Ucontext.OnStack
    decide
  exact ⟨hon, by decide, not_samePosition_of_ne twoBelow (by decide) (fun _ => false)
    (fun _ => false) [0] (psuThreadMigrate noStack) 8192 noStack⟩

end DistributedSystem.ThreadMigration
