import DistributedSystem.ThreadMigration
import DistributedSystem.Transition

/-!
# The server that threads migrate to

`parse_thread_data` and `run` of `psu_thread_msg_svc.c`, `dispatcher` and `run` of
`utility.c`, and `migrate_1_svc`. Calls arrive with any bytes and are taken apart one after
the other; the threads that have been created for them go on in any order. A MIGRATE call
that does not decode ends the process, together with the threads that have not yet come to
their `fork`. A procedure that is not of the interface leaves the routine of its thread
unset, and what happens then is not defined.

Memory can be allocated, processes can be forked, and replies can be sent.
-/
namespace DistributedSystem.ThreadMigration
open Transition Xdr

/-! ## The bytes of a context -/

/-- What remains of the routine when no buffer is to be had. -/
def xdrElement : Proc RpcLibcXmmreg :=
  (xdrVector 4 xdrUInt).onField RpcLibcXmmreg.element fun objp x => { objp with element := x }

theorem inlineFree_xdrElement : InlineFree xdrElement :=
  ((inlineFree_xdrNumber 4 _ _).xdrVector 4).onField _ _

/-- With and without a buffer, the same elements are written and read. -/
theorem xdrRpcLibcXmmreg_same (xdrs : Stream) (objp : RpcLibcXmmreg) :
    (xdrElement xdrs objp).Same (xdrRpcLibcXmmreg xdrs objp) := by
  obtain ⟨op, bytes, inline⟩ := xdrs
  have hnext : (xdrElement ⟨op, bytes, inline⟩ objp).Same
      (xdrElement ⟨op, bytes, fun i => inline (i + 1)⟩ objp) :=
    inlineFree_xdrElement _ _ objp ⟨rfl, rfl⟩
  cases op with
  | encode =>
    cases hbuf : inline 0 with
    | false =>
      have hplain : xdrRpcLibcXmmreg ⟨.encode, bytes, inline⟩ objp =
          xdrElement ⟨.encode, bytes, fun i => inline (i + 1)⟩ objp := by
        simp [xdrRpcLibcXmmreg, xdrElement, Stream.xdrInline, hbuf]
      rw [hplain]
      exact hnext
    | true =>
      have helement : Codes xdrElement (fun objp => ixdrPutULongs objp.element) fun objp _ => objp :=
        (codec_xdrVector codec_xdrUInt).onField fun _ => rfl
      obtain ⟨inline', hwrite⟩ := helement.encode objp bytes inline
      have hbuffer : xdrRpcLibcXmmreg ⟨.encode, bytes, inline⟩ objp =
          ⟨true, objp, ⟨.encode, bytes ++ ixdrPutULongs objp.element, fun i => inline (i + 1)⟩⟩ := by
        simp [xdrRpcLibcXmmreg, Stream.xdrInline, hbuf, Stream.putBytes]
      rw [hwrite, hbuffer]
      exact ⟨rfl, rfl, rfl, rfl⟩
  | decode =>
    by_cases hbuf : inline 0 = true ∧ 16 ≤ bytes.length
    · have hread := xdrVector_xdrUInt_decode objp.element inline hbuf.2
      have hbuffer : xdrRpcLibcXmmreg ⟨.decode, bytes, inline⟩ objp =
          ⟨true, ⟨ixdrGetULongs 4 (bytes.take 16)⟩,
            ⟨.decode, bytes.drop 16, fun i => inline (i + 1)⟩⟩ := by
        simp [xdrRpcLibcXmmreg, Stream.xdrInline, hbuf.1, hbuf.2]
      rw [xdrElement, Proc.onField, hread, hbuffer]
      exact ⟨rfl, rfl, rfl, rfl⟩
    · have hplain : xdrRpcLibcXmmreg ⟨.decode, bytes, inline⟩ objp =
          xdrElement ⟨.decode, bytes, fun i => inline (i + 1)⟩ objp := by
        simp [xdrRpcLibcXmmreg, xdrElement, Stream.xdrInline, hbuf]
      rw [hplain]
      exact hnext
  | free => exact ⟨rfl, rfl, rfl, rfl⟩

theorem inlineFree_xdrRpcLibcXmmreg : InlineFree xdrRpcLibcXmmreg := by
  intro xdrs xdrs' objp h
  have hplain := inlineFree_xdrElement xdrs xdrs' objp h
  exact (xdrRpcLibcXmmreg_same xdrs objp).symm.trans
    (hplain.trans (xdrRpcLibcXmmreg_same xdrs' objp))

theorem inlineFree_xdrRpcLibcFpxreg : InlineFree xdrRpcLibcFpxreg :=
  (((inlineFree_xdrNumber 4 _ _).xdrVector 4).onField _ _).andThen <|
    ((inlineFree_xdrNumber 4 _ _).onField _ _).andThen <|
    ((inlineFree_xdrNumber 4 _ _).xdrVector 3).onField _ _

theorem inlineFree_xdrRpcLibcFpstate : InlineFree xdrRpcLibcFpstate :=
  ((inlineFree_xdrNumber 4 _ _).onField _ _).andThen <|
    ((inlineFree_xdrNumber 4 _ _).onField _ _).andThen <|
    ((inlineFree_xdrNumber 4 _ _).onField _ _).andThen <|
    ((inlineFree_xdrNumber 4 _ _).onField _ _).andThen <|
    ((inlineFree_xdrNumber 8 _ _).onField _ _).andThen <|
    ((inlineFree_xdrNumber 8 _ _).onField _ _).andThen <|
    ((inlineFree_xdrNumber 4 _ _).onField _ _).andThen <|
    ((inlineFree_xdrNumber 4 _ _).onField _ _).andThen <|
    ((inlineFree_xdrRpcLibcFpxreg.xdrVector 8).onField _ _).andThen <|
    ((inlineFree_xdrRpcLibcXmmreg.xdrVector 16).onField _ _).andThen <|
    ((inlineFree_xdrNumber 4 _ _).xdrVector 24).onField _ _

theorem inlineFree_xdrRpcMcontext : InlineFree xdrRpcMcontext :=
  (((inlineFree_xdrNumber 8 _ _).xdrVector 23).onField _ _).andThen <|
    (inlineFree_xdrRpcLibcFpstate.onField _ _).andThen <|
    ((inlineFree_xdrNumber 8 _ _).xdrVector 8).onField _ _

theorem inlineFree_xdrRpcStack : InlineFree xdrRpcStack :=
  ((inlineFree_xdrNumber 4 _ _).onField _ _).andThen <| inlineFree_xdrBytes.onField _ _

theorem inlineFree_xdrRpcSigset : InlineFree xdrRpcSigset :=
  ((inlineFree_xdrNumber 8 _ _).xdrVector 16).onField _ _

/-- Whether a context is written, read or freed, whatever the context and the bytes, complete
or not: wherever `XDR_INLINE` yields a buffer and wherever it does not, the routine returns
the same, leaves the same object, and has written or taken the same bytes. -/
theorem buffers_make_no_difference (op : Op) (bytes : List UInt8) (inline inline' : ℕ → Bool)
    (objp : RpcUcontext) :
    let r := xdrRpcUcontext ⟨op, bytes, inline⟩ objp
    let r' := xdrRpcUcontext ⟨op, bytes, inline'⟩ objp
    r'.ok = r.ok ∧ r'.obj = r.obj ∧ r'.xdrs.bytes = r.xdrs.bytes := by
  have hfree : InlineFree xdrRpcUcontext :=
    ((inlineFree_xdrNumber 8 _ _).onField _ _).andThen <|
      (inlineFree_xdrRpcStack.onField _ _).andThen <|
      (inlineFree_xdrRpcMcontext.onField _ _).andThen <|
      (inlineFree_xdrRpcSigset.onField _ _).andThen <|
      inlineFree_xdrRpcLibcFpstate.onField _ _
  have hr := hfree ⟨op, bytes, inline⟩ ⟨op, bytes, inline'⟩ objp ⟨rfl, rfl⟩
  exact ⟨hr.ok, hr.obj, hr.xdrs.bytes⟩

theorem fixedSize_xdrRpcLibcFpxreg : FixedSize xdrRpcLibcFpxreg 32 :=
  (((fixedSize_xdrNumber 4 _ _).xdrVector 4).onField _ _).andThen <|
    ((fixedSize_xdrNumber 4 _ _).onField _ _).andThen <|
    ((fixedSize_xdrNumber 4 _ _).xdrVector 3).onField _ _

theorem fixedSize_xdrRpcLibcXmmreg : FixedSize xdrRpcLibcXmmreg 16 := by
  have helement : FixedSize xdrElement 16 :=
    ((fixedSize_xdrNumber 4 _ _).xdrVector 4).onField _ _
  constructor
  · intro bytes inline objp
    rw [(xdrRpcLibcXmmreg_same ⟨.decode, bytes, inline⟩ objp).ok]
    exact helement.ok bytes inline objp
  · intro bytes inline objp hlen
    have hsame := xdrRpcLibcXmmreg_same ⟨.decode, bytes, inline⟩ objp
    obtain ⟨inline', htaken⟩ := helement.taken bytes inline objp hlen
    have hxdrs := hsame.xdrs
    rw [htaken] at hxdrs
    exact ⟨_, hxdrs.eq⟩

theorem fixedSize_xdrRpcLibcFpstate : FixedSize xdrRpcLibcFpstate 648 :=
  ((fixedSize_xdrNumber 4 _ _).onField _ _).andThen <|
    ((fixedSize_xdrNumber 4 _ _).onField _ _).andThen <|
    ((fixedSize_xdrNumber 4 _ _).onField _ _).andThen <|
    ((fixedSize_xdrNumber 4 _ _).onField _ _).andThen <|
    ((fixedSize_xdrNumber 8 _ _).onField _ _).andThen <|
    ((fixedSize_xdrNumber 8 _ _).onField _ _).andThen <|
    ((fixedSize_xdrNumber 4 _ _).onField _ _).andThen <|
    ((fixedSize_xdrNumber 4 _ _).onField _ _).andThen <|
    ((fixedSize_xdrRpcLibcFpxreg.xdrVector 8).onField _ _).andThen <|
    ((fixedSize_xdrRpcLibcXmmreg.xdrVector 16).onField _ _).andThen <|
    ((fixedSize_xdrNumber 4 _ _).xdrVector 24).onField _ _

theorem fixedSize_xdrRpcMcontext : FixedSize xdrRpcMcontext 896 :=
  (((fixedSize_xdrNumber 8 _ _).xdrVector 23).onField _ _).andThen <|
    (fixedSize_xdrRpcLibcFpstate.onField _ _).andThen <|
    ((fixedSize_xdrNumber 8 _ _).xdrVector 8).onField _ _

theorem fixedSize_xdrRpcSigset : FixedSize xdrRpcSigset 128 :=
  ((fixedSize_xdrNumber 8 _ _).xdrVector 16).onField _ _

/-- The bytes of a context: a stack of the length that stands in front of it, filled up to full
units, and 1688 bytes for everything else. -/
def contextNeed (bytes : List UInt8) : ℕ :=
  let size := ofBigEndian ((bytes.drop 12).take 4)
  1688 + size + padding size

theorem reads_xdrRpcUcontext : Reads xdrRpcUcontext contextNeed := by
  have hstack : Reads xdrRpcStack _ :=
    ((fixedSize_xdrNumber 4 _ _).onField _ _).reads.andThen (reads_xdrBytes.onField _ _)
  have hcontext : Reads xdrRpcUcontext _ :=
    ((fixedSize_xdrNumber 8 _ _).onField _ _).reads.andThen <|
      (hstack.onField _ _).andThen <|
      (fixedSize_xdrRpcMcontext.onField _ _).reads.andThen <|
      (fixedSize_xdrRpcSigset.onField _ _).reads.andThen <|
      (fixedSize_xdrRpcLibcFpstate.onField _ _).reads
  have hneed : contextNeed = fun bytes =>
      8 + (4 + opaqueNeed (bytes.drop 12) + (896 + (128 + 648))) := by
    funext bytes
    simp only [contextNeed, opaqueNeed]
    omega
  simp only [List.drop_drop] at hcontext
  rw [hneed]
  exact hcontext

/-! ## The server -/

def NULLPROC : UInt32 := 0

def MIGRATE : UInt32 := 1

theorem length_nil_lt : ([] : List UInt8).length < 2 ^ 32 := by
  decide

/-- The argument of a call after `memset`. -/
def zeroArgument : RpcUcontext :=
  let fpstate : RpcLibcFpstate :=
    { cwd := 0, swd := 0, ftw := 0, fop := 0, rip := 0, rdp := 0, mxcsr := 0, mxcrMask := 0
      st := Vector.replicate 8 ⟨Vector.replicate 4 0, 0, Vector.replicate 3 0⟩
      xmm := Vector.replicate 16 ⟨Vector.replicate 4 0⟩
      padding := Vector.replicate 24 0 }
  { ucFlags := 0
    ucStack := ⟨0, ⟨[], length_nil_lt⟩⟩
    ucMcontext := ⟨Vector.replicate 23 0, fpstate, Vector.replicate 8 0⟩
    ucSigmask := ⟨Vector.replicate 16 0⟩
    fpregsMem := fpstate }

/-- What the process sends. -/
inductive Sent where
  | sendreply
  | svcerrNoproc
  | svcerrDecode
  deriving DecidableEq, Repr

/-- How `parse_thread_data` ends: with the argument in the thread data, with thread data that it
has not set, or with `exit`. -/
inductive Parsed where
  | packed (argument : RpcUcontext)
  | unset
  | exited

/-- What it sends, and how it ends. -/
def parseThreadData (rqProc : UInt32) (args : List UInt8) (inline : ℕ → Bool) :
    List Sent × Parsed :=
  if rqProc = NULLPROC then ([.sendreply], .unset)
  else if rqProc = MIGRATE then
    let r := xdrRpcUcontext ⟨.decode, args, inline⟩ zeroArgument
    if r.ok then ([], .packed r.obj) else ([.svcerrDecode], .exited)
  else ([.svcerrNoproc], .unset)

inductive Condition where
  | running
  | exited
  | undefined
  deriving DecidableEq, Repr

/-- `threads` are the arguments of the threads that have not come to their `fork`, and
`started` the contexts to which forked processes have been set. -/
structure ThreadServer where
  condition : Condition
  threads : List RpcUcontext
  started : List Ucontext
  sent : List Sent

/-- The server as `svc_run` starts it. -/
def ThreadServer.up : ThreadServer := ⟨.running, [], [], []⟩

def dispatcher (rqProc : UInt32) (args : List UInt8) (inline : ℕ → Bool) (s : ThreadServer) :
    ThreadServer :=
  if rqProc = NULLPROC then { s with sent := s.sent ++ [.sendreply] }
  else
    let parsed := parseThreadData rqProc args inline
    let s := { s with sent := s.sent ++ parsed.1 }
    match parsed.2 with
    | .packed argument => { s with threads := s.threads ++ [argument] }
    | .unset => { s with condition := .undefined }
    | .exited => { s with condition := .exited }

/-- The context that `migrate_1_svc` gives to the process it forks, where `myContext` is the
address of its own. -/
def forkedContext (argument : RpcUcontext) (sp : UInt64) (cont : Ucontext) (myContext : UInt64) :
    Ucontext :=
  { migrate1Svc argument sp cont with ucLink := myContext }

/-- A call arrives, and what `XDR_INLINE` answers while it is decoded; or one of the threads
runs its routine and sends the reply. -/
inductive Action where
  | call (rqProc : UInt32) (args : List UInt8) (inline : ℕ → Bool)
  | run (i : ℕ) (sp : UInt64) (cont : Ucontext) (myContext : UInt64)

def step (s : ThreadServer) (a : Action) : Option ThreadServer :=
  if s.condition = .running then
    match a with
    | .call rqProc args inline => some (dispatcher rqProc args inline s)
    | .run i sp cont myContext =>
      s.threads[i]?.map fun argument =>
        { s with
          threads := s.threads.eraseIdx i
          started := s.started ++ [forkedContext argument sp cont myContext]
          sent := s.sent ++ [.sendreply] }
  else none

/-! ## What arrives -/

/-- The argument that a MIGRATE call brings, if it decodes. -/
def Action.argument : Action → Option RpcUcontext
  | .call rqProc args inline =>
    let r := xdrRpcUcontext ⟨.decode, args, inline⟩ zeroArgument
    if rqProc = MIGRATE ∧ r.ok then some r.obj else none
  | .run _ _ _ _ => none

def Action.isMigrate : Action → Bool
  | .call rqProc _ _ => rqProc = MIGRATE
  | .run _ _ _ _ => false

/-- The calls that leave the server running: NULLPROC, and MIGRATE with all the bytes of a
context. -/
def Action.Accepted : Action → Prop
  | .call rqProc args _ => rqProc = NULLPROC ∨ rqProc = MIGRATE ∧ contextNeed args ≤ args.length
  | .run _ _ _ _ => True

/-- The process of the context has been forked for the argument. -/
def Begun (argument : RpcUcontext) (context : Ucontext) : Prop :=
  ∃ sp cont myContext, context = forkedContext argument sp cont myContext

/-- The arguments that have arrived are those of the contexts that have been started and those
that wait, each once. -/
def OnceEach (arguments : List RpcUcontext) (s : ThreadServer) : Prop :=
  ∃ begun, (begun ++ s.threads).Perm arguments ∧ List.Forall₂ Begun begun s.started

theorem dispatcher_nullproc (args : List UInt8) (inline : ℕ → Bool) (s : ThreadServer) :
    dispatcher NULLPROC args inline s = { s with sent := s.sent ++ [.sendreply] } := by
  rw [dispatcher, if_pos rfl]

theorem dispatcher_decoded {args : List UInt8} {inline : ℕ → Bool} (s : ThreadServer)
    (hok : (xdrRpcUcontext ⟨.decode, args, inline⟩ zeroArgument).ok = true) :
    dispatcher MIGRATE args inline s =
      { s with
        threads := s.threads ++ [(xdrRpcUcontext ⟨.decode, args, inline⟩ zeroArgument).obj]
        sent := s.sent ++ [] } := by
  have hproc : MIGRATE ≠ NULLPROC := by decide
  simp only [dispatcher, if_neg hproc, parseThreadData, if_true, hok]

theorem dispatcher_garbled {args : List UInt8} {inline : ℕ → Bool} (s : ThreadServer)
    (hok : (xdrRpcUcontext ⟨.decode, args, inline⟩ zeroArgument).ok ≠ true) :
    dispatcher MIGRATE args inline s =
      { s with condition := .exited, sent := s.sent ++ [.svcerrDecode] } := by
  have hproc : MIGRATE ≠ NULLPROC := by decide
  simp only [dispatcher, if_neg hproc, parseThreadData, if_true, hok, Bool.false_eq_true, if_false]

theorem dispatcher_unknown {rqProc : UInt32} (args : List UInt8) (inline : ℕ → Bool)
    (s : ThreadServer) (hnull : rqProc ≠ NULLPROC) (hmigrate : rqProc ≠ MIGRATE) :
    dispatcher rqProc args inline s =
      { s with condition := .undefined, sent := s.sent ++ [.svcerrNoproc] } := by
  simp only [dispatcher, if_neg hnull, parseThreadData, if_neg hmigrate]

/-- Everything that one step can do. -/
theorem step_cases {s s' : ThreadServer} {a : Action} (h : step s a = some s') :
    s.condition = .running ∧
      ((∃ args inline, a = .call NULLPROC args inline ∧
          s' = { s with sent := s.sent ++ [.sendreply] }) ∨
        (∃ args inline argument, a = .call MIGRATE args inline ∧ a.argument = some argument ∧
          contextNeed args ≤ args.length ∧ s' = { s with threads := s.threads ++ [argument] }) ∨
        (∃ args inline, a = .call MIGRATE args inline ∧ a.argument = none ∧
          args.length < contextNeed args ∧
          s' = { s with condition := .exited, sent := s.sent ++ [.svcerrDecode] }) ∨
        (∃ rqProc args inline, a = .call rqProc args inline ∧ rqProc ≠ NULLPROC ∧
          rqProc ≠ MIGRATE ∧
          s' = { s with condition := .undefined, sent := s.sent ++ [.svcerrNoproc] }) ∨
        ∃ i sp cont myContext argument, a = .run i sp cont myContext ∧
          s.threads[i]? = some argument ∧
          s' = { s with
            threads := s.threads.eraseIdx i
            started := s.started ++ [forkedContext argument sp cont myContext]
            sent := s.sent ++ [.sendreply] }) := by
  obtain ⟨hrunning, h⟩ := Option.ite_none_right_eq_some.mp h
  refine ⟨hrunning, ?_⟩
  cases a with
  | call rqProc args inline =>
    obtain rfl := Option.some.inj h
    by_cases hnull : rqProc = NULLPROC
    · subst hnull
      exact .inl ⟨args, inline, rfl, dispatcher_nullproc args inline s⟩
    by_cases hmigrate : rqProc = MIGRATE
    · subst hmigrate
      have hneed := reads_xdrRpcUcontext.ok args inline zeroArgument
      by_cases hok : (xdrRpcUcontext ⟨.decode, args, inline⟩ zeroArgument).ok = true
      · have hnext := dispatcher_decoded s hok
        rw [List.append_nil] at hnext
        exact .inr (.inl ⟨args, inline, _, rfl, if_pos ⟨rfl, hok⟩, hneed.mp hok, hnext⟩)
      · have hshort : args.length < contextNeed args := by
          rw [hneed] at hok
          omega
        exact .inr (.inr (.inl ⟨args, inline, rfl, if_neg fun hboth => hok hboth.2, hshort,
          dispatcher_garbled s hok⟩))
    · exact .inr (.inr (.inr (.inl ⟨rqProc, args, inline, rfl, hnull, hmigrate,
        dispatcher_unknown args inline s hnull hmigrate⟩)))
  | run i sp cont myContext =>
    obtain ⟨argument, hargument, rfl⟩ := Option.map_eq_some_iff.mp h
    exact .inr (.inr (.inr (.inr ⟨i, sp, cont, myContext, argument, rfl, hargument, rfl⟩)))

theorem onceEach_step {bs : List Action} {s s' : ThreadServer} {a : Action}
    (hs : OnceEach (bs.filterMap Action.argument) s) (h : step s a = some s') :
    OnceEach ((bs ++ [a]).filterMap Action.argument) s' := by
  obtain ⟨begun, hperm, hbegun⟩ := hs
  rw [List.filterMap_append]
  obtain ⟨-, ⟨args, inline, rfl, rfl⟩ | ⟨args, inline, argument, -, harg, -, rfl⟩ |
    ⟨args, inline, -, harg, -, rfl⟩ | ⟨rqProc, args, inline, rfl, -, hmigrate, rfl⟩ |
    ⟨i, sp, cont, myContext, argument, rfl, hi, rfl⟩⟩ := step_cases h
  · exact ⟨begun, by simpa [Action.argument, NULLPROC, MIGRATE] using hperm, hbegun⟩
  · refine ⟨begun, ?_, hbegun⟩
    rw [List.filterMap_cons_some harg, List.filterMap_nil, ← List.append_assoc]
    exact hperm.append_right [argument]
  · refine ⟨begun, ?_, hbegun⟩
    rw [List.filterMap_cons_none harg, List.filterMap_nil, List.append_nil]
    exact hperm
  · exact ⟨begun, by simpa [Action.argument, hmigrate] using hperm, hbegun⟩
  · obtain ⟨hlt, hget⟩ := List.getElem?_eq_some_iff.mp hi
    have hmove : (argument :: s.threads.eraseIdx i).Perm s.threads := by
      rw [← hget]
      exact List.getElem_cons_eraseIdx_perm hlt
    have hall : (begun ++ [argument] ++ s.threads.eraseIdx i).Perm (begun ++ s.threads) := by
      rw [List.append_assoc]
      exact hmove.append_left begun
    refine ⟨begun ++ [argument], ?_, ?_⟩
    · rw [List.filterMap_cons_none rfl, List.filterMap_nil, List.append_nil]
      exact hall.trans hperm
    · exact List.rel_append hbegun (.cons ⟨sp, cont, myContext, rfl⟩ .nil)

theorem onceEach_exec {as : List Action} {s : ThreadServer} (h : exec step .up as = some s) :
    OnceEach (as.filterMap Action.argument) s := by
  have hup : OnceEach ([].filterMap Action.argument) .up := ⟨[], List.Perm.refl _, .nil⟩
  have hall := exec_history (I := fun bs s => OnceEach (bs.filterMap Action.argument) s)
    (fun _ _ _ _ => onceEach_step) as hup h
  rwa [List.nil_append] at hall

theorem accepted_step {bs : List Action} {s s' : ThreadServer} {a : Action}
    (hs : s.condition = .running ↔ ∀ b ∈ bs, b.Accepted) (h : step s a = some s') :
    s'.condition = .running ↔ ∀ b ∈ bs ++ [a], b.Accepted := by
  obtain ⟨hrunning, hcases⟩ := step_cases h
  have hlast : (∀ b ∈ bs ++ [a], b.Accepted) ↔ a.Accepted := by
    simp only [List.mem_append, List.mem_singleton, or_imp, forall_and, forall_eq,
      and_iff_right (hs.mp hrunning)]
  rw [hlast]
  obtain ⟨args, inline, rfl, rfl⟩ | ⟨args, inline, argument, rfl, -, hneed, rfl⟩ |
    ⟨args, inline, rfl, -, hshort, rfl⟩ | ⟨rqProc, args, inline, rfl, hnull, hmigrate, rfl⟩ |
    ⟨i, sp, cont, myContext, argument, rfl, -, rfl⟩ := hcases
  · exact iff_of_true hrunning (.inl rfl)
  · exact iff_of_true hrunning (.inr ⟨rfl, hneed⟩)
  · refine iff_of_false (by simp) ?_
    rintro (hproc | ⟨-, hneed⟩)
    · exact absurd hproc (by decide)
    · omega
  · refine iff_of_false (by simp) ?_
    rintro (hproc | ⟨hproc, -⟩)
    · exact hnull hproc
    · exact hmigrate hproc
  · exact iff_of_true hrunning trivial

/-- In every run, with calls of any procedures and any bytes, and whatever their threads have
done in between: the server is running if and only if every call was NULLPROC, or MIGRATE
with at least 1688 bytes and the filled-up stack whose length they give at the twelfth. -/
theorem running_iff_accepted {as : List Action} {s : ThreadServer}
    (h : exec step .up as = some s) :
    s.condition = .running ↔ ∀ a ∈ as, a.Accepted := by
  have hup : ThreadServer.up.condition = .running ↔ ∀ a ∈ ([] : List Action), a.Accepted := by
    simp [ThreadServer.up]
  have hall := exec_history (I := fun bs s => s.condition = .running ↔ ∀ a ∈ bs, a.Accepted)
    (fun _ _ _ _ => accepted_step) as hup h
  rwa [List.nil_append] at hall

/-- A thread migrates to a server that has just been started. -/
theorem exec_migration (context : Ucontext) (inline inline' : ℕ → Bool) (sp : UInt64)
    (cont : Ucontext) (myContext : UInt64) :
    let bytes := (xdrRpcUcontext ⟨.encode, [], inline⟩ (psuThreadMigrate context)).xdrs.bytes
    exec step .up [.call MIGRATE bytes inline', .run 0 sp cont myContext] =
      some ⟨.running, [], [forkedContext (psuThreadMigrate context) sp cont myContext],
        [.sendreply]⟩ := by
  intro bytes
  obtain ⟨-, hok, -, hobj⟩ := transferred context inline inline' [] zeroArgument
  rw [List.append_nil] at hok hobj
  have hcall : step .up (.call MIGRATE bytes inline') =
      some ⟨.running, [psuThreadMigrate context], [], []⟩ := by
    show some (dispatcher MIGRATE bytes inline' .up) = _
    rw [dispatcher_decoded _ hok, hobj]
    rfl
  rw [exec, hcall, Option.bind_some]
  rfl

/-- A thread with five bytes of stack migrates, and its process is forked. -/
def fiveBytesArrive : List Action :=
  [.call MIGRATE
      (xdrRpcUcontext ⟨.encode, [], fun _ => false⟩ (psuThreadMigrate fiveBytes)).xdrs.bytes
      fun _ => true,
    .run 0 8192 noStack 0]

/-- The server is running after that, and not after one more call without a single byte. -/
theorem running_iff_accepted_five :
    ∃ s s', exec step .up fiveBytesArrive = some s ∧ s.condition = .running ∧
      (∀ a ∈ fiveBytesArrive, a.Accepted) ∧
      exec step .up (fiveBytesArrive ++ [.call MIGRATE [] fun _ => false]) = some s' ∧
      s'.condition = .exited ∧
      ¬ ∀ a ∈ fiveBytesArrive ++ [.call MIGRATE [] fun _ => false], a.Accepted := by
  have harrive : exec step .up fiveBytesArrive = some _ :=
    exec_migration fiveBytes (fun _ => false) (fun _ => true) 8192 noStack 0
  obtain ⟨s', hboth, hexited⟩ : ∃ s',
      exec step .up (fiveBytesArrive ++ [.call MIGRATE [] fun _ => false]) = some s' ∧
        s'.condition = .exited := by
    rw [exec_append, harrive]
    exact ⟨_, rfl, rfl⟩
  refine ⟨_, s', harrive, rfl, (running_iff_accepted harrive).mp rfl, hboth, hexited, ?_⟩
  rw [← running_iff_accepted hboth, hexited]
  exact Condition.noConfusion

/-! ## Threads that migrate -/

/-- The call that `psu_thread_migrate` makes for a thread with this context. -/
def Migrates (context : Ucontext) (a : Action) : Prop :=
  ∃ inline inline', a = .call MIGRATE
    (xdrRpcUcontext ⟨.encode, [], inline⟩ (psuThreadMigrate context)).xdrs.bytes inline'

theorem Migrates.argument {context : Ucontext} {a : Action} (h : Migrates context a) :
    a.argument = some (psuThreadMigrate context) := by
  obtain ⟨inline, inline', rfl⟩ := h
  obtain ⟨-, hok, -, hobj⟩ := transferred context inline inline' [] zeroArgument
  rw [List.append_nil] at hok hobj
  rw [Action.argument, if_pos ⟨rfl, hok⟩, hobj]

theorem argument_of_not_isMigrate {a : Action} (h : a.isMigrate ≠ true) : a.argument = none := by
  cases a with
  | call rqProc args inline =>
    refine if_neg ?_
    rintro ⟨hproc, -⟩
    exact h (decide_eq_true hproc)
  | run i sp cont myContext => rfl

/-- Nothing but the calls of migrating threads brings an argument. -/
theorem filterMap_argument {contexts : List Ucontext} {as : List Action}
    (h : List.Forall₂ Migrates contexts (as.filter Action.isMigrate)) :
    as.filterMap Action.argument = contexts.map psuThreadMigrate := by
  have hfilter : as.filterMap Action.argument =
      (as.filter Action.isMigrate).filterMap Action.argument := by
    rw [List.filterMap_filter]
    apply List.filterMap_congr
    intro a _
    by_cases ha : a.isMigrate = true
    · rw [if_pos ha]
    · rw [if_neg ha, argument_of_not_isMigrate ha]
  rw [hfilter]
  generalize as.filter Action.isMigrate = calls at h
  induction h with
  | nil => rfl
  | cons hmigrates _ ih => rw [List.filterMap_cons_some hmigrates.argument, ih, List.map_cons]

theorem argument_ne_none {contexts : List Ucontext} {calls : List Action}
    (h : List.Forall₂ Migrates contexts calls) : ∀ a ∈ calls, a.argument ≠ none := by
  have hflip : List.Forall₂ (fun a context => a.argument ≠ none ∧ Migrates context a) calls
      contexts := by
    refine h.flip.imp ?_
    intro a context hmigrates
    have hargument := Migrates.argument hmigrates
    exact ⟨by simp [hargument], hmigrates⟩
  exact ((List.forall₂_and_left calls contexts).mp hflip).1

theorem exited_step {bs : List Action} {s s' : ThreadServer} {a : Action}
    (h : step s a = some s') (hexited : s'.condition = .exited) :
    ∃ b ∈ bs ++ [a], b.isMigrate = true ∧ b.argument = none := by
  obtain ⟨hrunning, ⟨args, inline, rfl, rfl⟩ | ⟨args, inline, argument, rfl, -, -, rfl⟩ |
    ⟨args, inline, rfl, harg, -, rfl⟩ | ⟨rqProc, args, inline, rfl, -, -, rfl⟩ |
    ⟨i, sp, cont, myContext, argument, rfl, -, rfl⟩⟩ := step_cases h
  · simp [hrunning] at hexited
  · simp [hrunning] at hexited
  · exact ⟨_, by simp, rfl, harg⟩
  · simp at hexited
  · simp [hrunning] at hexited

theorem exited_exec {as : List Action} {s : ThreadServer} (h : exec step .up as = some s)
    (hexited : s.condition = .exited) : ∃ a ∈ as, a.isMigrate = true ∧ a.argument = none := by
  have hup : ThreadServer.up.condition = .exited →
      ∃ a ∈ ([] : List Action), a.isMigrate = true ∧ a.argument = none := by
    simp [ThreadServer.up]
  have hall := exec_history (I := fun bs s => s.condition = .exited →
    ∃ a ∈ bs, a.isMigrate = true ∧ a.argument = none) (fun _ _ _ _ _ => exited_step) as hup h
  rw [List.nil_append] at hall
  exact hall hexited

theorem sameContext_of_begun {context forked : Ucontext}
    (h : context.ssSize < 2 ^ 32 ∧ Begun (psuThreadMigrate context) forked) :
    SameContext context forked := by
  obtain ⟨hsize, sp, cont, myContext, rfl⟩ := h
  have hsame := sameContext_migrate1Svc hsize sp cont
  exact ⟨hsame.ucFlags, hsame.ssFlags, hsame.stack, hsame.ssSize, hsame.gregs, hsame.fpregs,
    hsame.fpregsMem, hsame.reserved1, hsame.sigmask⟩

/-- In every run in which the MIGRATE calls are those of migrating threads, whatever other
calls arrive, and in whatever order the threads of the server go on: the server has not
exited; and the threads that have migrated are those for which a process has been forked,
which has everything of its context but the place of its stack, and those that wait, each of
them once. -/
theorem threads_arrive_once {contexts : List Ucontext} {as : List Action} {s : ThreadServer}
    (hsize : ∀ context ∈ contexts, context.ssSize < 2 ^ 32)
    (hcalls : List.Forall₂ Migrates contexts (as.filter Action.isMigrate))
    (h : exec step .up as = some s) :
    s.condition ≠ .exited ∧
      ∃ arrived waiting, (arrived ++ waiting).Perm contexts ∧
        List.Forall₂ SameContext arrived s.started ∧
        s.threads = waiting.map psuThreadMigrate := by
  refine ⟨?_, ?_⟩
  · intro hexited
    obtain ⟨a, ha, hmigrate, harg⟩ := exited_exec h hexited
    exact argument_ne_none hcalls a (List.mem_filter.mpr ⟨ha, hmigrate⟩) harg
  · obtain ⟨begun, hperm, hbegun⟩ := onceEach_exec h
    rw [filterMap_argument hcalls] at hperm
    have hpacked : List.Forall₂ (fun argument context => argument = psuThreadMigrate context)
        (contexts.map psuThreadMigrate) contexts := by
      simp [List.forall₂_same]
    obtain ⟨all, hall, hcontexts⟩ := List.perm_comp_forall₂ hperm hpacked
    have hmap : all.map psuThreadMigrate = begun ++ s.threads := by
      rw [← List.forall₂_eq_eq_eq, List.forall₂_map_left_iff]
      exact hall.flip.imp fun _ _ heq => heq.symm
    obtain ⟨arrived, waiting, rfl, rfl, hwaiting⟩ := List.map_eq_append_iff.mp hmap
    refine ⟨arrived, waiting, hcontexts, ?_, hwaiting.symm⟩
    have hsizes : ∀ context ∈ arrived, context.ssSize < 2 ^ 32 := by
      intro context hmem
      exact hsize context (hcontexts.subset (List.mem_append_left waiting hmem))
    have hboth := (List.forall₂_and_left arrived s.started).mpr
      ⟨hsizes, List.forall₂_map_left_iff.mp hbegun⟩
    exact hboth.imp fun _ _ => sameContext_of_begun

theorem threads_arrive_once_five :
    ∃ s, exec step .up [.call MIGRATE
        (xdrRpcUcontext ⟨.encode, [], fun _ => false⟩ (psuThreadMigrate fiveBytes)).xdrs.bytes
        fun _ => true, .run 0 8192 noStack 0] = some s ∧
      s.condition ≠ .exited ∧
        ∃ arrived waiting, (arrived ++ waiting).Perm [fiveBytes] ∧
          List.Forall₂ SameContext arrived s.started ∧
          s.threads = waiting.map psuThreadMigrate :=
  ⟨_, exec_migration fiveBytes _ _ 8192 noStack 0,
    threads_arrive_once (by simp [Ucontext.ssSize, fiveBytes])
      (.cons ⟨fun _ => false, fun _ => true, rfl⟩ .nil)
      (exec_migration fiveBytes _ _ 8192 noStack 0)⟩

end DistributedSystem.ThreadMigration
