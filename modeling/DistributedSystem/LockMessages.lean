import DistributedSystem.Dispatcher

/-!
# Calls as they are sent to the lock manager

What the stubs of `psu_dist_lock_mgr_msg_clnt.c` write is what `dispatcher` takes apart.
The length of a string is cut down to a `u_int`, and a string that is longer is sent without
its end.
-/
namespace DistributedSystem.Dispatcher
open LockManager NodeList Xdr

variable {ι : Type}

/-! ## The stubs -/

/-- The procedure that a stub calls and the bytes of its argument. Nothing is sent if the
argument cannot be encoded. -/
def Call.message (sender : Host) : Call → Option (UInt32 × List UInt8)
  | .initLockMgr nodeStr =>
    let r := xdrWrapstring sender ⟨.encode, [], fun _ => false⟩ nodeStr
    if r.ok then some (1, r.xdrs.bytes) else none
  | .acquireLock number => some (2, xdrInt.bytes number)
  | .releaseLock number => some (3, xdrInt.bytes number)
  | .request pack => some (4, xdrRequestPack.bytes pack)

/-- The call can be sent: a string is not NULL, and its length and its final zero fit into a
`u_int`. -/
def Call.Sendable : Call → Prop
  | .initLockMgr none => False
  | .initLockMgr (some nodeStr) => nodeStr.length + 1 < 2 ^ 32
  | _ => True

/-! ## Strings -/

theorem cString_map (str : CString) : cString (str.map Subtype.val) = str := by
  induction str with
  | nil => rfl
  | cons c str ih => rw [List.map_cons, cString, dif_pos c.2, ih]

/-- How many bytes of a string are sent. -/
def sentLength (str : CString) : ℕ := (UInt32.ofNat str.length).toNat

theorem sentLength_eq (str : CString) : sentLength str = str.length % 2 ^ 32 := by
  simp [sentLength]

theorem xdrWrapstring_encode (sender : Host) (str : CString) (bytes : List UInt8)
    (inline : ℕ → Bool) :
    xdrWrapstring sender ⟨.encode, bytes, inline⟩ (some str) =
      if sentLength str + 1 < 2 ^ 32 then
        ⟨true, some str, ⟨.encode, bytes ++ bigEndian 4 (sentLength str) ++
          padded ((str.map Subtype.val).take (sentLength str)), inline⟩⟩
      else ⟨false, some str, ⟨.encode, bytes ++ bigEndian 4 (sentLength str), inline⟩⟩ := by
  by_cases hroom : (UInt32.ofNat str.length).toNat + 1 < 2 ^ 32
  · simp only [xdrWrapstring, xdrUInt, xdrNumber, Stream.putBytes, sentLength, hroom, and_self,
      if_true]
  · simp only [xdrWrapstring, xdrUInt, xdrNumber, Stream.putBytes, sentLength, hroom, and_false,
      if_false]

theorem xdrWrapstring_decode (host : Host) {l : List UInt8} (h : l.length + 1 < 2 ^ 32)
    (rest : List UInt8) (inline : ℕ → Bool) :
    xdrWrapstring host ⟨.decode, bigEndian 4 l.length ++ padded l ++ rest, inline⟩ none =
      ⟨true, some (cString l), ⟨.decode, rest, inline⟩⟩ := by
  have hlt : l.length < 2 ^ 32 := by omega
  have hlen : (UInt32.ofNat l.length).toNat = l.length := UInt32.toNat_ofNat_of_lt hlt
  have hsize : xdrUInt ⟨.decode, bigEndian 4 l.length ++ (padded l ++ rest), inline⟩ 0 =
      ⟨true, UInt32.ofNat l.length, ⟨.decode, padded l ++ rest, inline⟩⟩ := by
    simp only [xdrUInt, xdrNumber, Stream.getBytes_append (length_bigEndian 4 l.length),
      ofBigEndian_bigEndian]
    rw [Nat.mod_eq_of_lt (hlt.trans_le (by norm_num))]
  have hget : Stream.getOpaque (UInt32.ofNat l.length) ⟨.decode, padded l ++ rest, inline⟩ =
      some (⟨l, hlt⟩, ⟨.decode, rest, inline⟩) :=
    @Stream.getOpaque_padded (UInt32.ofNat l.length) ⟨l, hlt⟩ hlen .decode rest inline
  simp only [xdrWrapstring, List.append_assoc, hsize, hlen, h, and_self, if_true, hget]

/-! ## What arrives -/

/-- The string that arrives is the one that was sent, up to the length that was sent. -/
theorem svcGetargs_initLockMgr (sender host : Host) {str : CString} {m : UInt32 × List UInt8}
    (h : Call.message sender (.initLockMgr (some str)) = some m) :
    sentLength str + 1 < 2 ^ 32 ∧ m.1 = 1 ∧ svcGetargs host m.2 .initLockMgr =
      (true, .initLockMgr (some (str.take (sentLength str)))) := by
  have hle : sentLength str ≤ str.length := by
    rw [sentLength_eq]
    exact Nat.mod_le _ _
  by_cases hroom : sentLength str + 1 < 2 ^ 32
  · simp only [Call.message, xdrWrapstring_encode, hroom, if_true, Option.some.injEq] at h
    subst h
    have hlen : ((str.map Subtype.val).take (sentLength str)).length = sentLength str := by
      rw [List.length_take, List.length_map, min_eq_left hle]
    have hfits : ((str.map Subtype.val).take (sentLength str)).length + 1 < 2 ^ 32 := by
      rw [hlen]
      exact hroom
    have hdecode := xdrWrapstring_decode host hfits [] fun _ => false
    rw [hlen, List.append_nil, ← List.map_take, cString_map] at hdecode
    refine ⟨hroom, rfl, ?_⟩
    simp only [svcGetargs, List.nil_append, ← List.map_take, hdecode]
  · simp only [Call.message, xdrWrapstring_encode, hroom, if_false, Bool.false_eq_true,
      reduceCtorEq] at h

theorem codec_xdrRequestPack : ∃ enc, Codec xdrRequestPack enc :=
  ⟨_, (codec_xdrInt.onField fun _ => rfl).andThen <| (codec_xdrInt.onField fun _ => rfl).andThen <|
    codec_xdrUHyper.onField fun _ => rfl⟩

/-- A call whose argument decodes is run as it has been decoded, and nothing else. -/
theorem dispatcher_of_decoded (host : Host) (h : ι) {rqProc : UInt32} {args : List UInt8}
    {p : Procedure} {c : Call} (srv : Server Int32 ι CString) (hproc : rqProc ≠ NULLPROC)
    (hp : Procedure.ofRqProc rqProc = some p) (hargs : svcGetargs host args p = (true, c)) :
    dispatcher host h rqProc args srv = run host h c srv := by
  rw [dispatcher_of_known host h args srv hproc hp, hargs]
  rfl

theorem run_injective (host : Host) (h : ι) {c c' : Call} {srv : Server Int32 ι CString}
    (heq : run host h c srv = run host h c' srv) : c = c' := by
  have hevents := congrArg Handling.events heq
  simp only [run, List.cons.injEq, Event.run.injEq] at hevents
  exact hevents.1

theorem dispatcher_message (sender host : Host) (h : ι) {c : Call} {m : UInt32 × List UInt8}
    (srv : Server Int32 ι CString) (hc : ∀ str, c ≠ .initLockMgr str)
    (hm : c.message sender = some m) : dispatcher host h m.1 m.2 srv = run host h c srv := by
  obtain ⟨enc, hpack⟩ := codec_xdrRequestPack
  cases c with
  | initLockMgr str => exact absurd rfl (hc str)
  | acquireLock number =>
    obtain rfl := Option.some.inj hm
    obtain ⟨hok, hobj⟩ := codec_xdrInt.decode_bytes 0 number
    exact dispatcher_of_decoded host h srv (show (2 : UInt32) ≠ NULLPROC by decide) rfl
      (by simp only [svcGetargs, hok, hobj])
  | releaseLock number =>
    obtain rfl := Option.some.inj hm
    obtain ⟨hok, hobj⟩ := codec_xdrInt.decode_bytes 0 number
    exact dispatcher_of_decoded host h srv (show (3 : UInt32) ≠ NULLPROC by decide) rfl
      (by simp only [svcGetargs, hok, hobj])
  | request pack =>
    obtain rfl := Option.some.inj hm
    obtain ⟨hok, hobj⟩ := hpack.decode_bytes ⟨0, 0, 0⟩ pack
    exact dispatcher_of_decoded host h srv (show (4 : UInt32) ≠ NULLPROC by decide) rfl
      (by simp only [svcGetargs, hok, hobj])

theorem dispatcher_message_initLockMgr (sender host : Host) (h : ι) {str : CString}
    {m : UInt32 × List UInt8} (srv : Server Int32 ι CString)
    (hm : Call.message sender (.initLockMgr (some str)) = some m) :
    dispatcher host h m.1 m.2 srv =
      run host h (.initLockMgr (some (str.take (sentLength str)))) srv := by
  obtain ⟨-, hproc, hargs⟩ := svcGetargs_initLockMgr sender host hm
  rw [hproc]
  exact dispatcher_of_decoded host h srv (by decide) rfl hargs

theorem exists_message_initLockMgr (sender : Host) {str : CString} (h : str.length + 1 < 2 ^ 32) :
    sentLength str = str.length ∧
      ∃ m, Call.message sender (.initLockMgr (some str)) = some m := by
  have hsent : sentLength str = str.length := by
    rw [sentLength_eq]
    exact Nat.mod_eq_of_lt (by omega)
  have hroom : sentLength str + 1 < 2 ^ 32 := by omega
  refine ⟨hsent, ?_⟩
  simp only [Call.message, xdrWrapstring_encode, hroom, if_true]
  exact ⟨_, rfl⟩

/-- For every call: a stub sends bytes of which every lock manager, in whatever state, makes
that same call and nothing else, if and only if the argument is no string, or a string whose
length and final zero fit into a `u_int`. -/
theorem served_as_sent_iff (sender : Host) (c : Call) :
    (∃ m, c.message sender = some m ∧ ∀ (host : Host) (h : ℕ) (srv : Server Int32 ℕ CString),
      dispatcher host h m.1 m.2 srv = run host h c srv) ↔ c.Sendable := by
  cases c with
  | initLockMgr str =>
    cases str with
    | none =>
      refine iff_of_false ?_ id
      rintro ⟨m, hm, -⟩
      simp [Call.message, xdrWrapstring] at hm
    | some str =>
      constructor
      · rintro ⟨m, hm, hall⟩
        obtain ⟨hroom, -, -⟩ := svcGetargs_initLockMgr sender sender hm
        have hcut := dispatcher_message_initLockMgr sender sender 0 newServer hm
        have hsame := run_injective sender 0 ((hall sender 0 newServer).symm.trans hcut)
        simp only [Call.initLockMgr.injEq, Option.some.injEq] at hsame
        have hlen := congrArg List.length hsame
        rw [List.length_take] at hlen
        show str.length + 1 < 2 ^ 32
        omega
      · intro hsendable
        obtain ⟨hsent, m, hm⟩ := exists_message_initLockMgr sender hsendable
        refine ⟨m, hm, ?_⟩
        intro host h srv
        rw [dispatcher_message_initLockMgr sender host h srv hm, hsent, List.take_length]
  | acquireLock number =>
    refine iff_of_true ⟨_, rfl, ?_⟩ trivial
    intro host h srv
    exact dispatcher_message sender host h srv (by simp) rfl
  | releaseLock number =>
    refine iff_of_true ⟨_, rfl, ?_⟩ trivial
    intro host h srv
    exact dispatcher_message sender host h srv (by simp) rfl
  | request pack =>
    refine iff_of_true ⟨_, rfl, ?_⟩ trivial
    intro host h srv
    exact dispatcher_message sender host h srv (by simp) rfl

end DistributedSystem.Dispatcher
