import DistributedSystem.DsmMessages
import DistributedSystem.DsmTable
import DistributedSystem.DsmStrings
import Mathlib.Data.Nat.Digits.Lemmas

/-!
# The keys of the segments

The memory of a page is the System V segment whose key is the hash of its name. The server
computes it from the `pageid_t` that arrives in a PAGE_CREAT call, and the client from the
name that it was given. The hash is a number to the base 33 of which `key_t` has the lowest
32 bits.
-/
namespace DistributedSystem.Dsm
open Rpc Xdr

/-! ## The hash of a name -/

/-- The number whose digits to the base 33 are the characters, with 5381 before them. -/
def base33 (name : List UInt8) : ℕ :=
  5381 * 33 ^ name.length + Nat.ofDigits 33 (name.map UInt8.toNat).reverse

theorem toNat_foldl_hash (name : List UInt8) (h : UInt64) :
    (name.foldl (fun (h : UInt64) c => ((h <<< 5) + h) + c.toUInt64) h).toNat =
      (h.toNat * 33 ^ name.length + Nat.ofDigits 33 (name.map UInt8.toNat).reverse) % 2 ^ 64 := by
  induction name generalizing h with
  | nil => simp [Nat.mod_eq_of_lt h.toNat_lt]
  | cons c name ih =>
    have hturn : ((h <<< 5) + h + c.toUInt64).toNat ≡ h.toNat * 33 + c.toNat [MOD 2 ^ 64] := by
      have hfive : 2 ^ (UInt64.toNat 5 % 64) = 32 := rfl
      simp only [UInt64.toNat_add, UInt64.toNat_shiftLeft, UInt8.toNat_toUInt64, Nat.ModEq,
        Nat.shiftLeft_eq, hfive]
      omega
    have hdigits : Nat.ofDigits 33 ((c :: name).map UInt8.toNat).reverse =
        Nat.ofDigits 33 (name.map UInt8.toNat).reverse + 33 ^ name.length * c.toNat := by
      rw [List.map_cons, List.reverse_cons, Nat.ofDigits_append, Nat.ofDigits_singleton,
        List.length_reverse, List.length_map]
    rw [List.foldl_cons, ih, hdigits, List.length_cons]
    refine ((hturn.mul_right _).add_right _).trans ?_
    refine congrArg (· % 2 ^ 64) ?_
    ring

/-- The key of a name depends on its number to the base 33 and on nothing else. -/
theorem hash_eq_iff (a b : List UInt8) :
    (hash a).toUInt32 = (hash b).toUInt32 ↔
      base33 (cstr a) ≡ base33 (cstr b) [MOD 2 ^ 32] := by
  have hkey : ∀ a, (hash a).toUInt32.toNat = base33 (cstr a) % 2 ^ 32 := by
    intro a
    have h := toNat_foldl_hash (cstr a) 5381
    rw [UInt64.toNat_toUInt32, hash, h, Nat.mod_mod_of_dvd _ (by norm_num)]
    rfl
  rw [← UInt32.toNat_inj, hkey, hkey, Nat.ModEq]

/-! ## The transfer of a `pageid_t` -/

/-- What the handler is given for the `pageid_t` that was sent: it is decoded from the encoded
bytes, with `rest` behind them, in place of `argument`. -/
def received (sent argument : PageId) (inline inline' : ℕ → Bool) (rest : List UInt8) : PageId :=
  (xdrPageidT ⟨.decode, (xdrPageidT ⟨.encode, [], inline⟩ sent).xdrs.bytes ++ rest, inline'⟩
    argument).obj

theorem received_eq (sent argument : PageId) (inline inline' : ℕ → Bool) (rest : List UInt8) :
    received sent argument inline inline' rest = sent := by
  obtain ⟨enc, hcodec⟩ := codec_xdrPageidT
  obtain ⟨_, hsent⟩ := hcodec.encode sent [] inline
  obtain ⟨_, hreceived⟩ := hcodec.decode sent argument rest inline'
  rw [received, hsent, List.nil_append, hreceived]

/-! ## The keys of client and server -/

/-- The string that the hash of a `pageid_t` reads: a name that fills its array is followed by
the size. -/
theorem cstr_bytes_strncpy (name : List UInt8) (size : UInt32) (behind : List UInt8) :
    cstr ((PageId.mk (strncpy nameLen name) size).bytes behind) =
      if (cstr name).length < nameLen then cstr name
      else (cstr name).take nameLen ++ cstr (littleEndian size ++ behind) := by
  have hne : ∀ c ∈ (cstr name).take nameLen, c ≠ 0 :=
    fun c hc => ne_zero_of_mem_cstr c (List.mem_of_mem_take hc)
  rw [PageId.bytes, toList_strncpy, List.append_assoc, List.append_assoc, cstr_append hne]
  split_ifs with hlen
  · obtain ⟨k, hk⟩ : ∃ k, nameLen - (cstr name).length = k + 1 :=
      Nat.exists_eq_succ_of_ne_zero (by omega)
    rw [hk, List.take_of_length_le (by omega)]
    simp [cstr]
  · have hzero : nameLen - (cstr name).length = 0 := by omega
    rw [hzero, List.replicate_zero, List.nil_append]

/-- For every name and size, whatever happens on the way and whatever stands behind the
`pageid_t`: the keys that the client and the server compute are the same if and only if the
name leaves room for a zero byte in its array, or the string that the server reads instead has
by chance the same number modulo `2 ^ 32`. -/
theorem keys_eq_iff (name : List UInt8) (size : UInt32) (u : Undef) (argument : PageId)
    (inline inline' : ℕ → Bool) (rest : List UInt8) :
    (hash name).toUInt32 =
        pageKey (received ⟨strncpy nameLen name, size⟩ argument inline inline' rest) u ↔
      (cstr name).length < nameLen ∨
        base33 (cstr name) ≡
          base33 ((cstr name).take nameLen ++ cstr (littleEndian size ++ u.behind))
          [MOD 2 ^ 32] := by
  rw [received_eq, pageKey, hash_eq_iff, cstr_bytes_strncpy]
  by_cases hlen : (cstr name).length < nameLen
  · rw [if_pos hlen]
    exact ⟨fun _ => .inl hlen, fun _ => Nat.ModEq.refl _⟩
  · rw [if_neg hlen]
    exact (or_iff_right hlen).symm

/-- A name of 32 letters and the size 100: the server reads the letter "d" behind them. -/
theorem keys_ne :
    (hash (List.replicate 32 97)).toUInt32 ≠
      pageKey (received ⟨strncpy nameLen (List.replicate 32 97), 100⟩ hello (fun _ => false)
        (fun _ => false) []) zeroUndef := by
  rw [received_eq]
  decide +kernel

/-! ## The segments of two pages -/

/-- The segment that was attached last. -/
def lastSegment (s : Server) : Option UInt32 := s.attached.getLast?.map Mapping.key

theorem lastSegment_mprotect (addr : ℕ) (prot : Prot) (s : Server) :
    lastSegment (s.mprotect addr prot) = lastSegment s := by
  simp only [lastSegment, Server.mprotect, List.getLast?_map, Option.map_map]
  refine congrArg (Option.map · _) ?_
  funext m
  simp only [Function.comp]
  split_ifs <;> rfl

theorem lastSegment_shmat (key : UInt32) (s : Server) :
    lastSegment (s.shmat key).2 = some key := by
  simp [lastSegment, Server.shmat]

theorem lastSegment_memcpyTo {addr : ℕ} {bytes : Bytes} {s s' : Server}
    (h : s.memcpyTo addr bytes = some s') : lastSegment s' = lastSegment s := by
  obtain ⟨m, -, h⟩ := Option.bind_eq_some_iff.mp h
  split_ifs at h
  obtain rfl := Option.some.inj h
  rfl

theorem lastSegment_insertDsm {page : PageId} {location : Ip} {s s' : Server}
    (h : insertDsm page location s = some s') : lastSegment s' = lastSegment s := by
  obtain ⟨heap, -, rfl⟩ := Option.map_eq_some_iff.mp h
  rfl

/-- The segment of the page has been attached, with the key that is computed from its name. -/
def Attached (page : PageId) (s' : Server) : Prop :=
  ∃ u : Undef, lastSegment s' = some (pageKey page u)

theorem attached_creatAttach {pageid : PageId} {bytes : Bytes} {location : Ip} {s s' : Server}
    {trace : List (Ip × Call × Answer Reply)} {x : Reply}
    (h : (creatAttach pageid bytes location s).Returns trace s' x) : Attached pageid s' := by
  obtain ⟨s₁, h₁, h⟩ := returns_orExit h
  obtain ⟨s₂, h₂, h⟩ := returns_orExit h
  cases h with
  | ret =>
    refine ⟨s.undef 0, ?_⟩
    rw [lastSegment_insertDsm h₂, lastSegment_memcpyTo h₁, lastSegment_mprotect]
    exact lastSegment_shmat _ _

theorem attached_creatLocal {pageid : PageId} {s s' : Server}
    {trace : List (Ip × Call × Answer Reply)} {x : Reply}
    (h : (creatLocal pageid s).Returns trace s' x) : Attached pageid s' := by
  obtain ⟨s₁, -, h⟩ := returns_orExit h
  obtain ⟨s₂, h₂, h⟩ := returns_orExit h
  cases h with
  | ret =>
    refine ⟨s₁.undef 0, ?_⟩
    rw [lastSegment_mprotect, lastSegment_insertDsm h₂]
    exact lastSegment_shmat _ _

theorem attached_creatRemote {pageid : PageId} {ips : List Ip} {s s' : Server}
    {trace : List (Ip × Call × Answer Reply)} {x : Reply}
    (h : (creatRemote pageid ips s).Returns trace s' x) : Attached pageid s' := by
  induction ips generalizing trace with
  | nil => exact attached_creatLocal h
  | cons ip ips ih =>
    rw [creatRemote] at h
    split_ifs at h with hlocal
    · exact ih h
    · cases h with
      | call ans h =>
        dsimp only at h
        split at h
        · cases h with
          | call ans h =>
            dsimp only at h
            split at h
            · cases h
            · exact attached_creatAttach h
        · exact ih h
        · cases h

/-- On whichever way PAGE_CREAT returns, it has attached the segment of the page. -/
theorem attached_pageCreat {argp : PageId} {s s' : Server}
    {trace : List (Ip × Call × Answer Reply)} {x : Reply}
    (h : (psuDsmPageCreat1Svc argp s).Returns trace s' x) : Attached argp s' := by
  obtain ⟨found, -, h⟩ := returns_orExit h
  cases found with
  | none => exact attached_creatRemote h
  | some p =>
    cases h with
    | call ans h =>
      dsimp only at h
      split at h
      · exact attached_creatAttach h
      · cases h
      · cases h

/-- A name that leaves room for a zero byte is read by the hash up to its end. -/
theorem cstr_bytes_of_lt {page : PageId} (h : (cstr page.name.toList).length < nameLen)
    (behind : List UInt8) : cstr (page.bytes behind) = cstr page.name.toList := by
  obtain ⟨rest, hrest⟩ : ∃ rest, page.name.toList = cstr page.name.toList ++ 0 :: rest := by
    have hsplit := List.takeWhile_append_dropWhile (p := fun c => decide (c ≠ 0))
      (l := page.name.toList)
    cases hdrop : page.name.toList.dropWhile (fun c => decide (c ≠ 0)) with
    | nil =>
      rw [hdrop, List.append_nil] at hsplit
      have hlength := congrArg List.length hsplit
      rw [Vector.length_toList] at hlength
      unfold cstr at h
      omega
    | cons c rest =>
      have hc := List.head?_dropWhile_not (fun c => decide (c ≠ 0)) page.name.toList
      rw [hdrop] at hc hsplit
      obtain rfl : c = 0 := by simpa using hc
      exact ⟨rest, hsplit.symm⟩
  rw [PageId.bytes, hrest, List.append_assoc, List.append_assoc, cstr_append ne_zero_of_mem_cstr]
  rw [← hrest]
  simp [cstr]

/-- For every two names that are shorter than their arrays, and all PAGE_CREAT calls for them
that return, in whatever states of the servers and with whatever answers: their segments are
different if and only if their numbers are different modulo `2 ^ 32`. -/
theorem segments_ne_iff {p q : PageId} (hp : (cstr p.name.toList).length < nameLen)
    (hq : (cstr q.name.toList).length < nameLen) {s s' t t' : Server}
    {trace trace' : List (Ip × Call × Answer Reply)} {x x' : Reply}
    (hs : (psuDsmPageCreat1Svc p s).Returns trace s' x)
    (ht : (psuDsmPageCreat1Svc q t).Returns trace' t' x') :
    lastSegment s' ≠ lastSegment t' ↔
      ¬ base33 (cstr p.name.toList) ≡ base33 (cstr q.name.toList) [MOD 2 ^ 32] := by
  obtain ⟨u, hu⟩ := attached_pageCreat hs
  obtain ⟨v, hv⟩ := attached_pageCreat ht
  rw [hu, hv, ne_eq, Option.some_inj, pageKey, pageKey, hash_eq_iff, cstr_bytes_of_lt hp,
    cstr_bytes_of_lt hq]

theorem exists_returns_creatLocal (pageid : PageId) {s : Server} (h : NoEntry s)
    (ht : NoTable s) :
    ∃ trace s', (creatLocal pageid s).Returns trace s' (.int 1) ∧ NoEntry s' ∧ NoTable s' := by
  refine exists_returns_orExit (insertDir_of_noEntry h _) ?_
  intro s₁ h₁
  have hs₁ : NoEntry s₁ := insertDir_noEntry h₁ h
  have ht₁ : NoTable s₁ := kept_noTable.insertDir _ _ _ h₁ ht
  refine exists_returns_orExit ?_ ?_
  · apply insertDsm_of_noTable
    exact ht₁
  · intro s₂ h₂
    have hs₂ : NoEntry s₂ := insertDsm_noEntry h₂ hs₁
    have ht₂ : NoTable s₂ := kept_noTable.insertDsm _ _ _ _ h₂ ht₁
    exact ⟨[], _, .ret _ _, hs₂, ht₂⟩

/-- With empty lists, PAGE_CREAT returns if no other server says that it has the page. -/
theorem exists_returns_pageCreat (argp : PageId) {s : Server} (h : NoEntry s) (ht : NoTable s) :
    ∃ trace s', (psuDsmPageCreat1Svc argp s).Returns trace s' (.int 1) ∧
      NoEntry s' ∧ NoTable s' := by
  rw [psuDsmPageCreat1Svc, searchDir_of_noEntry h]
  dsimp only [orExit]
  induction s.server.toList.take s.nserver with
  | nil => exact exists_returns_creatLocal argp h ht
  | cons ip ips ih =>
    rw [creatRemote]
    split_ifs
    · exact ih
    · obtain ⟨trace, s', hreturns, hempty⟩ := ih
      refine ⟨(ip, .pageFind argp, .reply (.int 0)) :: trace, s', .call _ ?_, hempty⟩
      exact hreturns

/-- The page "Aa" or "B@". -/
def collidingPage (b : Bool) : PageId :=
  ⟨strncpy nameLen (if b then [66, 64] else [65, 97]), 100⟩

/-- "hello" and then "Aa" on the first server of the table. -/
theorem segments_ne_hello : ∃ trace trace' s' t',
    (psuDsmPageCreat1Svc hello (startedTable false).state).Returns trace s' (.int 1) ∧
      (psuDsmPageCreat1Svc (collidingPage false) s').Returns trace' t' (.int 1) ∧
      lastSegment s' ≠ lastSegment t' := by
  obtain ⟨trace, s', hs, h, ht⟩ :=
    exists_returns_pageCreat hello (s := (startedTable false).state) rfl rfl
  obtain ⟨trace', t', ht, -⟩ := exists_returns_pageCreat (collidingPage false) h ht
  refine ⟨trace, trace', s', t', hs, ht, ?_⟩
  exact (segments_ne_iff (by decide) (by decide) hs ht).mpr (by decide +kernel)

/-- "Aa" and then "B@" on the first server of the table. -/
theorem segments_eq_colliding :
    (cstr (collidingPage false).name.toList).length < nameLen ∧
      (cstr (collidingPage true).name.toList).length < nameLen ∧
      strncmpEq (collidingPage false).name (collidingPage true).name = false ∧
      ∃ trace trace' s' t',
        (psuDsmPageCreat1Svc (collidingPage false) (startedTable false).state).Returns trace s'
            (.int 1) ∧
          (psuDsmPageCreat1Svc (collidingPage true) s').Returns trace' t' (.int 1) ∧
          lastSegment s' = lastSegment t' := by
  have hshort : ∀ b, (cstr (collidingPage b).name.toList).length < nameLen := by decide
  refine ⟨hshort false, hshort true, by decide, ?_⟩
  obtain ⟨trace, s', hs, h, ht⟩ :=
    exists_returns_pageCreat (collidingPage false) (s := (startedTable false).state) rfl rfl
  obtain ⟨trace', t', ht, -⟩ := exists_returns_pageCreat (collidingPage true) h ht
  refine ⟨trace, trace', s', t', hs, ht, ?_⟩
  obtain ⟨u, hu⟩ := attached_pageCreat hs
  obtain ⟨v, hv⟩ := attached_pageCreat ht
  rw [hu, hv, Option.some_inj, pageKey, pageKey, hash_eq_iff, cstr_bytes_of_lt (hshort false),
    cstr_bytes_of_lt (hshort true)]
  decide +kernel

end DistributedSystem.Dsm
