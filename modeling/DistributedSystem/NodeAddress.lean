import DistributedSystem.LockSafety
import DistributedSystem.Xdr

/-!
# The address of a node

The lock manager of a host puts the value of `get_mac_address` into its requests, and the
handler of a request breaks ties between equal sequence numbers by it. The function goes
through the interfaces of the host and takes six bytes from the first one whose hardware
address has a byte other than zero.
-/
namespace DistributedSystem.NodeAddress
open Xdr

/-! ## The interfaces -/

/-- The family of hardware addresses. -/
def AF_PACKET : UInt16 := 17

/-- An address of an interface. Only those of the family `AF_PACKET` have the array
`sll_addr`; in one of another family there are other bytes in its place. -/
structure Sockaddr where
  saFamily : UInt16
  sllAddr : Vector UInt8 8

/-- One entry of the list that `getifaddrs` returns, where `ifa_addr` may be `NULL`. -/
structure Ifaddrs where
  ifaAddr : Option Sockaddr

/-! ## The functions -/

def CHAR_BIT : ℕ := 8

/-- `get_ptr`: the bytes from the pointer on that it returns, or `some none` for the pointer
`NULL`. There is no result when it reads the family of an address that is not there. -/
def getPtr (ifaptr : Ifaddrs) : Option (Option (List UInt8)) :=
  ifaptr.ifaAddr.map fun addr =>
    if addr.saFamily = AF_PACKET then some addr.sllAddr.toList else none

/-- The loop of lines 87 and 88, where the number is `i + 1`. There is no result when it reads behind
the last byte. -/
def orLoop : ℕ → List UInt8 → UInt64 → Option UInt64
  | 0, _, result => some result
  | _ + 1, [], _ => none
  | i + 1, b :: ptr, result =>
    orLoop i ptr (result ||| b.toUInt64 <<< UInt64.ofNat (CHAR_BIT * i))

/-- The loop of line 81. -/
def interfaceLoop : List Ifaddrs → UInt64 → Option UInt64
  | [], result => some result
  | ifaptr :: ifap, result =>
    match getPtr ifaptr with
    | none => none
    | some none => interfaceLoop ifap result
    | some (some ptr) =>
      match orLoop 6 ptr result with
      | none => none
      | some result' => if result' ≠ 0 then some result' else interfaceLoop ifap result'

/-- `get_mac_address`, where `ifap` is what `getifaddrs` returns, if it succeeds. -/
def getMacAddress (ifap : Option (List Ifaddrs)) : Option UInt64 :=
  match ifap with
  | some ifap => interfaceLoop ifap 0
  | none => some 0

/-! ## Hardware addresses -/

/-- The hardware address that an interface has, if any: six bytes. -/
def hardwareAddress (ifa : Ifaddrs) : Option (List UInt8) :=
  match ifa.ifaAddr with
  | none => none
  | some addr => if addr.saFamily = AF_PACKET then some (addr.sllAddr.toList.take 6) else none

/-- The hardware address of an interface, if it is not zero. -/
def identity (ifa : Ifaddrs) : Option (List UInt8) :=
  (hardwareAddress ifa).filter fun a => a ≠ List.replicate 6 0

/-- The first hardware address of the host that is not zero. -/
def nodeAddress (ifap : List Ifaddrs) : Option (List UInt8) := ifap.findSome? identity

/-- The number of an address, with zero for none. -/
def number (address : Option (List UInt8)) : ℕ := ofBigEndian (address.getD [])

/-- Each entry has an address, up to the first hardware address that is not zero. -/
def Present (ifap : List Ifaddrs) : Prop :=
  ∀ ifa ∈ ifap.takeWhile fun ifa => (identity ifa).isNone, ifa.ifaAddr.isSome

theorem hardwareAddress_of_getPtr {ifa : Ifaddrs} {ptr : Option (List UInt8)}
    (h : getPtr ifa = some ptr) : hardwareAddress ifa = ptr.map (List.take 6) := by
  obtain ⟨addr, haddr, rfl⟩ := Option.map_eq_some_iff.mp h
  rw [hardwareAddress, haddr]
  show (if addr.saFamily = AF_PACKET then _ else _) = _
  split <;> rfl

theorem exists_getPtr {ifa : Ifaddrs} (h : ifa.ifaAddr.isSome) :
    ∃ ptr, getPtr ifa = some ptr := by
  rw [← Option.isSome_iff_exists, getPtr, Option.isSome_map]
  exact h

theorem length_of_getPtr {ifa : Ifaddrs} {ptr : List UInt8} (h : getPtr ifa = some (some ptr)) :
    ptr.length = 8 := by
  obtain ⟨addr, -, haddr⟩ := Option.map_eq_some_iff.mp h
  split at haddr
  · rw [← Option.some.inj haddr, Vector.length_toList]
  · simp at haddr

theorem length_hardwareAddress {ifa : Ifaddrs} {a : List UInt8} (h : hardwareAddress ifa = some a) :
    a.length = 6 := by
  rw [hardwareAddress] at h
  split at h
  · simp at h
  · split at h
    · rw [← Option.some.inj h]
      simp
    · simp at h

theorem identity_eq_some {ifa : Ifaddrs} {a : List UInt8} :
    identity ifa = some a ↔ hardwareAddress ifa = some a ∧ a ≠ List.replicate 6 0 := by
  rw [identity, Option.filter_eq_some_iff]
  simp

theorem nodeAddress_cons_of_some {ifa : Ifaddrs} {a : List UInt8} (ifap : List Ifaddrs)
    (h : identity ifa = some a) : nodeAddress (ifa :: ifap) = some a := by
  simp [nodeAddress, h]

theorem nodeAddress_cons_of_none {ifa : Ifaddrs} (ifap : List Ifaddrs)
    (h : identity ifa = none) : nodeAddress (ifa :: ifap) = nodeAddress ifap := by
  simp [nodeAddress, h]

theorem nodeAddress_eq_some {ifap : List Ifaddrs} {a : List UInt8} (h : nodeAddress ifap = some a) :
    a.length = 6 ∧ a ≠ List.replicate 6 0 := by
  obtain ⟨ifa, -, hifa⟩ := List.exists_of_findSome?_eq_some h
  obtain ⟨haddr, hne⟩ := identity_eq_some.mp hifa
  exact ⟨length_hardwareAddress haddr, hne⟩

theorem length_eq_of_nodeAddress {ifap ifap' : List Ifaddrs} {a a' : List UInt8}
    (h : nodeAddress ifap = some a) (h' : nodeAddress ifap' = some a') :
    a.length = a'.length := by
  rw [(nodeAddress_eq_some h).1, (nodeAddress_eq_some h').1]

theorem present_cons_of_some {ifa : Ifaddrs} {a : List UInt8} (ifap : List Ifaddrs)
    (h : identity ifa = some a) : Present (ifa :: ifap) := by
  simp [Present, h]

theorem present_cons_of_none {ifa : Ifaddrs} (ifap : List Ifaddrs) (h : identity ifa = none) :
    Present (ifa :: ifap) ↔ ifa.ifaAddr.isSome ∧ Present ifap := by
  simp [Present, h]

/-! ## The loops -/

/-- The next byte is written below all that were written before. -/
theorem toNat_or_shiftLeft {result : UInt64} {i : ℕ} (b : UInt8) (hi : i < 8)
    (h : 256 ^ (i + 1) ∣ result.toNat) :
    (result ||| b.toUInt64 <<< UInt64.ofNat (CHAR_BIT * i)).toNat =
      result.toNat + b.toNat * 256 ^ i := by
  obtain ⟨q, hq⟩ := h
  have hpow : ∀ j, (256 : ℕ) ^ j = 2 ^ (8 * j) := fun j => by rw [pow_mul]; norm_num
  have hb : b.toNat * 256 ^ i < 256 ^ (i + 1) := by
    have := b.toNat_lt
    rw [pow_succ, Nat.mul_comm (256 ^ i)]
    exact Nat.mul_lt_mul_of_pos_right (by omega) (by positivity)
  have hle : (256 : ℕ) ^ (i + 1) ≤ 2 ^ 64 := by
    rw [show (2 : ℕ) ^ 64 = 256 ^ 8 by norm_num]
    exact Nat.pow_le_pow_right (by omega) hi
  have hshift : (b.toUInt64 <<< UInt64.ofNat (CHAR_BIT * i)).toNat = b.toNat * 256 ^ i := by
    have hmod : CHAR_BIT * i % 2 ^ 64 % 64 = 8 * i := by
      unfold CHAR_BIT
      omega
    rw [UInt64.toNat_shiftLeft, UInt64.toNat_ofNat', hmod, UInt8.toNat_toUInt64,
      Nat.shiftLeft_eq, ← hpow, Nat.mod_eq_of_lt (hb.trans_le hle)]
  have hq' : result.toNat = q <<< (8 * (i + 1)) := by
    rw [hq, Nat.shiftLeft_eq, ← hpow, Nat.mul_comm]
  rw [UInt64.toNat_or, hshift, hq', ← Nat.shiftLeft_add_eq_or_of_lt]
  rw [← hpow]
  exact hb

/-- The loop adds the number of the bytes it reads, as long as the bits below are free. -/
theorem exists_orLoop {i : ℕ} {ptr : List UInt8} {result : UInt64} (hi : i ≤ 8)
    (hptr : i ≤ ptr.length) (h : 256 ^ i ∣ result.toNat) :
    ∃ v, orLoop i ptr result = some v ∧
      v.toNat = result.toNat + ofBigEndian (ptr.take i) := by
  induction i generalizing ptr result with
  | zero => exact ⟨result, rfl, by simp [ofBigEndian]⟩
  | succ i ih =>
    cases ptr with
    | nil => simp at hptr
    | cons b ptr =>
      have hlen : i ≤ ptr.length := by simpa using hptr
      have hor := toNat_or_shiftLeft b (by omega) h
      have hdvd : 256 ^ i ∣ (result ||| b.toUInt64 <<< UInt64.ofNat (CHAR_BIT * i)).toNat := by
        rw [hor]
        exact Nat.dvd_add ((pow_dvd_pow 256 (Nat.le_succ i)).trans h) (Nat.dvd_mul_left _ _)
      obtain ⟨v, hv, hval⟩ := ih (by omega) hlen hdvd
      refine ⟨v, hv, ?_⟩
      rw [hval, hor, List.take_succ_cons, ofBigEndian_cons, List.length_take_of_le hlen]
      omega

theorem exists_orLoop_of_getPtr {ifa : Ifaddrs} {ptr : List UInt8}
    (h : getPtr ifa = some (some ptr)) :
    ∃ v, orLoop 6 ptr 0 = some v ∧ v.toNat = ofBigEndian (ptr.take 6) ∧
      (v = 0 ↔ ptr.take 6 = List.replicate 6 0) := by
  have hlen : 6 ≤ ptr.length := by
    rw [length_of_getPtr h]
    omega
  have hdvd : 256 ^ 6 ∣ (0 : UInt64).toNat := dvd_zero _
  obtain ⟨v, hv, hval⟩ := exists_orLoop (by omega) hlen hdvd
  rw [UInt64.toNat_zero, Nat.zero_add] at hval
  refine ⟨v, hv, hval, ?_⟩
  have hzero := ofBigEndian_eq_zero_iff (ptr.take 6)
  rw [List.length_take_of_le hlen, ← hval] at hzero
  rw [← hzero, ← UInt64.toNat_inj, UInt64.toNat_zero]

theorem interfaceLoop_of_null {ifa : Ifaddrs} (ifap : List Ifaddrs) (h : ifa.ifaAddr = none) :
    interfaceLoop (ifa :: ifap) 0 = none := by
  simp [interfaceLoop, getPtr, h]

/-- An entry that has an address, but none that identifies the host, leaves nothing behind. -/
theorem interfaceLoop_of_none {ifa : Ifaddrs} (ifap : List Ifaddrs) (haddr : ifa.ifaAddr.isSome)
    (h : identity ifa = none) : interfaceLoop (ifa :: ifap) 0 = interfaceLoop ifap 0 := by
  obtain ⟨ptr, hptr⟩ := exists_getPtr haddr
  cases ptr with
  | none => rw [interfaceLoop, hptr]
  | some ptr =>
    have hhw : hardwareAddress ifa = some (ptr.take 6) := hardwareAddress_of_getPtr hptr
    have hzero : ptr.take 6 = List.replicate 6 0 := by
      by_contra hne
      rw [identity_eq_some.mpr ⟨hhw, hne⟩] at h
      simp at h
    obtain ⟨v, hv, -, hv0⟩ := exists_orLoop_of_getPtr hptr
    have hv0 : v = 0 := hv0.mpr hzero
    simp [interfaceLoop, hptr, hv, hv0]

/-- The first entry that identifies the host ends the loop. -/
theorem interfaceLoop_of_some {ifa : Ifaddrs} {a : List UInt8} (ifap : List Ifaddrs)
    (h : identity ifa = some a) :
    ∃ v, interfaceLoop (ifa :: ifap) 0 = some v ∧ v.toNat = ofBigEndian a := by
  obtain ⟨haddr, hne⟩ := identity_eq_some.mp h
  have hsome : ifa.ifaAddr.isSome := by
    cases hnull : ifa.ifaAddr with
    | none => simp [hardwareAddress, hnull] at haddr
    | some addr => rfl
  obtain ⟨ptr, hptr⟩ := exists_getPtr hsome
  have hhw := hardwareAddress_of_getPtr hptr
  rw [haddr] at hhw
  cases ptr with
  | none => simp at hhw
  | some ptr =>
    have hptr6 : a = ptr.take 6 := Option.some.inj hhw
    obtain ⟨v, hv, hval, hv0⟩ := exists_orLoop_of_getPtr hptr
    rw [← hptr6] at hval hv0
    refine ⟨v, ?_, hval⟩
    simp [interfaceLoop, hptr, hv, hv0.not.mpr hne]

theorem interfaceLoop_eq_none {ifap : List Ifaddrs} (h : ¬ Present ifap) :
    interfaceLoop ifap 0 = none := by
  induction ifap with
  | nil => simp [Present] at h
  | cons ifa ifap ih =>
    cases hid : identity ifa with
    | some a => exact absurd (present_cons_of_some ifap hid) h
    | none =>
      rw [present_cons_of_none ifap hid] at h
      cases haddr : ifa.ifaAddr with
      | none => exact interfaceLoop_of_null ifap haddr
      | some addr =>
        have hsome : ifa.ifaAddr.isSome := by simp [haddr]
        rw [interfaceLoop_of_none ifap hsome hid]
        apply ih
        intro hp
        exact h ⟨hsome, hp⟩

/-- Where no missing address stops it, the loop returns the number of the node's address. -/
theorem exists_interfaceLoop {ifap : List Ifaddrs} (h : Present ifap) :
    ∃ v, interfaceLoop ifap 0 = some v ∧ v.toNat = number (nodeAddress ifap) := by
  induction ifap with
  | nil => exact ⟨0, rfl, rfl⟩
  | cons ifa ifap ih =>
    cases hid : identity ifa with
    | some a =>
      rw [nodeAddress_cons_of_some ifap hid]
      exact interfaceLoop_of_some ifap hid
    | none =>
      obtain ⟨hsome, hp⟩ := (present_cons_of_none ifap hid).mp h
      rw [nodeAddress_cons_of_none ifap hid, interfaceLoop_of_none ifap hsome hid]
      exact ih hp

/-! ## The numbers of addresses -/

theorem number_eq_zero_iff (ifap : List Ifaddrs) :
    number (nodeAddress ifap) = 0 ↔ nodeAddress ifap = none := by
  cases h : nodeAddress ifap with
  | none => simp [number, ofBigEndian]
  | some a =>
    obtain ⟨hlen, hne⟩ := nodeAddress_eq_some h
    have hzero := ofBigEndian_eq_zero_iff a
    rw [hlen] at hzero
    show ofBigEndian a = 0 ↔ _
    simpa only [hzero, reduceCtorEq, iff_false] using hne

theorem number_inj (ifap ifap' : List Ifaddrs) :
    number (nodeAddress ifap) = number (nodeAddress ifap') ↔
      nodeAddress ifap = nodeAddress ifap' := by
  cases h : nodeAddress ifap with
  | none =>
    have hzero := number_eq_zero_iff ifap'
    rw [eq_comm, @eq_comm _ none, ← hzero]
    rfl
  | some a =>
    cases h' : nodeAddress ifap' with
    | none =>
      have hzero := number_eq_zero_iff ifap
      rw [h] at hzero
      exact hzero
    | some a' =>
      simpa [number] using ofBigEndian_inj (length_eq_of_nodeAddress h h')

/-- Hosts without an address come first, and the others in the order of their addresses. -/
theorem number_lt_iff (ifap ifap' : List Ifaddrs) :
    number (nodeAddress ifap) < number (nodeAddress ifap') ↔
      nodeAddress ifap < nodeAddress ifap' := by
  cases h' : nodeAddress ifap' with
  | none => simp [number, ofBigEndian]
  | some a' =>
    cases h : nodeAddress ifap with
    | none =>
      have hpos : number (some a') ≠ 0 := by
        rw [← h', Ne, number_eq_zero_iff, h']
        simp
      have hzero : number none = 0 := rfl
      rw [hzero]
      simp [Nat.pos_of_ne_zero hpos]
    | some a =>
      simpa [number] using ofBigEndian_lt_iff (length_eq_of_nodeAddress h h')

theorem present_of_getMacAddress {ifap : List Ifaddrs} {v : UInt64}
    (h : getMacAddress (some ifap) = some v) : Present ifap := by
  by_contra hp
  rw [getMacAddress, interfaceLoop_eq_none hp] at h
  simp at h

/-- A value that `get_mac_address` returns is that of the node's address. -/
theorem toNat_of_getMacAddress {ifap : List Ifaddrs} {v : UInt64}
    (h : getMacAddress (some ifap) = some v) : v.toNat = number (nodeAddress ifap) := by
  obtain ⟨w, hw, hval⟩ := exists_interfaceLoop (present_of_getMacAddress h)
  rw [getMacAddress, hw] at h
  rw [← Option.some.inj h, hval]

theorem eq_iff_of_getMacAddress {ifap ifap' : List Ifaddrs} {v v' : UInt64}
    (h : getMacAddress (some ifap) = some v) (h' : getMacAddress (some ifap') = some v') :
    v = v' ↔ nodeAddress ifap = nodeAddress ifap' := by
  rw [← UInt64.toNat_inj, toNat_of_getMacAddress h, toNat_of_getMacAddress h', number_inj]

theorem lt_iff_of_getMacAddress {ifap ifap' : List Ifaddrs} {v v' : UInt64}
    (h : getMacAddress (some ifap) = some v) (h' : getMacAddress (some ifap') = some v') :
    v < v' ↔ nodeAddress ifap < nodeAddress ifap' := by
  rw [UInt64.lt_iff_toNat_lt, toNat_of_getMacAddress h, toNat_of_getMacAddress h', number_lt_iff]

/-! ## The identity of a node -/

/-- What the lock managers want of the value `v` of a host: it is the number of the node's
address, zero only where there is none, and hosts have the same value only if they have the
same address, and are ordered as their addresses are, byte by byte. -/
structure Identifies (ifap : List Ifaddrs) (v : UInt64) : Prop where
  toNat_eq : ∀ a, nodeAddress ifap = some a → v.toNat = ofBigEndian a
  eq_zero_iff : v = 0 ↔ nodeAddress ifap = none
  eq_iff : ∀ ifap' v', getMacAddress (some ifap') = some v' →
    (v = v' ↔ nodeAddress ifap = nodeAddress ifap')
  lt_iff : ∀ ifap' v', getMacAddress (some ifap') = some v' →
    (v < v' ↔ nodeAddress ifap < nodeAddress ifap')

theorem identifies_of_getMacAddress {ifap : List Ifaddrs} {v : UInt64}
    (h : getMacAddress (some ifap) = some v) : Identifies ifap v where
  toNat_eq := by
    intro a ha
    rw [toNat_of_getMacAddress h, ha]
    rfl
  eq_zero_iff := by
    rw [← UInt64.toNat_inj, toNat_of_getMacAddress h, UInt64.toNat_zero, number_eq_zero_iff]
  eq_iff := fun _ _ h' => eq_iff_of_getMacAddress h h'
  lt_iff := fun _ _ h' => lt_iff_of_getMacAddress h h'

/-- `get_mac_address` identifies the host exactly when it meets no entry without an address
before it is done. -/
theorem getMacAddress_identifies_iff (ifap : List Ifaddrs) :
    (∃ v, getMacAddress (some ifap) = some v ∧ Identifies ifap v) ↔ Present ifap := by
  constructor
  · intro ⟨v, hv, _⟩
    exact present_of_getMacAddress hv
  · intro hp
    obtain ⟨v, hv, -⟩ := exists_interfaceLoop hp
    exact ⟨v, hv, identifies_of_getMacAddress hv⟩

/-- A tunnel without an address that is listed before the network card. -/
def tunnelFirst : List Ifaddrs :=
  [⟨none⟩, ⟨some ⟨AF_PACKET, #v[2, 66, 172, 17, 0, 2, 0, 0]⟩⟩]

theorem getMacAddress_reads_null :
    ¬ ∃ v, getMacAddress (some tunnelFirst) = some v ∧ Identifies tunnelFirst v := by
  intro ⟨v, hv, _⟩
  simp [tunnelFirst, getMacAddress, interfaceLoop, getPtr] at hv

/-! ## Ties between requests -/

section Ties
variable {N A P C ι : Type}

/-- Among requests of one sequence number, that of the host with the smaller address comes
first. -/
theorem defers_iff_nodeAddress_lt {ifap ifap' : List Ifaddrs} {mac mac' : UInt64}
    {pack : LockManager.RequestPack ℤ} {v : LockManager.LockVar ℤ ι}
    (h : getMacAddress (some ifap) = some mac) (h' : getMacAddress (some ifap') = some mac')
    (hmac : pack.mac = mac'.toNat) (hr : v.requestingCs = true)
    (hseqno : pack.seqno = v.myseqno) :
    v.defers mac.toNat pack = true ↔ nodeAddress ifap < nodeAddress ifap' := by
  rw [LockManager.LockVar.defers_iff, LockManager.LockVar.priority,
    LockManager.RequestPack.priority, Prod.Lex.toLex_lt_toLex, hmac, hseqno,
    ← lt_iff_of_getMacAddress h h', UInt64.lt_iff_toNat_lt]
  simp [hr]

/-- The lock managers of a deployment have distinct values exactly when their hosts have
distinct addresses. -/
theorem mac_injective_iff {e : LockProtocol.Env N A P C} {ifap : N → List Ifaddrs}
    (h : ∀ n, ∃ v, getMacAddress (some (ifap n)) = some v ∧ e.mac n = v.toNat) :
    Function.Injective e.mac ↔ Function.Injective fun n => nodeAddress (ifap n) := by
  have heq : ∀ n n', e.mac n = e.mac n' ↔ nodeAddress (ifap n) = nodeAddress (ifap n') := by
    intro n n'
    obtain ⟨v, hv, hmac⟩ := h n
    obtain ⟨v', hv', hmac'⟩ := h n'
    rw [hmac, hmac', UInt64.toNat_inj, eq_iff_of_getMacAddress hv hv']
  constructor
  · intro hinj n n' hnn'
    exact hinj ((heq n n').mpr hnn')
  · intro hinj n n' hnn'
    exact hinj ((heq n n').mp hnn')

end Ties

end DistributedSystem.NodeAddress
