import DistributedSystem.LockMessages
import DistributedSystem.NodeAddress

/-!
# The addresses of a host as texts

`get_local_ip_addresses` in `utility.c` writes the addresses of the interfaces as texts, and
`init_lock_mgr_1_svc` leaves out the names that are among them. Here clients name the nodes
by such texts too, and what happens is said of the addresses themselves:
from the list that a client gives to `psu_init_lock_mgr`, through the string that it builds
and the bytes of its call, to the array `nodes` of the server.
-/
namespace DistributedSystem.NodeAddress
open Dispatcher LockManager NodeList Tokens

variable {ι : Type}

/-! ## Texts -/

/-- `in_addr`: four bytes in the order in which they are written. -/
abbrev InAddr := Vector UInt8 4

def dot : CChar := ⟨46, by decide⟩

/-- The last digit of a number. -/
def digit (n : ℕ) : CChar :=
  ⟨UInt8.ofNat (48 + n % 10), by
    intro h
    have hnat := congrArg UInt8.toNat h
    rw [UInt8.toNat_ofNat', UInt8.toNat_zero] at hnat
    omega⟩

/-- A byte as `%u` writes it. -/
def decimal (b : UInt8) : CString :=
  if b.toNat < 10 then [digit b.toNat]
  else if b.toNat < 100 then [digit (b.toNat / 10), digit b.toNat]
  else [digit (b.toNat / 100), digit (b.toNat / 10), digit b.toNat]

def dotted (a : InAddr) : CString := [dot].intercalate (a.toList.map decimal)

/-- `inet_ntop` for the family `AF_INET`, into a buffer of `size` bytes: there is no text if it
and its final zero do not fit. -/
def inetNtop (a : InAddr) (size : ℕ) : Option CString :=
  if (dotted a).length < size then some (dotted a) else none

/-- The number that a digit stands for. -/
def CChar.value (c : CChar) : ℕ := c.1.toNat - 48

theorem value_digit (n : ℕ) : CChar.value (digit n) = n % 10 := by
  rw [CChar.value, digit, UInt8.toNat_ofNat']
  omega

theorem decimal_ne_nil (b : UInt8) : decimal b ≠ [] := by
  unfold decimal
  split_ifs <;> simp

theorem length_decimal_le (b : UInt8) : (decimal b).length ≤ 3 := by
  unfold decimal
  split_ifs <;> simp

/-- A digit is neither a dot nor a comma. -/
theorem digit_ne {n : ℕ} {c : CChar} (hc : c.1.toNat < 48) : digit n ≠ c := by
  intro h
  have hnat := congrArg (fun c : CChar => c.1.toNat) h
  simp only [digit, UInt8.toNat_ofNat'] at hnat
  omega

theorem not_mem_decimal {c : CChar} (hc : c.1.toNat < 48) (b : UInt8) : c ∉ decimal b := by
  have hne : ∀ n, ¬ c = digit n := fun n h => digit_ne hc h.symm
  unfold decimal
  split_ifs <;> simp [hne]

theorem decimal_injective : Function.Injective decimal := by
  have hvalue : ∀ b : UInt8,
      (decimal b).foldl (fun n c => 10 * n + CChar.value c) 0 = b.toNat := by
    intro b
    have hb := b.toNat_lt
    unfold decimal
    split_ifs with hten hhundred
    · simp only [List.foldl_cons, List.foldl_nil, value_digit]
      omega
    · simp only [List.foldl_cons, List.foldl_nil, value_digit]
      omega
    · simp only [List.foldl_cons, List.foldl_nil, value_digit]
      omega
  intro b b' h
  apply UInt8.toNat_inj.mp
  rw [← hvalue b, ← hvalue b', h]

/-- The pieces between the dots. -/
theorem tokens_dotted (a : InAddr) : tokens dot (dotted a) = a.toList.map decimal := by
  apply tokens_intercalate
  · intro l hl
    obtain ⟨b, -, rfl⟩ := List.mem_map.mp hl
    exact decimal_ne_nil b
  · intro l hl
    obtain ⟨b, -, rfl⟩ := List.mem_map.mp hl
    exact not_mem_decimal (by decide) b

theorem dotted_injective : Function.Injective dotted := by
  intro a a' h
  have hlist : a.toList.map decimal = a'.toList.map decimal := by
    rw [← tokens_dotted a, ← tokens_dotted a', h]
  exact Vector.toList_inj.mp (List.map_injective_iff.mpr decimal_injective hlist)

theorem length_dotted_lt (a : InAddr) : (dotted a).length < 16 := by
  have hne : a.toList.map decimal ≠ [] := by
    intro hnil
    have hlen := congrArg List.length hnil
    simp at hlen
  have hlt : (dotted a).length < (3 + 1) * (a.toList.map decimal).length := by
    apply length_intercalate_lt hne
    intro l hl
    obtain ⟨b, -, rfl⟩ := List.mem_map.mp hl
    exact length_decimal_le b
  simpa using hlt

theorem dotted_ne_nil (a : InAddr) : dotted a ≠ [] := by
  intro hnil
  have htokens := tokens_dotted a
  rw [hnil, tokens_nil] at htokens
  have hlen := congrArg List.length htokens
  simp at hlen

theorem comma_not_mem_dotted (a : InAddr) : comma ∉ dotted a := by
  intro hmem
  obtain hdot | ⟨l, hl, hcomma⟩ := mem_intercalate hmem
  · exact absurd hdot (by decide)
  · obtain ⟨b, -, rfl⟩ := List.mem_map.mp hl
    exact not_mem_decimal (by decide) b hcomma

/-! ## The interfaces -/

/-- The family of IPv4 addresses. -/
def AF_INET : UInt16 := 2

def INET_ADDRSTRLEN : ℕ := 16

/-- An address of an interface, with the bytes that are at the place of `sin_addr`. They are an
address only in the family `AF_INET`. -/
structure SockaddrIn extends Sockaddr where
  sinAddr : InAddr

/-- One entry of the list that `getifaddrs` returns. -/
structure Interface where
  ifaAddr : Option SockaddrIn

/-- The entry as `get_mac_address` reads it. -/
def Interface.toIfaddrs (tmp : Interface) : Ifaddrs := ⟨tmp.ifaAddr.map SockaddrIn.toSockaddr⟩

/-- The loop of `get_local_ip_addresses`. When `inet_ntop` fails, the text is what stands in the
memory that was allocated for it. -/
def addressLoop (junk : CString) : List Interface → List CString → List CString
  | [], buf => buf
  | tmp :: addrs, buf =>
    match tmp.ifaAddr with
    | none => addressLoop junk addrs buf
    | some addr =>
      if addr.saFamily = AF_INET then
        addressLoop junk addrs (buf ++ [(inetNtop addr.sinAddr INET_ADDRSTRLEN).getD junk])
      else addressLoop junk addrs buf

/-- `get_local_ip_addresses`, where `addrs` is what `getifaddrs` returns. -/
def getLocalIpAddresses (junk : CString) (addrs : List Interface) : List CString :=
  addressLoop junk addrs []

/-- The IPv4 address of an interface. -/
def Interface.inetAddress (tmp : Interface) : Option InAddr :=
  tmp.ifaAddr.bind fun addr => if addr.saFamily = AF_INET then some addr.sinAddr else none

/-- The IPv4 addresses of a host. -/
def inetAddresses (addrs : List Interface) : List InAddr := addrs.filterMap Interface.inetAddress

theorem addressLoop_eq (junk : CString) (addrs : List Interface) (buf : List CString) :
    addressLoop junk addrs buf = buf ++ (inetAddresses addrs).map dotted := by
  have hntop : ∀ a, inetNtop a INET_ADDRSTRLEN = some (dotted a) :=
    fun a => if_pos (length_dotted_lt a)
  induction addrs generalizing buf with
  | nil => simp [addressLoop, inetAddresses]
  | cons tmp addrs ih =>
    unfold addressLoop inetAddresses
    cases haddr : tmp.ifaAddr with
    | none =>
      have hnone : tmp.inetAddress = none := by simp [Interface.inetAddress, haddr]
      rw [List.filterMap_cons_none hnone]
      exact ih buf
    | some addr =>
      dsimp only
      split_ifs with hinet
      · have hsome : tmp.inetAddress = some addr.sinAddr := by
          simp [Interface.inetAddress, haddr, hinet]
        rw [List.filterMap_cons_some hsome, ih, hntop, Option.getD_some, List.map_cons,
          List.append_assoc]
        rfl
      · have hnone : tmp.inetAddress = none := by simp [Interface.inetAddress, haddr, hinet]
        rw [List.filterMap_cons_none hnone]
        exact ih buf

/-- Every text fits into its buffer, and the memory is never read as it was allocated. -/
theorem getLocalIpAddresses_eq (junk : CString) (addrs : List Interface) :
    getLocalIpAddresses junk addrs = (inetAddresses addrs).map dotted := by
  rw [getLocalIpAddresses, addressLoop_eq, List.nil_append]

theorem dotted_mem_iff (junk : CString) (addrs : List Interface) (a : InAddr) :
    dotted a ∈ getLocalIpAddresses junk addrs ↔ a ∈ inetAddresses addrs := by
  rw [getLocalIpAddresses_eq, List.mem_map_of_injective dotted_injective]

/-! ## Initialisation by addresses -/

theorem length_intercalate_dotted {addrs : List InAddr} (hlen : addrs.length ≤ 2 ^ 27 - 128) :
    ([comma].intercalate (addrs.map dotted)).length < 2 ^ 31 - 2048 := by
  by_cases hne : addrs.map dotted = []
  · simp [hne]
  · have hlt : ([comma].intercalate (addrs.map dotted)).length <
        (15 + 1) * (addrs.map dotted).length := by
      apply length_intercalate_lt hne
      intro l hl
      obtain ⟨a, -, rfl⟩ := List.mem_map.mp hl
      have hdotted := length_dotted_lt a
      omega
    rw [List.length_map] at hlt
    omega

theorem tokens_intercalate_dotted (addrs : List InAddr) :
    tokens comma ([comma].intercalate (addrs.map dotted)) = addrs.map dotted := by
  apply tokens_intercalate
  · intro l hl
    obtain ⟨a, -, rfl⟩ := List.mem_map.mp hl
    exact dotted_ne_nil a
  · intro l hl
    obtain ⟨a, -, rfl⟩ := List.mem_map.mp hl
    exact comma_not_mem_dotted a

/-- The names that are not among the texts are those of the other addresses. -/
theorem filter_map_dotted (junk : CString) (ifap : List Interface) (addrs : List InAddr) :
    ((addrs.map dotted).filter fun pch => pch ∉ getLocalIpAddresses junk ifap) =
      (addrs.filter fun a => a ∉ inetAddresses ifap).map dotted := by
  rw [List.filter_map]
  congr 1
  apply List.filter_congr
  intro a _
  simp only [Function.comp_apply, dotted_mem_iff]

/-- For every list of addresses that a client gives to `psu_init_lock_mgr` as texts, every
host with an IPv4 address and every state of its lock manager: the client builds a string and
sends it, and of the bytes the lock manager makes one call of `init_lock_mgr_1_svc`, which
appends to `nodes` the addresses that are on none of the interfaces of the host, in their
order, and does nothing else. -/
theorem initialised_by_addresses (sender : Host) (junk : CString) (buffer : Option CString)
    (ifap : List Interface) (hlocal : inetAddresses ifap ≠ []) (addrs : List InAddr)
    (hlen : addrs.length ≤ 2 ^ 27 - 128) (h : ι) (srv : Server Int32 ι CString) :
    ∃ nodeStr m, psuInitLockMgr (addrs.map dotted) = some nodeStr ∧
      Call.message sender (.initLockMgr (some nodeStr)) = some m ∧
      dispatcher ⟨getLocalIpAddresses junk ifap, buffer⟩ h m.1 m.2 srv =
        ⟨[.run (.initLockMgr (some nodeStr)), .sendreply],
          .returned { srv with
            nodes := srv.nodes ++
              (addrs.filter fun a => a ∉ inetAddresses ifap).map dotted }⟩ := by
  have hjoin := length_intercalate_dotted hlen
  obtain ⟨hsent, m, hm⟩ := exists_message_initLockMgr sender
    (show ([comma].intercalate (addrs.map dotted)).length + 1 < 2 ^ 32 by omega)
  refine ⟨_, m, psuInitLockMgr_eq_some hjoin, hm, ?_⟩
  rw [dispatcher_message_initLockMgr sender _ h srv hm, hsent, List.take_length]
  have hhost : getLocalIpAddresses junk ifap ≠ [] := by
    rw [getLocalIpAddresses_eq]
    simpa using hlocal
  have hexec : Call.exec ⟨getLocalIpAddresses junk ifap, buffer⟩ h srv
      (.initLockMgr (some ([comma].intercalate (addrs.map dotted)))) =
        .returned { srv with
          nodes := srv.nodes ++ (addrs.filter fun a => a ∉ inetAddresses ifap).map dotted } := by
    simp only [Call.exec, initLockMgrString_eq hhost, initLockMgr1Svc, tokens_intercalate_dotted,
      ← filter_map_dotted junk]
    congr!
  rw [run, hexec]
  rfl

/-- The addresses 10.0.0.1 and 10.0.0.2. -/
def hostAddress (p : Bool) : InAddr := #v[10, 0, 0, if p then 2 else 1]

/-- One card with one address. -/
def hostInterfaces (p : Bool) : List Interface :=
  [⟨some ⟨⟨AF_PACKET, #v[2, 66, 10, 0, 0, if p then 2 else 1, 0, 0]⟩, Vector.replicate 4 0⟩⟩,
    ⟨some ⟨⟨AF_INET, Vector.replicate 8 0⟩, hostAddress p⟩⟩]

theorem inetAddresses_hostInterfaces (p : Bool) :
    inetAddresses (hostInterfaces p) = [hostAddress p] := rfl

theorem hostAddress_injective : Function.Injective hostAddress := by
  decide

/-- Both addresses are named on the host that has the first. -/
theorem initialised_by_addresses_two : ∃ nodeStr m,
    psuInitLockMgr ([hostAddress false, hostAddress true].map dotted) = some nodeStr ∧
      Call.message (hostAt []) (.initLockMgr (some nodeStr)) = some m ∧
      dispatcher ⟨getLocalIpAddresses [] (hostInterfaces false), none⟩ 0 m.1 m.2 newServer =
        ⟨[.run (.initLockMgr (some nodeStr)), .sendreply],
          .returned { newServer with
            nodes := newServer.nodes ++ ([hostAddress false, hostAddress true].filter fun a =>
              a ∉ inetAddresses (hostInterfaces false)).map dotted }⟩ := by
  have hlocal : inetAddresses (hostInterfaces false) ≠ [] := by
    rw [inetAddresses_hostInterfaces]
    exact List.cons_ne_nil _ _
  exact initialised_by_addresses (hostAt []) [] none _ hlocal _ (by decide) 0 newServer

end DistributedSystem.NodeAddress
