import DistributedSystem.LockManager
import DistributedSystem.Tokens

/-!
# The list of nodes

A client joins the addresses of the nodes into one string, from `psu_init_lock_mgr` in
`psu_dist_lock_mgr.c`, and its server takes the string apart again and appends the addresses
that are not its own to `nodes`, from `init_lock_mgr_1_svc`. The string arrives at the
server as it was built. `nodes` lives as long as the server, and every client appends to it:
`has_initialized` of the server is set by the first call and read by none.
-/
namespace DistributedSystem.NodeList
open LockManager Tokens

variable {S ι : Type}

/-- A character of a C string: every byte but the one that ends the string. -/
abbrev CChar := { b : UInt8 // b ≠ 0 }

abbrev CString := List CChar

instance : LawfulBEq CString := inferInstance

def comma : CChar := ⟨44, by decide⟩

/-! ## The client -/

/-- The size of the buffer at first, and what is added to it at a time. -/
def chunk : ℕ := 1024

/-- The loop of lines 21 to 25: enlarge the buffer until `need` bytes fit. There is no result
if its size no longer fits into an `int`. -/
def grow (need strSize : ℕ) : Option ℕ :=
  if need > strSize then
    if strSize + chunk < 2 ^ 31 then grow need (strSize + chunk) else none
  else some strSize
termination_by need - strSize
decreasing_by
  have hchunk : 0 < chunk := by decide
  omega

/-- `strcat` into a buffer of `size` bytes. There is no result if the string and its final
zero do not fit. -/
def strcat (size : ℕ) (dest src : CString) : Option CString :=
  if dest.length + src.length < size then some (dest ++ src) else none

/-- The loop of lines 18 to 29, for the nodes that are left. -/
def appendNodes : List CString → CString → ℕ → Option CString
  | [], nodeStr, _ => some nodeStr
  | node :: nodes, nodeStr, strSize =>
    (grow (nodeStr.length + node.length + 2) strSize).bind fun strSize =>
      (strcat strSize nodeStr node).bind fun nodeStr =>
        (if nodes ≠ [] then strcat strSize nodeStr [comma] else some nodeStr).bind fun nodeStr =>
          appendNodes nodes nodeStr strSize

/-- `psu_init_lock_mgr`: the argument of its INIT_LOCK_MGR call. -/
def psuInitLockMgr (nodes : List CString) : Option CString := appendNodes nodes [] chunk

/-! ## The server -/

/-- The loop of lines 83 to 100 on the string at the position of `strtok`. -/
def initLoop (localIpAddresses : List CString) (str : CString) (nodes : List CString) :
    List CString :=
  match _h : strtok comma str with
  | none => nodes
  | some (pch, rest) =>
    initLoop localIpAddresses rest (if pch ∈ localIpAddresses then nodes else nodes ++ [pch])
termination_by str.length
decreasing_by exact length_lt_of_strtok _h

/-- `init_lock_mgr_1_svc`. There is no outcome when line 76 finds no local address. -/
def initLockMgrString (localIpAddresses : List CString) (nodeStr : CString)
    (srv : Server S ι CString) : Option (Server S ι CString) :=
  if localIpAddresses = [] then none
  else some { srv with nodes := initLoop localIpAddresses nodeStr srv.nodes }

/-- The loop appends the tokens that are no local address, in their order. -/
theorem initLoop_eq (localIpAddresses : List CString) (str : CString) (nodes : List CString) :
    initLoop localIpAddresses str nodes =
      nodes ++ (tokens comma str).filter fun pch => pch ∉ localIpAddresses := by
  induction str, nodes using initLoop.induct localIpAddresses with
  | case1 str nodes h =>
    rw [tokens_of_strtok_eq_none h]
    unfold initLoop
    split
    · simp
    · rename_i hsome
      cases hsome.symm.trans h
  | case2 str nodes pch rest h ih =>
    rw [tokens_of_strtok_eq_some h]
    unfold initLoop
    split
    · rename_i hnone
      cases hnone.symm.trans h
    · rename_i pch' rest' hsome
      obtain ⟨rfl, rfl⟩ := Prod.mk.inj (Option.some.inj (hsome.symm.trans h))
      rw [dite_eq_ite] at ih
      rw [ih]
      by_cases hp : pch' ∈ localIpAddresses
      · simp [hp]
      · simp [hp]

/-- On a host with an address, the service routine is the one on the names that `strtok`
splits the string into. -/
theorem initLockMgrString_eq {localIpAddresses : List CString} (h : localIpAddresses ≠ [])
    (nodeStr : CString) (srv : Server S ι CString) :
    initLockMgrString localIpAddresses nodeStr srv =
      some (initLockMgr1Svc localIpAddresses (tokens comma nodeStr) srv) := by
  rw [initLockMgrString, if_neg h, initLoop_eq, initLockMgr1Svc]
  congr!

/-! ## The round trip -/

/-- The buffer gets large enough, and not much larger than it has to be. -/
theorem grow_eq_some (need : ℕ) {strSize : ℕ} (hneed : need + chunk < 2 ^ 31)
    (hsize : strSize < 2 ^ 31) : ∃ size, grow need strSize = some size ∧ need ≤ size ∧
      size < 2 ^ 31 := by
  induction strSize using grow.induct need with
  | case1 strSize hgt hlt ih =>
    rw [grow, if_pos hgt, if_pos hlt]
    exact ih hlt
  | case2 strSize hgt hge => omega
  | case3 strSize hle =>
    rw [grow, if_neg hle]
    exact ⟨strSize, rfl, by omega, hsize⟩

theorem strcat_eq_some {size : ℕ} {dest src : CString} (h : dest.length + src.length < size) :
    strcat size dest src = some (dest ++ src) := if_pos h

/-- The loop appends the nodes with commas between them, and never writes behind the end of
the buffer. -/
theorem appendNodes_eq_some {nodes : List CString} {nodeStr : CString} {strSize : ℕ}
    (hlen : nodeStr.length + ([comma].intercalate nodes).length + 2 + chunk < 2 ^ 31)
    (hsize : strSize < 2 ^ 31) :
    appendNodes nodes nodeStr strSize = some (nodeStr ++ [comma].intercalate nodes) := by
  induction nodes generalizing nodeStr strSize with
  | nil => simp [appendNodes]
  | cons node nodes ih =>
    cases nodes with
    | nil =>
      rw [List.intercalate_singleton] at hlen ⊢
      obtain ⟨size, hgrow, hge, -⟩ := grow_eq_some
        (nodeStr.length + node.length + 2) (by omega) hsize
      have hcat : strcat size nodeStr node = some (nodeStr ++ node) := strcat_eq_some (by omega)
      simp [appendNodes, hgrow, hcat]
    | cons next nodes =>
      rw [List.intercalate_cons_cons] at hlen ⊢
      simp only [List.length_append, List.length_singleton] at hlen
      obtain ⟨size, hgrow, hge, hlt⟩ := grow_eq_some
        (nodeStr.length + node.length + 2) (by omega) hsize
      have hcat : strcat size nodeStr node = some (nodeStr ++ node) := strcat_eq_some (by omega)
      have hsep : strcat size (nodeStr ++ node) [comma] = some (nodeStr ++ node ++ [comma]) := by
        refine strcat_eq_some ?_
        rw [List.length_append, List.length_singleton]
        omega
      have hrest : appendNodes (next :: nodes) (nodeStr ++ node ++ [comma]) size =
          some (nodeStr ++ node ++ [comma] ++ [comma].intercalate (next :: nodes)) := by
        refine ih ?_ hlt
        simp only [List.length_append, List.length_singleton]
        omega
      rw [appendNodes, hgrow, Option.bind_some, hcat, Option.bind_some,
        if_pos (List.cons_ne_nil next nodes), hsep, Option.bind_some, hrest]
      simp

/-- The client builds the joined nodes. -/
theorem psuInitLockMgr_eq_some {nodes : List CString}
    (hlen : ([comma].intercalate nodes).length < 2 ^ 31 - 2048) :
    psuInitLockMgr nodes = some ([comma].intercalate nodes) := by
  have hchunk : chunk = 1024 := rfl
  rw [psuInitLockMgr, appendNodes_eq_some]
  · simp
  · simp only [List.length_nil, hchunk]
    omega
  · simp [hchunk]

/-- For all nodes that are not empty and have no comma: the string that the client builds is
their join, and a server that has no nodes yet has afterwards those of them that are not
its own addresses, in their order and as often as they were given. -/
theorem node_list_round_trip (nodes : List CString) (hne : ∀ node ∈ nodes, node ≠ [])
    (hcomma : ∀ node ∈ nodes, comma ∉ node)
    (hlen : ([comma].intercalate nodes).length < 2 ^ 31 - 2048)
    (localIpAddresses : List CString) (hlocal : localIpAddresses ≠ [])
    (srv : Server S ι CString) (hempty : srv.nodes = []) :
    psuInitLockMgr nodes = some ([comma].intercalate nodes) ∧
      initLockMgrString localIpAddresses ([comma].intercalate nodes) srv =
        some { srv with nodes := nodes.filter fun node => node ∉ localIpAddresses } := by
  constructor
  · exact psuInitLockMgr_eq_some hlen
  · rw [initLockMgrString_eq hlocal, initLockMgr1Svc, tokens_intercalate hne hcomma, hempty,
      List.nil_append]
    congr!

/-- The string of one letter, from "a" on. -/
def letter (i : Fin 26) : CString := [⟨97 + UInt8.ofNat i.val, by revert i; decide⟩]

/-- Three names of which the second is the server's own. -/
theorem node_list_round_trip_letters :
    psuInitLockMgr [letter 0, letter 1, letter 2] =
        some ([comma].intercalate [letter 0, letter 1, letter 2]) ∧
      initLockMgrString [letter 1] ([comma].intercalate [letter 0, letter 1, letter 2])
          (initializeGlobalVariable 7 : Server ℤ ℕ CString) =
        some ⟨[letter 0, letter 2], 7, []⟩ :=
  node_list_round_trip [letter 0, letter 1, letter 2] (by decide) (by decide) (by decide)
    [letter 1] (by decide) (initializeGlobalVariable 7) rfl

/-! ## Repeated initialisation -/

/-- INIT_LOCK_MGR calls one after the other. -/
def inits (localIpAddresses : List CString) :
    List CString → Server S ι CString → Option (Server S ι CString)
  | [], srv => some srv
  | nodeStr :: calls, srv =>
    (initLockMgrString localIpAddresses nodeStr srv).bind (inits localIpAddresses calls)

/-- The REQUEST calls that the loop of `acquire_lock_1_svc` makes, when each of them comes
back. -/
def acquireRequests {A : Type} [Zero S] (n : ℤ) (srv : Server S ι A) :
    List (A × RequestPack S) :=
  srv.nodes.map fun node => (node, acquirePack n srv)

/-- The addresses in a string that are not the server's own. -/
def peers (localIpAddresses : List CString) (nodeStr : CString) : List CString :=
  (tokens comma nodeStr).filter fun pch => pch ∉ localIpAddresses

/-- Completed calls have appended their peers, one call after the other. -/
theorem nodes_inits {localIpAddresses : List CString} {calls : List CString}
    {srv srv' : Server S ι CString} (h : inits localIpAddresses calls srv = some srv') :
    srv'.nodes = srv.nodes ++ calls.flatMap (peers localIpAddresses) := by
  induction calls generalizing srv with
  | nil =>
    obtain rfl : srv = srv' := by simpa [inits] using h
    simp
  | cons nodeStr calls ih =>
    obtain ⟨s, hs, h⟩ := Option.bind_eq_some_iff.mp h
    rw [initLockMgrString] at hs
    split_ifs at hs
    obtain rfl := Option.some.inj hs
    rw [ih h, initLoop_eq, List.flatMap_cons, List.append_assoc, peers]

theorem exists_inits {localIpAddresses : List CString} (h : localIpAddresses ≠ [])
    (calls : List CString) (srv : Server S ι CString) :
    ∃ srv', inits localIpAddresses calls srv = some srv' := by
  induction calls generalizing srv with
  | nil => exact ⟨srv, rfl⟩
  | cons nodeStr calls ih =>
    rw [inits, initLockMgrString_eq h, Option.bind_some]
    exact ih _

/-- Initialisation is idempotent on a sequence of calls that leads from `srv₀` to `srv`:
afterwards each peer that was named is there once and the server itself is not; a call with
a string that was there before has changed nothing; and an acquire sends one REQUEST to
each peer and no other. -/
structure Idempotent [Zero S] (localIpAddresses calls : List CString)
    (srv₀ srv : Server S ι CString) : Prop where
  once : ∀ nodeStr ∈ calls, ∀ node ∈ peers localIpAddresses nodeStr, srv.nodes.count node = 1
  noLocal : ∀ node ∈ localIpAddresses, node ∉ srv.nodes
  repeated : ∀ before nodeStr after, calls = before ++ nodeStr :: after → nodeStr ∈ before →
    ∀ s s', inits localIpAddresses before srv₀ = some s →
      initLockMgrString localIpAddresses nodeStr s = some s' → s'.nodes = s.nodes
  requests : ∀ n, ((acquireRequests n srv).map Prod.fst).Nodup ∧
    ∀ node, node ∈ (acquireRequests n srv).map Prod.fst ↔
      ∃ nodeStr ∈ calls, node ∈ peers localIpAddresses nodeStr

/-- No peer is named in two of the calls. -/
def Apart (localIpAddresses calls : List CString) : Prop :=
  calls.Pairwise fun nodeStr nodeStr' =>
    ∀ node ∈ peers localIpAddresses nodeStr, node ∉ peers localIpAddresses nodeStr'

theorem map_fst_acquireRequests [Zero S] (n : ℤ) (srv : Server S ι CString) :
    (acquireRequests n srv).map Prod.fst = srv.nodes := by
  simp [acquireRequests, Function.comp_def]

/-- For every sequence of INIT_LOCK_MGR calls on a new server, each naming no address twice:
initialisation is idempotent on the sequence if and only if no peer is named in two of its
calls. -/
theorem idempotent_iff_apart [Zero S] (mac : ℕ) {localIpAddresses calls : List CString}
    (hcalls : ∀ nodeStr ∈ calls, (tokens comma nodeStr).Nodup) {srv : Server S ι CString}
    (h : inits localIpAddresses calls (initializeGlobalVariable mac) = some srv) :
    Idempotent localIpAddresses calls (initializeGlobalVariable mac) srv ↔
      Apart localIpAddresses calls := by
  have hnodes : srv.nodes = calls.flatMap (peers localIpAddresses) := by
    simpa [initializeGlobalVariable] using nodes_inits h
  have hmem : ∀ node, node ∈ srv.nodes ↔
      ∃ nodeStr ∈ calls, node ∈ peers localIpAddresses nodeStr := by
    intro node
    rw [hnodes, List.mem_flatMap]
  have hnodup : srv.nodes.Nodup ↔ Apart localIpAddresses calls := by
    rw [hnodes, List.nodup_flatMap]
    constructor
    · rintro ⟨-, hpair⟩
      exact hpair.imp fun hdisj node hnode hnode' => hdisj hnode hnode'
    · intro hapart
      refine ⟨fun nodeStr hstr => (hcalls nodeStr hstr).filter _, ?_⟩
      exact hapart.imp fun hall node hnode hnode' => hall node hnode hnode'
  constructor
  · intro hid
    rw [← hnodup, ← map_fst_acquireRequests 0 srv]
    exact (hid.requests 0).1
  · intro hapart
    have hsrv := hnodup.mpr hapart
    constructor
    · intro nodeStr hstr node hnode
      exact List.count_eq_one_of_mem hsrv ((hmem node).mpr ⟨nodeStr, hstr, hnode⟩)
    · intro node hlocal hnode
      obtain ⟨nodeStr, -, hpeer⟩ := (hmem node).mp hnode
      simp [peers, hlocal] at hpeer
    · intro before nodeStr after hsplit hbefore s s' hs hs'
      have hpeers : peers localIpAddresses nodeStr = [] := by
        rw [Apart, hsplit, List.pairwise_append] at hapart
        rw [List.eq_nil_iff_forall_not_mem]
        intro node hnode
        exact hapart.2.2 nodeStr hbefore nodeStr List.mem_cons_self node hnode hnode
      have hone : inits localIpAddresses [nodeStr] s = some s' := by simp [inits, hs']
      simpa [hpeers] using nodes_inits hone
    · intro n
      rw [map_fst_acquireRequests]
      exact ⟨hsrv, hmem⟩

theorem tokens_letter (i : Fin 26) : tokens comma (letter i) = [letter i] :=
  tokens_of_not_mem (List.cons_ne_nil _ _) (by revert i; decide)

/-- Two calls with different names. -/
theorem idempotent_letters : ∃ srv : Server ℤ ℕ CString,
    inits [letter 25] [letter 0, letter 1] (initializeGlobalVariable 7) = some srv ∧
      Idempotent [letter 25] [letter 0, letter 1] (initializeGlobalVariable 7) srv := by
  have hlocal : [letter 25] ≠ [] := by decide
  obtain ⟨srv, h⟩ := exists_inits hlocal
    [letter 0, letter 1] (initializeGlobalVariable 7 : Server ℤ ℕ CString)
  refine ⟨srv, h, (idempotent_iff_apart 7 ?_ h).mpr ?_⟩
  · simp [tokens_letter]
  · unfold Apart
    decide

/-- Two clients with the same name: the server has it twice. -/
theorem not_idempotent : ∃ srv : Server ℤ ℕ CString,
    (∀ nodeStr ∈ [letter 0, letter 0], (tokens comma nodeStr).Nodup) ∧
      inits [letter 25] [letter 0, letter 0] (initializeGlobalVariable 7) = some srv ∧
      srv.nodes = [letter 0, letter 0] ∧
      ¬ Idempotent [letter 25] [letter 0, letter 0] (initializeGlobalVariable 7) srv := by
  have hlocal : [letter 25] ≠ [] := by decide
  obtain ⟨srv, h⟩ := exists_inits hlocal
    [letter 0, letter 0] (initializeGlobalVariable 7 : Server ℤ ℕ CString)
  have hpeers : peers [letter 25] (letter 0) = [letter 0] := by
    rw [peers, tokens_letter]
    decide
  have hnodes : srv.nodes = [letter 0, letter 0] := by
    simpa [hpeers, initializeGlobalVariable] using nodes_inits h
  refine ⟨srv, by simp [tokens_letter], h, hnodes, ?_⟩
  intro hid
  have hone := hid.once (letter 0) List.mem_cons_self (letter 0) (by simp [hpeers])
  rw [hnodes] at hone
  simp at hone

end DistributedSystem.NodeList
