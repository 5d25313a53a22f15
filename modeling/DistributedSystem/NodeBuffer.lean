import DistributedSystem.NodeList
import DistributedSystem.Transition

/-!
# The buffer of the joined nodes

`psu_init_lock_mgr` joins the nodes in a buffer that it enlarges by `realloc` before it
appends to it. Here the function is taken step by step, with the buffer's size in the `int`
that the code keeps it in, its comparison with lengths of the type `size_t`, and the bytes
that are really allocated beside it. `malloc` and `realloc` succeed, and `realloc` keeps the
contents.
-/
namespace DistributedSystem.NodeBuffer
open NodeList Transition

/-! ## The numbers of the code -/

/-- An `int` that is converted to `size_t`. -/
def sizeT (n : Int32) : UInt64 := n.toInt64.toUInt64

/-- A `size_t` that is converted to `int`. -/
def int (n : UInt64) : Int32 := n.toInt64.toInt32

def strlen (str : CString) : UInt64 := UInt64.ofNat str.length

theorem toNat_sizeT {n : Int32} (h : 0 ≤ n.toInt) : (sizeT n).toNat = n.toInt.toNat := by
  have hint : n.toInt64.toBitVec.toInt = n.toInt := Int32.toInt_toInt64 n
  have hmsb : n.toInt64.toBitVec.msb = false := by
    rw [BitVec.msb_eq_toInt, hint]
    simpa using h
  rw [← hint, BitVec.toInt_eq_toNat_of_msb hmsb]
  rfl

theorem toInt_int {n : UInt64} (h : n.toNat < 2 ^ 31) : (int n).toInt = n.toNat := by
  have hint : n.toInt64.toInt = n.toNat := by
    apply BitVec.toInt_eq_toNat_of_lt
    show 2 * n.toNat < 2 ^ 64
    omega
  rw [int, Int64.toInt_toInt32, hint]
  apply Int.bmod_eq_of_le <;> omega

theorem toInt_add_one {i : Int32} (h : 0 ≤ i.toInt) (hlt : i.toInt + 1 < 2 ^ 31) :
    (i + 1).toInt = i.toInt + 1 := by
  have hone : (1 : Int32).toInt = 1 := by decide
  rw [Int32.toInt_add, hone]
  apply Int.bmod_eq_of_le <;> omega

theorem toInt_sub_one {n : Int32} (h : 0 ≤ n.toInt) : (n - 1).toInt = n.toInt - 1 := by
  have hone : (1 : Int32).toInt = 1 := by decide
  have hlt := n.toInt_lt
  rw [Int32.toInt_sub, hone]
  apply Int.bmod_eq_of_le <;> omega

/-! ## The function, step by step -/

/-- The places of `psu_init_lock_mgr`: the test of line 18, the test of line 21, the body of
the inner loop in lines 23 and 24, line 26, lines 27 and 28, and line 30. -/
inductive Line where
  | loop | test | grow | node | comma | done
  deriving DecidableEq, Repr

/-- The variables of `psu_init_lock_mgr`, where `allocated` is what `malloc` and `realloc` were
last asked for. -/
structure State where
  line : Line
  i : Int32
  nodeStr : CString
  strSize : Int32
  allocated : ℕ

/-- `nodes[i]`, of which there is none outside of the array. -/
def nodeAt (nodes : List CString) (i : Int32) : Option CString :=
  if 0 ≤ i then nodes[i.toInt.toNat]? else none

/-- Lines 13 to 15 and the start of the loop. -/
def start : State := ⟨.loop, 0, [], int 1024, 1024⟩

/-- One step. There is none at the end, behind the end of the array, and when `strcat` would
write behind the end of the buffer. -/
def step (nodes : List CString) (numNodes : Int32) (s : State) (_ : Unit) : Option State :=
  match s.line with
  | .loop => some { s with line := if s.i < numNodes then .test else .done }
  | .test => (nodeAt nodes s.i).map fun node =>
    { s with line := if strlen s.nodeStr + strlen node + 2 > sizeT s.strSize then .grow else .node }
  | .grow => some { s with
      line := .test
      allocated := (sizeT s.strSize + 1024).toNat
      strSize := int (sizeT s.strSize + 1024) }
  | .node => (nodeAt nodes s.i).bind fun node =>
    (strcat s.allocated s.nodeStr node).map fun str => { s with line := .comma, nodeStr := str }
  | .comma =>
    (if s.i ≠ numNodes - 1 then strcat s.allocated s.nodeStr [comma] else some s.nodeStr).map
      fun str => { s with line := .loop, i := s.i + 1, nodeStr := str }
  | .done => none

/-- The number of the nodes, as the caller passes it. -/
def numNodes (nodes : List CString) : Int32 := Int32.ofNat nodes.length

/-- At every `strcat` the text in the buffer, the text to append and the final zero fit into
`str_size` bytes, these are the bytes that are allocated, and `str_size` does not overflow
where it is increased. -/
structure Fits (nodes : List CString) (s : State) : Prop where
  allocated : s.strSize.toInt = s.allocated
  node : s.line = .node → ∃ node, nodeAt nodes s.i = some node ∧
    (s.nodeStr.length + node.length + 1 : ℕ) ≤ s.strSize.toInt
  comma : s.line = .comma → s.i ≠ numNodes nodes - 1 →
    (s.nodeStr.length + [NodeList.comma].length + 1 : ℕ) ≤ s.strSize.toInt
  overflow : s.line = .grow → s.strSize.toInt + 1024 < 2 ^ 31

/-! ## The invariant -/

/-- The bytes that the test of line 21 asks for, with `k` for the loop variable. -/
def need (nodes : List CString) (k : ℕ) (str : CString) : ℕ :=
  str.length + (nodes[k]?.getD []).length + 2

/-- What is appended after node number `k`. -/
def behind (nodes : List CString) (k : ℕ) : CString :=
  if k + 1 < nodes.length then comma :: [comma].intercalate (nodes.drop (k + 1)) else []

/-- The text in the buffer and what is still to be appended are the joined nodes, and what each
line may rely on is true there. -/
def At (nodes : List CString) (k : ℕ) (str : CString) (size : ℕ) : Line → Prop
  | .loop => k ≤ nodes.length ∧
      str ++ [comma].intercalate (nodes.drop k) = [comma].intercalate nodes
  | .test => k < nodes.length ∧
      str ++ [comma].intercalate (nodes.drop k) = [comma].intercalate nodes
  | .grow => (k < nodes.length ∧
      str ++ [comma].intercalate (nodes.drop k) = [comma].intercalate nodes) ∧
        size < need nodes k str
  | .node => (k < nodes.length ∧
      str ++ [comma].intercalate (nodes.drop k) = [comma].intercalate nodes) ∧
        need nodes k str ≤ size
  | .comma => (k < nodes.length ∧ str ++ behind nodes k = [comma].intercalate nodes) ∧
      str.length + 2 ≤ size
  | .done => str = [comma].intercalate nodes

structure Inv (nodes : List CString) (s : State) : Prop where
  index : 0 ≤ s.i.toInt
  size : s.strSize.toInt = s.allocated
  here : At nodes s.i.toInt.toNat s.nodeStr s.allocated s.line

theorem intercalate_drop {nodes : List CString} {k : ℕ} {node : CString}
    (h : nodes[k]? = some node) :
    [comma].intercalate (nodes.drop k) = node ++ behind nodes k := by
  obtain ⟨hk, rfl⟩ := List.getElem?_eq_some_iff.mp h
  rw [List.drop_eq_getElem_cons hk, behind]
  split_ifs with hnext
  · have hcons := List.drop_eq_getElem_cons hnext
    rw [hcons, List.intercalate_cons_cons, List.append_assoc, List.singleton_append]
  · rw [List.drop_eq_nil_of_le (by omega), List.intercalate_singleton, List.append_nil]

/-- There are as many commas as nodes but one. -/
theorem length_le_intercalate (nodes : List CString) :
    nodes.length ≤ ([comma].intercalate nodes).length + 1 := by
  induction nodes with
  | nil => simp
  | cons node nodes ih =>
    cases nodes with
    | nil => simp
    | cons next nodes =>
      rw [List.intercalate_cons_cons]
      simp only [List.length_append, List.length_cons] at ih ⊢
      omega

section
variable {nodes : List CString} (hlen : ([comma].intercalate nodes).length < 2 ^ 31 - 2048)
include hlen

theorem toInt_numNodes : (numNodes nodes).toInt = nodes.length := by
  have hle := length_le_intercalate nodes
  exact Int32.toInt_ofNat_of_lt (by omega)

/-- The text in the buffer and the next node are a part of the joined nodes. -/
theorem need_le {k : ℕ} {str : CString}
    (htext : str ++ [comma].intercalate (nodes.drop k) = [comma].intercalate nodes)
    (hk : k < nodes.length) : need nodes k str < 2 ^ 31 - 2046 := by
  have hnode := intercalate_drop (List.getElem?_eq_getElem hk)
  have hlength := congrArg List.length htext
  rw [hnode] at hlength
  rw [need, List.getElem?_eq_getElem hk]
  simp only [List.length_append, Option.getD_some] at hlength ⊢
  omega

end

theorem nodeAt_eq {nodes : List CString} {i : Int32} (h : 0 ≤ i.toInt) :
    nodeAt nodes i = nodes[i.toInt.toNat]? := by
  have hzero : (0 : Int32).toInt = 0 := by decide
  rw [nodeAt, if_pos (by rwa [Int32.le_iff_toInt_le, hzero])]

/-- The test of line 21 compares the numbers themselves. -/
theorem test_iff (str node : CString) {strSize : Int32} (hsize : 0 ≤ strSize.toInt)
    (hlt : str.length + node.length + 2 < 2 ^ 31) :
    strlen str + strlen node + 2 > sizeT strSize ↔
      strSize.toInt < (str.length + node.length + 2 : ℕ) := by
  have htwo : (2 : UInt64).toNat = 2 := rfl
  rw [gt_iff_lt, UInt64.lt_iff_toNat_lt, toNat_sizeT hsize]
  simp only [strlen, UInt64.toNat_add, UInt64.toNat_ofNat', htwo]
  omega

/-- The place of a line within a turn of the outer loop, from its end. -/
def Line.rank : Line → ℕ
  | .loop => 3 * 2 ^ 33
  | .test => 2 * 2 ^ 33 + 1
  | .grow => 2 * 2 ^ 33
  | .node => 2 ^ 33
  | .comma | .done => 0

/-- How far the function still has to go. -/
def left (nodes : List CString) (s : State) : ℕ :=
  (nodes.length - s.i.toInt.toNat) * 2 ^ 35 + s.line.rank + 2 * (2 ^ 31 - s.allocated)

/-- The function goes on from the state, keeps the invariant and comes nearer to its end. -/
def Advances (nodes : List CString) (s : State) : Prop :=
  ∃ s', step nodes (numNodes nodes) s () = some s' ∧ Inv nodes s' ∧ left nodes s' < left nodes s

section
variable {nodes : List CString} (hlen : ([comma].intercalate nodes).length < 2 ^ 31 - 2048)
  {i strSize : Int32} {nodeStr : CString} {allocated : ℕ}
include hlen

theorem advances_loop (h : Inv nodes ⟨.loop, i, nodeStr, strSize, allocated⟩) :
    Advances nodes ⟨.loop, i, nodeStr, strSize, allocated⟩ := by
  obtain ⟨hindex, hsize, hle, htext⟩ := h
  dsimp only at hindex hsize hle htext
  have hnum := toInt_numNodes hlen
  by_cases hlt : i < numNodes nodes
  · have hk : i.toInt.toNat < nodes.length := by
      rw [Int32.lt_iff_toInt_lt, hnum] at hlt
      omega
    refine ⟨⟨.test, i, nodeStr, strSize, allocated⟩, ?_, ⟨hindex, hsize, hk, htext⟩, ?_⟩
    · simp only [step, if_pos hlt]
    · simp only [left, Line.rank]
      omega
  · have hk : i.toInt.toNat = nodes.length := by
      rw [Int32.lt_iff_toInt_lt, hnum] at hlt
      omega
    refine ⟨⟨.done, i, nodeStr, strSize, allocated⟩, ?_, ⟨hindex, hsize, ?_⟩, ?_⟩
    · simp only [step, if_neg hlt]
    · rw [hk, List.drop_length] at htext
      simpa [At] using htext
    · simp only [left, Line.rank]
      omega

theorem advances_test (h : Inv nodes ⟨.test, i, nodeStr, strSize, allocated⟩) :
    Advances nodes ⟨.test, i, nodeStr, strSize, allocated⟩ := by
  obtain ⟨hindex, hsize, hk, htext⟩ := h
  dsimp only at hindex hsize hk htext
  have hneed := need_le hlen htext hk
  have hnode : nodes[i.toInt.toNat]? = some nodes[i.toInt.toNat] := List.getElem?_eq_getElem hk
  rw [need, hnode, Option.getD_some] at hneed
  have hpos : 0 ≤ strSize.toInt := by omega
  have hiff := test_iff nodeStr nodes[i.toInt.toNat] hpos (by omega)
  by_cases htest : strlen nodeStr + strlen nodes[i.toInt.toNat] + 2 > sizeT strSize
  · have hlt := hiff.mp htest
    refine ⟨⟨.grow, i, nodeStr, strSize, allocated⟩, ?_, ⟨hindex, hsize, ⟨hk, htext⟩, ?_⟩, ?_⟩
    · simp only [step, nodeAt_eq hindex, hnode, Option.map_some, if_pos htest]
    · rw [need, hnode, Option.getD_some]
      dsimp only
      omega
    · simp only [left, Line.rank]
      omega
  · have hge := (not_congr hiff).mp htest
    refine ⟨⟨.node, i, nodeStr, strSize, allocated⟩, ?_, ⟨hindex, hsize, ⟨hk, htext⟩, ?_⟩, ?_⟩
    · simp only [step, nodeAt_eq hindex, hnode, Option.map_some, if_neg htest]
    · rw [need, hnode, Option.getD_some]
      dsimp only
      omega
    · simp only [left, Line.rank]
      omega

theorem advances_grow (h : Inv nodes ⟨.grow, i, nodeStr, strSize, allocated⟩) :
    Advances nodes ⟨.grow, i, nodeStr, strSize, allocated⟩ := by
  obtain ⟨hindex, hsize, ⟨hk, htext⟩, hlt⟩ := h
  dsimp only at hindex hsize hk htext hlt
  have hneed := need_le hlen htext hk
  have hkilo : (1024 : UInt64).toNat = 1024 := rfl
  have hnew : (sizeT strSize + 1024).toNat = allocated + 1024 := by
    rw [UInt64.toNat_add, toNat_sizeT (by omega), hkilo]
    omega
  have hint : (int (sizeT strSize + 1024)).toInt = allocated + 1024 := by
    rw [toInt_int (by omega), hnew]
    rfl
  refine ⟨⟨.test, i, nodeStr, int (sizeT strSize + 1024), (sizeT strSize + 1024).toNat⟩, rfl,
    ⟨hindex, ?_, hk, htext⟩, ?_⟩
  · dsimp only
    omega
  · simp only [left, Line.rank, hnew]
    omega

omit hlen in
theorem advances_node (h : Inv nodes ⟨.node, i, nodeStr, strSize, allocated⟩) :
    Advances nodes ⟨.node, i, nodeStr, strSize, allocated⟩ := by
  obtain ⟨hindex, hsize, ⟨hk, htext⟩, hroom⟩ := h
  dsimp only at hindex hsize hk htext hroom
  have hnode : nodes[i.toInt.toNat]? = some nodes[i.toInt.toNat] := List.getElem?_eq_getElem hk
  rw [need, hnode, Option.getD_some] at hroom
  have hcat : strcat allocated nodeStr nodes[i.toInt.toNat] =
      some (nodeStr ++ nodes[i.toInt.toNat]) := strcat_eq_some (by omega)
  refine ⟨⟨.comma, i, nodeStr ++ nodes[i.toInt.toNat], strSize, allocated⟩, ?_,
    ⟨hindex, hsize, ⟨hk, ?_⟩, ?_⟩, ?_⟩
  · simp only [step, nodeAt_eq hindex, hnode, Option.bind_some, hcat, Option.map_some]
  · rw [List.append_assoc, ← intercalate_drop hnode]
    exact htext
  · rw [List.length_append]
    exact hroom
  · simp only [left, Line.rank]
    omega

theorem advances_comma (h : Inv nodes ⟨.comma, i, nodeStr, strSize, allocated⟩) :
    Advances nodes ⟨.comma, i, nodeStr, strSize, allocated⟩ := by
  obtain ⟨hindex, hsize, ⟨hk, htext⟩, hroom⟩ := h
  dsimp only at hindex hsize hk htext hroom
  have hle := length_le_intercalate nodes
  have hnum := toInt_numNodes hlen
  have hnext : (i + 1).toInt = i.toInt + 1 := toInt_add_one hindex (by omega)
  have hlast : i = numNodes nodes - 1 ↔ i.toInt.toNat + 1 = nodes.length := by
    rw [← Int32.toInt_inj, toInt_sub_one (by omega), hnum]
    omega
  have hk' : (i + 1).toInt.toNat = i.toInt.toNat + 1 := by omega
  by_cases hend : i = numNodes nodes - 1
  · have hlength := hlast.mp hend
    rw [behind, if_neg (by omega), List.append_nil] at htext
    refine ⟨⟨.loop, i + 1, nodeStr, strSize, allocated⟩, ?_, ⟨?_, hsize, ?_, ?_⟩, ?_⟩
    · simp only [step, ne_eq, hend, not_true_eq_false, if_false, Option.map_some]
    · dsimp only
      omega
    · dsimp only
      omega
    · dsimp only
      rw [hk', List.drop_eq_nil_of_le (by omega), htext]
      simp
    · simp only [left, Line.rank, hk']
      omega
  · have hlength := (not_congr hlast).mp hend
    have hcat : strcat allocated nodeStr [comma] = some (nodeStr ++ [comma]) :=
      strcat_eq_some (by rw [List.length_singleton]; omega)
    rw [behind, if_pos (by omega)] at htext
    refine ⟨⟨.loop, i + 1, nodeStr ++ [comma], strSize, allocated⟩, ?_, ⟨?_, hsize, ?_, ?_⟩, ?_⟩
    · simp only [step, ne_eq, hend, not_false_eq_true, if_true, hcat, Option.map_some]
    · dsimp only
      omega
    · dsimp only
      omega
    · dsimp only
      rw [hk', List.append_assoc, List.singleton_append]
      exact htext
    · simp only [left, Line.rank, hk']
      omega

/-- One step of the function: the invariant holds again, and the end is nearer. -/
theorem advances {s : State} (h : Inv nodes s) (hline : s.line ≠ .done) : Advances nodes s := by
  obtain ⟨line, i, nodeStr, strSize, allocated⟩ := s
  cases line with
  | loop => exact advances_loop hlen h
  | test => exact advances_test hlen h
  | grow => exact advances_grow hlen h
  | node => exact advances_node h
  | comma => exact advances_comma hlen h
  | done => exact (hline rfl).elim

omit hlen in
theorem inv_start (nodes : List CString) : Inv nodes start := by
  refine ⟨by decide, by decide, Nat.zero_le _, ?_⟩
  show [] ++ [comma].intercalate (nodes.drop 0) = _
  rw [List.drop_zero, List.nil_append]

theorem inv_step {s s' : State} (h : Inv nodes s)
    (hs : step nodes (numNodes nodes) s () = some s') : Inv nodes s' := by
  have hline : s.line ≠ .done := by
    intro hdone
    simp [step, hdone] at hs
  obtain ⟨u, hu, hinv, -⟩ := advances hlen h hline
  obtain rfl := Option.some.inj (hu.symm.trans hs)
  exact hinv

theorem inv_reaches {s : State}
    (h : Reaches (step nodes (numNodes nodes)) anyStep start s) : Inv nodes s := by
  refine h.invariant (Inv nodes) (inv_start nodes) ?_
  intro s a s' hinv _ hs
  exact inv_step hlen hinv hs

theorem fits_of_inv {s : State} (h : Inv nodes s) : Fits nodes s := by
  obtain ⟨line, i, nodeStr, strSize, allocated⟩ := s
  obtain ⟨hindex, hsize, hhere⟩ := h
  dsimp only at hindex hsize hhere
  refine ⟨hsize, ?_, ?_, ?_⟩
  · rintro rfl
    obtain ⟨⟨hk, -⟩, hroom⟩ := hhere
    have hnode := List.getElem?_eq_getElem hk
    rw [need, hnode, Option.getD_some] at hroom
    refine ⟨nodes[i.toInt.toNat], (nodeAt_eq hindex).trans hnode, ?_⟩
    dsimp only
    omega
  · rintro rfl -
    obtain ⟨-, hroom⟩ := hhere
    rw [List.length_singleton]
    dsimp only
    omega
  · rintro rfl
    obtain ⟨⟨hk, htext⟩, hlt⟩ := hhere
    have hneed := need_le hlen htext hk
    dsimp only
    omega

/-- The function comes to its end, with the joined nodes in the buffer. -/
theorem exists_reaches_done {s : State} (h : Inv nodes s) :
    ∃ s', Reaches (step nodes (numNodes nodes)) anyStep s s' ∧ s'.line = .done ∧
      s'.nodeStr = [comma].intercalate nodes := by
  obtain ⟨s', hr, hinv, hdone⟩ : ∃ s', Reaches (step nodes (numNodes nodes)) anyStep s s' ∧
      Inv nodes s' ∧ s'.line = .done := by
    refine exists_reaches_of_decreasing (Inv nodes) (fun u => u.line = .done) (left nodes) ?_ h
    intro u hu hline
    obtain ⟨u', hu', hinv, hlt⟩ := advances hlen hu hline
    exact ⟨(), u', trivial, hu', hinv, hlt⟩
  have hhere := hinv.here
  rw [hdone] at hhere
  exact ⟨s', hr, hdone, hhere⟩

omit hlen in
/-- The inner loop stays at its element. -/
theorem step_grow {s s' : State} (hline : s.line = .test ∨ s.line = .grow)
    (hs : step nodes (numNodes nodes) s () = some s') :
    s'.i = s.i ∧ (s'.line = .test ∨ s'.line = .grow ∨ s'.line = .node) := by
  obtain ⟨line, i, nodeStr, strSize, allocated⟩ := s
  rcases hline with rfl | rfl
  · obtain ⟨node, -, rfl⟩ := Option.map_eq_some_iff.mp hs
    refine ⟨rfl, ?_⟩
    dsimp only
    split_ifs
    · exact .inr (.inl rfl)
    · exact .inr (.inr rfl)
  · obtain rfl := Option.some.inj hs
    exact ⟨rfl, .inl rfl⟩

/-- The inner loop ends, at the element at which it was begun. -/
theorem exists_reaches_node {s : State} (h : Inv nodes s) (hline : s.line = .test) :
    ∃ s', Reaches (step nodes (numNodes nodes)) anyStep s s' ∧ s'.line = .node ∧ s'.i = s.i := by
  let here := fun u : State =>
    Inv nodes u ∧ u.i = s.i ∧ (u.line = .test ∨ u.line = .grow ∨ u.line = .node)
  obtain ⟨s', hr, ⟨-, hi, -⟩, hnode⟩ : ∃ s', Reaches (step nodes (numNodes nodes)) anyStep s s' ∧
      here s' ∧ s'.line = .node := by
    refine exists_reaches_of_decreasing here (fun u => u.line = .node) (left nodes) ?_
      ⟨h, rfl, .inl hline⟩
    intro u hu hnode
    obtain ⟨hinv, hi, htest⟩ := hu
    have hloop : u.line = .test ∨ u.line = .grow := by
      rcases htest with htest | hgrow | hend
      · exact .inl htest
      · exact .inr hgrow
      · exact (hnode hend).elim
    have hend : u.line ≠ .done := by
      rcases hloop with hloop | hloop <;> simp [hloop]
    obtain ⟨u', hu', hinv', hlt⟩ := advances hlen hinv hend
    obtain ⟨hi', htest'⟩ := step_grow hloop hu'
    exact ⟨(), u', trivial, hu', ⟨hinv', hi'.trans hi, htest'⟩, hlt⟩
  exact ⟨s', hr, hnode, hi⟩

end

/-- At its end the function has built what `psuInitLockMgr` returns. -/
theorem psuInitLockMgr_of_done {nodes : List CString}
    (hlen : ([comma].intercalate nodes).length < 2 ^ 31 - 2048) {s : State}
    (h : Reaches (step nodes (numNodes nodes)) anyStep start s) (hdone : s.line = .done) :
    psuInitLockMgr nodes = some s.nodeStr := by
  have hhere := (inv_reaches hlen h).here
  rw [hdone] at hhere
  rw [psuInitLockMgr_eq_some hlen, hhere]

/-- For every array of nodes whose joined length is below 2^31 - 2048, at every point of
`psu_init_lock_mgr`: every `strcat` fits into the bytes that are allocated, and `str_size` does
not overflow; the loop that enlarges the buffer ends for each element, and the function comes to
its end with the joined nodes in the buffer. -/
theorem join_buffer_fits (nodes : List CString)
    (hlen : ([comma].intercalate nodes).length < 2 ^ 31 - 2048) {s : State}
    (h : Reaches (step nodes (numNodes nodes)) anyStep start s) :
    Fits nodes s ∧
      (s.line = .test → ∃ s', Reaches (step nodes (numNodes nodes)) anyStep s s' ∧
        s'.line = .node ∧ s'.i = s.i) ∧
      ∃ s', Reaches (step nodes (numNodes nodes)) anyStep s s' ∧ s'.line = .done ∧
        s'.nodeStr = [comma].intercalate nodes := by
  have hinv := inv_reaches hlen h
  exact ⟨fits_of_inv hlen hinv, exists_reaches_node hlen hinv, exists_reaches_done hlen hinv⟩

/-- A node of 1030 letters and one of a single letter. -/
def longNodes : List CString := [List.replicate 1030 ⟨97, by decide⟩, [⟨98, by decide⟩]]

/-- For the first of them the buffer is enlarged once. -/
theorem join_buffer_fits_long : ∃ s,
    Reaches (step longNodes (numNodes longNodes)) anyStep start s ∧ s.line = .node ∧
      s.strSize = 2048 ∧ Fits longNodes s := by
  have hlen : ([comma].intercalate longNodes).length < 2 ^ 31 - 2048 := by
    rw [longNodes, List.intercalate_cons_cons, List.intercalate_singleton]
    simp only [List.length_append, List.length_replicate]
    decide
  obtain ⟨s, hs, hline, hsize⟩ : ∃ s,
      exec (step longNodes (numNodes longNodes)) start [(), (), (), ()] = some s ∧
        s.line = .node ∧ s.strSize = 2048 :=
    ⟨_, (Option.some_get (by decide +kernel)).symm, by decide +kernel, by decide +kernel⟩
  have hr := reaches_of_exec_anyStep _ hs
  exact ⟨s, hr, hline, hsize, (join_buffer_fits longNodes hlen hr).1⟩

end DistributedSystem.NodeBuffer
