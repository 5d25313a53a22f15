import Mathlib.Tactic

/-!
# Singly linked lists in a heap

A list is given by the address of its first cell, with `none` for NULL, in a heap of
all cells that were ever allocated: the address of a cell is its number. The loops over
a list take as many turns as there are cells. They have no result where the C loop
follows an invalid pointer or does not end, which it can do only by coming back to
a cell it has been at.
-/
namespace DistributedSystem.LinkedList

variable {α : Type}

structure Cell (α : Type) where
  entry : α
  next : Option ℕ

/-- The first cell from `p` on whose entry satisfies `q`, in at most `turns` turns. -/
def searchFrom (heap : List (Cell α)) (q : α → Bool) : ℕ → Option ℕ → Option (Option ℕ)
  | _, none => some none
  | 0, some _ => none
  | turns + 1, some p =>
    heap[p]?.bind fun c =>
      if q c.entry then some (some p) else searchFrom heap q turns c.next

def search (heap : List (Cell α)) (q : α → Bool) (p : Option ℕ) : Option (Option ℕ) :=
  searchFrom heap q heap.length p

/-- The last cell from `p` on, where `pp` is the one before `p`. -/
def lastFrom (heap : List (Cell α)) : ℕ → Option ℕ → Option ℕ → Option (Option ℕ)
  | _, pp, none => some pp
  | 0, _, some _ => none
  | turns + 1, _, some p => heap[p]?.bind fun c => lastFrom heap turns (some p) c.next

def last (heap : List (Cell α)) (p : Option ℕ) : Option (Option ℕ) :=
  lastFrom heap heap.length p p

/-- The entries from `p` on. -/
def entriesFrom (heap : List (Cell α)) : ℕ → Option ℕ → Option (List α)
  | _, none => some []
  | 0, some _ => none
  | turns + 1, some p =>
    heap[p]?.bind fun c => (entriesFrom heap turns c.next).map (c.entry :: ·)

def entries (heap : List (Cell α)) (p : Option ℕ) : Option (List α) :=
  entriesFrom heap heap.length p

/-- Append a new cell with the entry `e` and the next pointer `nxt` to the list at `p`,
as a function that is given the pointer `p` by value does it: the cell is linked
behind the last one, and if the list is empty it is linked to nothing. -/
def append (heap : List (Cell α)) (e : α) (nxt : Option ℕ) (p : Option ℕ) :
    Option (List (Cell α)) :=
  (last heap p).map fun
    | none => heap ++ [⟨e, nxt⟩]
    | some pp => heap.modify pp (fun c => { c with next := some heap.length }) ++ [⟨e, nxt⟩]

/-- Change the entry of the cell at `p`. -/
def modifyEntry (heap : List (Cell α)) (p : ℕ) (f : α → α) : List (Cell α) :=
  heap.modify p fun c => { c with entry := f c.entry }

@[simp] theorem search_null (heap : List (Cell α)) (q : α → Bool) :
    search heap q none = some none := by
  unfold search
  cases heap <;> rfl

@[simp] theorem entries_null (heap : List (Cell α)) : entries heap none = some [] := by
  unfold entries
  cases heap <;> rfl

/-! ## Lists that end -/

/-- The list at `p` consists of the cells `ps` and ends there. -/
inductive Chain (heap : List (Cell α)) : Option ℕ → List ℕ → Prop
  | null : Chain heap none []
  | cell {p : ℕ} {c : Cell α} {ps : List ℕ} (hp : heap[p]? = some c)
      (hps : Chain heap c.next ps) : Chain heap (some p) (p :: ps)

/-- The entry of the cell at `p`. -/
def entryOf (heap : List (Cell α)) (p : ℕ) : Option α := (heap.map Cell.entry)[p]?

/-- The entry of the cell at `p` satisfies `q`. -/
def entryAt (heap : List (Cell α)) (q : α → Bool) (p : ℕ) : Bool := (entryOf heap p).any q

theorem entryOf_eq {heap : List (Cell α)} {p : ℕ} {c : Cell α} (h : heap[p]? = some c) :
    entryOf heap p = some c.entry := by
  simp [entryOf, h]

theorem Chain.unique {heap : List (Cell α)} {p : Option ℕ} {ps ps' : List ℕ}
    (h : Chain heap p ps) (h' : Chain heap p ps') : ps = ps' := by
  induction h generalizing ps' with
  | null =>
    cases h'
    rfl
  | cell hp _ ih =>
    cases h' with
    | cell hp' hps' =>
      obtain rfl := Option.some.inj (hp.symm.trans hp')
      rw [ih hps']

theorem Chain.valid {heap : List (Cell α)} {p : Option ℕ} {ps : List ℕ} (h : Chain heap p ps) :
    ∀ i ∈ ps, i < heap.length := by
  induction h with
  | null => simp
  | cell hp _ ih =>
    have hlt := (List.getElem?_eq_some_iff.mp hp).1
    simpa using ⟨hlt, ih⟩

/-- The list goes on from each of its cells with what is left of it. -/
theorem Chain.from {heap : List (Cell α)} {p : Option ℕ} {ps : List ℕ} (h : Chain heap p ps)
    {i : ℕ} (hi : i ∈ ps) : ∃ qs, Chain heap (some i) (i :: qs) ∧ qs.length < ps.length := by
  induction h with
  | null => simp at hi
  | @cell p c ps hp hps ih =>
    by_cases hip : i = p
    · subst hip
      exact ⟨ps, .cell hp hps, by simp⟩
    · obtain ⟨qs, hqs, hlt⟩ := ih (by simpa [hip] using hi)
      exact ⟨qs, hqs, by simp only [List.length_cons]; omega⟩

/-- A list that ends comes back to none of its cells. -/
theorem Chain.nodup {heap : List (Cell α)} {p : Option ℕ} {ps : List ℕ} (h : Chain heap p ps) :
    ps.Nodup := by
  induction h with
  | null => exact List.nodup_nil
  | @cell p c ps hp hps ih =>
    refine List.nodup_cons.mpr ⟨?_, ih⟩
    intro hmem
    obtain ⟨qs, hqs, hlt⟩ := hps.from hmem
    obtain rfl := List.cons.inj (hqs.unique (.cell hp hps)) |>.2
    omega

theorem Chain.length_le {heap : List (Cell α)} {p : Option ℕ} {ps : List ℕ}
    (h : Chain heap p ps) : ps.length ≤ heap.length := by
  have hsub : ps ⊆ List.range heap.length := by
    intro i hi
    exact List.mem_range.mpr (h.valid i hi)
  have hle := (h.nodup.subperm hsub).length_le
  rwa [List.length_range] at hle

theorem Chain.searchFrom_eq {heap : List (Cell α)} {p : Option ℕ} {ps : List ℕ}
    (h : Chain heap p ps) (q : α → Bool) {turns : ℕ} (hturns : ps.length ≤ turns) :
    searchFrom heap q turns p = some (ps.find? (entryAt heap q)) := by
  induction h generalizing turns with
  | null => cases turns <;> rfl
  | @cell p c ps hp hps ih =>
    cases turns with
    | zero => simp at hturns
    | succ turns =>
      have hentry : entryAt heap q p = q c.entry := by simp [entryAt, entryOf_eq hp]
      rw [searchFrom, hp, Option.bind_some, List.find?_cons, hentry]
      cases hq : q c.entry with
      | true => simp
      | false => simpa using ih (by simpa using hturns)

/-- The search finds the first cell of the list whose entry satisfies `q`. -/
theorem Chain.search_eq {heap : List (Cell α)} {p : Option ℕ} {ps : List ℕ}
    (h : Chain heap p ps) (q : α → Bool) :
    search heap q p = some (ps.find? (entryAt heap q)) :=
  h.searchFrom_eq q h.length_le

theorem Chain.lastFrom_eq {heap : List (Cell α)} {p : Option ℕ} {ps : List ℕ}
    (h : Chain heap p ps) (pp : Option ℕ) {turns : ℕ} (hturns : ps.length ≤ turns) :
    lastFrom heap turns pp p = some (ps.getLast?.or pp) := by
  induction h generalizing turns pp with
  | null => cases turns <;> rfl
  | @cell p c ps hp hps ih =>
    cases turns with
    | zero => simp at hturns
    | succ turns =>
      rw [lastFrom, hp, Option.bind_some, ih (some p) (by simpa using hturns)]
      cases ps with
      | nil => rfl
      | cons i ps => simp [List.getLast?_cons]

theorem Chain.last_eq {heap : List (Cell α)} {p : Option ℕ} {ps : List ℕ}
    (h : Chain heap p ps) : last heap p = some ps.getLast? := by
  rw [last, h.lastFrom_eq p h.length_le]
  cases h with
  | null => rfl
  | cell hp hps => simp [List.getLast?_cons]

theorem Chain.entriesFrom_eq {heap : List (Cell α)} {p : Option ℕ} {ps : List ℕ}
    (h : Chain heap p ps) {turns : ℕ} (hturns : ps.length ≤ turns) :
    entriesFrom heap turns p = some (ps.filterMap (entryOf heap)) := by
  induction h generalizing turns with
  | null => cases turns <;> rfl
  | @cell p c ps hp hps ih =>
    cases turns with
    | zero => simp at hturns
    | succ turns =>
      rw [entriesFrom, hp, Option.bind_some, ih (by simpa using hturns), Option.map_some,
        List.filterMap_cons_some (entryOf_eq hp)]

theorem Chain.entries_eq {heap : List (Cell α)} {p : Option ℕ} {ps : List ℕ}
    (h : Chain heap p ps) : entries heap p = some (ps.filterMap (entryOf heap)) :=
  h.entriesFrom_eq h.length_le

/-- A list whose last cell is linked to another list in a new heap is followed there by
that other list. -/
theorem Chain.relink {heap heap' : List (Cell α)} {p : Option ℕ} {ps qs : List ℕ} {n : ℕ}
    (h : Chain heap p ps) (hne : ps ≠ []) (hqs : Chain heap' (some n) qs)
    (hlast : ∀ i c, ps.getLast? = some i → heap[i]? = some c →
      heap'[i]? = some { c with next := some n })
    (hother : ∀ i ∈ ps, ps.getLast? ≠ some i → heap'[i]? = heap[i]?) :
    Chain heap' p (ps ++ qs) := by
  induction h with
  | null => exact (hne rfl).elim
  | @cell p c ps hp hps ih =>
    cases ps with
    | nil =>
      have hp' := hlast p c rfl hp
      exact .cell hp' hqs
    | cons i ps =>
      have hgetLast : (p :: i :: ps).getLast? = (i :: ps).getLast? := List.getLast?_cons_cons
      have hpLast : (i :: ps).getLast? ≠ some p := by
        intro heq
        have hmem : p ∈ i :: ps := List.mem_of_getLast? heq
        exact (List.nodup_cons.mp (Chain.cell hp hps).nodup).1 hmem
      rw [hgetLast] at hlast hother
      have hp' : heap'[p]? = some c := (hother p List.mem_cons_self hpLast).trans hp
      refine .cell hp' (ih (by simp) hlast ?_)
      intro j hj
      exact hother j (List.mem_cons_of_mem p hj)

/-- To a list with at least one cell, `append` adds one cell at its end and leaves all
entries as they are. -/
theorem Chain.append_eq {heap : List (Cell α)} {p : Option ℕ} {ps : List ℕ}
    (h : Chain heap p ps) (hne : ps ≠ []) (e : α) :
    ∃ heap', append heap e none p = some heap' ∧ Chain heap' p (ps ++ [heap.length]) ∧
      heap'.map Cell.entry = heap.map Cell.entry ++ [e] := by
  obtain ⟨pp, hpp⟩ : ∃ pp, ps.getLast? = some pp :=
    ⟨ps.getLast hne, List.getLast?_eq_some_getLast hne⟩
  have hlt : pp < heap.length := h.valid pp (List.mem_of_getLast? hpp)
  refine ⟨heap.modify pp (fun c => { c with next := some heap.length }) ++ [⟨e, none⟩], ?_, ?_, ?_⟩
  · rw [append, h.last_eq, hpp]
    rfl
  · have hnew : Chain (heap.modify pp (fun c => { c with next := some heap.length }) ++
        [⟨e, none⟩]) (some heap.length) [heap.length] :=
      .cell (c := ⟨e, none⟩) (by simp) .null
    refine h.relink hne hnew ?_ ?_
    · intro i c hi hc
      obtain rfl : pp = i := Option.some.inj (hpp.symm.trans hi)
      rw [List.getElem?_append_left (by simpa using hlt), List.getElem?_modify_eq, hc]
      rfl
    · intro i hi hlast
      have hne : pp ≠ i := by
        rintro rfl
        exact hlast hpp
      rw [List.getElem?_append_left (by simpa using h.valid i hi), List.getElem?_modify_ne _ _ hne]
  · rw [List.map_append]
    congr 1
    refine List.ext_getElem? ?_
    intro i
    rw [List.getElem?_map, List.getElem?_map, List.getElem?_modify]
    cases heap[i]? with
    | none => rfl
    | some c => by_cases hi : pp = i <;> simp [hi]

theorem append_null (heap : List (Cell α)) (e : α) (nxt : Option ℕ) :
    append heap e nxt none = some (heap ++ [⟨e, nxt⟩]) := by
  rw [append, Chain.null.last_eq]
  rfl

/-! ## Searches in a heap that changes -/

theorem searchFrom_succ {heap : List (Cell α)} {q : α → Bool} {turns : ℕ} {p : Option ℕ}
    {r : Option ℕ} (h : searchFrom heap q turns p = some r) :
    searchFrom heap q (turns + 1) p = some r := by
  induction turns generalizing p with
  | zero =>
    cases p with
    | none => exact h
    | some p => cases h
  | succ turns ih =>
    cases p with
    | none => exact h
    | some p =>
      rw [searchFrom] at h ⊢
      obtain ⟨c, hc, hfound⟩ := Option.bind_eq_some_iff.mp h
      rw [hc, Option.bind_some]
      split_ifs at hfound ⊢ with hq
      · exact hfound
      · exact ih hfound

/-- The last cell has no successor. -/
theorem next_of_lastFrom {heap : List (Cell α)} {turns : ℕ} {pp p : Option ℕ} {i : ℕ}
    (h : lastFrom heap turns pp p = some (some i)) :
    p = none ∧ pp = some i ∨ ∃ c, heap[i]? = some c ∧ c.next = none := by
  induction turns generalizing pp p with
  | zero =>
    cases p with
    | none => exact .inl ⟨rfl, Option.some.inj h⟩
    | some p => cases h
  | succ turns ih =>
    cases p with
    | none => exact .inl ⟨rfl, Option.some.inj h⟩
    | some p =>
      rw [lastFrom] at h
      obtain ⟨c, hc, hlast⟩ := Option.bind_eq_some_iff.mp h
      rcases ih hlast with ⟨hnext, hp⟩ | hi
      · obtain rfl := Option.some.inj hp
        exact .inr ⟨c, hc, hnext⟩
      · exact .inr hi

/-- A cell of the old heap keeps its entry, and its successor if it has one. -/
theorem getElem?_append_some {heap heap' : List (Cell α)} {e : α} {nxt p : Option ℕ}
    (h : append heap e nxt p = some heap') {i : ℕ} {c : Cell α} (hc : heap[i]? = some c) :
    ∃ c', heap'[i]? = some c' ∧ c'.entry = c.entry ∧ (c.next ≠ none → c'.next = c.next) := by
  have hlt := (List.getElem?_eq_some_iff.mp hc).1
  obtain ⟨pp, hpp, rfl⟩ := Option.map_eq_some_iff.mp h
  cases pp with
  | none => exact ⟨c, by rw [List.getElem?_append_left hlt, hc], rfl, fun _ => rfl⟩
  | some j =>
    dsimp only
    rw [List.getElem?_append_left (by simpa using hlt), List.getElem?_modify, hc]
    by_cases hj : j = i
    · subst hj
      refine ⟨{ c with next := some heap.length }, by simp, rfl, ?_⟩
      intro hnext
      rcases next_of_lastFrom hpp with ⟨hp, hp'⟩ | ⟨c', hc', hnone⟩
      · rw [hp] at hp'
        cases hp'
      · obtain rfl := Option.some.inj (hc.symm.trans hc')
        exact (hnext hnone).elim
    · exact ⟨c, by simp [hj], rfl, fun _ => rfl⟩

theorem searchFrom_append {heap heap' : List (Cell α)} {e : α} {nxt p : Option ℕ}
    (happend : append heap e nxt p = some heap') {q : α → Bool} {turns : ℕ} {p' : Option ℕ} {i : ℕ}
    (h : searchFrom heap q turns p' = some (some i)) :
    searchFrom heap' q turns p' = some (some i) := by
  induction turns generalizing p' with
  | zero => cases p' <;> cases h
  | succ turns ih =>
    cases p' with
    | none => cases h
    | some j =>
      rw [searchFrom] at h ⊢
      obtain ⟨c, hc, hfound⟩ := Option.bind_eq_some_iff.mp h
      obtain ⟨c', hc', hentry, hnext⟩ := getElem?_append_some happend hc
      rw [hc', Option.bind_some, hentry]
      split_ifs at hfound ⊢ with hq
      · exact hfound
      · have hsome : c.next ≠ none := by
          intro hnone
          rw [hnone] at hfound
          cases turns <;> cases hfound
        rw [hnext hsome]
        exact ih hfound

/-- What a search finds, it still finds after `append`. -/
theorem search_append {heap heap' : List (Cell α)} {e : α} {nxt p : Option ℕ}
    (happend : append heap e nxt p = some heap') {q : α → Bool} {p' : Option ℕ} {i : ℕ}
    (h : search heap q p' = some (some i)) : search heap' q p' = some (some i) := by
  have hlen : heap'.length = heap.length + 1 := by
    obtain ⟨pp, -, rfl⟩ := Option.map_eq_some_iff.mp happend
    cases pp <;> simp
  rw [search, hlen]
  exact searchFrom_succ (searchFrom_append happend h)

theorem searchFrom_modifyEntry {heap : List (Cell α)} {q : α → Bool} {f : α → α}
    (hf : ∀ e, q (f e) = q e) (p : ℕ) (turns : ℕ) (p' : Option ℕ) :
    searchFrom (modifyEntry heap p f) q turns p' = searchFrom heap q turns p' := by
  induction turns generalizing p' with
  | zero => cases p' <;> rfl
  | succ turns ih =>
    cases p' with
    | none => rfl
    | some j =>
      rw [searchFrom, searchFrom, modifyEntry, List.getElem?_modify]
      cases hc : heap[j]? with
      | none => simp
      | some c =>
        have hih := ih c.next
        rw [modifyEntry] at hih
        by_cases hj : p = j
        · simp [hj, hf, ← hih]
        · simp [hj, ← hih]

/-- A change of an entry that the search does not look at does not change its result. -/
theorem search_modifyEntry {heap : List (Cell α)} {q : α → Bool} {f : α → α}
    (hf : ∀ e, q (f e) = q e) (p : ℕ) (p' : Option ℕ) :
    search (modifyEntry heap p f) q p' = search heap q p' := by
  have hlen : (modifyEntry heap p f).length = heap.length := by simp [modifyEntry]
  rw [search, hlen, searchFrom_modifyEntry hf]
  rfl

end DistributedSystem.LinkedList
