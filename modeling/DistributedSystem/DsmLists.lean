import DistributedSystem.DsmClient
import DistributedSystem.DsmDirectory
import DistributedSystem.DsmStrings

/-!
# The lists of the distributed memory

The directory of a server is a list that `search_dir` goes through and to which
`insert_dir` adds an entry at the end. The pages that a client has attached are a list
in which `get_name_from_addr` looks for the one that contains an address.
-/
namespace DistributedSystem.Dsm
open LinkedList

/-! ## The directory -/

/-- The fields of an entry that `insert_dir` copies, the name as a string. -/
structure CopyOf (e e' : DirEntry) : Prop where
  name : strncmpEq e'.page.name e.page.name = true
  size : e'.page.size = e.page.size
  pbits : e'.pbits = e.pbits
  mode : e'.mode = e.mode

/-- The laws of the insertion of `e` that leads from `s` to `s'`: a page that was found is
found in its entry, a page that was not found is found in the new entry if it has the
name of that one and is else still not found, and the new entry is behind the old ones. -/
structure Inserted (e : DirEntry) (s s' : Server) : Prop where
  kept : ∀ q p, searchDir q s = some (some p) →
    searchDir q s' = some (some p) ∧ entryOf s'.dirHeap p = entryOf s.dirHeap p
  added : ∀ q, searchDir q s = some none → strncmpEq e.page.name q.name = true →
    ∃ p e', searchDir q s' = some (some p) ∧ entryOf s'.dirHeap p = some e' ∧ CopyOf e e'
  missing : ∀ q, searchDir q s = some none → strncmpEq e.page.name q.name = false →
    searchDir q s' = some none
  last : ∃ es e', entries s.dirHeap s.dir = some es ∧
    entries s'.dirHeap s'.dir = some (es ++ [e']) ∧ CopyOf e e'

/-- The entry that `insert_dir` makes. -/
def copyEntry (e : DirEntry) : DirEntry :=
  { e with page.name := strncpy nameLen e.page.name.toList }

theorem copyOf_copyEntry (e : DirEntry) : CopyOf e (copyEntry e) where
  name := by
    simp only [copyEntry]
    exact strncmpEq_strncpy e.page.name
  size := by simp only [copyEntry]
  pbits := by simp only [copyEntry]
  mode := by simp only [copyEntry]

theorem strncmpEq_copyEntry (e : DirEntry) (name : Name) :
    strncmpEq (copyEntry e).page.name name = strncmpEq e.page.name name := by
  have hname := strncmpEq_iff.mp (copyOf_copyEntry e).name
  rw [Bool.eq_iff_iff, strncmpEq_iff, strncmpEq_iff, hname]

/-- A directory with at least one entry grows by one cell at its end. -/
theorem insertDir_eq {s : Server} {ps : List ℕ} (h : Chain s.dirHeap s.dir ps) (hne : ps ≠ [])
    (e : DirEntry) :
    ∃ s', insertDir e s = some s' ∧ s'.dir = s.dir ∧
      Chain s'.dirHeap s'.dir (ps ++ [s.dirHeap.length]) ∧
      s'.dirHeap.map Cell.entry = s.dirHeap.map Cell.entry ++ [copyEntry e] := by
  obtain ⟨heap, happend, hchain, hentries⟩ := h.append_eq hne (copyEntry e)
  refine ⟨{ s with dirHeap := heap }, ?_, rfl, hchain, hentries⟩
  show (append s.dirHeap (copyEntry e) none s.dir).map _ = _
  rw [happend, Option.map_some]

theorem inserted_of_chain {e : DirEntry} {s s' : Server} {ps : List ℕ}
    (h : Chain s.dirHeap s.dir ps) (h' : Chain s'.dirHeap s'.dir (ps ++ [s.dirHeap.length]))
    (hentries : s'.dirHeap.map Cell.entry = s.dirHeap.map Cell.entry ++ [copyEntry e]) :
    Inserted e s s' := by
  have hold : ∀ p ∈ ps, entryOf s'.dirHeap p = entryOf s.dirHeap p := by
    intro p hp
    rw [entryOf, hentries, List.getElem?_append_left (by simpa using h.valid p hp), entryOf]
  have hnew : entryOf s'.dirHeap s.dirHeap.length = some (copyEntry e) := by
    rw [entryOf, hentries, List.getElem?_append_right (by simp)]
    simp
  have hfind : ∀ q, ps.find? (entryAt s'.dirHeap q) = ps.find? (entryAt s.dirHeap q) := by
    intro q
    refine List.find?_congr ?_
    intro p hp
    rw [entryAt, hold p hp, entryAt]
  have hsearch : ∀ q, searchDir q s = some (ps.find? (entryAt s.dirHeap
      fun e => strncmpEq e.page.name q.name)) := fun q => h.search_eq _
  have hsearch' : ∀ q, searchDir q s' = some ((ps.find? (entryAt s.dirHeap
      fun e => strncmpEq e.page.name q.name)).or
        (if strncmpEq e.page.name q.name then some s.dirHeap.length else none)) := by
    intro q
    rw [searchDir, h'.search_eq, List.find?_append, hfind, List.find?_singleton, entryAt, hnew,
      Option.any_some, strncmpEq_copyEntry]
  refine ⟨?_, ?_, ?_, ?_⟩
  · intro q p hp
    rw [hsearch, Option.some_inj] at hp
    refine ⟨?_, hold p (List.mem_of_find?_eq_some hp)⟩
    rw [hsearch', hp, Option.some_or]
  · intro q hq hname
    rw [hsearch, Option.some_inj] at hq
    refine ⟨_, _, ?_, hnew, copyOf_copyEntry e⟩
    rw [hsearch', hq, Option.none_or, if_pos hname]
  · intro q hq hname
    rw [hsearch, Option.some_inj] at hq
    rw [hsearch', hq, Option.none_or, hname]
    rfl
  · refine ⟨_, copyEntry e, h.entries_eq, ?_, copyOf_copyEntry e⟩
    rw [h'.entries_eq, List.filterMap_append, List.filterMap_congr hold,
      List.filterMap_cons_some hnew, List.filterMap_nil]

/-- For every directory that is a list that ends and every entry: `insert_dir` returns and
obeys the laws of insertion if and only if the directory is not empty. -/
theorem inserted_insertDir_iff {s : Server} {ps : List ℕ} (h : Chain s.dirHeap s.dir ps)
    (e : DirEntry) : (∃ s', insertDir e s = some s' ∧ Inserted e s s') ↔ s.dir ≠ none := by
  constructor
  · rintro ⟨s', hs', hlaw⟩ hdir
    have hempty : s'.dir = none := insertDir_noEntry hs' hdir
    obtain ⟨es, e', -, hes, -⟩ := hlaw.last
    rw [hempty, entries_null, Option.some_inj] at hes
    simp at hes
  · intro hdir
    have hne : ps ≠ [] := by
      rintro rfl
      generalize s.dir = p at h hdir
      cases h
      exact hdir rfl
    obtain ⟨s', hs', -, hchain, hentries⟩ := insertDir_eq h hne e
    exact ⟨s', hs', inserted_of_chain h hchain hentries⟩

/-- The page "world" of size 100. -/
def world : PageId := ⟨strncpy nameLen [119, 111, 114, 108, 100], 100⟩

/-- The page "world" is entered behind "hello". -/
theorem inserted_world :
    Chain (homeWith (heldBy 0 .RW) fun _ => zeroUndef).dirHeap (some 0) [0] ∧
      ∃ s', insertDir { heldBy 0 .RW with page := world }
          (homeWith (heldBy 0 .RW) fun _ => zeroUndef) = some s' ∧
        Inserted { heldBy 0 .RW with page := world }
          (homeWith (heldBy 0 .RW) fun _ => zeroUndef) s' := by
  have hchain : Chain (homeWith (heldBy 0 .RW) fun _ => zeroUndef).dirHeap (some 0) [0] :=
    .cell rfl .null
  exact ⟨hchain, (inserted_insertDir_iff (s := homeWith (heldBy 0 .RW) fun _ => zeroUndef)
    hchain _).mpr (by simp [homeWith])⟩

/-- The first page is entered into the empty directory of a server that has started, and is
not found there afterwards. -/
theorem not_inserted_hello :
    Chain (startedTable false).state.dirHeap (startedTable false).state.dir [] ∧
      ∃ s', insertDir (heldBy 0 .RW) (startedTable false).state = some s' ∧
        searchDir hello s' = some none ∧
        ¬ Inserted (heldBy 0 .RW) (startedTable false).state s' := by
  obtain ⟨s', hs'⟩ := insertDir_of_noEntry (s := (startedTable false).state) rfl (heldBy 0 .RW)
  have hdir : NoEntry s' := insertDir_noEntry hs' rfl
  refine ⟨.null, s', hs', searchDir_of_noEntry hdir hello, ?_⟩
  intro h
  obtain ⟨p, e', hp, -, -⟩ := h.added hello (by decide) (by decide)
  rw [searchDir_of_noEntry hdir hello] at hp
  cases hp

/-! ## The pages of a client -/

/-- The page of the entry contains the address. -/
def DsmEntry.contains (e : DsmEntry) (addr : ℕ) : Bool := e.addr ≤ addr ∧ addr < e.addr + pageSize

/-- Lines 184 to 188 of `get_name_from_addr`, of which only the copy of the name depends on
the test of the address. -/
def copyDentry (addr : ℕ) (e dentry : DsmEntry) : DsmEntry where
  page.name := if e.contains addr then strncpy nameLen e.page.name.toList else dentry.page.name
  page.size := e.page.size
  addr := e.addr
  location := strncpy ipLen e.location.toList

/-- The loop of `get_name_from_addr`, as far as it comes in `turns` turns. -/
def nameLoop (heap : List (Cell DsmEntry)) (addr : ℕ) :
    (turns : ℕ) → (p : Option ℕ) → (dentry : DsmEntry) → Option DsmEntry
  | _, none, dentry => some dentry
  | 0, some _, _ => none
  | turns + 1, some p, dentry =>
    heap[p]?.bind fun c => nameLoop heap addr turns (some p) (copyDentry addr c.entry dentry)

theorem nameLoop_some (heap : List (Cell DsmEntry)) (addr p turns : ℕ) (dentry : DsmEntry) :
    nameLoop heap addr turns (some p) dentry = none := by
  induction turns generalizing dentry with
  | zero => rfl
  | succ turns ih =>
    rw [nameLoop]
    cases heap[p]? with
    | none => rfl
    | some c => exact ih _

/-- `get_name_from_addr` as the fault handler sees it is what its loop ends with. -/
theorem getNameFromAddr_eq_some_iff (heap : List (Cell DsmEntry)) (addr : ℕ) (p : Option ℕ)
    (dentry dentry' : DsmEntry) :
    getNameFromAddr dentry addr p = some dentry' ↔
      ∃ turns, nameLoop heap addr turns p dentry = some dentry' := by
  cases p with
  | none =>
    constructor
    · intro h
      exact ⟨0, h⟩
    · rintro ⟨turns, h⟩
      cases turns <;> exact h
  | some p => simp [getNameFromAddr, nameLoop_some]

/-- The name and the location as strings and the other fields are those of `e`. -/
structure SameEntry (e dentry : DsmEntry) : Prop where
  name : strncmpEq dentry.page.name e.page.name = true
  size : dentry.page.size = e.page.size
  addr : dentry.addr = e.addr
  location : strncmpEq dentry.location e.location = true

/-- What the look-up of the address in the cells `ps` leaves in `dentry`: the entry whose page
contains the address, or what was there. -/
structure LookedUp (heap : List (Cell DsmEntry)) (ps : List ℕ) (addr : ℕ)
    (dentry dentry' : DsmEntry) : Prop where
  found : ∀ p ∈ ps, ∀ e, entryOf heap p = some e → e.contains addr = true → SameEntry e dentry'
  missing : (∀ p ∈ ps, ∀ e, entryOf heap p = some e → e.contains addr = false) → dentry' = dentry

/-- For every list of pages that ends, whatever their ranges, and every address: the loop of
`get_name_from_addr` ends with the entry whose page contains the address if and only if the
list is empty. -/
theorem lookedUp_iff {heap : List (Cell DsmEntry)} {p : Option ℕ} {ps : List ℕ}
    (h : Chain heap p ps) (addr : ℕ) (dentry : DsmEntry) :
    (∃ turns dentry', nameLoop heap addr turns p dentry = some dentry' ∧
      LookedUp heap ps addr dentry dentry') ↔ p = none := by
  cases h with
  | null =>
    refine ⟨fun _ => rfl, fun _ => ⟨0, dentry, rfl, ?_, ?_⟩⟩
    · simp
    · intro _
      rfl
  | cell hp hps => simp [nameLoop_some]

/-- The look-up in a client that has no page ends with what was there. -/
theorem lookedUp_init : ∃ turns dentry',
    nameLoop (Client.init fun _ => zeroUndef).cdsmHeap pageSize turns
        (Client.init fun _ => zeroUndef).cdsm ⟨hello, 0, serverIp false⟩ = some dentry' ∧
      LookedUp (Client.init fun _ => zeroUndef).cdsmHeap [] pageSize ⟨hello, 0, serverIp false⟩
        dentry' :=
  (lookedUp_iff (p := (Client.init fun _ => zeroUndef).cdsm) .null pageSize
    ⟨hello, 0, serverIp false⟩).mpr rfl

/-- The pages in the cells `ps` have no address in common. -/
def DisjointPages (heap : List (Cell DsmEntry)) (ps : List ℕ) : Prop :=
  ps.Pairwise fun i j => ∀ e e', entryOf heap i = some e → entryOf heap j = some e' →
    ∀ addr, ¬ (e.contains addr = true ∧ e'.contains addr = true)

/-- The pages "hello" and "world", one after the other in memory. -/
def twoPages : List (Cell DsmEntry) :=
  [⟨⟨hello, pageSize, serverIp false⟩, some 1⟩, ⟨⟨world, 2 * pageSize, serverIp true⟩, none⟩]

/-- The look-up of the first address of "hello" does not end. -/
theorem not_lookedUp_hello :
    Chain twoPages (some 0) [0, 1] ∧ DisjointPages twoPages [0, 1] ∧
      (∃ e, entryOf twoPages 0 = some e ∧ e.contains pageSize = true) ∧
      ∀ dentry, ¬ ∃ turns dentry', nameLoop twoPages pageSize turns (some 0) dentry =
        some dentry' ∧ LookedUp twoPages [0, 1] pageSize dentry dentry' := by
  refine ⟨.cell rfl (.cell rfl .null), ?_, ⟨_, rfl, by decide⟩, ?_⟩
  · simp only [DisjointPages, List.pairwise_pair]
    intro e e' he he' addr
    obtain rfl : _ = e := Option.some.inj he
    obtain rfl : _ = e' := Option.some.inj he'
    simp only [DsmEntry.contains, decide_eq_true_eq]
    omega
  · rintro dentry ⟨turns, dentry', hloop, -⟩
    rw [nameLoop_some] at hloop
    cases hloop

end DistributedSystem.Dsm
