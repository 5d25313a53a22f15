import DistributedSystem.DsmHome

/-!
# Page requests at the home of a page

The home of a page records in its directory who holds the page and with which right. A
PAGE_REQUEST should enter the requester, take the rights of other holders away as far as
the request demands, tell those holders so with PAGE_UPDATE, and hand out the bytes that
a holder has.

`psu_dsm_page_request_1_svc` does not read the mode of the request: it branches on a local
variable that is never set. Its loops look for holders with `RO` only, and apart from the
requester's own bit nothing in the entry is assigned.
-/
namespace DistributedSystem.Dsm
open LinkedList Rpc

/-! ## What a request should do to the directory -/

/-- The holders of an entry agree with its mode: one server may write and no other has any
right, or no server may write. -/
def Consistent (e : DirEntry) : Prop :=
  (e.mode = .RW ∧ ∃ h : Fin maxServ, ∀ i : Fin maxServ, e.pbits[i] = if i = h then .RW else .NA) ∨
    (e.mode = .RO ∧ ∀ i : Fin maxServ, e.pbits[i] ≠ .RW)

/-- The right of server `i` after server `r` has been granted `mode`. -/
def granted (e : DirEntry) (r : Fin maxServ) (mode : Mode) (i : Fin maxServ) : Mode :=
  match mode with
  | .RO => if i = r ∨ e.pbits[i] ≠ .NA then .RO else .NA
  | _ => if i = r then mode else .NA

/-- Server `i` is a holder, other than the requester, that has to give up some right. -/
def shrinks (e : DirEntry) (r : Fin maxServ) (mode : Mode) (i : Fin maxServ) : Bool :=
  i ≠ r && (granted e r mode i).val < e.pbits[i].val

/-- The addresses to which PAGE_UPDATE was sent. -/
def updatesSent (trace : List (Ip × Call × Answer Reply)) : List Ip :=
  trace.filterMap fun
    | (ip, .pageUpdate _, _) => some ip
    | _ => none

/-- The request of server `r` has been granted on the directory entry at `p`: the entry has
the rights and the mode that the request demands, exactly the holders that had to give up a
right were told so, and the rest of the directory is unchanged. -/
structure Granted (argp : Request) (r : Fin maxServ) (p : ℕ) (s : Server)
    (trace : List (Ip × Call × Answer Reply)) (s' : Server) : Prop where
  entry : ∃ c c', s.dirHeap[p]? = some c ∧ s'.dirHeap[p]? = some c' ∧ c'.next = c.next ∧
    c'.entry.page = c.entry.page ∧ c'.entry.mode = argp.mode ∧
    (∀ i : Fin maxServ, c'.entry.pbits[i] = granted c.entry r argp.mode i) ∧
    (updatesSent trace).Perm
      (((List.finRange maxServ).filter (shrinks c.entry r argp.mode)).map fun i => s.server[i])
  dir : s'.dir = s.dir
  others : ∀ q, q ≠ p → s'.dirHeap[q]? = s.dirHeap[q]?

/-! ## What the handler does -/

/-- The directory after the assignment to the requester's bit. -/
def enter (argp : Request) (p : ℕ) (mode : Mode) (s : Server) : List (Cell DirEntry) :=
  modifyEntry s.dirHeap p (DirEntry.setPbits (getServerId argp.sender s) mode)

/-- What a loop over the servers `is` returns: the page that the first holder among them
sent in answer to the first call, or what the static variable held if there is no holder. -/
def Fetched (argp : Request) (p : ℕ) (is : List ℕ) (s : Server)
    (trace : List (Ip × Call × Answer Reply)) (x : Reply) : Prop :=
  (is.find? (holds p · s) = none ∧ trace = [] ∧ x = .page s.result) ∨
    ∃ i ip page rest, is.find? (holds p · s) = some i ∧ s.server[i]? = some ip ∧
      trace = (ip, .pageFetch argp, .reply (.page page)) :: rest ∧ x = .page page

theorem Fetched.cons {argp : Request} {p i : ℕ} {is : List ℕ} {s : Server}
    {trace : List (Ip × Call × Answer Reply)} {x : Reply} (hi : holds p i s = false)
    (h : Fetched argp p is s trace x) : Fetched argp p (i :: is) s trace x := by
  have hfind : (i :: is).find? (holds p · s) = is.find? (holds p · s) :=
    List.find?_cons_of_neg (by simp [hi])
  unfold Fetched
  rwa [hfind]

/-- The page that the first holder has sent. -/
theorem Fetched.head {argp : Request} {p i : ℕ} {is : List ℕ} {s : Server} {ip : Ip} {page : Page}
    {rest : List (Ip × Call × Answer Reply)} (hi : holds p i s = true)
    (hip : s.server[i]? = some ip) :
    Fetched argp p (i :: is) s ((ip, .pageFetch argp, .reply (.page page)) :: rest) (.page page) :=
  .inr ⟨i, ip, page, rest, List.find?_cons_of_pos hi, hip, rfl, rfl⟩

theorem returns_requestDone {argp : Request} {p : ℕ} {mode : Mode} {s s' : Server}
    {trace : List (Ip × Call × Answer Reply)} {x : Reply}
    (h : (requestDone argp p mode s).Returns trace s' x) :
    trace = [] ∧ s'.dir = s.dir ∧ s'.dirHeap = enter argp p mode s ∧ x = .page s.result := by
  cases h with
  | ret => exact ⟨rfl, rfl, rfl, rfl⟩

/-- Only a page that was fetched lets the loop go on. -/
theorem returns_readTake {argp : Request} {p : ℕ} {fetched : Answer Reply} {s s' : Server}
    {trace : List (Ip × Call × Answer Reply)} {x : Reply}
    (h : (readTake argp p fetched s).Returns trace s' x) :
    ∃ page, fetched = .reply (.page page) ∧ trace = [] ∧ s'.dir = s.dir ∧
      s'.dirHeap = enter argp p .RO s ∧ x = .page page := by
  unfold readTake at h
  split at h
  · exact ⟨_, rfl, returns_requestDone h⟩
  · cases h

/-- A holder that may write is told to stop before its page is taken. -/
theorem returns_readFetched {argp : Request} {p : ℕ} {ip : Ip} {fetched : Answer Reply}
    {s s' : Server} {trace : List (Ip × Call × Answer Reply)} {x : Reply}
    (h : (readFetched argp p ip fetched s).Returns trace s' x) :
    ∃ page, fetched = .reply (.page page) ∧ s'.dir = s.dir ∧ s'.dirHeap = enter argp p .RO s ∧
      x = .page page ∧
      ((s.dirHeap[p]?.map fun c => c.entry.mode) ≠ some .RW → trace = []) := by
  unfold readFetched at h
  split at h
  · cases h
  · split_ifs at h with hmode
    · cases h with
      | call ans h =>
        obtain ⟨page, hfetched, -, hdir, hheap, hx⟩ := returns_readTake h
        exact ⟨page, hfetched, hdir, hheap, hx, fun hne => (hne hmode).elim⟩
    · obtain ⟨page, hfetched, htrace, hdir, hheap, hx⟩ := returns_readTake h
      exact ⟨page, hfetched, hdir, hheap, hx, fun _ => htrace⟩

/-- However the reading loop returns, it has entered the requester as a reader and nothing
else, and PAGE_UPDATE was sent only if the entry has the mode `RW`. -/
theorem returns_requestRead {argp : Request} {p : ℕ} {is : List ℕ} {s s' : Server}
    {trace : List (Ip × Call × Answer Reply)} {x : Reply}
    (h : (requestRead argp p is s).Returns trace s' x) :
    s'.dir = s.dir ∧ s'.dirHeap = enter argp p .RO s ∧ Fetched argp p is s trace x ∧
      ((s.dirHeap[p]?.map fun c => c.entry.mode) ≠ some .RW → updatesSent trace = []) := by
  induction is generalizing trace with
  | nil =>
    obtain ⟨rfl, hdir, hheap, rfl⟩ := returns_requestDone h
    exact ⟨hdir, hheap, .inl ⟨rfl, rfl, rfl⟩, fun _ => rfl⟩
  | cons i is ih =>
    rw [requestRead_cons] at h
    split_ifs at h with hholds
    · obtain ⟨ip, hip, h⟩ := returns_orExit h
      cases h with
      | call fetched h =>
        obtain ⟨page, rfl, hdir, hheap, rfl, htrace⟩ := returns_readFetched h
        refine ⟨hdir, hheap, .head hholds hip, ?_⟩
        intro hmode
        rw [htrace hmode]
        rfl
    · obtain ⟨hdir, hheap, hfetched, hsent⟩ := ih h
      exact ⟨hdir, hheap, hfetched.cons (by simpa using hholds), hsent⟩

/-- However the writing loop returns, it has entered the requester as a writer and nothing
else. Once the first holder has been found the static variable stays as it is. -/
theorem returns_requestWrite {argp : Request} {p : ℕ} {is : List ℕ} {first : ℕ} {s s' : Server}
    {trace : List (Ip × Call × Answer Reply)} {x : Reply}
    (h : (requestWrite argp p is first s).Returns trace s' x) :
    s'.dir = s.dir ∧ s'.dirHeap = enter argp p .RW s ∧
      (first = 0 → Fetched argp p is s trace x) ∧ (first ≠ 0 → x = .page s.result) := by
  induction is generalizing trace first s with
  | nil =>
    obtain ⟨rfl, hdir, hheap, rfl⟩ := returns_requestDone h
    exact ⟨hdir, hheap, fun _ => .inl ⟨rfl, rfl, rfl⟩, fun _ => rfl⟩
  | cons i is ih =>
    have htold : ∀ (ans : Answer Reply) (s : Server) (trace : List (Ip × Call × Answer Reply)),
        (writeTold (requestWrite argp p is (first + 1)) first ans s).Returns trace s' x →
          s'.dir = s.dir ∧ s'.dirHeap = enter argp p .RW s ∧ x = .page s.result := by
      intro ans s trace h
      unfold writeTold at h
      split at h
      · cases h
      · obtain ⟨hdir, hheap, -, hx⟩ := ih h
        exact ⟨hdir, hheap, hx (Nat.succ_ne_zero first)⟩
    rw [requestWrite_cons] at h
    by_cases hholds : holds p i s = true
    · rw [if_pos hholds] at h
      obtain ⟨ip, hip, h⟩ := returns_orExit h
      split_ifs at h with hfirst
      · cases h with
        | call ans h =>
          dsimp only [writeFetched] at h
          split at h
          · cases h with
            | call ans h =>
              obtain ⟨hdir, hheap, rfl⟩ := htold _ _ _ h
              exact ⟨hdir, hheap, fun _ => .head hholds hip, fun hne => (hne hfirst).elim⟩
          · cases h
      · cases h with
        | call ans h =>
          obtain ⟨hdir, hheap, rfl⟩ := htold _ _ _ h
          exact ⟨hdir, hheap, fun hzero => (hfirst hzero).elim, fun _ => rfl⟩
    · rw [if_neg hholds] at h
      obtain ⟨hdir, hheap, hfetched, hx⟩ := ih h
      exact ⟨hdir, hheap, fun hzero => (hfetched hzero).cons (by simpa using hholds), hx⟩

/-- If all holders answer, the reading loop returns. -/
theorem canReturn_requestRead (argp : Request) (p : ℕ) (is : List ℕ)
    (his : ∀ i ∈ is, i < maxServ) (s : Server) : (requestRead argp p is s).CanReturn := by
  induction is with
  | nil => exact Prog.canReturn_ret _ _
  | cons i is ih =>
    rw [requestRead_cons]
    by_cases hholds : holds p i s = true
    · have hi : i < maxServ := his i List.mem_cons_self
      rw [if_pos hholds, Vector.getElem?_eq_getElem hi]
      refine Prog.canReturn_call (.reply (.page s.result)) ?_
      dsimp only [readFetched]
      split_ifs with hmode
      · exact Prog.canReturn_call .failed (Prog.canReturn_ret _ _)
      · exact Prog.canReturn_ret _ _
    · rw [if_neg hholds]
      exact ih fun j hj => his j (List.mem_cons_of_mem i hj)

/-- If all holders answer, the writing loop returns. -/
theorem canReturn_requestWrite (argp : Request) (p : ℕ) (is : List ℕ)
    (his : ∀ i ∈ is, i < maxServ) (first : ℕ) (s : Server) :
    (requestWrite argp p is first s).CanReturn := by
  induction is generalizing first s with
  | nil => exact Prog.canReturn_ret _ _
  | cons i is ih =>
    have htail := ih fun j hj => his j (List.mem_cons_of_mem i hj)
    rw [requestWrite_cons]
    by_cases hholds : holds p i s = true
    · have hi : i < maxServ := his i List.mem_cons_self
      rw [if_pos hholds, Vector.getElem?_eq_getElem hi]
      dsimp only [orExit]
      split_ifs with hfirst
      · refine Prog.canReturn_call (.reply (.page s.result)) ?_
        exact Prog.canReturn_call .failed (htail _ _)
      · exact Prog.canReturn_call .failed (htail _ _)
    · rw [if_neg hholds]
      exact htail first s

theorem canReturn_pageRequest {argp : Request} {s : Server} {p : ℕ}
    (hp : searchDir argp.pageid s = some (some p)) :
    (psuDsmPageRequest1Svc argp s).CanReturn := by
  have hrange : ∀ i ∈ List.range maxServ, i < maxServ := fun i hi => List.mem_range.mp hi
  rw [psuDsmPageRequest1Svc, hp]
  dsimp only [orExit, Server.unset]
  split
  · exact canReturn_requestRead argp p _ hrange _
  · exact canReturn_requestWrite argp p _ hrange 0 _
  · exact Prog.canReturn_ret _ _

/-- The assignment to the bit of a server of the table. -/
theorem pbits_setPbits (e : DirEntry) (r i : Fin maxServ) (mode : Mode) :
    (e.setPbits r.val mode).pbits[i] = if i = r then mode else e.pbits[i] := by
  have hr : (r.val : ℤ) ≠ -1 := by omega
  rw [DirEntry.setPbits, if_neg hr]
  simp only [Int.toNat_natCast, Fin.getElem_fin, Vector.getElem_setIfInBounds, Fin.ext_iff]
  simp only [eq_comm]

/-- The assignment changes one bit of the entry at `p` and nothing else of the directory. -/
theorem entered {argp : Request} {s s' : Server} {p : ℕ} {c : Cell DirEntry} {r : Fin maxServ}
    (hc : s.dirHeap[p]? = some c) (hr : getServerId argp.sender s = r.val) {mode : Mode}
    (hheap : s'.dirHeap = enter argp p mode s) :
    (∀ q, q ≠ p → s'.dirHeap[q]? = s.dirHeap[q]?) ∧
      ∃ c', s'.dirHeap[p]? = some c' ∧ c'.next = c.next ∧
        c'.entry.page = c.entry.page ∧ c'.entry.mode = c.entry.mode ∧
        ∀ i : Fin maxServ, c'.entry.pbits[i] = if i = r then mode else c.entry.pbits[i] := by
  have hneg : (r.val : ℤ) ≠ -1 := by omega
  constructor
  · intro q hq
    simp [hheap, enter, modifyEntry, hq.symm]
  · refine ⟨{ c with entry := c.entry.setPbits r.val mode }, ?_, rfl, ?_, ?_, ?_⟩
    · simp [hheap, enter, modifyEntry, hc, hr]
    · simp [DirEntry.setPbits, hneg]
    · simp [DirEntry.setPbits, hneg]
    · intro i
      exact pbits_setPbits c.entry r i mode

/-- However the handler returns, the directory differs from the one before at most in the bit
of the requester, which has the value of the variable that was never set. -/
theorem returns_pageRequest {argp : Request} {s s' : Server} {p : ℕ} {c : Cell DirEntry}
    {r : Fin maxServ} {trace : List (Ip × Call × Answer Reply)} {x : Reply}
    (hp : searchDir argp.pageid s = some (some p)) (hc : s.dirHeap[p]? = some c)
    (hr : getServerId argp.sender s = r.val)
    (h : (psuDsmPageRequest1Svc argp s).Returns trace s' x) :
    s'.dir = s.dir ∧ (∀ q, q ≠ p → s'.dirHeap[q]? = s.dirHeap[q]?) ∧
      (∃ c', s'.dirHeap[p]? = some c' ∧ c'.next = c.next ∧ c'.entry.page = c.entry.page ∧
        c'.entry.mode = c.entry.mode ∧ ∀ i : Fin maxServ, c'.entry.pbits[i] =
          if (s.undef 0).mode ≠ .NA ∧ i = r then (s.undef 0).mode else c.entry.pbits[i]) ∧
      (((s.undef 0).mode = .RO → c.entry.mode ≠ .RW) →
        ((s.undef 0).mode = .RW → ∀ i : Fin maxServ, c.entry.pbits[i] ≠ .RO) →
        updatesSent trace = []) := by
  rw [psuDsmPageRequest1Svc, hp] at h
  dsimp only [orExit, Server.unset] at h
  cases hu : (s.undef 0).mode with
  | RO =>
    rw [hu] at h
    obtain ⟨hdir, hheap, -, hsent⟩ := returns_requestRead h
    obtain ⟨hothers, c', hc', hnext, hpage, hmode, hpbits⟩ := entered (s := s) hc hr hheap
    refine ⟨hdir, hothers, ⟨c', hc', hnext, hpage, hmode, by simpa using hpbits⟩, ?_⟩
    intro hro _
    exact hsent (by simpa [hc] using hro rfl)
  | RW =>
    rw [hu] at h
    obtain ⟨hdir, hheap, hfetched, -⟩ := returns_requestWrite h
    obtain ⟨hothers, c', hc', hnext, hpage, hmode, hpbits⟩ := entered (s := s) hc hr hheap
    refine ⟨hdir, hothers, ⟨c', hc', hnext, hpage, hmode, by simpa using hpbits⟩, ?_⟩
    intro _ hrw
    have hnone : ∀ i, holds p i s = false := by
      intro i
      by_cases hi : i < maxServ
      · have hne := hrw rfl ⟨i, hi⟩
        simpa [holds, hc, Vector.getElem?_eq_getElem hi] using hne
      · simp [holds, hc, hi]
    rcases hfetched rfl with ⟨-, rfl, -⟩ | ⟨i, -, -, -, hfind, -⟩
    · rfl
    · have hi := List.find?_some hfind
      cases (hnone i).symm.trans hi
  | NA =>
    rw [hu] at h
    cases h with
    | ret => exact ⟨rfl, fun _ _ => rfl, ⟨c, hc, rfl, rfl, rfl, by simp⟩, fun _ _ => rfl⟩

/-- A right that a request leaves as it is need not shrink. -/
theorem filter_shrinks_eq_nil {e : DirEntry} {r : Fin maxServ} {mode : Mode}
    (h : ∀ i, i ≠ r → granted e r mode i = e.pbits[i]) :
    (List.finRange maxServ).filter (shrinks e r mode) = [] := by
  rw [List.filter_eq_nil_iff]
  intro i _
  by_cases hi : i = r
  · simp [shrinks, hi]
  · simp [shrinks, h i hi]

/-- When the bit of the requester and nothing else is assigned, and that with `u`, the entry
has the rights and the mode that the request demands exactly in the cases on the right. -/
theorem rights_iff {e : DirEntry} (hcons : Consistent e) {mode : Mode}
    (hmode : mode = .RO ∨ mode = .RW) (r : Fin maxServ) (u : Mode) :
    (e.mode = mode ∧
      ∀ i, (if u ≠ .NA ∧ i = r then u else e.pbits[i]) = granted e r mode i) ↔
      (mode = .RO ∧ e.mode = .RO ∧ (u = .RO ∨ u = .NA ∧ e.pbits[r] = .RO)) ∨
        (mode = .RW ∧ e.pbits[r] = .RW ∧ (u = .RW ∨ u = .NA)) := by
  rcases hcons with ⟨hrw, h, hpbits⟩ | ⟨hro, hpbits⟩
  · rcases hmode with rfl | rfl
    · simp [hrw]
    · constructor
      · rintro ⟨-, hall⟩
        have hr := hall r
        have hh := hall h
        have hhr : h = r := by
          by_contra hne
          simp [hpbits, hne, granted] at hh
        subst hhr
        refine .inr ⟨rfl, by simp [hpbits], ?_⟩
        cases u with
        | NA => exact .inr rfl
        | RO => simp [granted] at hr
        | RW => exact .inl rfl
      · rintro (⟨hne, -⟩ | ⟨-, hr, hu⟩)
        · cases hne
        · have hrh : r = h := by
            by_contra hne
            simp [hpbits, hne] at hr
          subst hrh
          refine ⟨hrw, ?_⟩
          intro i
          rcases hu with rfl | rfl
          · by_cases hi : i = r <;> simp [hpbits, granted, hi]
          · by_cases hi : i = r <;> simp [hpbits, granted, hi]
  · rcases hmode with rfl | rfl
    · constructor
      · rintro ⟨-, hall⟩
        have hr := hall r
        refine .inl ⟨rfl, hro, ?_⟩
        cases u with
        | NA => exact .inr ⟨rfl, by simpa [granted] using hr⟩
        | RO => exact .inl rfl
        | RW => simp [granted] at hr
      · rintro (⟨-, -, hu⟩ | ⟨hne, -⟩)
        · refine ⟨hro, ?_⟩
          intro i
          have hi := hpbits i
          by_cases hir : i = r
          · subst hir
            rcases hu with rfl | ⟨rfl, hr⟩
            · simp [granted]
            · simpa [granted] using hr
          · cases he : e.pbits[i] with
            | NA => simp [granted, hir, he]
            | RO => simp [granted, hir, he]
            | RW => exact (hi he).elim
        · cases hne
    · have hr := hpbits r
      rw [Fin.getElem_fin] at hr
      simp [hro, hr]

/-- For every directory: a PAGE_REQUEST for a page with a consistent entry, from a server of
the table, can return, and however it returns, it has been granted if and only if the
variable `mode`, which is never set, had a value for which there was nothing to do but to
enter a reader among readers, or nothing at all. -/
theorem granted_iff (argp : Request) (hmode : argp.mode = .RO ∨ argp.mode = .RW) (s : Server)
    {p : ℕ} {c : Cell DirEntry} (hp : searchDir argp.pageid s = some (some p))
    (hc : s.dirHeap[p]? = some c) (hcons : Consistent c.entry) {r : Fin maxServ}
    (hr : getServerId argp.sender s = r.val) :
    (psuDsmPageRequest1Svc argp s).CanReturn ∧
      ∀ trace s' x, (psuDsmPageRequest1Svc argp s).Returns trace s' x →
        (Granted argp r p s trace s' ↔
          (argp.mode = .RO ∧ c.entry.mode = .RO ∧ ((s.undef 0).mode = .RO ∨
            (s.undef 0).mode = .NA ∧ c.entry.pbits[r] = .RO)) ∨
          (argp.mode = .RW ∧ c.entry.pbits[r] = .RW ∧ ((s.undef 0).mode = .RW ∨
            (s.undef 0).mode = .NA))) := by
  refine ⟨canReturn_pageRequest hp, ?_⟩
  intro trace s' x h
  obtain ⟨hdir, hothers, ⟨c', hc', hnext, hpage, hmode', hpbits⟩, hsent⟩ :=
    returns_pageRequest hp hc hr h
  rw [← rights_iff hcons hmode r (s.undef 0).mode]
  constructor
  · intro hg
    obtain ⟨c₁, c₁', hc₁, hc₁', -, -, hm, hbits, -⟩ := hg.entry
    obtain rfl : c = c₁ := Option.some.inj (hc.symm.trans hc₁)
    obtain rfl : c' = c₁' := Option.some.inj (hc'.symm.trans hc₁')
    exact ⟨hmode'.symm.trans hm, fun i => (hpbits i).symm.trans (hbits i)⟩
  · rintro ⟨hm, hbits⟩
    refine ⟨⟨c, c', hc, hc', hnext, hpage, hmode'.trans hm, ?_, ?_⟩, hdir, hothers⟩
    · intro i
      exact (hpbits i).trans (hbits i)
    · have hkept : ∀ i, i ≠ r → granted c.entry r argp.mode i = c.entry.pbits[i] := by
        intro i hi
        simpa [hi] using (hbits i).symm
      rw [filter_shrinks_eq_nil hkept, List.map_nil, hsent]
      · intro hu
        have hr := hbits r
        rcases hmode with hro | hrw
        · simp [hm, hro]
        · simp [hu, hrw, granted] at hr
      · intro hu i hi
        have hr := hbits r
        rcases hcons with ⟨-, h, hpbits⟩ | ⟨hro, -⟩
        · rw [hpbits] at hi
          split_ifs at hi
        · rw [← hm, hro] at hr
          simp [hu, granted] at hr

instance : NeZero maxServ := ⟨by decide⟩

/-- An entry for "hello" that is held by server number `i` only. -/
def heldBy (i : ℕ) (mode : Mode) : DirEntry where
  page := hello
  pbits := Vector.ofFn fun j => if j.val = i then mode else .NA
  mode := mode

/-- The first server of the table with a directory of one entry. -/
def homeWith (e : DirEntry) (undef : ℕ → Undef) : Server :=
  { init (serverIp false) 2 serverTable (fun _ => none) undef with
    dir := some 0
    dirHeap := [⟨e, none⟩] }

/-- A request for "hello" from the first server. -/
def helloRequest (mode : Mode) : Request := ⟨hello, mode, serverIp false⟩

theorem searchDir_homeWith (i : ℕ) (mode : Mode) (undef : ℕ → Undef) :
    searchDir hello (homeWith (heldBy i mode) undef) = some (some 0) := by
  simp [searchDir, homeWith, heldBy, search, searchFrom, strncmpEq]

theorem getServerId_homeWith (e : DirEntry) (undef : ℕ → Undef) :
    getServerId (serverIp false) (homeWith e undef) = 0 := by
  have hfind : serverTable.toList.findIdx? (strncmpEq · (serverIp false)) = some 0 := by
    decide +kernel
  simp [getServerId, homeWith, init, hfind]

theorem consistent_heldBy (i : Fin maxServ) : Consistent (heldBy i.val .RO) := by
  refine .inr ⟨rfl, ?_⟩
  intro j
  simp only [heldBy, Fin.getElem_fin, Vector.getElem_ofFn]
  split_ifs <;> simp

/-- The second server reads "hello", and the first one asks to read it too. If the variable
that is never set happens to be `RO`, the request is granted. -/
theorem granted_iff_reader :
    let s := homeWith (heldBy 1 .RO) fun _ => { zeroUndef with mode := .RO }
    (psuDsmPageRequest1Svc (helloRequest .RO) s).CanReturn ∧
      ∀ trace s' x, (psuDsmPageRequest1Svc (helloRequest .RO) s).Returns trace s' x →
        Granted (helloRequest .RO) 0 0 s trace s' := by
  intro s
  obtain ⟨hreturn, hiff⟩ := granted_iff (helloRequest .RO) (.inl rfl) s
    (searchDir_homeWith 1 .RO _) rfl (consistent_heldBy 1) (r := 0) (getServerId_homeWith _ _)
  refine ⟨hreturn, ?_⟩
  intro trace s' x h
  exact (hiff trace s' x h).mpr (.inl ⟨rfl, rfl, .inl rfl⟩)

/-- The second server writes "hello", and the first one asks to read it: whatever the value
of the variable that is never set, the entry says afterwards that the page is being
written. -/
theorem not_granted :
    Consistent (heldBy 1 .RW) ∧ ∀ undef : ℕ → Undef,
      let s := homeWith (heldBy 1 .RW) undef
      searchDir hello s = some (some 0) ∧ getServerId (serverIp false) s = 0 ∧
        (psuDsmPageRequest1Svc (helloRequest .RO) s).CanReturn ∧
        ∀ trace s' x, (psuDsmPageRequest1Svc (helloRequest .RO) s).Returns trace s' x →
          ¬ Granted (helloRequest .RO) 0 0 s trace s' := by
  refine ⟨.inl ⟨rfl, 1, ?_⟩, ?_⟩
  · intro i
    have hone : ((1 : Fin maxServ) : ℕ) = 1 := rfl
    simp only [heldBy, Fin.getElem_fin, Vector.getElem_ofFn, Fin.ext_iff, hone]
  · intro undef s
    have hp : searchDir (helloRequest .RO).pageid s = some (some 0) :=
      searchDir_homeWith 1 .RW undef
    refine ⟨hp, getServerId_homeWith _ _, canReturn_pageRequest hp, ?_⟩
    intro trace s' x h hg
    obtain ⟨-, -, ⟨c', hc', -, -, hmode, -⟩, -⟩ :=
      returns_pageRequest (r := 0) hp rfl (getServerId_homeWith _ _) h
    obtain ⟨-, c₁, -, hc₁, -, -, hm, -⟩ := hg.entry
    obtain rfl : c' = c₁ := Option.some.inj (hc'.symm.trans hc₁)
    cases hmode.symm.trans hm

end DistributedSystem.Dsm
