import DistributedSystem.DsmIndex
import DistributedSystem.DsmKeys
import DistributedSystem.DsmLocate

/-!
# Attaching to a page that exists

When PAGE_CREAT finds the page in the local directory or on another server, it asks the home
for its contents with a PAGE_REQUEST and copies them to the segment that it attaches. Line 132
copies from the start of the `page_t` that comes back, in which the contents stand behind the
size, and line 194 copies from the result of PAGE_FIND.
-/
namespace DistributedSystem.Dsm
open LinkedList Rpc

/-! ## The addresses of the mappings -/

/-- Every mapping is where `shmat` has put it, so that no two are at the same address. -/
def Addressed (s : Server) : Prop :=
  s.attached.map Mapping.base = (List.range s.attached.length).map fun i => pageSize * (i + 1)

theorem addressed_shmat {s : Server} (key : UInt32) (h : Addressed s) :
    Addressed (s.shmat key).2 := by
  unfold Addressed at *
  simp only [Server.shmat, List.map_append, List.length_append, List.length_singleton,
    List.range_succ, h, List.map_cons, List.map_nil]

theorem addressed_mprotect {s : Server} (addr : ℕ) (prot : Prot) (h : Addressed s) :
    Addressed (s.mprotect addr prot) := by
  unfold Addressed at *
  simp only [Server.mprotect, List.map_map, List.length_map]
  rw [← h]
  refine List.map_congr_left ?_
  intro m _
  simp only [Function.comp]
  split_ifs <;> rfl

theorem kept_addressed : Kept Addressed where
  unset _ h := h
  shmget _ _ h := h
  shmat _ key h := addressed_shmat key h
  mprotect _ addr prot h := addressed_mprotect addr prot h
  memcpyTo s s' addr bytes hs h := by
    obtain ⟨m, -, hm⟩ := Option.bind_eq_some_iff.mp hs
    split_ifs at hm
    obtain rfl := Option.some.inj hm
    exact h
  insertDir s s' entry hs h := by
    obtain ⟨heap, -, rfl⟩ := Option.map_eq_some_iff.mp hs
    exact h
  insertDsm s s' page location hs h := by
    obtain ⟨heap, -, rfl⟩ := Option.map_eq_some_iff.mp hs
    exact h
  result _ _ h := h
  setPbits _ _ _ _ h := h

/-- In every server that has started and handled any calls, the mappings are where `shmat` has
put them. -/
theorem addressed_serve {N : Type} [DecidableEq N] {resolve : Ip → Option N} {depth : ℕ}
    {busy : List N} {n : N} {c : Call} {net : N → Process Server}
    {r : Answer Reply × (N → Process Server)} (hnet : ∀ m, Addressed (net m).state)
    (hr : serve (service resolve) depth busy n c net = some r) : ∀ m, Addressed (r.2 m).state :=
  (serve_kept (fun _ => kept_addressed) hnet hr).1

/-- `shmat` takes an address where nothing is mapped yet. -/
theorem base_ne_of_addressed {s : Server} (h : Addressed s) :
    ∀ m ∈ s.attached, m.base ≠ pageSize * (s.attached.length + 1) := by
  intro m hm heq
  have hmem : m.base ∈ s.attached.map Mapping.base := List.mem_map_of_mem hm
  rw [h, heq, List.mem_map] at hmem
  obtain ⟨i, hi, hbase⟩ := hmem
  have hlt := List.mem_range.mp hi
  have hpos : 0 < pageSize := by decide
  have hsame := Nat.eq_of_mul_eq_mul_left hpos hbase
  omega

/-- A copy to the address of a segment that has just been attached goes to that segment. -/
theorem memcpyTo_shmat {s : Server} (h : Addressed s) (key : UInt32) (bytes : Bytes) :
    ((s.shmat key).2.mprotect (s.shmat key).1 .write).memcpyTo (s.shmat key).1 bytes =
      some { (s.shmat key).2.mprotect (s.shmat key).1 .write with
        segments := fun k => if k = key then some bytes else s.segments k } := by
  have hold : (s.attached.map fun m => if m.base = pageSize * (s.attached.length + 1) then
      { m with prot := .write } else m).find?
        (fun m => decide (m.base = pageSize * (s.attached.length + 1))) = none := by
    rw [List.find?_eq_none]
    intro m hm
    obtain ⟨m₀, hm₀, rfl⟩ := List.mem_map.mp hm
    have hne := base_ne_of_addressed h m₀ hm₀
    simp [hne]
  have hmapped : ((s.shmat key).2.mprotect (s.shmat key).1 .write).mapped (s.shmat key).1 =
      some ⟨(s.shmat key).1, key, .write⟩ := by
    simp only [Server.mapped, Server.mprotect, Server.shmat, List.map_append, List.map_cons,
      List.map_nil, if_true, List.find?_append, List.find?_singleton, decide_true]
    exact congrArg (Option.or · _) hold
  rw [Server.memcpyTo, hmapped, Option.bind_some, if_pos (.inl rfl)]
  rfl

/-! ## What is copied -/

/-- The right that a mapping with this protection gives. -/
def Prot.right : Prot → Mode
  | .none => .NA
  | .read => .RO
  | .write | .readWrite => .RW

/-- The segment of the page is attached and holds the bytes. -/
structure Filled (page : PageId) (bytes : Bytes) (m : Mapping) (s' : Server) : Prop where
  last : s'.attached.getLast? = some m
  key : ∃ u, m.key = pageKey page u
  prot : m.prot = .write
  bytes : s'.segments m.key = some bytes

theorem filled_creatAttach {pageid : PageId} {bytes : Bytes} {location : Ip} {s s' : Server}
    {trace : List (Ip × Call × Answer Reply)} {x : Reply} (ha : Addressed s)
    (h : (creatAttach pageid bytes location s).Returns trace s' x) :
    ∃ m, Filled pageid bytes m s' := by
  obtain ⟨s₁, h₁, h⟩ := returns_orExit h
  obtain ⟨s₂, h₂, h⟩ := returns_orExit h
  have hcopy := memcpyTo_shmat (s := s.unset.2.shmget (pageKey pageid (s.undef 0))) ha
    (pageKey pageid (s.undef 0)) bytes
  obtain rfl := Option.some.inj (hcopy.symm.trans h₁)
  obtain ⟨heap, -, rfl⟩ := Option.map_eq_some_iff.mp h₂
  cases h with
  | ret =>
    refine ⟨⟨pageSize * (s.attached.length + 1), pageKey pageid (s.undef 0), .write⟩, ?_,
      ⟨s.undef 0, rfl⟩, rfl, ?_⟩
    · simp [Server.mprotect, Server.shmat, Server.shmget, Server.unset]
    · simp

theorem runs_creatRemote {page : PageId} {ips : List Ip} {s s₀ : Server} {ip : Ip}
    {argp : Request} {k : Server → Answer Reply → Handler}
    {trace : List (Ip × Call × Answer Reply)}
    (h : (creatRemote page ips s).Runs trace (.call s₀ ip (.pageRequest argp) k)) :
    argp.pageid = page ∧ ∀ s₁ pg, k s₁ (.reply (.page pg)) =
      creatAttach page (intBytes 1 (s₁.undef 0).bytes) ip s₁.unset.2 := by
  induction ips generalizing trace with
  | nil => exact (not_calls_creatLocal ⟨_, _, _, h⟩).elim
  | cons ip' ips ih =>
    rw [creatRemote] at h
    split_ifs at h with hlocal
    · exact ih h
    · cases h with
      | call ans h =>
        dsimp only at h
        split at h
        · cases h with
          | refl => exact ⟨rfl, fun _ _ => rfl⟩
          | call ans h =>
            dsimp only at h
            split at h
            · cases h
            · exact (not_calls_creatAttach ⟨_, _, _, h⟩).elim
        · exact ih h
        · cases h

/-- PAGE_CREAT has come to the PAGE_REQUEST for the page: for a page of its own directory it then
copies the `page_t` that comes back, and for another one what stands from the result of
PAGE_FIND on. -/
theorem runs_pageCreat {page : PageId} {s s₀ : Server} {ip : Ip} {argp : Request}
    {k : Server → Answer Reply → Handler} {trace : List (Ip × Call × Answer Reply)}
    (h : (psuDsmPageCreat1Svc page s).Runs trace (.call s₀ ip (.pageRequest argp) k)) :
    argp.pageid = page ∧
      ((HasEntry page s ∧ ∀ s₁ pg, k s₁ (.reply (.page pg)) =
          creatAttach page pg.bytes s₁.localHost s₁) ∨
        (¬ HasEntry page s ∧ ∀ s₁ pg, k s₁ (.reply (.page pg)) =
          creatAttach page (intBytes 1 (s₁.undef 0).bytes) ip s₁.unset.2)) := by
  rcases runs_orExit h with ⟨-, hexit⟩ | ⟨found, hfound, h⟩
  · cases hexit
  · cases found with
    | none =>
      have hnot : ¬ HasEntry page s := by
        rintro ⟨p, hp⟩
        rw [hfound] at hp
        cases hp
      obtain ⟨hpage, hk⟩ := runs_creatRemote h
      exact ⟨hpage, .inr ⟨hnot, hk⟩⟩
    | some p =>
      cases h with
      | refl => exact ⟨rfl, .inl ⟨⟨p, hfound⟩, fun _ _ => rfl⟩⟩
      | call ans h =>
        dsimp only at h
        split at h
        · exact (not_calls_creatAttach ⟨_, _, _, h⟩).elim
        · cases h
        · cases h

/-- The bytes of a `page_t` from its start on are its contents if and only if these repeat the
four bytes of its size. -/
theorem bytes_eq_addr_iff (pg : Page) :
    pg.bytes = pg.addr ↔
      ∀ i : Fin pageSize, (littleEndian pg.size)[i.val % 4]? = some (pg.addr i) := by
  have hlength : (littleEndian pg.size).length = 4 := rfl
  have hhead : ∀ i : Fin pageSize, i.val < 4 →
      (littleEndian pg.size)[i.val]? = some (pg.bytes i) := by
    intro i hi
    rw [Page.bytes, List.getElem?_eq_getElem (by omega)]
  have htail : ∀ i : Fin pageSize, 4 ≤ i.val →
      pg.bytes i = pg.addr ⟨i.val - 4, by omega⟩ := by
    intro i hi
    rw [Page.bytes, List.getElem?_eq_none (by omega)]
  constructor
  · intro h i
    obtain ⟨i, hi⟩ := i
    induction i using Nat.strong_induction_on with
    | _ i ih =>
      by_cases hlt : i < 4
      · rw [← h, ← hhead ⟨i, hi⟩ hlt, Nat.mod_eq_of_lt hlt]
      · have hprev := ih (i - 4) (by omega) (by omega)
        rw [← h, htail ⟨i, hi⟩ (by simpa using hlt), ← hprev]
        simp only
        congr 1
        omega
  · intro h
    funext i
    by_cases hlt : i.val < 4
    · have hi := h i
      rw [Nat.mod_eq_of_lt hlt, hhead i hlt, Option.some_inj] at hi
      exact hi
    · have hi := h i
      have hprev := h ⟨i.val - 4, by omega⟩
      have hmod : (i.val - 4) % 4 = i.val % 4 := by omega
      simp only [hmod] at hprev
      rw [htail i (by omega)]
      exact Option.some.inj (hprev.symm.trans hi)

/-! ## What the home records -/

/-- However the handler returns, it has made at most the assignment to the requester's bit. -/
theorem dirHeap_pageRequest {argp : Request} {t t' : Server} {q : ℕ}
    {trace : List (Ip × Call × Answer Reply)} {x : Reply}
    (hq : searchDir argp.pageid t = some (some q))
    (h : (psuDsmPageRequest1Svc argp t).Returns trace t' x) :
    t'.dirHeap = if (t.undef 0).mode = .NA then t.dirHeap else enter argp q (t.undef 0).mode t := by
  rw [psuDsmPageRequest1Svc, hq] at h
  dsimp only [orExit, Server.unset] at h
  cases hu : (t.undef 0).mode with
  | RO =>
    rw [hu] at h
    exact (returns_requestRead h).2.1
  | RW =>
    rw [hu] at h
    exact (returns_requestWrite h).2.1
  | NA =>
    rw [hu] at h
    cases h with
    | ret => rfl

theorem neg_one_le_getServerId (host : Ip) (s : Server) : -1 ≤ getServerId host s := by
  unfold getServerId
  split <;> omega

/-- The assignment to a bit that may be out of range. -/
theorem getElem_pbits_setPbits (e : DirEntry) {i : ℤ} (hi : -1 ≤ i) (mode : Mode)
    (r : Fin maxServ) :
    (e.setPbits i mode).pbits.get r = if i = r.val then mode else e.pbits.get r := by
  by_cases hneg : i = -1
  · have hne : i ≠ r.val := by omega
    rw [if_neg hne, DirEntry.setPbits, if_pos hneg]
  · rw [DirEntry.setPbits, if_neg hneg]
    have hiff : i.toNat = r.val ↔ i = r.val := by omega
    show (e.pbits.setIfInBounds i.toNat mode)[r.val] = if i = r.val then mode else e.pbits[r.val]
    simp only [Vector.getElem_setIfInBounds, hiff]

/-- The right of server number `r` in the entry after the request, where `mode` is the value of
the variable that is never set and `e` the entry before. -/
def recordedRight (argp : Request) (t : Server) (e : DirEntry) (r : Fin maxServ) : Mode :=
  if (t.undef 0).mode ≠ .NA ∧ getServerId argp.sender t = r.val then (t.undef 0).mode
  else e.pbits.get r

theorem getElem_pbits_pageRequest {argp : Request} {t t' : Server} {q : ℕ} {c : Cell DirEntry}
    {trace : List (Ip × Call × Answer Reply)} {x : Reply}
    (hq : searchDir argp.pageid t = some (some q)) (hc : t.dirHeap[q]? = some c)
    (h : (psuDsmPageRequest1Svc argp t).Returns trace t' x) :
    ∃ c', t'.dirHeap[q]? = some c' ∧
      ∀ r : Fin maxServ, c'.entry.pbits.get r = recordedRight argp t c.entry r := by
  have hheap := dirHeap_pageRequest hq h
  by_cases hu : (t.undef 0).mode = .NA
  · rw [if_pos hu] at hheap
    refine ⟨c, by rw [hheap, hc], ?_⟩
    intro r
    rw [recordedRight, if_neg (by simp [hu])]
  · rw [if_neg hu] at hheap
    refine ⟨{ c with entry := c.entry.setPbits (getServerId argp.sender t) (t.undef 0).mode }, ?_,
      ?_⟩
    · rw [hheap, enter, modifyEntry, List.getElem?_modify_eq, hc]
      rfl
    · intro r
      rw [getElem_pbits_setPbits c.entry (neg_one_le_getServerId _ _), recordedRight]
      simp only [ne_eq, hu, not_false_eq_true, true_and]

/-! ## Contents and record together -/

/-- After PAGE_CREAT for a page that exists, on a server with the address `host`: the segment of
the page holds the contents `pg` that the home has sent, and the entry at `q` of the home, which
was in the state `t` before its PAGE_REQUEST and in `t'` after it, has the right of the mapping
at the index of `host`. -/
def CopiedFrom (page : PageId) (pg : Page) (host : Ip) (q : ℕ) (s' t t' : Server) : Prop :=
  ∃ (m : Mapping) (r : Fin maxServ) (c' : Cell DirEntry), Filled page pg.addr m s' ∧
    getServerId host t = r.val ∧ t'.dirHeap[q]? = some c' ∧ c'.entry.pbits.get r = m.prot.right

theorem copiedFrom_iff_of_filled {page : PageId} {pg : Page} {host : Ip} {q : ℕ}
    {s' t t' : Server} {bytes : Bytes} {m : Mapping} (hfilled : Filled page bytes m s')
    {c' : Cell DirEntry} {r : Fin maxServ} (hr : getServerId host t = r.val)
    (hc' : t'.dirHeap[q]? = some c') :
    CopiedFrom page pg host q s' t t' ↔ bytes = pg.addr ∧ c'.entry.pbits.get r = .RW := by
  have hright : m.prot.right = .RW := by rw [hfilled.prot, Prot.right]
  constructor
  · rintro ⟨m', r', c'', hfilled', hr', hc'', hbit⟩
    obtain rfl : m = m' := Option.some.inj (hfilled.last.symm.trans hfilled'.last)
    obtain rfl : c' = c'' := Option.some.inj (hc'.symm.trans hc'')
    obtain rfl : r = r' := Fin.ext (Int.natCast_inj.mp (hr.symm.trans hr'))
    have hbytes := hfilled.bytes.symm.trans hfilled'.bytes
    exact ⟨Option.some.inj hbytes, hbit.trans hright⟩
  · rintro ⟨rfl, hbit⟩
    exact ⟨m, r, c', hfilled, hr, hc', hbit.trans hright.symm⟩

/-- For every PAGE_CREAT that comes to ask the home of its page and returns, whatever happens
meanwhile, and every home that has the page and the calling server in its table: the contents
are copied and the right is recorded if and only if

* the contents repeat the bytes of the size, for a page of the local directory, or are what
  stands from the result of PAGE_FIND on, for another page; and
* the right of the calling server, after an assignment that depends on two variables which are
  never set, is `RW`. -/
theorem copiedFrom_iff {page : PageId} {s s₀ s₁ s' : Server} {ip : Ip} {argp : Request}
    {k : Server → Answer Reply → Handler} {pg : Page} {x : Reply}
    {trace trace' trace'' : List (Ip × Call × Answer Reply)}
    (hcall : (psuDsmPageCreat1Svc page s).Runs trace (.call s₀ ip (.pageRequest argp) k))
    (haddressed : Addressed s₁)
    (hreturn : (k s₁ (.reply (.page pg))).Returns trace' s' x) {t t' : Server}
    (hhome : (psuDsmPageRequest1Svc argp t).Returns trace'' t' (.page pg)) {q : ℕ}
    {c : Cell DirEntry} (hq : searchDir page t = some (some q)) (hc : t.dirHeap[q]? = some c)
    {r : Fin maxServ} (hr : getServerId s.localHost t = r.val) :
    CopiedFrom page pg s.localHost q s' t t' ↔
      ((HasEntry page s → ∀ i : Fin pageSize,
          (littleEndian pg.size)[i.val % 4]? = some (pg.addr i)) ∧
        (¬ HasEntry page s → intBytes 1 (s₁.undef 0).bytes = pg.addr)) ∧
      (if (t.undef 0).mode ≠ .NA ∧ getServerId (s.undef 0).sender t = r.val then (t.undef 0).mode
        else c.entry.pbits.get r) = .RW := by
  have hsender : argp.sender = (s.undef 0).sender :=
    Sends.sender (.creat rfl rfl ⟨trace, s₀, k, hcall⟩)
  obtain ⟨rfl, hk⟩ := runs_pageCreat hcall
  obtain ⟨c', hc', hpbits⟩ := getElem_pbits_pageRequest hq hc hhome
  have hrecorded := hpbits r
  rw [recordedRight, hsender] at hrecorded
  rcases hk with ⟨hentry, hk⟩ | ⟨hnot, hk⟩
  · rw [hk] at hreturn
    obtain ⟨m, hfilled⟩ := filled_creatAttach haddressed hreturn
    rw [copiedFrom_iff_of_filled hfilled hr hc', bytes_eq_addr_iff, hrecorded]
    simp only [hentry, true_implies, not_true_eq_false, false_implies, and_true]
  · rw [hk] at hreturn
    have haddressed' : Addressed s₁.unset.2 := haddressed
    obtain ⟨m, hfilled⟩ := filled_creatAttach haddressed' hreturn
    rw [copiedFrom_iff_of_filled hfilled hr hc', hrecorded]
    simp only [hnot, not_false_eq_true, true_implies, false_implies, true_and]

theorem exists_returns_creatAttach (pageid : PageId) (bytes : Bytes) (location : Ip) {s : Server}
    (ha : Addressed s) (ht : NoTable s) :
    ∃ trace s', (creatAttach pageid bytes location s).Returns trace s' (.int 1) ∧ True := by
  have hcopy := memcpyTo_shmat (s := s.unset.2.shmget (pageKey pageid (s.undef 0))) ha
    (pageKey pageid (s.undef 0)) bytes
  refine exists_returns_orExit ⟨_, hcopy⟩ ?_
  intro s₁ h₁
  have ht₁ : NoTable s₁ := kept_noTable.memcpyTo _ _ _ _ h₁ ht
  refine exists_returns_orExit (insertDsm_of_noTable ht₁ _ _) ?_
  intro s₂ _
  exact ⟨[], s₂, .ret _ _, trivial⟩

/-- The second server of the table as the home of "hello", which the first one may write, when
an earlier request has left `left` in its static variable. Memory that is not set holds zeros. -/
def remoteHome (left : Page) : Server :=
  { (homeTable (some true) true).state with result := left }

theorem searchDir_remoteHome (left : Page) :
    searchDir hello (remoteHome left) = some (some 0) := by
  simp [searchDir, remoteHome, homeTable, heldBy, search, searchFrom, strncmpEq]

theorem getServerId_remoteHome (left : Page) :
    getServerId (serverIp false) (remoteHome left) = 0 := by
  have hfind : (homeTable (some true) true).state.server.toList.findIdx?
      (strncmpEq · (serverIp false)) = some 0 := by
    decide +kernel
  simp only [getServerId, remoteHome, hfind, Nat.cast_zero]

/-- PAGE_CREAT of "hello" at the first server then asks the home, which sends what it has left. -/
theorem attach_remoteHome (left : Page) :
    ∃ argp k trace t' s',
      (psuDsmPageCreat1Svc hello (startedTable false).state).Runs
        [(serverIp true, .pageFind hello, .reply (.int 1))]
        (.call (startedTable false).state.unset.2 (serverIp true) (.pageRequest argp) k) ∧
      (psuDsmPageRequest1Svc argp (remoteHome left)).Returns [] t' (.page left) ∧
      (k (startedTable false).state.unset.2 (.reply (.page left))).Returns trace s' (.int 1) := by
  obtain ⟨k₀, hcall, -, -, hfound⟩ := pageCreat_startedTable
  obtain ⟨k, hrequest, hk⟩ := hfound (startedTable false).state
  have hhome : ∀ sender, psuDsmPageRequest1Svc ⟨hello, .NA, sender⟩ (remoteHome left) =
      .ret (remoteHome left).unset.2 (.page left) := by
    intro sender
    rw [psuDsmPageRequest1Svc, searchDir_remoteHome]
    rfl
  have haddressed : Addressed (startedTable false).state.unset.2.unset.2 := rfl
  obtain ⟨trace, s', hreturn, -⟩ := exists_returns_creatAttach hello
    (intBytes 1 ((startedTable false).state.unset.2.undef 0).bytes) (serverIp true) haddressed rfl
  refine ⟨⟨hello, .NA, ((startedTable false).state.undef 0).sender⟩, k, trace,
    (remoteHome left).unset.2, s', ?_, ?_, ?_⟩
  · rw [hcall]
    refine Prog.Runs.call (.reply (Reply.int 1)) ?_
    rw [hrequest]
    exact .refl _
  · rw [hhome]
    exact .ret _ _
  · rw [hk]
    exact hreturn

/-- A page whose contents are the number 1 happens to be copied. -/
theorem copiedFrom_one : ∃ s' t',
    CopiedFrom hello ⟨0, intBytes 1 fun _ => 0⟩ (serverIp false) 0 s'
      (remoteHome ⟨0, intBytes 1 fun _ => 0⟩) t' := by
  obtain ⟨argp, k, trace, t', s', hcall, hhome, hreturn⟩ :=
    attach_remoteHome ⟨0, intBytes 1 fun _ => 0⟩
  refine ⟨s', t', ?_⟩
  have haddressed : Addressed (startedTable false).state.unset.2 := rfl
  have hnone : ¬ HasEntry hello (startedTable false).state := by
    rintro ⟨p, hp⟩
    cases hp
  have hiff := copiedFrom_iff hcall haddressed hreturn hhome (searchDir_remoteHome _)
    (c := ⟨heldBy 0 .RW, none⟩) rfl (r := 0) (getServerId_remoteHome _)
  refine hiff.mpr ⟨⟨?_, ?_⟩, ?_⟩
  · intro hentry
    exact (hnone hentry).elim
  · intro _
    rfl
  · decide +kernel

/-- Of a page of zeros the segment gets the number 1 that PAGE_FIND has returned. -/
theorem not_copiedFrom_zeros : ∃ argp k trace t' s',
    (psuDsmPageCreat1Svc hello (startedTable false).state).Runs
        [(serverIp true, .pageFind hello, .reply (.int 1))]
        (.call (startedTable false).state.unset.2 (serverIp true) (.pageRequest argp) k) ∧
      (psuDsmPageRequest1Svc argp (remoteHome ⟨0, fun _ => 0⟩)).Returns [] t'
        (.page ⟨0, fun _ => 0⟩) ∧
      (k (startedTable false).state.unset.2 (.reply (.page ⟨0, fun _ => 0⟩))).Returns trace s'
        (.int 1) ∧
      ¬ CopiedFrom hello ⟨0, fun _ => 0⟩ (serverIp false) 0 s' (remoteHome ⟨0, fun _ => 0⟩) t' := by
  obtain ⟨argp, k, trace, t', s', hcall, hhome, hreturn⟩ := attach_remoteHome ⟨0, fun _ => 0⟩
  refine ⟨argp, k, trace, t', s', hcall, hhome, hreturn, ?_⟩
  have haddressed : Addressed (startedTable false).state.unset.2.unset.2 := rfl
  rintro ⟨m, r, c', hfilled, -, -, -⟩
  obtain ⟨-, ⟨hentry, -⟩ | ⟨-, hk⟩⟩ := runs_pageCreat hcall
  · obtain ⟨p, hp⟩ := hentry
    cases hp
  · rw [hk] at hreturn
    obtain ⟨m', hfilled'⟩ := filled_creatAttach haddressed hreturn
    obtain rfl : m = m' := Option.some.inj (hfilled.last.symm.trans hfilled'.last)
    have hbytes := Option.some.inj (hfilled.bytes.symm.trans hfilled'.bytes)
    have hfirst := congrFun hbytes ⟨0, by decide⟩
    cases hfirst

end DistributedSystem.Dsm
