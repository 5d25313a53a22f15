import DistributedSystem.DsmInvariant

/-!
# The table of attached pages

Every server keeps a table of the pages that it has attached, with the address of each
and the home it came from; PAGE_UPDATE and PAGE_FETCH look their page up in it.
`insert_dsm` is given the value of the global variable `dsm`, and so the table is still
empty after any number of insertions. No handler assigns the variable, and the handlers
of the remote calls in between do not either.
-/
namespace DistributedSystem.Dsm
open LinkedList Rpc

variable {N : Type}

/-- The table of attached pages is empty. -/
def NoTable (s : Server) : Prop := s.dsm = none

/-- The handler leaves the table empty at every point, whatever its calls bring back. -/
def KeepsNoTable (p : Handler) : Prop := p.Meets NoTable (fun _ _ => True) fun _ => True

theorem insertDsm_of_noTable {s : Server} (h : NoTable s) (page : PageId) (location : Ip) :
    ∃ s', insertDsm page location s = some s' := by
  rw [NoTable] at h
  simp only [insertDsm, Server.unset, h, append_null, Option.map_some]
  exact ⟨_, rfl⟩

theorem kept_noTable : Kept NoTable := by
  refine Kept.of_fixed ?_
  intro s s' hfixed h
  have hdsm : s'.dsm = s.dsm := congrArg (fun f => f.2.2.2.2) hfixed
  rw [NoTable, hdsm]
  exact h

/-- No handler ever enters anything into an empty table. -/
theorem psuDsm1_keepsNoTable (c : Call) {s : Server} (h : NoTable s) :
    KeepsNoTable (psuDsm1 c s) :=
  (kept_noTable.psuDsm1 c h).mono (fun _ _ _ => trivial) fun _ _ => trivial

/-! ## What the table should hold -/

variable [DecidableEq N]

/-- A call that is served leaves the tables of all servers empty. -/
theorem serve_noTable {resolve : Ip → Option N} {depth : ℕ} {busy : List N} {n : N} {c : Call}
    {net : N → Process Server} {r : Answer Reply × (N → Process Server)}
    (hnet : ∀ m, NoTable (net m).state)
    (hr : serve (service resolve) depth busy n c net = some r) :
    ∀ m, NoTable (r.2 m).state := by
  have hsv : ∀ c s, NoTable s → ((service resolve).handler c s).Meets NoTable
      (fun _ _ => True) fun _ => True := fun c s hs => psuDsm1_keepsNoTable c hs
  exact (serve_meets hsv hnet hr).1

/-- Completed PAGE_CREAT calls leave every table empty. -/
theorem creates_noTable {resolve : Ip → Option N} {depth : ℕ} {calls : List (N × PageId)}
    {net net' : N → Process Server} {results : List ℤ} (hnet : ∀ n, NoTable (net n).state)
    (h : creates resolve depth calls net = some (results, net')) :
    ∀ n, NoTable (net' n).state := by
  induction calls generalizing net results with
  | nil =>
    obtain ⟨-, rfl⟩ : [] = results ∧ net = net' := by simpa [creates] using h
    exact hnet
  | cons call calls ih =>
    obtain ⟨r, net₁, rest, hserve, hrest, -⟩ := creates_cons_eq_some h
    exact ih (serve_noTable hnet hserve) hrest

/-- Server `home` is the one of the first call for the name of `page` that returned 1. -/
def FirstCreated (calls : List (N × PageId)) (results : List ℤ) (page : PageId) (home : N) :
    Prop :=
  ∃ (j : ℕ) (page' : PageId), calls[j]? = some (home, page') ∧ results[j]? = some 1 ∧
    strncmpEq page'.name page.name = true ∧
    ∀ l, l < j → ∀ (m : N) (q : PageId), calls[l]? = some (m, q) → results[l]? = some 1 →
      strncmpEq q.name page.name = false

/-- The table of a server is a list that ends, in which `entry` is the entry that a look-up
of `page` finds and the only one of its name; its address is that of the mapping `m`, and
PAGE_UPDATE and PAGE_FETCH for the page act on that mapping. -/
structure Tabled (s : Server) (page : PageId) (entry : DsmEntry) (m : Mapping) : Prop where
  found : ∃ p c, searchDsm page s = some (some p) ∧ s.dsmHeap[p]? = some c ∧ c.entry = entry
  only : ∃ l, entries s.dsmHeap s.dsm = some l ∧
    l.filter (fun e => strncmpEq e.page.name page.name) = [entry]
  mapped : s.mapped entry.addr = some m
  update : ∀ request : Request, strncmpEq request.pageid.name page.name = true →
    psuDsmPageUpdate1Svc request s = .ret (match request.mode with
      | .RO => s.mprotect m.base .read
      | .RW => s.mprotect m.base .none
      | .NA => s) (.int 0)
  fetch : ∀ request : Request, strncmpEq request.pageid.name page.name = true →
    ∃ bytes, s.segments m.key = some bytes ∧
      psuDsmPageFetch1Svc request s = .ret s (.page ⟨request.pageid.size, bytes⟩)

/-- After the calls, the table of server `n` has one entry for every page for which a call
at `n` returned 1, with the address of a segment of that page and with its home. -/
def TableExact (net : N → Process Server) (calls : List (N × PageId)) (results : List ℤ)
    (n : N) : Prop :=
  ∀ (i : ℕ) (page : PageId), calls[i]? = some (n, page) → results[i]? = some 1 →
    ∃ entry m home, Tabled (net n).state page entry m ∧
      (∃ (j : ℕ) (q : PageId) (u : Undef), calls[j]? = some (n, q) ∧
        strncmpEq q.name page.name = true ∧ m.key = pageKey q u) ∧
      FirstCreated calls results page home ∧
      strncmpEq entry.location (net home).state.localHost = true

omit [DecidableEq N] in
/-- An empty table is exact for no page. -/
theorem not_tabled_of_noTable {s : Server} (h : NoTable s) (page : PageId) (entry : DsmEntry)
    (m : Mapping) : ¬ Tabled s page entry m := by
  intro ht
  obtain ⟨p, -, hp, -⟩ := ht.found
  rw [searchDsm, h, search_null] at hp
  cases hp

/-- For every number of servers with any tables of servers: after completed PAGE_CREAT
calls the table of a server is exact if and only if none of the calls was made there. -/
theorem tableExact_iff (resolve : Ip → Option N) (depth : ℕ) (localHost : N → Ip)
    (nserver : N → ℕ) (server : N → Vector Ip maxServ) (segments : N → UInt32 → Option Bytes)
    (undef : N → ℕ → Undef) {calls : List (N × PageId)} {results : List ℤ}
    {net : N → Process Server}
    (h : creates resolve depth calls (fun n =>
      ⟨init (localHost n) (nserver n) (server n) (segments n) (undef n), false⟩) =
        some (results, net)) (n : N) :
    TableExact net calls results n ↔ ∀ call ∈ calls, call.1 ≠ n := by
  have hdir : ∀ n, NoEntry
      (init (localHost n) (nserver n) (server n) (segments n) (undef n)) := fun _ => rfl
  have hdsm : ∀ n, NoTable
      (init (localHost n) (nserver n) (server n) (segments n) (undef n)) := fun _ => rfl
  obtain ⟨-, rfl⟩ := creates_noEntry hdir h
  have hempty := creates_noTable hdsm h
  constructor
  · rintro hexact ⟨m, page⟩ hcall hmn
    obtain rfl : m = n := hmn
    obtain ⟨i, hi⟩ := List.mem_iff_getElem?.mp hcall
    have hone : (calls.map fun _ => (1 : ℤ))[i]? = some 1 := by
      rw [List.getElem?_map, hi]
      rfl
    obtain ⟨entry, mapping, home, ht, -⟩ := hexact i page hi hone
    exact not_tabled_of_noTable (hempty m) page entry mapping ht
  · intro hnone i page hi
    exact (hnone _ (List.mem_of_getElem? hi) rfl).elim

/-- One PAGE_CREAT of "hello" at the first server, which leaves the second one without
calls of its own. -/
theorem tableExact_iff_hello : ∃ net,
    creates resolveTable 2 [(false, hello)] startedTable = some ([1], net) ∧
      (TableExact net [(false, hello)] [1] true ↔
        ∀ call ∈ [(false, hello)], call.1 ≠ true) := by
  have hone : (creates resolveTable 2 [(false, hello)] startedTable).map Prod.fst = some [1] := by
    decide +kernel
  obtain ⟨⟨results, net⟩, hnet, rfl⟩ := Option.map_eq_some_iff.mp hone
  exact ⟨net, hnet, tableExact_iff resolveTable 2 serverIp (fun _ => 2) (fun _ => serverTable)
    (fun _ _ => none) (fun _ _ => zeroUndef) hnet true⟩

/-- After a PAGE_CREAT that returned 1 the table of its server is empty, and PAGE_FETCH of
the page ends the server. -/
theorem not_tableExact : ∃ results net,
    creates resolveTable 2 [(false, hello)] startedTable = some (results, net) ∧
      results = [1] ∧ ¬ TableExact net [(false, hello)] results false := by
  have hone : (creates resolveTable 2 [(false, hello)] startedTable).map Prod.fst = some [1] := by
    decide +kernel
  obtain ⟨⟨results, net⟩, hnet, rfl⟩ := Option.map_eq_some_iff.mp hone
  refine ⟨_, net, hnet, rfl, ?_⟩
  intro hexact
  obtain ⟨entry, m, home, ht, -⟩ := hexact 0 hello rfl rfl
  have hdsm : ∀ n, NoTable (startedTable n).state := fun _ => rfl
  exact not_tabled_of_noTable (creates_noTable hdsm hnet false) hello entry m ht

end DistributedSystem.Dsm
