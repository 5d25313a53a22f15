import DistributedSystem.DsmDirectory
import DistributedSystem.DsmStrings

/-!
# The address of the home

PAGE_LOCATE is to return the address of the server whose directory has the page, after a
search in the local directory and a PAGE_FIND at each of the other servers. Line 44 returns
the local address when the page is not in the local directory, where the same test of
PAGE_CREAT goes on with the other servers.
-/
namespace DistributedSystem.Dsm
open LinkedList Rpc

variable {N : Type}

/-- The addresses of the table that are in use. -/
def addresses (s : Server) : List Ip := s.server.toList.take s.nserver

/-- The directory of the server has an entry for the page. -/
def HasEntry (page : PageId) (s : Server) : Prop := ∃ p, searchDir page s = some (some p)

/-- All servers are running and have directories that end, and the addresses in the table of
server `n` are not empty, denote servers, and denote `n` if and only if they are its own,
which is one of them. -/
structure Reachable (resolve : Ip → Option N) (net : N → Process Server) (n : N) : Prop where
  running : ∀ m, (net m).exited = false
  ends : ∀ m, ∃ ps, Chain (net m).state.dirHeap (net m).state.dir ps
  nonempty : ∀ ip ∈ addresses (net n).state, cstr ip.toList ≠ []
  resolves : ∀ ip ∈ addresses (net n).state, ∃ m, resolve ip = some m
  self : ∀ ip ∈ addresses (net n).state,
    resolve ip = some n ↔ strncmpEq ip (net n).state.localHost = true
  listed : ∃ ip ∈ addresses (net n).state, strncmpEq ip (net n).state.localHost = true

/-- No two servers of the table have an entry for the page. -/
def AtMostOneHome (resolve : Ip → Option N) (net : N → Process Server) (n : N)
    (page : PageId) : Prop :=
  ∀ ip ∈ addresses (net n).state, ∀ ip' ∈ addresses (net n).state, ∀ m m',
    resolve ip = some m → resolve ip' = some m' → HasEntry page (net m).state →
    HasEntry page (net m').state → m = m'

/-- The address is that of the server of the table that has the page, and empty if and only if
no server of the table has it. -/
structure Located (resolve : Ip → Option N) (net : N → Process Server) (n : N) (page : PageId)
    (ip : Ip) : Prop where
  home : ∀ a ∈ addresses (net n).state, ∀ m, resolve a = some m → HasEntry page (net m).state →
    strncmpEq ip a = true
  empty : cstr ip.toList = [] ↔
    ∀ a ∈ addresses (net n).state, ∀ m, resolve a = some m → ¬ HasEntry page (net m).state

theorem searchDir_of_chain {s : Server} (h : ∃ ps, Chain s.dirHeap s.dir ps) (page : PageId) :
    (searchDir page s = some none ∧ ¬ HasEntry page s) ∨
      ∃ p, searchDir page s = some (some p) := by
  obtain ⟨ps, hps⟩ := h
  have hsearch : searchDir page s = some (ps.find? (entryAt s.dirHeap
      fun e => strncmpEq e.page.name page.name)) := hps.search_eq _
  cases hfind : ps.find? (entryAt s.dirHeap fun e => strncmpEq e.page.name page.name) with
  | none =>
    rw [hfind] at hsearch
    refine .inl ⟨hsearch, ?_⟩
    rintro ⟨p, hp⟩
    rw [hsearch] at hp
    cases hp
  | some p =>
    rw [hfind] at hsearch
    exact .inr ⟨p, hsearch⟩

variable [DecidableEq N]

/-- A PAGE_FIND at a running server that does not have the page is answered with 0. -/
theorem serve_pageFind_of_not {resolve : Ip → Option N} {net : N → Process Server} {m : N}
    {page : PageId} (hrunning : (net m).exited = false)
    (hends : ∃ ps, Chain (net m).state.dirHeap (net m).state.dir ps)
    (hnot : ¬ HasEntry page (net m).state) {busy : List N} (hbusy : m ∉ busy) (depth : ℕ) :
    serve (service resolve) (depth + 1) busy m (.pageFind page) net =
      some (.reply (.int 0), net) := by
  rcases searchDir_of_chain hends page with ⟨hsearch, -⟩ | hfound
  · have hhandler : (service resolve).handler (.pageFind page) (net m).state =
        .ret (net m).state (.int 0) := by
      show psuDsmPageFind1Svc page (net m).state = _
      rw [psuDsmPageFind1Svc, hsearch]
      rfl
    rw [serve_running hbusy hrunning, hhandler, execute, update_running hrunning]
  · exact (hnot hfound).elim

/-- If no other server has the page, the search through them returns the empty address. -/
theorem execute_locateRemote {resolve : Ip → Option N} {net : N → Process Server} {n : N}
    (h : Reachable resolve net n) {page : PageId} {ips : List Ip}
    (hips : ∀ ip ∈ ips, ip ∈ addresses (net n).state)
    (hnot : ∀ ip ∈ ips, ∀ m, resolve ip = some m → m ≠ n → ¬ HasEntry page (net m).state)
    (depth : ℕ) :
    execute resolve (serve (service resolve) (depth + 1) [n]) n
      (locateRemote page ips (net n).state) net =
        some (.reply (.host (strncpy ipLen [])), net) := by
  induction ips with
  | nil => rw [locateRemote, execute, update_running (h.running n)]
  | cons ip ips ih =>
    obtain ⟨hip, hips⟩ := List.forall_mem_cons.mp hips
    obtain ⟨hfirst, hrest⟩ := List.forall_mem_cons.mp hnot
    have hih := ih hips hrest
    rw [locateRemote]
    split_ifs with hlocal
    · exact hih
    · obtain ⟨m, hm⟩ := h.resolves ip hip
      have hne : m ≠ n := by
        rintro rfl
        exact hlocal ((h.self ip hip).mp hm)
      have hserve : serve (service resolve) (depth + 1) [n] m (.pageFind page) net =
          some (.reply (.int 0), net) :=
        serve_pageFind_of_not (h.running m) (h.ends m) (hfirst m hm hne) (by simpa using hne) depth
      rw [execute, hm]
      dsimp only
      rw [update_running (h.running n), hserve, Option.bind_some]
      exact hih

/-- What PAGE_LOCATE returns: the empty address for a page that the server has itself, and its
own address for every other one. -/
theorem serve_pageLocate {resolve : Ip → Option N} {net : N → Process Server} {n : N}
    (h : Reachable resolve net n) {page : PageId} (hone : AtMostOneHome resolve net n page)
    (depth : ℕ) :
    ∃ ip, serve (service resolve) (depth + 2) [] n (.pageLocate page) net =
        some (.reply (.host ip), net) ∧
      (HasEntry page (net n).state → cstr ip.toList = []) ∧
      (¬ HasEntry page (net n).state → strncmpEq ip (net n).state.localHost = true) := by
  rw [serve_running List.not_mem_nil (h.running n)]
  show ∃ ip, execute resolve _ n (psuDsmPageLocate1Svc page (net n).state) net = _ ∧ _
  rcases searchDir_of_chain (h.ends n) page with ⟨hsearch, hnot⟩ | ⟨p, hsearch⟩
  · refine ⟨strncpy ipLen (net n).state.localHost.toList, ?_, fun hhas => (hnot hhas).elim,
      fun _ => strncmpEq_strncpy _⟩
    rw [psuDsmPageLocate1Svc, hsearch]
    dsimp only [orExit]
    rw [execute, update_running (h.running n)]
  · have hhas : HasEntry page (net n).state := ⟨p, hsearch⟩
    refine ⟨strncpy ipLen [], ?_, fun _ => cstr_strncpy ipLen [], fun hnot => (hnot hhas).elim⟩
    rw [psuDsmPageLocate1Svc, hsearch]
    dsimp only [orExit]
    refine execute_locateRemote h (fun ip hip => hip) ?_ depth
    intro ip hip m hm hne hm'
    obtain ⟨ip₀, hip₀, hlocal⟩ := h.listed
    exact hne (hone ip hip ip₀ hip₀ m n hm ((h.self ip₀ hip₀).mpr hlocal) hm' hhas)

omit [DecidableEq N] in
/-- The two cases of `serve_pageLocate` are the wrong way round. -/
theorem not_located_of {resolve : Ip → Option N} {net : N → Process Server} {n : N}
    (h : Reachable resolve net n) {page : PageId} {ip : Ip}
    (hhas : HasEntry page (net n).state → cstr ip.toList = [])
    (hnot : ¬ HasEntry page (net n).state → strncmpEq ip (net n).state.localHost = true) :
    ¬ Located resolve net n page ip := by
  intro hlocated
  obtain ⟨ip₀, hip₀, hlocal⟩ := h.listed
  have hn : resolve ip₀ = some n := (h.self ip₀ hip₀).mpr hlocal
  by_cases hentry : HasEntry page (net n).state
  · exact hlocated.empty.mp (hhas hentry) ip₀ hip₀ n hn hentry
  · have hip := strncmpEq_iff.mp (hnot hentry)
    have hnonempty : cstr ip.toList ≠ [] := by
      rw [hip, ← strncmpEq_iff.mp hlocal]
      exact h.nonempty ip₀ hip₀
    -- the home that there must be then is another server, and not the one that was named
    refine hnonempty (hlocated.empty.mpr ?_)
    intro a ha m hm hm'
    have haddress := strncmpEq_iff.mp (hlocated.home a ha m hm hm')
    have hlocal' : strncmpEq a (net n).state.localHost = true := by
      rw [strncmpEq_iff, ← haddress, hip]
    have hmn : some m = some n := hm.symm.trans ((h.self a ha).mpr hlocal')
    obtain rfl := Option.some.inj hmn
    exact hentry hm'

/-- For all directories of the servers in the table and every page with at most one home:
PAGE_LOCATE returns, but never the address of the home or, if there is none, the empty
address. -/
theorem pageLocate_never (resolve : Ip → Option N) (net : N → Process Server) (n : N)
    (h : Reachable resolve net n) (page : PageId) (hone : AtMostOneHome resolve net n page)
    (depth : ℕ) :
    ∃ ip, serve (service resolve) (depth + 2) [] n (.pageLocate page) net =
        some (.reply (.host ip), net) ∧ ¬ Located resolve net n page ip := by
  obtain ⟨ip, hserve, hhas, hnot⟩ := serve_pageLocate h hone depth
  exact ⟨ip, hserve, not_located_of h hhas hnot⟩

/-- The servers of the table when "hello" has its home on `home`, or nowhere. -/
def homeTable (home : Option Bool) (n : Bool) : Process Server :=
  if home = some n then
    ⟨{ (startedTable n).state with dir := some 0, dirHeap := [⟨heldBy 0 .RW, none⟩] }, false⟩
  else startedTable n

theorem homeTable_server (home : Option Bool) (n : Bool) :
    (homeTable home n).state.server = serverTable ∧ (homeTable home n).state.nserver = 2 ∧
      (homeTable home n).state.localHost = serverIp n ∧ (homeTable home n).exited = false := by
  unfold homeTable
  split_ifs
  · exact ⟨rfl, rfl, rfl, rfl⟩
  · exact ⟨rfl, rfl, rfl, rfl⟩

theorem eq_some_of_hasEntry {home : Option Bool} {n : Bool}
    (h : HasEntry hello (homeTable home n).state) : home = some n := by
  by_contra hne
  obtain ⟨p, hp⟩ := h
  rw [homeTable, if_neg hne] at hp
  have hempty : NoEntry (startedTable n).state := rfl
  rw [searchDir_of_noEntry hempty] at hp
  cases hp

theorem atMostOneHome_homeTable (home : Option Bool) :
    AtMostOneHome resolveTable (homeTable home) false hello := by
  intro ip _ ip' _ m m' _ _ hm hm'
  have hsome := (eq_some_of_hasEntry hm).symm.trans (eq_some_of_hasEntry hm')
  exact Option.some.inj hsome

theorem addresses_homeTable (home : Option Bool) (n : Bool) :
    addresses (homeTable home n).state = [serverIp false, serverIp true] := by
  obtain ⟨hserver, hnserver, -, -⟩ := homeTable_server home n
  rw [addresses, hserver, hnserver]
  decide +kernel

theorem reachable_homeTable (home : Option Bool) :
    Reachable resolveTable (homeTable home) false := by
  obtain ⟨-, -, hlocal, -⟩ := homeTable_server home false
  refine ⟨fun m => (homeTable_server home m).2.2.2, ?_, ?_, ?_, ?_, ?_⟩
  · intro m
    unfold homeTable
    split_ifs
    · exact ⟨[0], .cell rfl .null⟩
    · exact ⟨[], .null⟩
  · rw [addresses_homeTable, List.forall_mem_cons, List.forall_mem_singleton]
    decide +kernel
  · rw [addresses_homeTable, List.forall_mem_cons, List.forall_mem_singleton]
    exact ⟨⟨false, by decide +kernel⟩, true, by decide +kernel⟩
  · rw [addresses_homeTable, hlocal, List.forall_mem_cons, List.forall_mem_singleton]
    decide +kernel
  · rw [addresses_homeTable, hlocal]
    exact ⟨serverIp false, List.mem_cons_self, by decide +kernel⟩

/-- PAGE_LOCATE of "hello" when no server has it. -/
theorem pageLocate_never_started :
    ∃ ip, serve (service resolveTable) 2 [] false (.pageLocate hello) (homeTable none) =
        some (.reply (.host ip), homeTable none) ∧
      ¬ Located resolveTable (homeTable none) false hello ip :=
  pageLocate_never resolveTable (homeTable none) false (reachable_homeTable none) hello
    (atMostOneHome_homeTable none) 0

/-- PAGE_LOCATE of "hello" at the first server, when the second one has it, returns the address
of the first. -/
theorem not_located_remote :
    Reachable resolveTable (homeTable (some true)) false ∧
      AtMostOneHome resolveTable (homeTable (some true)) false hello ∧
      HasEntry hello (homeTable (some true) true).state ∧
      ∃ ip, serve (service resolveTable) 2 [] false (.pageLocate hello) (homeTable (some true)) =
          some (.reply (.host ip), homeTable (some true)) ∧
        strncmpEq ip (serverIp false) = true ∧
        ¬ Located resolveTable (homeTable (some true)) false hello ip := by
  have hreach := reachable_homeTable (some true)
  have hone := atMostOneHome_homeTable (some true)
  obtain ⟨-, -, hlocal, -⟩ := homeTable_server (some true) false
  obtain ⟨ip, hserve, hhas, hnot⟩ := serve_pageLocate hreach hone 0
  have hentry : ¬ HasEntry hello (homeTable (some true) false).state := by
    intro h
    cases eq_some_of_hasEntry h
  have hip := hnot hentry
  rw [hlocal] at hip
  exact ⟨hreach, hone, ⟨0, by decide +kernel⟩, ip, hserve, hip, not_located_of hreach hhas hnot⟩

end DistributedSystem.Dsm
