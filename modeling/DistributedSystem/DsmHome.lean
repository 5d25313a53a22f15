import DistributedSystem.DsmServer

/-!
# The home of a page

A page that is created has its home on one server, whose directory has an entry for
it. `insert_dir` is given the value of the global variable `dir`, and when the directory
is empty it assigns the new entry to its own copy of that variable. The directories of
all servers stay empty, whatever is called.
-/
namespace DistributedSystem.Dsm
open LinkedList Rpc

variable {N : Type}

/-- The directory is empty. -/
def NoEntry (s : Server) : Prop := s.dir = none

/-- What the servers reply while all directories are empty. -/
def emptyReply : Call → Reply → Prop
  | .pageFind _, r => r = .int 0
  | .pageCreat _, r => r = .int 1
  | .pageRequest _, _ => False
  | _, _ => True

@[simp] theorem searchDir_of_noEntry {s : Server} (h : NoEntry s) (page : PageId) :
    searchDir page s = some none := by
  rw [searchDir, h, search_null]

/-- `insert_dir` does not reach the global variable. -/
theorem insertDir_noEntry {s s' : Server} {entry : DirEntry}
    (hs : insertDir entry s = some s') (h : NoEntry s) : NoEntry s' := by
  obtain ⟨heap, -, rfl⟩ := Option.map_eq_some_iff.mp hs
  exact h

theorem insertDir_of_noEntry {s : Server} (h : NoEntry s) (e : DirEntry) :
    ∃ s', insertDir e s = some s' := by
  rw [NoEntry] at h
  simp only [insertDir, h, append_null, Option.map_some]
  exact ⟨_, rfl⟩

theorem insertDsm_noEntry {s s' : Server} {page : PageId} {location : Ip}
    (hs : insertDsm page location s = some s') (h : NoEntry s) : NoEntry s' := by
  obtain ⟨heap, -, rfl⟩ := Option.map_eq_some_iff.mp hs
  exact h

/-- The rule for `orExit`: both ways keep the invariant. -/
theorem orExit_meets {α : Type} {I : Server → Prop} {post : Call → Reply → Prop} {s : Server}
    {r : Option α} {k : α → Handler} {Q : Reply → Prop} (h : I s)
    (hk : ∀ a, r = some a → (k a).Meets I post Q) : (orExit s r k).Meets I post Q := by
  cases r with
  | none => exact h
  | some a => exact hk a rfl

/-- A handler returns only when the operation has a result. -/
theorem returns_orExit {α : Type} {s s' : Server} {r : Option α} {k : α → Handler}
    {trace : List (Ip × Call × Answer Reply)} {x : Reply}
    (h : (orExit s r k).Returns trace s' x) : ∃ a, r = some a ∧ (k a).Returns trace s' x := by
  cases r with
  | none => cases h
  | some a => exact ⟨a, rfl, h⟩

theorem runs_orExit {α : Type} {s : Server} {r : Option α} {k : α → Handler}
    {trace : List (Ip × Call × Answer Reply)} {q : Handler} (h : (orExit s r k).Runs trace q) :
    (trace = [] ∧ q = .exit s) ∨ ∃ a, r = some a ∧ (k a).Runs trace q := by
  cases r with
  | none =>
    cases h with
    | refl => exact .inl ⟨rfl, rfl⟩
  | some a => exact .inr ⟨a, rfl, h⟩

theorem exists_returns_orExit {α : Type} {P : Server → Prop} {s : Server} {r : Option α}
    {k : α → Handler} {x : Reply} (hr : ∃ a, r = some a)
    (hk : ∀ a, r = some a → ∃ trace s', (k a).Returns trace s' x ∧ P s') :
    ∃ trace s', (orExit s r k).Returns trace s' x ∧ P s' := by
  obtain ⟨a, rfl⟩ := hr
  exact hk a rfl

theorem creatLocal_meets {s : Server} (h : NoEntry s) (pageid : PageId) :
    (creatLocal pageid s).Meets NoEntry emptyReply (· = .int 1) := by
  refine orExit_meets h ?_
  intro s₁ h₁
  have hs₁ := insertDir_noEntry h₁ h
  refine orExit_meets hs₁ ?_
  intro s₂ h₂
  have hs₂ := insertDsm_noEntry h₂ hs₁
  exact ⟨hs₂, rfl⟩

theorem creatRemote_meets (pageid : PageId) (ips : List Ip) {s : Server} (h : NoEntry s) :
    (creatRemote pageid ips s).Meets NoEntry emptyReply (· = .int 1) := by
  induction ips generalizing s with
  | nil => exact creatLocal_meets h pageid
  | cons ip ips ih =>
    rw [creatRemote]
    split_ifs with hlocal
    · exact ih h
    · refine ⟨h, ?_⟩
      intro s' ans hs' hans
      cases ans with
      | unreachable => exact hs'
      | failed => exact hs'
      | reply r =>
        -- no server has the page, so the loop goes on to the next one
        obtain rfl : r = .int 0 := hans r rfl
        exact ih hs'

theorem psuDsm1_meets (c : Call) {s : Server} (h : NoEntry s) :
    (psuDsm1 c s).Meets NoEntry emptyReply (emptyReply c) := by
  cases c with
  | pageFind argp =>
    simp only [psuDsm1, psuDsmPageFind1Svc, searchDir_of_noEntry h]
    exact ⟨h, rfl⟩
  | pageLocate argp =>
    simp only [psuDsm1, psuDsmPageLocate1Svc, searchDir_of_noEntry h]
    exact ⟨h, trivial⟩
  | pageCreat argp =>
    simp only [psuDsm1, psuDsmPageCreat1Svc, searchDir_of_noEntry h]
    exact creatRemote_meets argp _ h
  | pageUpdate argp =>
    refine orExit_meets h ?_
    rintro (- | p) -
    · exact h
    · refine orExit_meets h ?_
      rintro c -
      refine ⟨?_, trivial⟩
      split_ifs <;> exact h
  | pageRequest argp =>
    simp only [psuDsm1, psuDsmPageRequest1Svc, searchDir_of_noEntry h]
    exact h
  | pageFetch argp =>
    refine orExit_meets h ?_
    rintro (- | p) -
    · exact h
    · refine orExit_meets h ?_
      rintro c -
      refine orExit_meets h ?_
      rintro bytes -
      exact ⟨h, trivial⟩
  | pageAck argp => exact ⟨h, trivial⟩

/-! ## Sequences of PAGE_CREAT calls -/

variable [DecidableEq N]

/-- A call that is served keeps the directories empty. -/
theorem good_serve {resolve : Ip → Option N} {depth : ℕ} {n : N} {c : Call}
    {net : N → Process Server} {r : Answer Reply × (N → Process Server)}
    (hnet : ∀ m, NoEntry (net m).state)
    (hr : serve (service resolve) depth [] n c net = some r) : Good NoEntry (emptyReply c) r :=
  serve_meets (fun c _ hs => psuDsm1_meets c hs) hnet hr

/-- Complete PAGE_CREAT calls one after the other, with their results. -/
def creates (resolve : Ip → Option N) (depth : ℕ) :
    List (N × PageId) → (N → Process Server) → Option (List ℤ × (N → Process Server))
  | [], net => some ([], net)
  | (n, page) :: calls, net =>
    match serve (service resolve) depth [] n (.pageCreat page) net with
    | some (.reply (.int r), net') =>
      (creates resolve depth calls net').map fun rest => (r :: rest.1, rest.2)
    | _ => none

/-- The number of entries with the name of `page` in the directory. -/
def entriesNamed (page : PageId) (s : Server) : Option ℕ :=
  (entries s.dirHeap s.dir).map fun l =>
    (l.filter fun e => strncmpEq e.page.name page.name).length

/-- What `psu_dsm_page_find_1_svc` answers. -/
def found (page : PageId) (s : Server) : Option ℤ :=
  match psuDsmPageFind1Svc page s with
  | .ret _ (.int r) => some r
  | _ => none

/-- After the calls, every page for which one of them returned 1 has one home: the
server of the first such call for it, and no other. -/
def OneHome (net : N → Process Server) (calls : List (N × PageId)) (results : List ℤ) : Prop :=
  ∀ (i : ℕ) (n : N) (page : PageId), calls[i]? = some (n, page) → results[i]? = some 1 →
    ∃ (j : ℕ) (home : N) (page' : PageId), calls[j]? = some (home, page') ∧ results[j]? = some 1 ∧
      strncmpEq page'.name page.name = true ∧
      (∀ l, l < j → ∀ (m : N) (q : PageId), calls[l]? = some (m, q) → results[l]? = some 1 →
        strncmpEq q.name page.name = false) ∧
      ∀ m, entriesNamed page (net m).state = some (if m = home then 1 else 0) ∧
        found page (net m).state = some (if m = home then 1 else 0)

/-- The first of the completed calls and the others. -/
theorem creates_cons_eq_some {resolve : Ip → Option N} {depth : ℕ} {n : N} {page : PageId}
    {calls : List (N × PageId)} {net net' : N → Process Server} {results : List ℤ}
    (h : creates resolve depth ((n, page) :: calls) net = some (results, net')) :
    ∃ r net₁ rest, serve (service resolve) depth [] n (.pageCreat page) net =
        some (.reply (.int r), net₁) ∧
      creates resolve depth calls net₁ = some (rest, net') ∧ results = r :: rest := by
  simp only [creates] at h
  split at h
  · rename_i r net₁ hserve
    obtain ⟨⟨rest, net₂⟩, hrest, heq⟩ := Option.map_eq_some_iff.mp h
    obtain ⟨rfl, rfl⟩ := Prod.mk.inj heq
    exact ⟨r, net₁, rest, hserve, hrest, rfl⟩
  · cases h

/-- Completed calls all return 1 and leave all directories empty. -/
theorem creates_noEntry {resolve : Ip → Option N} {depth : ℕ} {calls : List (N × PageId)}
    {net net' : N → Process Server} {results : List ℤ} (hnet : ∀ n, NoEntry (net n).state)
    (h : creates resolve depth calls net = some (results, net')) :
    (∀ n, NoEntry (net' n).state) ∧ results = calls.map fun _ => 1 := by
  induction calls generalizing net results with
  | nil =>
    obtain ⟨rfl, rfl⟩ : [] = results ∧ net = net' := by simpa [creates] using h
    exact ⟨hnet, rfl⟩
  | cons call calls ih =>
    obtain ⟨r, net₁, rest, hserve, hrest, rfl⟩ := creates_cons_eq_some h
    have hgood := good_serve hnet hserve
    obtain rfl : r = 1 := by simpa [emptyReply] using hgood.2 _ rfl
    obtain ⟨hempty, hrest'⟩ := ih hgood.1 hrest
    exact ⟨hempty, by simpa using hrest'⟩

/-- For every number of servers with any tables: after completed PAGE_CREAT calls every
created page has one home if and only if there were no calls at all. -/
theorem oneHome_iff_nil (resolve : Ip → Option N) (depth : ℕ) (localHost : N → Ip)
    (nserver : N → ℕ) (server : N → Vector Ip maxServ) (segments : N → UInt32 → Option Bytes)
    (undef : N → ℕ → Undef) {calls : List (N × PageId)} {results : List ℤ}
    {net : N → Process Server}
    (h : creates resolve depth calls (fun n =>
      ⟨init (localHost n) (nserver n) (server n) (segments n) (undef n), false⟩) =
        some (results, net)) :
    OneHome net calls results ↔ calls = [] := by
  have hinit : ∀ n, NoEntry
      (init (localHost n) (nserver n) (server n) (segments n) (undef n)) := fun _ => rfl
  obtain ⟨hempty, rfl⟩ := creates_noEntry hinit h
  constructor
  · intro hhome
    cases calls with
    | nil => rfl
    | cons call calls =>
      obtain ⟨n, page⟩ := call
      obtain ⟨j, home, page', -, -, -, -, hall⟩ := hhome 0 n page rfl rfl
      have hcount := (hall home).1
      have hdir : (net home).state.dir = none := hempty home
      simp [entriesNamed, hdir] at hcount
  · rintro rfl i n page hi
    simp at hi

/-- The address "130.203.16.20" or "130.203.16.21". -/
def serverIp (n : Bool) : Ip :=
  strncpy ipLen [49, 51, 48, 46, 50, 48, 51, 46, 49, 54, 46, 50, if n then 49 else 48]

/-- The table that `init` sets up. -/
def serverTable : Vector Ip maxServ :=
  Vector.ofFn fun i => if i.val = 0 then serverIp false else if i.val = 1 then serverIp true
    else strncpy ipLen []

/-- The two servers of the table. -/
def resolveTable (ip : Ip) : Option Bool :=
  if strncmpEq ip (serverIp false) then some false
  else if strncmpEq ip (serverIp true) then some true
  else none

/-- Memory whose bytes are all zero. -/
def zeroUndef : Undef where
  mode := .NA
  addr := 0
  next := none
  sender := strncpy ipLen []
  page := ⟨strncpy nameLen [], 0⟩
  behind := []
  bytes _ := 0

/-- The page "hello" of size 100. -/
def hello : PageId := ⟨strncpy nameLen [104, 101, 108, 108, 111], 100⟩

/-- The servers of the table when they have started. -/
def startedTable (n : Bool) : Process Server :=
  ⟨init (serverIp n) 2 serverTable (fun _ => none) (fun _ => zeroUndef), false⟩

/-- PAGE_CREAT of "hello" at the first server asks the second one. -/
theorem pageCreat_startedTable : ∃ k,
    psuDsmPageCreat1Svc hello (startedTable false).state =
        .call (startedTable false).state (serverIp true) (.pageFind hello) k ∧
      (∀ s, k s .failed = .exit s) ∧ (∀ s, k s (.reply (.int 0)) = creatLocal hello s) ∧
      ∀ s, ∃ k', k s (.reply (.int 1)) = .call s.unset.2 (serverIp true)
          (.pageRequest { pageid := hello, mode := .NA, sender := (s.undef 0).sender }) k' ∧
        ∀ s' page, k' s' (.reply (.page page)) =
          creatAttach hello (intBytes 1 (s'.undef 0).bytes) (serverIp true) s'.unset.2 := by
  have hempty : NoEntry (startedTable false).state := rfl
  have htable : (startedTable false).state.server.toList.take
      (startedTable false).state.nserver = [serverIp false, serverIp true] := by
    decide +kernel
  have hlocal : strncmpEq (serverIp false) (startedTable false).state.localHost = true := by
    decide +kernel
  have hother : ¬ strncmpEq (serverIp true) (startedTable false).state.localHost = true := by
    decide +kernel
  rw [psuDsmPageCreat1Svc, searchDir_of_noEntry hempty]
  dsimp only [orExit]
  rw [htable, creatRemote, if_pos hlocal, creatRemote, if_neg hother]
  exact ⟨_, rfl, fun _ => rfl, fun _ => rfl, fun _ => ⟨_, rfl, fun _ _ => rfl⟩⟩

/-- One PAGE_CREAT of "hello" at the first server asks the second one and completes. -/
theorem oneHome_iff_nil_hello : ∃ net,
    creates resolveTable 2 [(false, hello)] startedTable = some ([1], net) ∧
      (OneHome net [(false, hello)] [1] ↔ [(false, hello)] = []) := by
  have hone : (creates resolveTable 2 [(false, hello)] startedTable).map Prod.fst = some [1] := by
    decide +kernel
  obtain ⟨⟨results, net⟩, hnet, rfl⟩ := Option.map_eq_some_iff.mp hone
  exact ⟨net, hnet, oneHome_iff_nil resolveTable 2 serverIp (fun _ => 2) (fun _ => serverTable)
    (fun _ _ => none) (fun _ _ => zeroUndef) hnet⟩

/-- After a PAGE_CREAT that returned 1 there is no home. -/
theorem not_oneHome : ∃ results net,
    creates resolveTable 2 [(false, hello)] startedTable = some (results, net) ∧
      results = [1] ∧ ¬ OneHome net [(false, hello)] results := by
  have hone : (creates resolveTable 2 [(false, hello)] startedTable).map Prod.fst = some [1] := by
    decide +kernel
  obtain ⟨⟨results, net⟩, hnet, rfl⟩ := Option.map_eq_some_iff.mp hone
  refine ⟨_, net, hnet, rfl, ?_⟩
  intro hhome
  obtain ⟨j, home, page', -, -, -, -, hall⟩ := hhome 0 false hello rfl rfl
  have hinit : ∀ n, NoEntry (startedTable n).state := fun _ => rfl
  have hempty := (creates_noEntry hinit hnet).1 home
  have hcount := (hall home).1
  rw [NoEntry] at hempty
  simp [entriesNamed, hempty] at hcount

end DistributedSystem.Dsm
