import DistributedSystem.DsmClient
import DistributedSystem.DsmInvariant
import DistributedSystem.DsmWaiting
import DistributedSystem.RpcInvariant
import DistributedSystem.RpcRefinement

/-!
# Runs of the distributed memory

What holds of the servers in every order of steps, and of servers and clients in every run.
The pointers `dir` and `dsm` stay NULL from the start on. The only message that one server
sends to another is therefore PAGE_FIND, its answer is always 0, and the requests, fetches
and updates of the coherence protocol are never sent. Every node works on its own segments.
-/
namespace DistributedSystem.Dsm
open LinkedList Rpc Transition

variable {N K : Type}

/-! ## Servers that have started -/

/-- The property implies that the directory and the table are empty, and none of the operations
that are then left breaks it. -/
structure Started (I : Server → Prop) : Prop where
  dir : ∀ s, I s → NoEntry s
  dsm : ∀ s, I s → s.dsm = none
  unset : ∀ s, I s → I s.unset.2
  shmget : ∀ s key, I s → I (s.shmget key)
  shmat : ∀ s key, I s → I (s.shmat key).2
  mprotect : ∀ s addr prot, I s → I (s.mprotect addr prot)
  insertDir : ∀ s s' entry, insertDir entry s = some s' → I s → I s'
  insertDsm : ∀ s s' page location, insertDsm page location s = some s' → I s → I s'

/-- The replies of servers whose directory and table are empty. -/
def startedReply : Call → Reply → Prop
  | .pageFind _, r => r = .int 0
  | .pageCreat _, r => r = .int 1
  | .pageUpdate _, _ | .pageRequest _, _ | .pageFetch _, _ => False
  | _, _ => True

/-- The call is a PAGE_FIND. -/
def IsFind (c : Call) : Prop := ∃ pageid, c = .pageFind pageid

theorem searchDsm_of_null {s : Server} (h : s.dsm = none) (page : PageId) :
    searchDsm page s = some none := by
  rw [searchDsm, h, search_null]

theorem obeys_orExit {α : Type} {I : Server → Prop} {post : Call → Reply → Prop}
    {C : Call → Prop} {s : Server} {r : Option α} {k : α → Handler} {Q : Reply → Prop} (h : I s)
    (hk : ∀ a, r = some a → (k a).Obeys I post C Q) : (orExit s r k).Obeys I post C Q := by
  cases r with
  | none => exact Prog.obeys_exit h
  | some a => exact hk a rfl

section
variable {I : Server → Prop} (hI : Started I) {s : Server}
include hI

theorem Started.creatLocal (pageid : PageId) (h : I s) :
    (creatLocal pageid s).Obeys I startedReply IsFind (· = .int 1) := by
  refine obeys_orExit h ?_
  intro s₁ hs₁
  have h₁ := hI.insertDir _ _ _ hs₁ h
  have h₂ := hI.shmat _ (pageKey pageid s₁.unset.1)
    (hI.shmget _ (pageKey pageid s₁.unset.1) (hI.unset s₁ h₁))
  refine obeys_orExit h₂ ?_
  intro s₃ hs₃
  exact Prog.obeys_ret (hI.mprotect _ _ _ (hI.insertDsm _ _ _ _ hs₃ h₂)) rfl

theorem Started.creatRemote (pageid : PageId) (ips : List Ip) (h : I s) :
    (creatRemote pageid ips s).Obeys I startedReply IsFind (· = .int 1) := by
  induction ips generalizing s with
  | nil => exact hI.creatLocal pageid h
  | cons ip ips ih =>
    rw [Dsm.creatRemote]
    split_ifs with hlocal
    · exact ih h
    · refine Prog.obeys_call h ⟨pageid, rfl⟩ ?_
      intro s₁ ans h₁ hans
      cases ans with
      | unreachable => exact Prog.obeys_exit h₁
      | failed => exact Prog.obeys_exit h₁
      | reply r =>
        obtain rfl : r = .int 0 := hans r rfl
        exact ih h₁

/-- Every handler keeps the property and asks other servers for nothing but PAGE_FIND. -/
theorem Started.psuDsm1 (c : Call) (h : I s) :
    (psuDsm1 c s).Obeys I startedReply IsFind (startedReply c) := by
  have hdir := fun page => searchDir_of_noEntry (hI.dir s h) page
  have hdsm := fun page => searchDsm_of_null (hI.dsm s h) page
  cases c with
  | pageFind argp =>
    simp only [Dsm.psuDsm1, psuDsmPageFind1Svc, hdir]
    exact Prog.obeys_ret h rfl
  | pageLocate argp =>
    simp only [Dsm.psuDsm1, psuDsmPageLocate1Svc, hdir]
    exact Prog.obeys_ret h trivial
  | pageCreat argp =>
    simp only [Dsm.psuDsm1, psuDsmPageCreat1Svc, hdir]
    exact hI.creatRemote argp _ h
  | pageUpdate argp =>
    simp only [Dsm.psuDsm1, psuDsmPageUpdate1Svc, hdsm]
    exact Prog.obeys_exit h
  | pageRequest argp =>
    simp only [Dsm.psuDsm1, psuDsmPageRequest1Svc, hdir]
    exact Prog.obeys_exit h
  | pageFetch argp =>
    simp only [Dsm.psuDsm1, psuDsmPageFetch1Svc, hdsm]
    exact Prog.obeys_exit h
  | pageAck argp => exact Prog.obeys_ret h trivial

end

/-- The directory and the table are empty. -/
def Null (s : Server) : Prop := s.dir = none ∧ s.dsm = none

theorem started_null : Started Null where
  dir _ h := h.1
  dsm _ h := h.2
  unset _ h := h
  shmget _ _ h := h
  shmat _ _ h := h
  mprotect _ _ _ h := h
  insertDir s s' entry hs h := by
    obtain ⟨heap, -, rfl⟩ := Option.map_eq_some_iff.mp hs
    exact h
  insertDsm s s' page location hs h := by
    obtain ⟨heap, -, rfl⟩ := Option.map_eq_some_iff.mp hs
    exact h

variable [DecidableEq N]

/-- For any number of servers and every order in which their calls and handlers run: a server
that waits for another one waits for the answer to a PAGE_FIND, the answer is 0, and the
directory and the table of every server are empty. -/
theorem only_pageFind_travels (resolve : Ip → Option N) (localHost : N → Ip) (nserver : N → ℕ)
    (server : N → Vector Ip maxServ) (segments : N → UInt32 → Option Bytes)
    (undef : N → ℕ → Undef) {st : N → Status N Ip Server Call Reply}
    (h : Reaches (step (service resolve)) anyStep
      (started localHost nserver server segments undef) st) (n : N) :
    (st n).current.dir = none ∧ (st n).current.dsm = none ∧
      (∀ s dest c taken k caller, st n = .waiting s dest c taken k caller → IsFind c) ∧
      ∀ s r m, st n = .running (.ret s r) (.server m) → r = .int 0 := by
  have hall : AllObey (fun _ => Null) startedReply IsFind st := by
    refine allObey_reaches (fun _ c s hs => started_null.psuDsm1 c hs) ?_ h
    intro m
    exact ⟨rfl, rfl⟩
  have hnull := hall.current n
  have hn := hall n
  refine ⟨hnull.1, hnull.2, ?_, ?_⟩
  · intro s dest c taken k caller hst
    rw [hst] at hn
    exact hn.2.1
  · intro s r m hst
    rw [hst] at hn
    obtain ⟨c, hasked, hret⟩ := hn
    obtain ⟨s', k, up, hm⟩ := hasked m rfl
    have hwait := hall m
    rw [hm] at hwait
    obtain ⟨-, ⟨pageid, rfl⟩, -⟩ := hwait
    exact hret.meets.2

/-- The first server of the table creates "hello" and waits for the second one. -/
theorem only_pageFind_travels_hello : ∃ st,
    Reaches (step (service resolveTable)) anyStep startedServers st ∧
      waits st false = some true ∧
      ∀ s dest c taken k caller, st false = .waiting s dest c taken k caller → IsFind c := by
  let as : List (Action Bool Call) := [.start false (.pageCreat hello), .run false]
  let st := (exec (step (service resolveTable)) startedServers as).get (by decide +kernel)
  have h : Reaches (step (service resolveTable)) anyStep startedServers st :=
    reaches_of_exec_anyStep as (Option.some_get _).symm
  have hwaits : waits st false = some true := by decide +kernel
  exact ⟨st, h, hwaits, (only_pageFind_travels resolveTable serverIp (fun _ => 2)
    (fun _ => serverTable) (fun _ _ => none) (fun _ _ => zeroUndef) h false).2.2.1⟩

/-! ## Every node has its own memory -/

/-- The steps of the code, and stores of clients through their mappings. -/
inductive Access (N K : Type) where
  | code (a : Event N K)
  | store (k : K) (m : Name × Mapping) (bytes : Bytes)

variable [DecidableEq K]

/-- One step, where a client that is running can store to any of its mappings that it may
write. -/
def access (h : Hosts N K) (depth : ℕ) (sys : System N K) : Access N K → Option (System N K)
  | .code a => next h depth sys a
  | .store k m bytes =>
    let n := h.host k
    let s := (sys.net n).state
    let s := { s with segments := fun key => if key = m.2.key then some bytes else s.segments key }
    if (sys.client k).exited = false ∧ m ∈ (sys.client k).mappings ∧ m.2.prot.writable = true then
      some { sys with net := Function.update sys.net n { sys.net n with state := s } }
    else none

/-- A started server whose segments hold what they held before or zeros. -/
def OldOrZero (old : UInt32 → Option Bytes) (s : Server) : Prop :=
  Null s ∧ ∀ key bytes, s.segments key = some bytes → old key = some bytes ∨ bytes = fun _ => 0

theorem started_oldOrZero (old : UInt32 → Option Bytes) : Started (OldOrZero old) where
  dir _ h := h.1.1
  dsm _ h := h.1.2
  unset _ h := h
  shmat _ _ h := h
  mprotect _ _ _ h := h
  shmget s key h := by
    refine ⟨h.1, ?_⟩
    intro key' bytes hbytes
    by_cases hkey : key' = key
    · subst hkey
      simp only [Server.shmget, if_true] at hbytes
      cases hs : s.segments key' with
      | none =>
        right
        simpa [hs, eq_comm] using hbytes
      | some b =>
        obtain rfl : b = bytes := by simpa [hs] using hbytes
        exact h.2 key' b hs
    · exact h.2 key' bytes (by simpa [Server.shmget, hkey] using hbytes)
  insertDir s s' entry hs h := by
    obtain ⟨heap, -, rfl⟩ := Option.map_eq_some_iff.mp hs
    exact h
  insertDsm s s' page location hs h := by
    obtain ⟨heap, -, rfl⟩ := Option.map_eq_some_iff.mp hs
    exact h

omit [DecidableEq K] in
/-- A call that is served is answered as by started servers, and fills no segment. -/
theorem serve_started {resolve : Ip → Option N} {depth : ℕ} {busy : List N} {n : N} {c : Call}
    {net : N → Process Server} {r : Answer Reply × (N → Process Server)}
    {old : N → UInt32 → Option Bytes} (hnet : ∀ m, OldOrZero (old m) (net m).state)
    (hr : serve (service resolve) depth busy n c net = some r) :
    (∀ m, OldOrZero (old m) (r.2 m).state) ∧ ∀ x, r.1 = .reply x → startedReply c x :=
  serve_meets_each (I := fun m => OldOrZero (old m))
    (fun m c _ hs => ((started_oldOrZero (old m)).psuDsm1 c hs).meets) hnet hr

omit [DecidableEq K] in
theorem Served.oldOrZero {h : Hosts N K} {depth : ℕ} {net net' : N → Process Server}
    {old : N → UInt32 → Option Bytes} (hs : Served h depth net net')
    (hnet : ∀ m, OldOrZero (old m) (net m).state) : ∀ m, OldOrZero (old m) (net' m).state := by
  refine hs.keeps (P := fun net => ∀ m, OldOrZero (old m) (net m).state) hnet ?_
  intro net n c r hall hr
  exact (serve_started hall hr).1

/-- No step of the code fills a segment. A fault would, but no server has a page to send. -/
theorem next_oldOrZero {h : Hosts N K} {depth : ℕ} {sys sys' : System N K} {a : Event N K}
    {old : N → UInt32 → Option Bytes} (hnet : ∀ m, OldOrZero (old m) (sys.net m).state)
    (hs : next h depth sys a = some sys') : ∀ m, OldOrZero (old m) (sys'.net m).state := by
  cases a with
  | malloc k name size =>
    obtain ⟨-, hs⟩ := Option.ite_none_left_eq_some.mp hs
    obtain ⟨r, hr, rfl⟩ := Option.map_eq_some_iff.mp hs
    obtain ⟨net, hserved, rfl | ⟨addr, c, -, rfl⟩⟩ := psuDsmMalloc_cases hr
    · exact hserved.oldOrZero hnet
    · exact hserved.oldOrZero hnet
  | fault k addr write stale =>
    obtain ⟨-, hs⟩ := Option.ite_none_left_eq_some.mp hs
    obtain ⟨net, hserved, rfl | ⟨net₁, n, req, page, base, hserved₁, hrequest, -⟩⟩ :=
      segvHandler_cases hs
    · exact hserved.oldOrZero hnet
    · exact ((serve_started (hserved₁.oldOrZero hnet) hrequest).2 _ rfl).elim
  | handle n c =>
    obtain ⟨r, hr, rfl⟩ := Option.map_eq_some_iff.mp hs
    exact (serve_started hnet hr).1

/-- The bytes of a segment after one step were there before, are zeros, or have been stored by
a client on the same node. -/
theorem access_segments {h : Hosts N K} {depth : ℕ} {sys sys' : System N K} {a : Access N K}
    (hnull : ∀ m, Null (sys.net m).state) (hs : access h depth sys a = some sys') :
    (∀ m, Null (sys'.net m).state) ∧ ∀ n key bytes, (sys'.net n).state.segments key = some bytes →
      (sys.net n).state.segments key = some bytes ∨ (bytes = fun _ => 0) ∨
        ∃ k m, a = .store k m bytes ∧ h.host k = n ∧ m.2.key = key := by
  cases a with
  | code a =>
    have hold : ∀ m, OldOrZero (sys.net m).state.segments (sys.net m).state :=
      fun m => ⟨hnull m, fun _ _ hb => .inl hb⟩
    have hall := next_oldOrZero hold hs
    refine ⟨fun m => (hall m).1, ?_⟩
    intro n key bytes hb
    rcases (hall n).2 key bytes hb with hold | hzero
    · exact .inl hold
    · exact .inr (.inl hzero)
  | store k m b =>
    obtain ⟨-, hs⟩ := Option.ite_none_right_eq_some.mp hs
    obtain rfl := Option.some.inj hs
    refine ⟨?_, ?_⟩
    · refine (Function.forall_update_iff sys.net fun _ p => Null p.state).mpr ⟨?_, ?_⟩
      · exact hnull _
      · exact fun x _ => hnull x
    · intro n key bytes hb
      by_cases hn : n = h.host k
      · subst hn
        by_cases hkey : key = m.2.key
        · subst hkey
          obtain rfl : b = bytes := by simpa using hb
          exact .inr (.inr ⟨k, m, rfl, rfl, rfl⟩)
        · left
          simpa [hkey] using hb
      · left
        simpa [Function.update_of_ne hn] using hb

/-- Where the bytes of the segments come from, after the steps `bs`: they were there at the
start, are zeros, or have been stored by a client on their node. -/
structure Traced (h : Hosts N K) (segments : N → UInt32 → Option Bytes) (bs : List (Access N K))
    (sys : System N K) : Prop where
  null : ∀ m, Null (sys.net m).state
  origin : ∀ n key bytes, (sys.net n).state.segments key = some bytes →
    segments n key = some bytes ∨ (bytes = fun _ => 0) ∨
      ∃ k m, Access.store k m bytes ∈ bs ∧ h.host k = n ∧ m.2.key = key

theorem Traced.access {h : Hosts N K} {depth : ℕ} {segments : N → UInt32 → Option Bytes}
    {bs : List (Access N K)} {sys sys' : System N K} {a : Access N K} (ht : Traced h segments bs sys)
    (hs : access h depth sys a = some sys') : Traced h segments (bs ++ [a]) sys' := by
  obtain ⟨hnull, hstep⟩ := access_segments ht.null hs
  refine ⟨hnull, ?_⟩
  intro n key bytes hb
  rcases hstep n key bytes hb with hold | hzero | ⟨k, m, rfl, hk⟩
  · rcases ht.origin n key bytes hold with hstart | hzero | ⟨k, m, hmem, hk⟩
    · exact .inl hstart
    · exact .inr (.inl hzero)
    · exact .inr (.inr ⟨k, m, List.mem_append_left _ hmem, hk⟩)
  · exact .inr (.inl hzero)
  · exact .inr (.inr ⟨k, m, List.mem_append_right bs List.mem_cons_self, hk⟩)

/-- In every run, what a segment of a node holds was there at the start, is zero, or has been
stored by a client of that node: no store of one node ever shows on another one. -/
theorem stores_stay_on_node (h : Hosts N K) (depth : ℕ) (localHost : N → Ip) (nserver : N → ℕ)
    (server : N → Vector Ip maxServ) (segments : N → UInt32 → Option Bytes)
    (undef : N → ℕ → Undef) (cundef : K → ℕ → Undef) (as : List (Access N K)) {sys : System N K}
    (hs : exec (access h depth)
      (System.init localHost nserver server segments undef cundef) as = some sys)
    {n : N} {key : UInt32} {bytes : Bytes}
    (hb : (sys.net n).state.segments key = some bytes) :
    segments n key = some bytes ∨ (bytes = fun _ => 0) ∨
      ∃ k m, Access.store k m bytes ∈ as ∧ h.host k = n ∧ m.2.key = key := by
  have hstart : Traced h segments [] (System.init localHost nserver server segments undef cundef) :=
    ⟨fun _ => ⟨rfl, rfl⟩, fun _ _ _ hb => .inl hb⟩
  have hend := exec_history (fun _ _ _ _ ht => ht.access) as hstart hs
  exact hend.origin n key bytes hb

/-- The first client allocates "hello" and stores ones. -/
theorem stores_stay_on_node_hello : ∃ sys bytes,
    exec (access tableHosts 2) startedSystem
        [.code (.malloc false [104, 101, 108, 108, 111] 100),
          .store false (hello.name, ⟨pageSize, 0x0f923099, .readWrite⟩) fun _ => 1] = some sys ∧
      (sys.net false).state.segments 0x0f923099 = some bytes ∧ (bytes ≠ fun _ => 0) ∧
      ((none : Option Bytes) = some bytes ∨ (bytes = fun _ => 0) ∨
        ∃ k m, Access.store k m bytes ∈
          ([.code (.malloc false [104, 101, 108, 108, 111] 100),
            .store false (hello.name, ⟨pageSize, 0x0f923099, .readWrite⟩) fun _ => 1] :
            List (Access Bool Bool)) ∧ tableHosts.host k = false ∧ m.2.key = 0x0f923099) := by
  let as : List (Access Bool Bool) := [.code (.malloc false [104, 101, 108, 108, 111] 100),
    .store false (hello.name, ⟨pageSize, 0x0f923099, .readWrite⟩) fun _ => 1]
  let sys := (exec (access tableHosts 2) startedSystem as).get (by decide +kernel)
  have hs : exec (access tableHosts 2) startedSystem as = some sys := (Option.some_get _).symm
  have hone : ((sys.net false).state.segments 0x0f923099).map (fun b => b ⟨0, by decide⟩) = some 1 := by
    decide +kernel
  obtain ⟨bytes, hb, hfirst⟩ := Option.map_eq_some_iff.mp hone
  have hne : bytes ≠ fun _ => 0 := by
    rintro rfl
    cases hfirst
  exact ⟨sys, bytes, hs, hb, hne, stores_stay_on_node tableHosts 2 serverIp (fun _ => 2)
    (fun _ => serverTable) (fun _ _ => none) (fun _ _ => zeroUndef) (fun _ _ => zeroUndef) as hs hb⟩

/-! ## Clients one at a time -/

omit [DecidableEq K] in
/-- What calls that are served one after the other bring about, a run of the servers does. -/
theorem Served.reaches {h : Hosts N K} {depth : ℕ} {net net' : N → Process Server}
    (hs : Served h depth net net') :
    Reaches (step (service h.resolve)) anyStep (fun n => (net n).status)
      fun n => (net' n).status := by
  refine hs.keeps (P := fun net' => Reaches (step (service h.resolve)) anyStep
    (fun n => (net n).status) fun n => (net' n).status) .refl ?_
  intro net n c r hreach hr
  exact hreach.trans (serve_reaches hr)

theorem next_reaches {h : Hosts N K} {depth : ℕ} {sys sys' : System N K} {a : Event N K}
    {old : N → UInt32 → Option Bytes} (hnet : ∀ m, OldOrZero (old m) (sys.net m).state)
    (hs : next h depth sys a = some sys') :
    Reaches (step (service h.resolve)) anyStep (fun n => (sys.net n).status)
      fun n => (sys'.net n).status := by
  cases a with
  | malloc k name size =>
    obtain ⟨-, hs⟩ := Option.ite_none_left_eq_some.mp hs
    obtain ⟨r, hr, rfl⟩ := Option.map_eq_some_iff.mp hs
    obtain ⟨net, hserved, rfl | ⟨addr, c, -, rfl⟩⟩ := psuDsmMalloc_cases hr
    · exact hserved.reaches
    · exact hserved.reaches
  | fault k addr write stale =>
    obtain ⟨-, hs⟩ := Option.ite_none_left_eq_some.mp hs
    obtain ⟨net, hserved, rfl | ⟨net₁, n, req, page, base, hserved₁, hrequest, -⟩⟩ :=
      segvHandler_cases hs
    · exact hserved.reaches
    · exact ((serve_started (hserved₁.oldOrZero hnet) hrequest).2 _ rfl).elim
  | handle n c =>
    obtain ⟨r, hr, rfl⟩ := Option.map_eq_some_iff.mp hs
    exact serve_reaches hr

/-- Whatever clients have done one after the other, with `psu_dsm_malloc`, with faults and with
calls of their own, each of them waiting until all the servers involved are done: the servers
come to the same states in a run of their own, in which they work at the same time. -/
theorem accesses_are_runs (h : Hosts N K) (depth : ℕ) (localHost : N → Ip) (nserver : N → ℕ)
    (server : N → Vector Ip maxServ) (segments : N → UInt32 → Option Bytes)
    (undef : N → ℕ → Undef) (cundef : K → ℕ → Undef) {sys : System N K}
    (hs : Reaches (next h depth) anyStep
      (System.init localHost nserver server segments undef cundef) sys) :
    Reaches (step (service h.resolve)) anyStep (started localHost nserver server segments undef)
      fun n => (sys.net n).status := by
  refine (hs.invariant_with (fun sys => ∀ m, OldOrZero (segments m) (sys.net m).state)
    (fun sys => Reaches (step (service h.resolve)) anyStep
      (started localHost nserver server segments undef) fun n => (sys.net n).status)
    ?_ ?_ ?_ ?_).2
  · intro m
    exact ⟨⟨rfl, rfl⟩, fun _ _ hb => .inl hb⟩
  · intro u a u' hnet _ hstep
    exact next_oldOrZero hnet hstep
  · exact .refl
  · intro u a u' hnet hreach _ hstep
    exact hreach.trans (next_reaches hnet hstep)

/-- The first client allocates "hello". -/
theorem accesses_are_runs_hello : ∃ sys,
    Reaches (next tableHosts 2) anyStep startedSystem sys ∧
      Reaches (step (service resolveTable)) anyStep startedServers fun n => (sys.net n).status := by
  let as : List (Event Bool Bool) := [.malloc false [104, 101, 108, 108, 111] 100]
  let sys := (exec (next tableHosts 2) startedSystem as).get (by decide +kernel)
  have hs : Reaches (next tableHosts 2) anyStep startedSystem sys :=
    reaches_of_exec_anyStep as (Option.some_get _).symm
  exact ⟨sys, hs, accesses_are_runs tableHosts 2 serverIp (fun _ => 2) (fun _ => serverTable)
    (fun _ _ => none) (fun _ _ => zeroUndef) (fun _ _ => zeroUndef) hs⟩

/-! ## What a directory has stays in it -/

theorem name_setPbits (i : ℤ) (mode : Mode) (entry : DirEntry) :
    (entry.setPbits i mode).page.name = entry.page.name := by
  unfold DirEntry.setPbits
  split_ifs <;> rfl

/-- The page is in the directory, at cell `p`. -/
def FoundAt (page : PageId) (p : ℕ) (s : Server) : Prop := searchDir page s = some (some p)

/-- New entries come behind those that are there, and no handler changes the name of one. -/
theorem kept_foundAt (page : PageId) (p : ℕ) : Kept (FoundAt page p) where
  unset _ h := h
  shmget _ _ h := h
  shmat _ _ h := h
  mprotect _ _ _ h := h
  memcpyTo s s' addr bytes hs h := by
    obtain ⟨m, -, hm⟩ := Option.bind_eq_some_iff.mp hs
    split_ifs at hm
    obtain rfl := Option.some.inj hm
    exact h
  insertDir s s' entry hs h := by
    obtain ⟨heap, hheap, rfl⟩ := Option.map_eq_some_iff.mp hs
    exact search_append hheap h
  insertDsm s s' page location hs h := by
    obtain ⟨heap, -, rfl⟩ := Option.map_eq_some_iff.mp hs
    exact h
  result _ _ h := h
  setPbits s i iserv mode h := by
    unfold FoundAt searchDir at h ⊢
    rw [search_modifyEntry, h]
    intro e
    rw [name_setPbits]

/-- Once a server that is idle has a page in its directory, at a certain cell, it finds the page
there at every later point of every run, whatever is called on any server: PAGE_FIND goes on
answering 1. -/
theorem found_persists (resolve : Ip → Option N) (server : N → Server)
    {st st' : N → Status N Ip Server Call Reply}
    (h : Reaches (step (service resolve)) anyStep (fun n => .idle (server n)) st) {n : N}
    {s : Server} {page : PageId} {p : ℕ} (hn : st n = .idle s)
    (hfound : searchDir page s = some (some p))
    (h' : Reaches (step (service resolve)) anyStep st st') :
    searchDir page (st' n).current = some (some p) := by
  have hkept : ∀ (I : Server → Prop), Kept I → ∀ c s, I s →
      (psuDsm1 c s).Obeys I (fun _ _ => True) (fun _ => True) (fun _ => True) := by
    intro I hI c s hs
    exact ((hI.psuDsm1 c hs).mono (fun _ _ h => h) fun _ _ => trivial).obeys
  have htrue : Kept fun _ => True := Kept.of_fixed fun _ _ _ h => h
  have hall : AllObey (fun _ _ => True) (fun _ _ => True) (fun _ => True) st := by
    refine allObey_reaches (fun _ c s hs => hkept _ htrue c s hs) ?_ h
    intro m
    exact trivial
  have hall' : AllObey (Function.update (fun _ _ => True) n (FoundAt page p)) (fun _ _ => True)
      (fun _ => True) st' := by
    refine allObey_reaches ?_ (hall.of_idle hn hfound) h'
    intro m c s hs
    by_cases hm : m = n
    · subst hm
      rw [Function.update_self] at hs ⊢
      exact hkept _ (kept_foundAt page p) c s hs
    · rw [Function.update_of_ne hm] at hs ⊢
      exact hkept _ htrue c s hs
  have hcurrent := hall'.current n
  rwa [Function.update_self] at hcurrent

end DistributedSystem.Dsm
