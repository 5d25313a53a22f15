import DistributedSystem.DsmClient
import DistributedSystem.DsmInvariant
import DistributedSystem.DsmStrings

/-!
# Page faults

`segv_handler` looks the address of the fault up in the table `cdsm`, asks the local server
with PAGE_LOCATE where the page is, sends a PAGE_REQUEST and copies the page that comes back
to the address in the entry that it has found. `insert_dsm` is given the value of `cdsm`, and
so the table is always empty and the look-up leaves the entry unset, just as nothing sets the
field `from` of the request. The request is made over a handle that has been destroyed: it is
left open whether the client ends there or the request still reaches a server, and which. The
directories of all servers are empty: a server that the request reaches ends, and the handler
follows the null pointer that its call returns.
-/
namespace DistributedSystem.Dsm
open LinkedList Rpc Transition

variable {N K : Type} [DecidableEq N] [DecidableEq K]

/-! ## The remote calls of the handler -/

/-- `segv_handler` with the remote calls that it makes: the server that each goes to and the
answer to it. -/
def segvTrace (h : Hosts N K) (depth : ℕ) (k : K) (addr : ℕ) (write : Bool) (stale : Option N)
    (sys : System N K) : Option (List (N × Call × Answer Reply) × System N K) :=
  let (u, c) := (sys.client k).unset
  let sys := sys.setClient k c
  (getNameFromAddr ⟨u.page, u.addr, u.sender⟩ addr c.cdsm).bind fun entry =>
    match h.resolve (sys.net (h.host k)).state.localHost with
    | none => some ([], sys.setClient k c.exit)
    | some n =>
      (serve (service h.resolve) depth [] n (.pageLocate entry.page) sys.net).bind fun r =>
        match r.1 with
        | .reply (.host ip) =>
          let req : Request :=
            { pageid := entry.page, mode := if write then .RW else .RO, sender := u.sender }
          match stale with
          | none => some ([(n, .pageLocate entry.page, r.1)],
              { sys with net := r.2 }.setClient k c.exit)
          | some m =>
            (serve (service h.resolve) depth [] m (.pageRequest req) r.2).map fun r' =>
              let sys := { sys with net := r'.2 }
              ([(n, .pageLocate entry.page, r.1), (m, .pageRequest req, r'.1)],
                match r'.1, h.resolve ip with
                | .reply (.page page), some _ => segvFill h k entry.addr write page.addr sys
                | _, _ => sys.setClient k c.exit)
        | _ => some ([(n, .pageLocate entry.page, r.1)],
            { sys with net := r.2 }.setClient k c.exit)

/-- Without the calls this is `segv_handler`. -/
theorem map_segvTrace (h : Hosts N K) (depth : ℕ) (k : K) (addr : ℕ) (write : Bool)
    (stale : Option N) (sys : System N K) :
    (segvTrace h depth k addr write stale sys).map Prod.snd =
      segvHandler h depth k addr write stale sys := by
  simp only [segvTrace, segvHandler, Option.map_bind, Function.comp_def]
  congr 1
  funext entry
  dsimp only [System.setClient]
  cases h.resolve (sys.net (h.host k)).state.localHost with
  | none => rfl
  | some n =>
    dsimp only
    cases serve (service h.resolve) depth [] n (.pageLocate entry.page) sys.net with
    | none => rfl
    | some r =>
      obtain ⟨ans, net⟩ := r
      dsimp only [Option.bind_some]
      cases ans with
      | reply x =>
        cases x with
        | host ip =>
          cases stale with
          | none => rfl
          | some m =>
            dsimp only
            rw [Option.map_map]
            rfl
        | _ => rfl
      | _ => rfl

/-- The PAGE_REQUEST calls of a trace. -/
def requests (trace : List (N × Call × Answer Reply)) : List (N × Request × Answer Reply) :=
  trace.filterMap fun
    | (n, .pageRequest req, ans) => some (n, req, ans)
    | _ => none

/-- A PAGE_REQUEST for a fault in page `p` goes to the server `dest` that PAGE_LOCATE has named for
`p`, and carries the name of `p`, the mode of the fault and the address of the host. -/
structure Requested (resolve : Ip → Option N) (host : Ip) (p : Name) (write : Bool)
    (trace : List (N × Call × Answer Reply)) (dest : N) (req : Request) : Prop where
  named : ∃ n pageid ip, (n, .pageLocate pageid, .reply (.host ip)) ∈ trace ∧
    strncmpEq pageid.name p = true ∧ resolve ip = some dest
  name : strncmpEq req.pageid.name p = true
  mode : req.mode = if write then .RW else .RO
  sender : strncmpEq req.sender host = true

/-- The page at the mapping `m` holds the bytes and has the protection for the kind of the
fault, and all other pages are unchanged. -/
structure Refilled (h : Hosts N K) (k : K) (p : Name) (m : Mapping) (write : Bool)
    (bytes : Bytes) (sys sys' : System N K) : Prop where
  bytes : (sys'.net (h.host k)).state.segments m.key = some bytes
  prot : (p, { m with prot := if write then .readWrite else .read }) ∈ (sys'.client k).mappings
  segments : ∀ key, key ≠ m.key →
    (sys'.net (h.host k)).state.segments key = (sys.net (h.host k)).state.segments key
  mappings : ∀ x, x.2.base ≠ m.base →
    (x ∈ (sys'.client k).mappings ↔ x ∈ (sys.client k).mappings)

/-- The fault in page `p` at the mapping `m` is handled: there is one PAGE_REQUEST, it is the
right one, and when the handler returns the page is filled with the reply. -/
def FaultHandled (h : Hosts N K) (k : K) (p : Name) (m : Mapping) (write : Bool)
    (sys : System N K) (trace : List (N × Call × Answer Reply)) (sys' : System N K) : Prop :=
  ∃ dest req ans, requests trace = [(dest, req, ans)] ∧
    Requested h.resolve (sys.net (h.host k)).state.localHost p write trace dest req ∧
    ((sys'.client k).exited = false →
      ∃ page, ans = .reply (.page page) ∧ Refilled h k p m write page.addr sys sys')

/-! ## The systems that are reached -/

/-- The table of the client is empty, and its mappings are where `shmat` has put them. -/
structure Client.Unlisted (c : Client) : Prop where
  cdsm : c.cdsm = none
  bases : c.mappings.map (fun x => x.2.base) =
    (List.range c.mappings.length).map fun i => pageSize * (i + 1)

namespace Client.Unlisted

variable {c c' : Client}

theorem exit (h : c.Unlisted) : c.exit.Unlisted := ⟨h.cdsm, rfl⟩

theorem unset (h : c.Unlisted) : c.unset.2.Unlisted := ⟨h.cdsm, h.bases⟩

theorem shmat (h : c.Unlisted) (page : Name) (key : UInt32) : (c.shmat page key).2.Unlisted := by
  refine ⟨h.cdsm, ?_⟩
  simp only [Client.shmat, List.map_append, List.length_append, List.length_singleton,
    List.range_succ, h.bases, List.map_cons, List.map_nil]

theorem mprotect (h : c.Unlisted) (addr : ℕ) (prot : Prot) : (c.mprotect addr prot).Unlisted := by
  refine ⟨h.cdsm, ?_⟩
  simp only [Client.mprotect, List.map_map, List.length_map]
  rw [← h.bases]
  apply List.map_congr_left
  intro x _
  simp only [Function.comp]
  split_ifs <;> rfl

/-- `insert_dsm` does not reach the variable of the client. -/
theorem insertDsm (h : c.Unlisted) {page : PageId} (hs : c.insertDsm page = some c') :
    c'.Unlisted := by
  obtain ⟨heap, -, rfl⟩ := Option.map_eq_some_iff.mp hs
  exact ⟨h.cdsm, h.bases⟩

/-- No two mappings are at the same address. -/
theorem eq_of_base (h : c.Unlisted) {x y : Name × Mapping} (hx : x ∈ c.mappings)
    (hy : y ∈ c.mappings) (hbase : x.2.base = y.2.base) : x = y := by
  have hnodup : (c.mappings.map fun x => x.2.base).Nodup := by
    rw [h.bases]
    apply List.Nodup.map _ List.nodup_range
    intro i j hij
    have hpos : 0 < pageSize := by decide
    have hsucc := Nat.eq_of_mul_eq_mul_left hpos hij
    omega
  exact List.inj_on_of_nodup_map hnodup hx hy hbase

end Client.Unlisted

/-- What holds of the hosts and the clients at all times: the addresses of the hosts, and that
the tables of the clients are empty. -/
structure Running (localHost : N → Ip) (sys : System N K) : Prop where
  host : ∀ n, (sys.net n).state.localHost = localHost n
  client : ∀ k, (sys.client k).Unlisted

section
variable {h : Hosts N K} {depth : ℕ} {localHost : N → Ip} {sys sys' : System N K}

omit [DecidableEq N] in
theorem Running.setClient (hs : Running localHost sys) (k : K) {c : Client} (hc : c.Unlisted) :
    Running localHost (sys.setClient k c) := by
  refine ⟨hs.host, ?_⟩
  exact (Function.forall_update_iff sys.client fun _ c => c.Unlisted).mpr
    ⟨hc, fun k' _ => hs.client k'⟩

omit [DecidableEq K] in
theorem Running.served (hs : Running localHost sys) {net : N → Process Server}
    (hserved : Served h depth sys.net net) : Running localHost { sys with net := net } := by
  have hkept : ∀ n, Kept fun s => s.localHost = localHost n := by
    intro n
    refine Kept.of_fixed ?_
    intro s s' hfixed hhost
    have heq : s'.localHost = s.localHost := congrArg Prod.fst hfixed
    rw [heq, hhost]
  refine ⟨?_, hs.client⟩
  refine hserved.keeps (P := fun net => ∀ n, (net n).state.localHost = localHost n) hs.host ?_
  intro net n c r hnet hr
  exact (serve_kept hkept hnet hr).1

theorem Running.malloc (hs : Running localHost sys) {k : K} {name : List UInt8} {size : UInt32}
    {r : Option ℕ × System N K} (hr : psuDsmMalloc h depth k name size sys = some r) :
    Running localHost r.2 := by
  obtain ⟨net, hserved, rfl | ⟨addr, c, hc, rfl⟩⟩ := psuDsmMalloc_cases hr
  · exact (hs.served hserved).setClient k (hs.client k).exit
  · have hattached := (hs.client k).shmat (strncpy nameLen name) (hash name).toUInt32
    exact (hs.served hserved).setClient k (hattached.insertDsm hc)

theorem Running.segvFill (hs : Running localHost sys) (k : K) (addr : ℕ) (write : Bool)
    (bytes : Bytes) : Running localHost (segvFill h k addr write bytes sys) := by
  have hc := (hs.client k).mprotect addr .write
  simp only [Dsm.segvFill]
  split
  · exact hs.setClient k hc.exit
  · refine ⟨?_, (hs.setClient k (hc.mprotect addr _)).client⟩
    exact (Function.forall_update_iff sys.net fun n q => q.state.localHost = localHost n).mpr
      ⟨hs.host _, fun n _ => hs.host n⟩

theorem Running.fault (hs : Running localHost sys) {k : K} {addr : ℕ} {write : Bool}
    {stale : Option N} (hr : segvHandler h depth k addr write stale sys = some sys') :
    Running localHost sys' := by
  have hc := (hs.client k).unset
  obtain ⟨net, hserved, rfl | ⟨net₁, n, req, page, base, -, -, rfl⟩⟩ := segvHandler_cases hr
  · exact (hs.served hserved).setClient k hc.exit
  · exact ((hs.served hserved).setClient k hc).segvFill k base write page.addr

theorem Running.next (hs : Running localHost sys) {a : Event N K}
    (hr : next h depth sys a = some sys') : Running localHost sys' := by
  cases a with
  | malloc k name size =>
    obtain ⟨-, hr⟩ := Option.ite_none_left_eq_some.mp hr
    obtain ⟨r, hmalloc, rfl⟩ := Option.map_eq_some_iff.mp hr
    exact hs.malloc hmalloc
  | fault k addr write stale =>
    obtain ⟨-, hr⟩ := Option.ite_none_left_eq_some.mp hr
    exact hs.fault hr
  | handle n c =>
    obtain ⟨r, hserve, rfl⟩ := Option.map_eq_some_iff.mp hr
    exact hs.served (.single ⟨n, c, _, hserve⟩)

end

/-! ## The handler in a system that is reached -/

section
variable {resolve : Ip → Option N} {net : N → Process Server} {n : N}

/-- A running server with an empty directory names itself for every page. -/
theorem serve_pageLocate_of_noEntry (hempty : NoEntry (net n).state)
    (hrunning : (net n).exited = false) (page : PageId) (depth : ℕ) :
    serve (service resolve) (depth + 1) [] n (.pageLocate page) net =
      some (.reply (.host (strncpy ipLen (net n).state.localHost.toList)), net) := by
  rw [serve_running List.not_mem_nil hrunning]
  show execute resolve _ n (psuDsmPageLocate1Svc page (net n).state) net = _
  rw [psuDsmPageLocate1Svc, searchDir_of_noEntry hempty]
  dsimp only [orExit]
  rw [execute, update_running hrunning]

/-- A running server with an empty directory ends when a page is requested. -/
theorem serve_pageRequest_of_noEntry (hempty : NoEntry (net n).state)
    (hrunning : (net n).exited = false) (req : Request) (depth : ℕ) :
    serve (service resolve) (depth + 1) [] n (.pageRequest req) net =
      some (.failed, Function.update net n ⟨(net n).state, true⟩) := by
  rw [serve_running List.not_mem_nil hrunning]
  show execute resolve _ n (psuDsmPageRequest1Svc req (net n).state) net = _
  rw [psuDsmPageRequest1Svc, searchDir_of_noEntry hempty]
  rfl

/-- No server with an empty directory sends a page. -/
theorem exists_serve_pageRequest (hempty : NoEntry (net n).state) (req : Request) (depth : ℕ) :
    ∃ ans net', serve (service resolve) (depth + 1) [] n (.pageRequest req) net =
        some (ans, net') ∧ ∀ x, ans ≠ .reply x := by
  cases hexited : (net n).exited with
  | true => exact ⟨_, _, serve_exited List.not_mem_nil hexited depth _, fun x hx => by cases hx⟩
  | false =>
    exact ⟨_, _, serve_pageRequest_of_noEntry hempty hexited req depth, fun x hx => by cases hx⟩

end

section
variable {h : Hosts N K} {k : K} {sys : System N K}

/-- The fault handler when the local server is not there. -/
theorem segvTrace_of_exited (hcdsm : (sys.client k).cdsm = none)
    (hresolve : h.resolve (sys.net (h.host k)).state.localHost = some (h.host k))
    (hexited : (sys.net (h.host k)).exited = true) (depth addr : ℕ) (write : Bool)
    (stale : Option N) :
    ∃ sys', segvTrace h (depth + 1) k addr write stale sys =
        some ([(h.host k, .pageLocate ((sys.client k).undef 0).page, .unreachable)], sys') ∧
      (sys'.client k).exited = true := by
  refine ⟨(sys.setClient k (sys.client k).unset.2).setClient k (sys.client k).unset.2.exit, ?_, ?_⟩
  · simp only [segvTrace, Client.unset, System.setClient, hcdsm, getNameFromAddr, Option.bind_some,
      hresolve, serve_exited List.not_mem_nil hexited]
  · simp [System.setClient, Client.exit]

/-- The calls of the fault handler when the local server `n` is running: it asks for the page that
is named in the unset entry, and the PAGE_REQUEST for it reaches a server or is not made. -/
def faultTrace (n : N) (host : Ip) (u : Undef) (write : Bool)
    (reached : Option (N × Answer Reply)) : List (N × Call × Answer Reply) :=
  (n, .pageLocate u.page, .reply (.host (strncpy ipLen host.toList))) ::
    reached.toList.map fun r =>
      (r.1, .pageRequest ⟨u.page, if write then .RW else .RO, u.sender⟩, r.2)

theorem segvTrace_of_running (hcdsm : (sys.client k).cdsm = none)
    (hresolve : h.resolve (sys.net (h.host k)).state.localHost = some (h.host k))
    (hempty : ∀ n, NoEntry (sys.net n).state)
    (hrunning : (sys.net (h.host k)).exited = false) (depth addr : ℕ) (write : Bool)
    (stale : Option N) :
    ∃ reached sys', reached.map Prod.fst = stale ∧
      segvTrace h (depth + 1) k addr write stale sys =
        some (faultTrace (h.host k) (sys.net (h.host k)).state.localHost
          ((sys.client k).undef 0) write reached, sys') ∧
      (sys'.client k).exited = true := by
  have hlocate : serve (service h.resolve) (depth + 1) [] (h.host k)
      (.pageLocate ((sys.client k).undef 0).page) sys.net = _ :=
    serve_pageLocate_of_noEntry (hempty _) hrunning _ depth
  cases stale with
  | none =>
    refine ⟨none, (sys.setClient k (sys.client k).unset.2).setClient k
      (sys.client k).unset.2.exit, rfl, ?_, ?_⟩
    · simp only [segvTrace, Client.unset, System.setClient, hcdsm, getNameFromAddr,
        Option.bind_some, hresolve, hlocate, faultTrace, Option.toList_none, List.map_nil]
    · simp [System.setClient, Client.exit]
  | some m =>
    obtain ⟨ans, net', hrequest, hans⟩ : ∃ ans net',
        serve (service h.resolve) (depth + 1) [] m (.pageRequest ⟨((sys.client k).undef 0).page,
          if write then .RW else .RO, ((sys.client k).undef 0).sender⟩) sys.net =
          some (ans, net') ∧ ∀ x, ans ≠ .reply x :=
      exists_serve_pageRequest (hempty m) _ depth
    let sys₁ : System N K := { sys with net := net' }
    refine ⟨some (m, ans), (sys₁.setClient k (sys.client k).unset.2).setClient k
      (sys.client k).unset.2.exit, rfl, ?_, ?_⟩
    · cases ans with
      | reply x => exact (hans x rfl).elim
      | _ =>
        simp only [segvTrace, Client.unset, System.setClient, hcdsm, getNameFromAddr,
          Option.bind_some, hresolve, hlocate, hrequest, Option.map_some, faultTrace,
          Option.toList_some, List.map_cons, List.map_nil, sys₁]
    · simp [System.setClient, Client.exit]

omit [DecidableEq N] [DecidableEq K] in
/-- These calls are the right ones if the request reaches the local server and the unset
variables happen to be right. -/
theorem faultHandled_faultTrace_iff {p : Name} {m : Mapping} {write : Bool} {u : Undef}
    {reached : Option (N × Answer Reply)} {sys' : System N K}
    (hresolve : ∀ ip, strncmpEq ip (sys.net (h.host k)).state.localHost = true →
      h.resolve ip = some (h.host k))
    (hend : (sys'.client k).exited = true) :
    FaultHandled h k p m write sys (faultTrace (h.host k) (sys.net (h.host k)).state.localHost u
        write reached) sys' ↔
      reached.map Prod.fst = some (h.host k) ∧ strncmpEq u.page.name p = true ∧
        strncmpEq u.sender (sys.net (h.host k)).state.localHost = true := by
  have hnamed := hresolve _ (strncmpEq_strncpy (sys.net (h.host k)).state.localHost)
  cases reached with
  | none =>
    refine iff_of_false ?_ (by simp)
    rintro ⟨dest, req, ans, hrequests, -⟩
    cases hrequests
  | some r =>
    obtain ⟨dest, ans⟩ := r
    constructor
    · rintro ⟨dest', req, ans', hrequests, hreq, -⟩
      obtain ⟨rfl, rfl, -⟩ : dest = dest' ∧ _ = req ∧ ans = ans' := by
        simpa [requests, faultTrace] using hrequests
      obtain ⟨n, pageid, ip, hmem, -, hip⟩ := hreq.named
      obtain ⟨-, -, rfl⟩ : n = h.host k ∧ pageid = u.page ∧ ip = _ := by
        simpa [faultTrace] using hmem
      exact ⟨hip.symm.trans hnamed, hreq.name, hreq.sender⟩
    · rintro ⟨hreached, hname, hsender⟩
      obtain rfl : dest = h.host k := Option.some.inj hreached
      refine ⟨_, _, _, rfl, ⟨⟨_, _, _, List.mem_cons_self, hname, hnamed⟩, hname, rfl, hsender⟩, ?_⟩
      rw [hend]
      intro hfalse
      cases hfalse

/-- The mapping that a copy to the address of the page goes through. -/
theorem find?_mprotect {c : Client} (hc : c.Unlisted) {p : Name} {m : Mapping}
    (hm : (p, m) ∈ c.mappings) (prot : Prot) :
    (c.mprotect m.base prot).mappings.find? (fun x => decide (x.2.base = m.base)) =
      some (p, { m with prot := prot }) := by
  have hmem : (p, { m with prot := prot }) ∈ (c.mprotect m.base prot).mappings := by
    refine List.mem_map.mpr ⟨(p, m), hm, ?_⟩
    simp
  cases hfind : (c.mprotect m.base prot).mappings.find? (fun x => decide (x.2.base = m.base)) with
  | none =>
    have hnot := List.find?_eq_none.mp hfind _ hmem
    simp at hnot
  | some x =>
    have hbase : x.2.base = m.base := by simpa using List.find?_some hfind
    exact congrArg some ((hc.mprotect m.base prot).eq_of_base (List.mem_of_find?_eq_some hfind)
      hmem hbase)

theorem mem_mprotect_of_ne {c : Client} {addr : ℕ} {prot : Prot} {x : Name × Mapping}
    (hx : x.2.base ≠ addr) : x ∈ (c.mprotect addr prot).mappings ↔ x ∈ c.mappings := by
  simp only [Client.mprotect, List.mem_map]
  constructor
  · rintro ⟨y, hy, rfl⟩
    by_cases hbase : y.2.base = addr
    · rw [if_pos hbase] at hx
      exact (hx hbase).elim
    · rwa [if_neg hbase]
  · intro hmem
    exact ⟨x, hmem, if_neg hx⟩

/-- Lines 96 to 107 fill the page whose address they are given. -/
theorem refilled_segvFill (hc : (sys.client k).Unlisted) {p : Name} {m : Mapping}
    (hm : (p, m) ∈ (sys.client k).mappings) (write : Bool) (bytes : Bytes) :
    Refilled h k p m write bytes sys (segvFill h k m.base write bytes sys) := by
  have hfind := find?_mprotect hc hm .write
  have hmem := List.mem_of_find?_eq_some hfind
  simp only [segvFill, hfind]
  refine ⟨by simp, ?_, ?_, ?_⟩
  · have hfound := find?_mprotect (hc.mprotect m.base .write) hmem
      (if write then .readWrite else .read)
    simpa using List.mem_of_find?_eq_some hfound
  · intro key hkey
    simp [hkey]
  · intro x hx
    dsimp only
    rw [Function.update_self, mem_mprotect_of_ne hx, mem_mprotect_of_ne hx]

end

/-- In every system that is reached, for every client, every page that it has attached, every
address in it and either kind of fault, whatever becomes of the call over the destroyed handle:
the handler runs to its end. It deals with the fault as it should if and only if the local server
is running, the call over the destroyed handle reaches it, the entry that nothing sets names the
page, and the field `from` that nothing sets is the address of the host. It does not come back
in any case, while its last lines would fill the page if they were given its address. -/
theorem faultHandled_iff (h : Hosts N K) (depth : ℕ) (localHost : N → Ip) (nserver : N → ℕ)
    (server : N → Vector Ip maxServ) (segments : N → UInt32 → Option Bytes)
    (undef : N → ℕ → Undef) (cundef : K → ℕ → Undef)
    (hresolve : ∀ n ip, strncmpEq ip (localHost n) = true → h.resolve ip = some n)
    {sys : System N K}
    (hr : Reaches (next h (depth + 1)) anyStep
      (System.init localHost nserver server segments undef cundef) sys)
    {k : K} {p : Name} {m : Mapping} (hm : (p, m) ∈ (sys.client k).mappings) (addr : ℕ)
    (write : Bool) (stale : Option N) :
    ∃ trace sys', segvTrace h (depth + 1) k addr write stale sys = some (trace, sys') ∧
      (FaultHandled h k p m write sys trace sys' ↔
        (sys.net (h.host k)).exited = false ∧ stale = some (h.host k) ∧
          strncmpEq ((sys.client k).undef 0).page.name p = true ∧
          strncmpEq ((sys.client k).undef 0).sender (localHost (h.host k)) = true) ∧
      (sys'.client k).exited = true ∧
      ∀ bytes, Refilled h k p m write bytes sys (segvFill h k m.base write bytes sys) := by
  have hrun : Running localHost sys := by
    refine hr.invariant (Running localHost) ⟨fun _ => rfl, fun _ => ⟨rfl, rfl⟩⟩ ?_
    intro u a u' hu _ hs
    exact hu.next hs
  have hempty : Unprotected sys := by
    refine hr.invariant Unprotected ⟨fun _ => rfl, by simp [System.init, Client.init]⟩ ?_
    intro u a u' hu _ hs
    exact unprotected_next hu hs
  have hcdsm := (hrun.client k).cdsm
  have hnamed : ∀ ip, strncmpEq ip (sys.net (h.host k)).state.localHost = true →
      h.resolve ip = some (h.host k) := by
    rw [hrun.host]
    exact hresolve _
  have hlocal := hnamed _ (strncmpEq_iff.mpr rfl)
  have hfill := refilled_segvFill (h := h) (hrun.client k) hm write
  cases hexited : (sys.net (h.host k)).exited with
  | true =>
    obtain ⟨sys', htrace, hend⟩ :=
      segvTrace_of_exited hcdsm hlocal hexited depth addr write stale
    refine ⟨_, sys', htrace, ?_, hend, hfill⟩
    constructor
    · rintro ⟨dest, req, ans, hrequests, -⟩
      cases hrequests
    · rintro ⟨hfalse, -⟩
      cases hfalse
  | false =>
    obtain ⟨reached, sys', rfl, htrace, hend⟩ :=
      segvTrace_of_running hcdsm hlocal hempty.net hexited depth addr write stale
    refine ⟨_, sys', htrace, ?_, hend, hfill⟩
    rw [faultHandled_faultTrace_iff hnamed hend, hrun.host]
    exact (and_iff_right rfl).symm

/-- Unset variables that happen to name the page "hello" and the first host. -/
def helloUndef : Undef := { zeroUndef with page := hello, sender := serverIp false }

/-- The two servers of the table and their clients, when `u` is what the clients find in
variables that are not set. -/
def stackSystem (u : Undef) : System Bool Bool :=
  System.init serverIp (fun _ => 2) (fun _ => serverTable) (fun _ _ => none)
    (fun _ _ => zeroUndef) (fun _ _ => u)

/-- The mapping of the first page that a client allocates, which is "hello". -/
def helloMapping : Mapping := ⟨pageSize, 0x0f923099, .readWrite⟩

/-- The first client allocates "hello". -/
def mallocHello : Event Bool Bool := .malloc false [104, 101, 108, 108, 111] 100

theorem resolve_serverIp (n : Bool) (ip : Ip) (h : strncmpEq ip (serverIp n) = true) :
    resolveTable ip = some n := by
  have hne : strncmpEq (serverIp true) (serverIp false) = false := by decide +kernel
  cases n with
  | false => rw [resolveTable, if_pos h]
  | true =>
    have hfalse : ¬ strncmpEq ip (serverIp false) = true := by
      intro hip
      rw [strncmpEq_iff] at h hip
      have heq := strncmpEq_iff.mpr (h.symm.trans hip)
      cases hne.symm.trans heq
    rw [resolveTable, if_neg hfalse, if_pos h]

/-- A write fault in "hello" when the unset variables are right and the request still reaches
the local server. -/
theorem faultHandled_hello : ∃ sys trace sys',
    Reaches (next tableHosts 2) anyStep (stackSystem helloUndef) sys ∧
      (hello.name, helloMapping) ∈ (sys.client false).mappings ∧
      segvTrace tableHosts 2 false (pageSize + 7) true (some false) sys = some (trace, sys') ∧
      FaultHandled tableHosts false hello.name helloMapping true sys trace sys' := by
  obtain ⟨sys, hsys, hm, hcond⟩ : ∃ sys,
      next tableHosts 2 (stackSystem helloUndef) mallocHello = some sys ∧
        (hello.name, helloMapping) ∈ (sys.client false).mappings ∧
        (sys.net false).exited = false ∧
        strncmpEq ((sys.client false).undef 0).page.name hello.name = true ∧
        strncmpEq ((sys.client false).undef 0).sender (serverIp false) = true :=
    ⟨_, (Option.some_get (by decide +kernel)).symm, by decide +kernel, by decide +kernel⟩
  have hr : Reaches (next tableHosts 2) anyStep (stackSystem helloUndef) sys :=
    Reaches.refl.tail trivial hsys
  obtain ⟨trace, sys', htrace, hiff, -, -⟩ := faultHandled_iff tableHosts 1 serverIp
    (fun _ => 2) (fun _ => serverTable) (fun _ _ => none) (fun _ _ => zeroUndef)
    (fun _ _ => helloUndef) resolve_serverIp hr hm (pageSize + 7) true (some false)
  exact ⟨sys, trace, sys', hr, hm, htrace, hiff.mpr ⟨hcond.1, rfl, hcond.2⟩⟩

/-- The same fault when the unset variables are zero: whatever becomes of the call over the
destroyed handle, a request that is made is for a page without a name. -/
theorem not_faultHandled_zero : ∃ sys,
    Reaches (next tableHosts 2) anyStep (stackSystem zeroUndef) sys ∧
      (hello.name, helloMapping) ∈ (sys.client false).mappings ∧
      ∀ stale, ∃ trace sys',
        segvTrace tableHosts 2 false (pageSize + 7) true stale sys = some (trace, sys') ∧
          ¬ FaultHandled tableHosts false hello.name helloMapping true sys trace sys' := by
  obtain ⟨sys, hsys, hm, hexited, hcdsm, hempty, hlocal, hname⟩ : ∃ sys,
      next tableHosts 2 (stackSystem zeroUndef) mallocHello = some sys ∧
        (hello.name, helloMapping) ∈ (sys.client false).mappings ∧
        (sys.net false).exited = false ∧ (sys.client false).cdsm = none ∧
        (∀ n, (sys.net n).state.dir = none) ∧
        strncmpEq (serverIp false) (sys.net false).state.localHost = true ∧
        strncmpEq ((sys.client false).undef 0).page.name hello.name = false :=
    ⟨_, (Option.some_get (by decide +kernel)).symm, by decide +kernel, by decide +kernel⟩
  have hr : Reaches (next tableHosts 2) anyStep (stackSystem zeroUndef) sys :=
    Reaches.refl.tail trivial hsys
  have hresolve : ∀ ip, strncmpEq ip (sys.net false).state.localHost = true →
      resolveTable ip = some false := by
    intro ip hip
    rw [strncmpEq_iff] at hip hlocal
    exact resolve_serverIp false ip (strncmpEq_iff.mpr (hip.trans hlocal.symm))
  refine ⟨sys, hr, hm, ?_⟩
  intro stale
  obtain ⟨reached, sys', -, htrace, hend⟩ := segvTrace_of_running (h := tableHosts) hcdsm
    (hresolve _ (strncmpEq_iff.mpr rfl)) hempty hexited 1 (pageSize + 7) true stale
  refine ⟨_, sys', htrace, ?_⟩
  rw [faultHandled_faultTrace_iff hresolve hend]
  rintro ⟨-, hnamed, -⟩
  exact Bool.false_ne_true (hname.symm.trans hnamed)

end DistributedSystem.Dsm
