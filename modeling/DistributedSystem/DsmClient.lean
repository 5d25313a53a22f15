import DistributedSystem.DsmHome

/-!
# Clients of the distributed memory

A client process attaches a page with `psu_dsm_malloc`, after its local server has
created it, and handles page faults with `segv_handler`, from `psu_dsm.c`. Each of the
two is one step here, together with the remote calls it makes, and so is a call of any
handler of a server.

`mprotect` acts on the calling process only, and `psu_dsm_malloc` never calls it: the
mapping that it returns can be read and written from the start, and no message of the
protocol takes that back.
-/
namespace DistributedSystem.Dsm
open LinkedList Rpc Transition

variable {N K : Type}

/-- A client process. Its mappings are kept with the page that was asked for. -/
structure Client where
  cdsm : Option ℕ
  cdsmHeap : List (Cell DsmEntry)
  mappings : List (Name × Mapping)
  exited : Bool
  undef : ℕ → Undef

/-- The clients' hosts, and the server that a host name denotes. -/
structure Hosts (N K : Type) where
  resolve : Ip → Option N
  host : K → N

structure System (N K : Type) where
  net : N → Process Server
  client : K → Client

namespace Client

/-- A client process after `psu_dsm_init`. -/
def init (undef : ℕ → Undef) : Client where
  cdsm := none
  cdsmHeap := []
  mappings := []
  exited := false
  undef := undef

/-- The process ends, by `exit` or by a signal, and its mappings with it. -/
def exit (c : Client) : Client := { c with exited := true, mappings := [] }

def unset (c : Client) : Undef × Client := (c.undef 0, { c with undef := fun i => c.undef (i + 1) })

/-- `shmat` without flags. -/
def shmat (page : Name) (key : UInt32) (c : Client) : ℕ × Client :=
  let base := pageSize * (c.mappings.length + 1)
  (base, { c with mappings := c.mappings ++ [(page, ⟨base, key, .readWrite⟩)] })

def mprotect (addr : ℕ) (prot : Prot) (c : Client) : Client :=
  { c with mappings := c.mappings.map fun m =>
      if m.2.base = addr then (m.1, { m.2 with prot := prot }) else m }

/-- `insert_dsm` with the value of `cdsm`. -/
def insertDsm (page : PageId) (c : Client) : Option Client :=
  let (u, c) := c.unset
  let entry : DsmEntry := {
    page := { page with name := strncpy nameLen page.name.toList }
    addr := u.addr
    location := strncpy ipLen u.sender.toList }
  (append c.cdsmHeap entry u.next c.cdsm).map fun heap => { c with cdsmHeap := heap }

end Client

/-- `get_name_from_addr`, whose loop never goes on to the next entry. -/
def getNameFromAddr (dentry : DsmEntry) (_ : ℕ) (dsm : Option ℕ) : Option DsmEntry :=
  match dsm with
  | none => some dentry
  | some _ => none

variable [DecidableEq N] [DecidableEq K]

/-- Replace the state of a client. -/
def System.setClient (k : K) (c : Client) (sys : System N K) : System N K :=
  { sys with client := Function.update sys.client k c }

/-- Lines 157 to 174 of `psu_dsm_malloc`: the address of the mapping, if there is one. -/
def mallocAttach (h : Hosts N K) (k : K) (name : List UInt8) (page : PageId)
    (sys : System N K) : Option ℕ × System N K :=
  let key := (hash name).toUInt32
  let c := sys.client k
  match (sys.net (h.host k)).state.segments key with
  | none => (none, sys.setClient k c.exit)
  | some _ =>
    let (addr, c) := c.shmat page.name key
    match c.insertDsm page with
    | none => (none, sys.setClient k c.exit)
    | some c => (some addr, sys.setClient k c)

/-- `psu_dsm_malloc`. There is no result if PAGE_CREAT never comes back. -/
def psuDsmMalloc (h : Hosts N K) (depth : ℕ) (k : K) (name : List UInt8) (size : UInt32)
    (sys : System N K) : Option (Option ℕ × System N K) :=
  let page : PageId := ⟨strncpy nameLen name, size⟩
  match h.resolve (sys.net (h.host k)).state.localHost with
  | none => some (none, sys.setClient k (sys.client k).exit)
  | some n =>
    (serve (service h.resolve) depth [] n (.pageCreat page) sys.net).map fun r =>
      let sys := { sys with net := r.2 }
      match r.1 with
      | .reply (.int 1) => mallocAttach h k name page sys
      | _ => (none, sys.setClient k (sys.client k).exit)

/-- Lines 96 to 107 of `segv_handler`: the page is copied to the address of the entry,
through the client's mapping there, and protected by the kind of the fault. -/
def segvFill (h : Hosts N K) (k : K) (addr : ℕ) (write : Bool) (bytes : Bytes)
    (sys : System N K) : System N K :=
  let c := (sys.client k).mprotect addr .write
  match c.mappings.find? fun m => m.2.base = addr with
  | none => sys.setClient k c.exit
  | some m =>
    let n := h.host k
    let s := (sys.net n).state
    let s := { s with segments := fun key => if key = m.2.key then some bytes else s.segments key }
    { net := Function.update sys.net n { sys.net n with state := s }
      client := Function.update sys.client k
        (c.mprotect addr (if write then .readWrite else .read)) }

/-- `segv_handler` for a fault at `addr`. The entry is not set when `get_name_from_addr`
finds nothing. Line 87 makes its call over the handle `clnt` that line 60 has destroyed, and
`stale` is what becomes of that: the process ends there and sends nothing, or the PAGE_REQUEST
reaches some server. There is no result if the handler runs for ever or a call never comes
back. -/
def segvHandler (h : Hosts N K) (depth : ℕ) (k : K) (addr : ℕ) (write : Bool)
    (stale : Option N) (sys : System N K) : Option (System N K) :=
  let (u, c) := (sys.client k).unset
  let sys := sys.setClient k c
  (getNameFromAddr ⟨u.page, u.addr, u.sender⟩ addr c.cdsm).bind fun entry =>
    match h.resolve (sys.net (h.host k)).state.localHost with
    | none => some (sys.setClient k c.exit)
    | some n =>
      (serve (service h.resolve) depth [] n (.pageLocate entry.page) sys.net).bind fun r =>
        match r.1 with
        | .reply (.host ip) =>
          let req : Request :=
            { pageid := entry.page, mode := if write then .RW else .RO, sender := u.sender }
          match stale with
          | none => some ({ sys with net := r.2 }.setClient k c.exit)
          | some m =>
            (serve (service h.resolve) depth [] m (.pageRequest req) r.2).map fun r' =>
              let sys := { sys with net := r'.2 }
              match r'.1, h.resolve ip with
              | .reply (.page page), some _ => segvFill h k entry.addr write page.addr sys
              | _, _ => sys.setClient k c.exit
        | _ => some ({ sys with net := r.2 }.setClient k c.exit)

/-- A client allocates a page, a client faults, with what becomes of the call over the destroyed
handle, or a server handles a call. -/
inductive Event (N K : Type) where
  | malloc (k : K) (name : List UInt8) (size : UInt32)
  | fault (k : K) (addr : ℕ) (write : Bool) (stale : Option N)
  | handle (n : N) (c : Call)

/-- One step of the system. -/
def next (h : Hosts N K) (depth : ℕ) (sys : System N K) : Event N K → Option (System N K)
  | .malloc k name size =>
    if (sys.client k).exited then none else (psuDsmMalloc h depth k name size sys).map Prod.snd
  | .fault k addr write stale =>
    if (sys.client k).exited then none else segvHandler h depth k addr write stale sys
  | .handle n c =>
    (serve (service h.resolve) depth [] n c sys.net).map fun r => { sys with net := r.2 }

/-! ## What a step can do -/

omit [DecidableEq N] in
theorem System.setClient_setClient (sys : System N K) (k : K) (c c' : Client) :
    (sys.setClient k c).setClient k c' = sys.setClient k c' := by
  simp only [System.setClient, Function.update_idem]

/-- The servers after calls that were served one after the other. -/
def Served (h : Hosts N K) (depth : ℕ) : (N → Process Server) → (N → Process Server) → Prop :=
  Relation.ReflTransGen fun net net' =>
    ∃ n c ans, serve (service h.resolve) depth [] n c net = some (ans, net')

omit [DecidableEq K] in
/-- What every call that is served keeps is kept. -/
theorem Served.keeps {h : Hosts N K} {depth : ℕ} {net net' : N → Process Server}
    (hs : Served h depth net net') {P : (N → Process Server) → Prop} (hP : P net)
    (hserve : ∀ net n c r, P net → serve (service h.resolve) depth [] n c net = some r → P r.2) :
    P net' := by
  induction hs with
  | refl => exact hP
  | tail _ hstep ih =>
    obtain ⟨n, c, ans, hr⟩ := hstep
    exact hserve _ n c _ ih hr

/-- `psu_dsm_malloc` ends its client, or attaches the page and does not enter it into `cdsm`. -/
theorem psuDsmMalloc_cases {h : Hosts N K} {depth : ℕ} {k : K} {name : List UInt8} {size : UInt32}
    {sys : System N K} {r : Option ℕ × System N K}
    (hs : psuDsmMalloc h depth k name size sys = some r) :
    ∃ net, Served h depth sys.net net ∧
      (r = (none, { sys with net := net }.setClient k (sys.client k).exit) ∨
        ∃ addr c, ((sys.client k).shmat (strncpy nameLen name) (hash name).toUInt32).2.insertDsm
            ⟨strncpy nameLen name, size⟩ = some c ∧
          r = (some addr, { sys with net := net }.setClient k c)) := by
  simp only [psuDsmMalloc] at hs
  split at hs
  · obtain rfl := Option.some.inj hs
    exact ⟨sys.net, .refl, .inl rfl⟩
  · obtain ⟨⟨ans, net⟩, hserve, rfl⟩ := Option.map_eq_some_iff.mp hs
    refine ⟨net, .single ⟨_, _, _, hserve⟩, ?_⟩
    simp only
    split
    · simp only [mallocAttach]
      split
      · exact .inl rfl
      · split
        · exact .inl rfl
        · rename_i c hc
          exact .inr ⟨_, c, hc, rfl⟩
    · exact .inl rfl

/-- `segv_handler` ends its client, or goes on to its last lines with the page of a reply. -/
theorem segvHandler_cases {h : Hosts N K} {depth : ℕ} {k : K} {addr : ℕ} {write : Bool}
    {stale : Option N} {sys sys' : System N K}
    (hs : segvHandler h depth k addr write stale sys = some sys') :
    ∃ net, Served h depth sys.net net ∧
      (sys' = { sys with net := net }.setClient k (sys.client k).unset.2.exit ∨
        ∃ net₁ n req page base, Served h depth sys.net net₁ ∧
          serve (service h.resolve) depth [] n (.pageRequest req) net₁ =
            some (.reply (.page page), net) ∧
          sys' = segvFill h k base write page.addr
            ({ sys with net := net }.setClient k (sys.client k).unset.2)) := by
  simp only [segvHandler] at hs
  obtain ⟨entry, -, hs⟩ := Option.bind_eq_some_iff.mp hs
  split at hs
  · obtain rfl := Option.some.inj hs
    exact ⟨sys.net, .refl, .inl (System.setClient_setClient _ _ _ _)⟩
  · obtain ⟨⟨ans, net₁⟩, hlocate, hs⟩ := Option.bind_eq_some_iff.mp hs
    have hserved : Served h depth sys.net net₁ := .single ⟨_, _, _, hlocate⟩
    simp only at hs
    split at hs
    · cases stale with
      | none =>
        obtain rfl := Option.some.inj hs
        exact ⟨net₁, hserved, .inl (System.setClient_setClient { sys with net := net₁ } _ _ _)⟩
      | some m =>
        obtain ⟨⟨ans', net⟩, hrequest, rfl⟩ := Option.map_eq_some_iff.mp hs
        refine ⟨net, hserved.tail ⟨_, _, _, hrequest⟩, ?_⟩
        simp only
        split
        · exact .inr ⟨net₁, _, _, _, _, hserved, hrequest, rfl⟩
        · exact .inl (System.setClient_setClient { sys with net := net } _ _ _)
    · obtain rfl := Option.some.inj hs
      exact ⟨net₁, hserved, .inl (System.setClient_setClient { sys with net := net₁ } _ _ _)⟩

/-! ## One writer or many readers -/

/-- The protection allows writing. -/
def Prot.writable : Prot → Bool
  | .write | .readWrite => true
  | _ => false

/-- The protection allows reading or writing. -/
def Prot.accessible : Prot → Bool
  | .none => false
  | _ => true

/-- If one client may write its mapping of a page, then no client on another node may
read or write its mapping of that page. -/
def SingleWriter (h : Hosts N K) (sys : System N K) : Prop :=
  ∀ k k', h.host k ≠ h.host k' → ∀ m ∈ (sys.client k).mappings, ∀ m' ∈ (sys.client k').mappings,
    m.1 = m'.1 → m.2.prot.writable = true → m'.2.prot.accessible = false

/-- The client has a mapping of the page. -/
def Maps (client : K → Client) (k : K) (page : Name) : Prop :=
  ∃ m ∈ (client k).mappings, m.1 = page

omit [DecidableEq N] in
/-- Only the client that changes can get a mapping of a page. -/
theorem maps_update {client : K → Client} {k k' : K} {c : Client} {p : Name}
    (h : Maps (Function.update client k c) k' p) :
    Maps client k' p ∨ k' = k ∧ ∃ m ∈ c.mappings, m.1 = p := by
  obtain ⟨m, hm, hp⟩ := h
  by_cases hk : k' = k
  · subst hk
    exact .inr ⟨rfl, m, by simpa using hm, hp⟩
  · exact .inl ⟨m, by simpa [Function.update_of_ne hk] using hm, hp⟩

omit [DecidableEq N] in
/-- A client that ends maps nothing. -/
theorem maps_exit {client : K → Client} {k k' : K} {c : Client} {p : Name}
    (h : Maps (Function.update client k c.exit) k' p) : Maps client k' p := by
  rcases maps_update h with hold | ⟨-, m, hm, -⟩
  · exact hold
  · simp [Client.exit] at hm

theorem Client.insertDsm_mappings {c c' : Client} {page : PageId} (h : c.insertDsm page = some c') :
    c'.mappings = c.mappings := by
  obtain ⟨heap, -, rfl⟩ := Option.map_eq_some_iff.mp h
  rfl

theorem Client.map_mprotect (c : Client) (addr : ℕ) (prot : Prot) :
    (c.mprotect addr prot).mappings.map Prod.fst = c.mappings.map Prod.fst := by
  simp only [Client.mprotect, List.map_map]
  refine List.map_congr_left ?_
  intro m _
  simp only [Function.comp]
  split_ifs <;> rfl

/-- `psu_dsm_malloc` attaches the page that was asked for, to the calling client. -/
theorem maps_malloc {h : Hosts N K} {depth : ℕ} {k k' : K} {name : List UInt8} {size : UInt32}
    {sys : System N K} {r : Option ℕ × System N K} {p : Name}
    (hs : psuDsmMalloc h depth k name size sys = some r) (hp : Maps r.2.client k' p) :
    Maps sys.client k' p ∨ k' = k ∧ p = strncpy nameLen name := by
  obtain ⟨net, -, rfl | ⟨addr, c, hc, rfl⟩⟩ := psuDsmMalloc_cases hs
  · exact .inl (maps_exit hp)
  · rcases maps_update hp with hold | ⟨rfl, m, hm, rfl⟩
    · exact .inl hold
    · rw [Client.insertDsm_mappings hc, Client.shmat, List.mem_append, List.mem_singleton] at hm
      rcases hm with hm | rfl
      · exact .inl ⟨m, hm, rfl⟩
      · exact .inr ⟨rfl, rfl⟩

theorem maps_segvFill {h : Hosts N K} {k k' : K} {addr : ℕ} {write : Bool} {bytes : Bytes}
    {sys : System N K} {p : Name} (hp : Maps (segvFill h k addr write bytes sys).client k' p) :
    Maps sys.client k' p := by
  simp only [segvFill] at hp
  split at hp
  · exact maps_exit hp
  · rcases maps_update hp with hold | ⟨rfl, m, hm, rfl⟩
    · exact hold
    · have hmem : m.1 ∈ List.map Prod.fst _ := List.mem_map_of_mem hm
      rw [Client.map_mprotect, Client.map_mprotect] at hmem
      obtain ⟨m₀, hm₀, heq⟩ := List.mem_map.mp hmem
      exact ⟨m₀, hm₀, heq⟩

/-- `segv_handler` attaches nothing. -/
theorem maps_fault {h : Hosts N K} {depth : ℕ} {k k' : K} {addr : ℕ} {write : Bool}
    {stale : Option N} {sys sys' : System N K} {p : Name}
    (hs : segvHandler h depth k addr write stale sys = some sys') (hp : Maps sys'.client k' p) :
    Maps sys.client k' p := by
  obtain ⟨net, -, rfl | ⟨net₁, n, req, page, base, -, -, rfl⟩⟩ := segvHandler_cases hs
  · exact maps_exit hp
  · rcases maps_update (maps_segvFill hp) with hold | ⟨rfl, m, hm, rfl⟩
    · exact hold
    · exact ⟨m, hm, rfl⟩

/-- The pages that a step attaches. -/
theorem maps_next {h : Hosts N K} {depth : ℕ} {sys sys' : System N K} {a : Event N K}
    (hs : next h depth sys a = some sys') {k : K} {p : Name} (hp : Maps sys'.client k p) :
    Maps sys.client k p ∨ ∃ name size, a = .malloc k name size ∧ p = strncpy nameLen name := by
  cases a with
  | malloc j name size =>
    obtain ⟨-, hs⟩ := Option.ite_none_left_eq_some.mp hs
    obtain ⟨r, hr, rfl⟩ := Option.map_eq_some_iff.mp hs
    rcases maps_malloc hr hp with hold | ⟨rfl, hpage⟩
    · exact .inl hold
    · exact .inr ⟨name, size, rfl, hpage⟩
  | fault j addr write stale =>
    obtain ⟨-, hs⟩ := Option.ite_none_left_eq_some.mp hs
    exact .inl (maps_fault hs hp)
  | handle n c =>
    obtain ⟨r, -, rfl⟩ := Option.map_eq_some_iff.mp hs
    exact .inl hp

/-- Clients on different nodes have no page in common. -/
def Apart (h : Hosts N K) (sys : System N K) : Prop :=
  ∀ k k' p, h.host k ≠ h.host k' → Maps sys.client k p → ¬ Maps sys.client k' p

/-- The guard of the runs in which `psu_dsm_malloc` is called for a page only while no
client on another node has it attached. -/
def NotShared (h : Hosts N K) (sys : System N K) : Event N K → Prop
  | .malloc k name _ => ∀ k', h.host k' ≠ h.host k → ¬ Maps sys.client k' (strncpy nameLen name)
  | _ => True

theorem apart_next {h : Hosts N K} {depth : ℕ} {sys sys' : System N K} {a : Event N K}
    (hd : Apart h sys) (hg : NotShared h sys a) (hs : next h depth sys a = some sys') :
    Apart h sys' := by
  intro k k' p hne hk hk'
  rcases maps_next hs hk with hold | ⟨name, size, rfl, rfl⟩
  · rcases maps_next hs hk' with hold' | ⟨name, size, rfl, rfl⟩
    · exact hd k k' p hne hold hold'
    · exact hg k hne hold
  · rcases maps_next hs hk' with hold' | ⟨name', size', heq, -⟩
    · exact hg k' hne.symm hold'
    · obtain ⟨rfl, -, -⟩ := Event.malloc.inj heq
      exact hne rfl

/-- The system after `init` on all servers and `psu_dsm_init` in all clients. -/
def System.init (localHost : N → Ip) (nserver : N → ℕ) (server : N → Vector Ip maxServ)
    (segments : N → UInt32 → Option Bytes) (undef : N → ℕ → Undef) (cundef : K → ℕ → Undef) :
    System N K where
  net n := ⟨Dsm.init (localHost n) (nserver n) (server n) (segments n) (undef n), false⟩
  client k := Client.init (cundef k)

/-- The directories are empty, and every mapping of a client can be read and written. -/
structure Unprotected (sys : System N K) : Prop where
  net : ∀ n, NoEntry (sys.net n).state
  prot : ∀ k, ∀ m ∈ (sys.client k).mappings, m.2.prot = .readWrite

omit [DecidableEq N] in
/-- A client changes to one whose mappings are all unprotected. -/
theorem prot_update {client : K → Client} {k : K} {c : Client}
    (hall : ∀ k, ∀ m ∈ (client k).mappings, m.2.prot = .readWrite)
    (hc : ∀ m ∈ c.mappings, m.2.prot = .readWrite) (k' : K) :
    ∀ m ∈ (Function.update client k c k').mappings, m.2.prot = .readWrite :=
  (Function.forall_update_iff client fun _ c => ∀ m ∈ c.mappings, m.2.prot = .readWrite).mpr
    ⟨hc, fun k' _ => hall k'⟩ k'

omit [DecidableEq N] in
theorem prot_exit {client : K → Client} {k : K} {c : Client}
    (hall : ∀ k, ∀ m ∈ (client k).mappings, m.2.prot = .readWrite) (k' : K) :
    ∀ m ∈ (Function.update client k c.exit k').mappings, m.2.prot = .readWrite :=
  prot_update hall (by simp [Client.exit]) k'

omit [DecidableEq K] in
/-- Calls leave the directories empty. -/
theorem Served.noEntry {h : Hosts N K} {depth : ℕ} {net net' : N → Process Server}
    (hs : Served h depth net net') (hnet : ∀ n, NoEntry (net n).state) :
    ∀ n, NoEntry (net' n).state := by
  refine hs.keeps (P := fun net => ∀ n, NoEntry (net n).state) hnet ?_
  intro net n c r hempty hr
  exact (good_serve hempty hr).1

theorem unprotected_malloc {h : Hosts N K} {depth : ℕ} {k : K} {name : List UInt8}
    {size : UInt32} {sys : System N K} {r : Option ℕ × System N K} (hu : Unprotected sys)
    (hs : psuDsmMalloc h depth k name size sys = some r) : Unprotected r.2 := by
  obtain ⟨net, hserved, rfl | ⟨addr, c, hc, rfl⟩⟩ := psuDsmMalloc_cases hs
  · exact ⟨hserved.noEntry hu.net, prot_exit hu.prot⟩
  · refine ⟨hserved.noEntry hu.net, prot_update hu.prot ?_⟩
    intro m hm
    rw [Client.insertDsm_mappings hc, Client.shmat, List.mem_append, List.mem_singleton] at hm
    rcases hm with hm | rfl
    · exact hu.prot k m hm
    · rfl

/-- A fault ends the client, since no server has a page to send. -/
theorem unprotected_fault {h : Hosts N K} {depth : ℕ} {k : K} {addr : ℕ} {write : Bool}
    {stale : Option N} {sys sys' : System N K} (hu : Unprotected sys)
    (hs : segvHandler h depth k addr write stale sys = some sys') : Unprotected sys' := by
  obtain ⟨net, hserved, rfl | ⟨net₁, n, req, page, base, hserved₁, hrequest, -⟩⟩ :=
    segvHandler_cases hs
  · exact ⟨hserved.noEntry hu.net, prot_exit hu.prot⟩
  · exact ((good_serve (hserved₁.noEntry hu.net) hrequest).2 _ rfl).elim

theorem unprotected_next {h : Hosts N K} {depth : ℕ} {sys sys' : System N K} {a : Event N K}
    (hu : Unprotected sys) (hs : next h depth sys a = some sys') : Unprotected sys' := by
  cases a with
  | malloc k name size =>
    obtain ⟨-, hs⟩ := Option.ite_none_left_eq_some.mp hs
    obtain ⟨r, hr, rfl⟩ := Option.map_eq_some_iff.mp hs
    exact unprotected_malloc hu hr
  | fault k addr write stale =>
    obtain ⟨-, hs⟩ := Option.ite_none_left_eq_some.mp hs
    exact unprotected_fault hu hs
  | handle n c =>
    obtain ⟨r, hr, rfl⟩ := Option.map_eq_some_iff.mp hs
    exact ⟨(good_serve hu.net hr).1, hu.prot⟩

/-- A `psu_dsm_malloc` that returns gives its client a mapping of the page, and leaves
the other clients alone. -/
theorem maps_of_malloc {h : Hosts N K} {depth : ℕ} {k : K} {name : List UInt8} {size : UInt32}
    {sys sys' : System N K} {addr : ℕ}
    (hs : psuDsmMalloc h depth k name size sys = some (some addr, sys')) :
    Maps sys'.client k (strncpy nameLen name) ∧ ∀ k', k' ≠ k → sys'.client k' = sys.client k' := by
  obtain ⟨net, -, hnone | ⟨addr', c, hc, hsome⟩⟩ := psuDsmMalloc_cases hs
  · cases (Prod.mk.inj hnone).1
  · obtain ⟨-, rfl⟩ := Prod.mk.inj hsome
    have hmem : ∃ m ∈ c.mappings, m.1 = strncpy nameLen name := by
      rw [Client.insertDsm_mappings hc, Client.shmat]
      simp
    obtain ⟨m, hm, hpage⟩ := hmem
    refine ⟨⟨m, ?_, hpage⟩, ?_⟩
    · simpa [System.setClient] using hm
    · intro k' hk
      simp [System.setClient, Function.update_of_ne hk]

/-- In every run in which `psu_dsm_malloc` is called for a page only while no client on
another node has it attached, a page that one client may write cannot be accessed on
another node. Every other `psu_dsm_malloc` that returns breaks that. -/
theorem singleWriter_of_notShared (h : Hosts N K) (depth : ℕ) (localHost : N → Ip)
    (nserver : N → ℕ) (server : N → Vector Ip maxServ) (segments : N → UInt32 → Option Bytes)
    (undef : N → ℕ → Undef) (cundef : K → ℕ → Undef) :
    (∀ sys, Reaches (next h depth) (NotShared h)
        (System.init localHost nserver server segments undef cundef) sys → SingleWriter h sys) ∧
      ∀ sys, Reaches (next h depth) anyStep
        (System.init localHost nserver server segments undef cundef) sys →
        ∀ k name size addr sys', psuDsmMalloc h depth k name size sys = some (some addr, sys') →
          ¬ NotShared h sys (.malloc k name size) → ¬ SingleWriter h sys' := by
  refine ⟨?_, ?_⟩
  · intro sys hr
    have hapart : Apart h sys := by
      refine hr.invariant (Apart h) ?_ ?_
      · rintro k k' p - ⟨m, hm, -⟩
        simp [System.init, Client.init] at hm
      · intro u a u' hu hg hs
        exact apart_next hu hg hs
    intro k k' hne m hm m' hm' heq
    exact (hapart k k' m.1 hne ⟨m, hm, rfl⟩ ⟨m', hm', heq.symm⟩).elim
  · intro sys hr k name size addr sys' hs hshared hsingle
    have hu : Unprotected sys := by
      refine hr.invariant Unprotected ⟨fun _ => rfl, by simp [System.init, Client.init]⟩ ?_
      intro u a u' hu _ hs
      exact unprotected_next hu hs
    have hu' := unprotected_malloc hu hs
    obtain ⟨⟨m, hm, hpage⟩, hothers⟩ := maps_of_malloc hs
    simp only [NotShared, not_forall, not_not] at hshared
    obtain ⟨k', hne, m', hm', hpage'⟩ := hshared
    have hk : k' ≠ k := by
      rintro rfl
      exact hne rfl
    rw [← hothers k' hk] at hm'
    have hclosed := hsingle k k' (Ne.symm hne) m hm m' hm' (hpage.trans hpage'.symm)
      (by rw [hu'.prot k m hm]; rfl)
    rw [hu'.prot k' m' hm'] at hclosed
    cases hclosed

/-- The two servers of the table with one client each. -/
def tableHosts : Hosts Bool Bool where
  resolve := resolveTable
  host k := k

def startedSystem : System Bool Bool :=
  System.init serverIp (fun _ => 2) (fun _ => serverTable) (fun _ _ => none)
    (fun _ _ => zeroUndef) (fun _ _ => zeroUndef)

/-- One client allocates the page "hello", which nobody has. -/
theorem singleWriter_hello : ∃ sys, Reaches (next tableHosts 2) (NotShared tableHosts)
    startedSystem sys ∧ (∃ m ∈ (sys.client false).mappings, m.2.prot.writable = true) ∧
      SingleWriter tableHosts sys := by
  let a : Event Bool Bool := .malloc false [104, 101, 108, 108, 111] 100
  let sys := (next tableHosts 2 startedSystem a).get (by decide +kernel)
  have hg : NotShared tableHosts startedSystem a := by
    rintro k' - ⟨m, hm, -⟩
    simp [startedSystem, System.init, Client.init] at hm
  have hr : Reaches (next tableHosts 2) (NotShared tableHosts) startedSystem sys :=
    Reaches.refl.tail hg (Option.some_get _).symm
  have hm : (hello.name, ⟨pageSize, 0x0f923099, .readWrite⟩) ∈ (sys.client false).mappings := by
    decide +kernel
  exact ⟨sys, hr, ⟨_, hm, rfl⟩,
    (singleWriter_of_notShared tableHosts 2 serverIp (fun _ => 2) (fun _ => serverTable)
      (fun _ _ => none) (fun _ _ => zeroUndef) (fun _ _ => zeroUndef)).1 sys hr⟩

/-- Both clients allocate the page "hello". -/
theorem not_singleWriter : ∃ sys, Reaches (next tableHosts 2) anyStep startedSystem sys ∧
    ¬ SingleWriter tableHosts sys := by
  let as : List (Event Bool Bool) :=
    [.malloc false [104, 101, 108, 108, 111] 100, .malloc true [104, 101, 108, 108, 111] 100]
  let sys := (exec (next tableHosts 2) startedSystem as).get (by decide +kernel)
  have hall : ∀ k, (hello.name, ⟨pageSize, 0x0f923099, .readWrite⟩) ∈ (sys.client k).mappings := by
    decide +kernel
  refine ⟨sys, reaches_of_exec_anyStep as (Option.some_get _).symm, ?_⟩
  intro h
  have hclosed := h false true (by decide) _ (hall false) _ (hall true) rfl rfl
  cases hclosed

end DistributedSystem.Dsm
