import DistributedSystem.LocalAddress

/-!
# The lock protocol on hosts with interfaces

A cluster is given by the interfaces of its hosts and the addresses that its clients name.
What the protocol takes for granted of a deployment then follows from what `get_mac_address`
and `get_local_ip_addresses` make of the interfaces; and a server that leaves its own
addresses out of `nodes` asks the other nodes and never itself.
-/
namespace DistributedSystem.LockProtocol
open LockManager NodeAddress NodeList Transition

variable {N A P C : Type}

/-! ## Requests that leave their node -/

section Requests

/-- No entry of a `nodes` array denotes the node itself, and no REQUEST has been made to the
node it comes from. -/
structure Outward (e : Env N A P C) (s : State N A P C) : Prop where
  nodes : ∀ p, ∀ a ∈ (s.server p).nodes, e.resolve p a ≠ p
  requests : ∀ x j q pack, (s.request (x, j)).MadeTo q pack → q ≠ e.node x

theorem outward_initial (e : Env N A P C) : Outward e (initial e) := by
  constructor
  · simp [initial, initializeGlobalVariable]
  · simp [initial, Request.MadeTo]

/-- A REQUEST has one destination. -/
theorem Request.MadeTo.eq {q q' : N} {pack pack' : RequestPack ℤ} {r : Request N}
    (h : r.MadeTo q pack) (h' : r.MadeTo q' pack') : q = q' := by
  unfold Request.MadeTo at h h'
  cases r with
  | unsent => simp at h
  | sent dest p => simp_all
  | parked dest p => simp_all
  | replied dest p => simp_all

variable [DecidableEq N] [DecidableEq A] [DecidableEq P] [DecidableEq C]

/-- What a step adds to a `nodes` array has been named by a process of the node and is none of
its addresses. -/
theorem mem_nodes_effect {e : Env N A P C} {s s' : State N A P C} {a : Action P C}
    (h : Effect e s a s') {p : N} {b : A} (hb : b ∈ (s'.server p).nodes) :
    b ∈ (s.server p).nodes ∨
      ∃ q, e.host q = p ∧ b ∈ e.names q ∧ b ∉ e.localIpAddresses (e.host q) := by
  have hu : ∀ q srv, srv.nodes = (s.server q).nodes →
      b ∈ (Function.update s.server q srv p).nodes → b ∈ (s.server p).nodes := by
    intro q srv hsrv hmem
    by_cases hp : p = q
    · subst hp
      rwa [Function.update_self, hsrv] at hmem
    · rwa [Function.update_of_ne hp] at hmem
  cases h with
  | initServe q hi =>
    by_cases hp : p = e.host q
    · subst hp
      simp only [Function.update_self, initLockMgr1Svc, List.mem_append, List.mem_filter,
        decide_eq_true_eq] at hb
      obtain hb | ⟨hnames, hlocal⟩ := hb
      · exact .inl hb
      · exact .inr ⟨q, rfl, hnames, hlocal⟩
    · simp only [Function.update_of_ne hp] at hb
      exact .inl hb
  | acquireArrive x ht hh => exact .inl (hu _ _ (by simp) hb)
  | acquireEnter x srv hh hs =>
    obtain ⟨-, hn, -, -⟩ := acquireEnter_eq_some hs
    exact .inl (hu _ _ hn hb)
  | defer x i q pack hr hd => exact .inl (hu _ _ (by simp) hb)
  | grant x i q pack hr hd => exact .inl (hu _ _ (by simp) hb)
  | releaseServe x woken srv ht hs =>
    obtain ⟨-, hn, -, -⟩ := releaseLock1Svc_eq_some hs
    exact .inl (hu _ _ hn hb)
  | _ => exact .inl hb

/-- A REQUEST that has been made was made before, or goes to an entry of the `nodes` array. -/
theorem dest_effect {e : Env N A P C} {s s' : State N A P C} {a : Action P C}
    (h : Effect e s a s') {x : C} {j : ℕ} {q : N} {pack : RequestPack ℤ}
    (hm : (s'.request (x, j)).MadeTo q pack) :
    (∃ pack', (s.request (x, j)).MadeTo q pack') ∨
      ∃ b ∈ (s.server (e.node x)).nodes, e.resolve (e.node x) b = q := by
  rcases request_effect h x j with heq | ⟨hsending, hawaiting, -⟩ | ⟨q', pack', hsent, hseen⟩ |
    ⟨q', pack', hparked, hreplied⟩
  · rw [heq] at hm
    exact .inl ⟨pack, hm⟩
  · rcases handler_effect h x with hh | ⟨-, ⟨hh, -⟩ | ⟨hh, -⟩ | ⟨i, b, pack', hh, -, hb, hr⟩ |
      ⟨i, q', pack', hh, -⟩ | ⟨i, hh, hh', -⟩⟩
    · simp [hsending, hawaiting] at hh
    · simp [hsending] at hh
    · simp [hsending] at hh
    · obtain rfl : j = i := by simpa [hsending] using hh
      have hdest := hm.eq (.inl hr)
      exact .inr ⟨b, List.mem_of_getElem? hb, hdest.symm⟩
    · simp [hsending] at hh
    · simp [hawaiting] at hh'
  · have hdest := hm.eq hseen.madeTo
    subst hdest
    exact .inl ⟨pack', .inl hsent⟩
  · have hdest := hm.eq (.inr (.inr hreplied))
    subst hdest
    exact .inl ⟨pack', .inr (.inl hparked)⟩

/-- The names that a server appends denote other nodes. -/
def NamesOthers (e : Env N A P C) : Prop :=
  ∀ q, ∀ a ∈ e.names q, a ∉ e.localIpAddresses (e.host q) → e.resolve (e.host q) a ≠ e.host q

theorem outward_step {e : Env N A P C} (he : NamesOthers e) {s s' : State N A P C}
    {a : Action P C} (ho : Outward e s) (hs : step e s a = some s') : Outward e s' := by
  cases step_eq_some_iff.mp hs with
  | effect h =>
    constructor
    · intro p b hb
      obtain hb | ⟨q, rfl, hnames, hlocal⟩ := mem_nodes_effect h hb
      · exact ho.nodes p b hb
      · exact he q b hnames hlocal
    · intro x j q pack hm
      obtain ⟨pack', hm⟩ | ⟨b, hb, rfl⟩ := dest_effect h hm
      · exact ho.requests x j q pack' hm
      · exact ho.nodes (e.node x) b hb
  | _ => exact ⟨ho.nodes, ho.requests⟩

/-- In every run, whatever fails, every REQUEST goes to another node. -/
theorem outward_reaches {e : Env N A P C} (he : NamesOthers e) {s : State N A P C}
    (h : Reaches (step e) anyStep (initial e) s) : Outward e s :=
  h.invariant (Outward e) (outward_initial e) fun _ _ _ ho _ hs => outward_step he ho hs

end Requests

/-! ## Clusters -/

/-- Hosts with their interfaces, and clients that are given addresses. `reach p a` is the host
at which a connection from `p` to the address `a` arrives, and `resolve p` does the same with
names. No entry without an address stands before the hardware address of a host (`present`),
and no two hosts have the same one (`distinct`). A connection to an address of the own interfaces
stays on the host (`own`), and an address that a client names and that leads to its own host is
on one of that host's interfaces (`named`). Every client names all other hosts (`complete`). -/
structure Cluster (N P C : Type) where
  ifap : N → List Interface
  /-- What stands in allocated memory. -/
  junk : N → CString
  reach : N → InAddr → N
  resolve : N → CString → N
  host : P → N
  addrs : P → List InAddr
  process : C → P
  number : C → ℤ
  /-- Names that are the texts of addresses are not looked up. -/
  resolve_dotted : ∀ p a, resolve p (dotted a) = reach p a
  present : ∀ p, Present ((ifap p).map Interface.toIfaddrs)
  distinct : Function.Injective fun p => nodeAddress ((ifap p).map Interface.toIfaddrs)
  own : ∀ p, ∀ a ∈ inetAddresses (ifap p), reach p a = p
  named : ∀ q, ∀ a ∈ addrs q, reach (host q) a = host q → a ∈ inetAddresses (ifap (host q))
  complete : ∀ q p, p ≠ host q → ∃ a ∈ addrs q, reach (host q) a = p

/-- The cluster as the protocol sees it, through `get_mac_address`, `get_local_ip_addresses`
and the texts that clients give to `psu_init_lock_mgr`. -/
def Cluster.env (c : Cluster N P C) : Env N CString P C where
  mac p := ((getMacAddress (some ((c.ifap p).map Interface.toIfaddrs))).getD 0).toNat
  resolve := c.resolve
  localIpAddresses p := getLocalIpAddresses (c.junk p) (c.ifap p)
  host := c.host
  names q := (c.addrs q).map dotted
  process := c.process
  number := c.number

theorem mac_env (c : Cluster N P C) (p : N) :
    ∃ v, getMacAddress (some ((c.ifap p).map Interface.toIfaddrs)) = some v ∧
      c.env.mac p = v.toNat := by
  obtain ⟨v, hv, -⟩ := exists_interfaceLoop (c.present p)
  have hmac : getMacAddress (some ((c.ifap p).map Interface.toIfaddrs)) = some v := hv
  refine ⟨v, hmac, ?_⟩
  show ((getMacAddress (some ((c.ifap p).map Interface.toIfaddrs))).getD 0).toNat = v.toNat
  rw [hmac, Option.getD_some]

/-- A cluster is a deployment. -/
theorem deployed_env (c : Cluster N P C) : Deployed c.env where
  mac_injective := (mac_injective_iff (mac_env c)).mpr c.distinct
  local_self := by
    intro p name hname
    have htext : name ∈ getLocalIpAddresses (c.junk p) (c.ifap p) := hname
    rw [getLocalIpAddresses_eq] at htext
    obtain ⟨a, ha, rfl⟩ := List.mem_map.mp htext
    exact (c.resolve_dotted p a).trans (c.own p a ha)
  covers := by
    intro q p hp
    obtain ⟨a, ha, hreach⟩ := c.complete q p hp
    exact ⟨dotted a, List.mem_map_of_mem ha, (c.resolve_dotted _ a).trans hreach⟩

theorem namesOthers_env (c : Cluster N P C) : NamesOthers c.env := by
  intro q name hname hlocal hself
  obtain ⟨a, ha, rfl⟩ := List.mem_map.mp hname
  have hreach : c.reach (c.host q) a = c.host q := (c.resolve_dotted _ a).symm.trans hself
  exact hlocal ((dotted_mem_iff _ _ a).mpr (c.named q a ha hreach))

/-- The step that serves the call of `psu_init_lock_mgr` appends what
`initialised_by_addresses` finds that the bytes of the call append. -/
theorem nodes_initServe [DecidableEq N] [DecidableEq P] [DecidableEq C] (c : Cluster N P C)
    {s s' : State N CString P C} {q : P} (h : step c.env s (.initServe q) = some s') :
    (s'.server (c.host q)).nodes = (s.server (c.host q)).nodes ++
      ((c.addrs q).filter fun a => a ∉ inetAddresses (c.ifap (c.host q))).map dotted := by
  obtain ⟨-, hs⟩ := Option.ite_none_right_eq_some.mp h
  obtain rfl := Option.some.inj hs
  rw [← filter_map_dotted (c.junk (c.host q))]
  simp only [initLockMgr1Svc, Cluster.env, Function.update_self]
  congr 1
  apply List.filter_congr
  intro name _
  exact decide_eq_decide.mpr Iff.rfl

/-- In every run in which no call fails, of every cluster: an acquire call that has completed
has been answered by the other nodes, by each of them and by no one else. -/
theorem answered_by_the_others [DecidableEq N] [DecidableEq P] [DecidableEq C]
    (c : Cluster N P C) {s : State N CString P C}
    (h : Reaches (step c.env) NoFail (initial c.env) s) {x : C} (hx : s.handler x = .completed)
    (q : N) : (∃ j pack, s.request (x, j) = .replied q pack) ↔ q ≠ c.env.node x := by
  have hdeployed := deployed_env c
  have hinv := inv_reaches hdeployed.mac_injective h
  have houtward := outward_reaches (namesOthers_env c) (h.mono fun _ _ _ => trivial)
  constructor
  · rintro ⟨j, pack, hr⟩
    exact houtward.requests x j q pack (.inr (.inr hr))
  · intro hq
    exact granted_of_completed hdeployed hinv.loop hx hq

/-- Two hosts with one process each, both of them naming both addresses. -/
def twoHosts : Cluster Bool Bool Bool where
  ifap := hostInterfaces
  junk _ := []
  reach p a := if a = hostAddress (!p) then !p else p
  resolve p name := if name = dotted (hostAddress (!p)) then !p else p
  host p := p
  addrs _ := [hostAddress false, hostAddress true]
  process x := x
  number _ := 1
  resolve_dotted p a := by simp only [dotted_injective.eq_iff]
  present p := by cases p <;> exact present_cons_of_some _ rfl
  distinct := by decide
  own p a ha := by
    rw [inetAddresses_hostInterfaces, List.mem_singleton] at ha
    simp [ha, hostAddress_injective.eq_iff]
  named q a ha := by
    have ha : a = hostAddress false ∨ a = hostAddress true := by simpa using ha
    rw [inetAddresses_hostInterfaces, List.mem_singleton]
    cases q <;> grind
  complete q p hp := by cases q <;> cases p <;> simp_all [hostAddress_injective.eq_iff]

theorem answered_by_the_others_twoHosts : ∃ s : State Bool CString Bool Bool,
    s.handler false = .completed ∧ ∀ q, (∃ j pack, s.request (false, j) = .replied q pack) ↔
      q ≠ twoHosts.env.node false := by
  let s := (exec (step twoHosts.env) (initial twoHosts.env)
    (requestRun false ++ grantRun false)).get (by decide +kernel)
  have h : Reaches (step twoHosts.env) NoFail (initial twoHosts.env) s :=
    reaches_of_exec (requestRun false ++ grantRun false) (Option.some_get _).symm (by decide +kernel)
  have hx : s.handler false = .completed := by decide +kernel
  exact ⟨s, hx, answered_by_the_others twoHosts h hx⟩

end DistributedSystem.LockProtocol
