import DistributedSystem.LockProtocol

/-!
# Invariants of the lock protocol

All invariants are about runs in which RPCs succeed. They come in three layers:
`Clients` follows the calls of the client processes, `Loop` the REQUEST loop of
`acquire_lock_1_svc`, and the third, in the next module, the lock variables of all
nodes together with the requests that are under way.
-/
namespace DistributedSystem.LockProtocol
open LockManager Transition

variable {N A P C : Type}

/-- The contents of the entry of lock `n` on node `p`. -/
def State.lockvar (s : State N A P C) (p : N) (n : ℤ) : LockVar ℤ (C × ℕ) :=
  (s.server p).lockvar n

/-- The entry of its lock on the node of the acquire call `x`. -/
def mine (e : Env N A P C) (s : State N A P C) (x : C) : LockVar ℤ (C × ℕ) :=
  s.lockvar (e.node x) (e.number x)

/-- The pair of `myseqno` and `mac` of the acquire call `x`, once it is chosen. -/
def priority (e : Env N A P C) (s : State N A P C) (x : C) : Priority :=
  (mine e s x).priority (e.mac (e.node x))

/-- The acquire call has chosen its sequence number and is not yet released. -/
def Open (s : State N A P C) (x : C) : Prop :=
  s.handler x ≠ .idle ∧ s.handler x ≠ .waiting ∧ s.thread x ≠ .released

/-- The acquire call has completed and is not yet released. -/
def Holds (s : State N A P C) (x : C) : Prop :=
  s.handler x = .completed ∧ s.thread x ≠ .released

/-- The REQUEST has been made, to node `q` and with this argument. -/
def Request.MadeTo (q : N) (pack : RequestPack ℤ) (r : Request N) : Prop :=
  r = .sent q pack ∨ r = .parked q pack ∨ r = .replied q pack

/-- The handler of the REQUEST on node `q` has got to its decision. -/
def Request.SeenBy (q : N) (pack : RequestPack ℤ) (r : Request N) : Prop :=
  r = .parked q pack ∨ r = .replied q pack

theorem Holds.isOpen {s : State N A P C} {x : C} (h : Holds s x) : Open s x := by
  refine ⟨?_, ?_, h.2⟩ <;> simp [h.1]

theorem Request.SeenBy.madeTo {q : N} {pack : RequestPack ℤ} {r : Request N}
    (h : r.SeenBy q pack) : r.MadeTo q pack := .inr h

/-- What is known of the client processes and of the answers to their calls. -/
structure Clients (e : Env N A P C) (s : State N A P C) : Prop where
  served : ∀ p, s.hasInitialized p = true → s.init p = .served
  called : ∀ x, s.thread x ≠ .idle → s.hasInitialized (e.process x) = true
  started : ∀ x, s.handler x ≠ .idle → s.thread x ≠ .idle
  returned : ∀ x, s.thread x ≠ .idle → s.thread x ≠ .acquiring → s.handler x = .completed
  named : ∀ p, s.init p = .served → ∀ a ∈ e.names p, a ∉ e.localIpAddresses (e.host p) →
    a ∈ (s.server (e.host p)).nodes
  mac : ∀ p, (s.server p).mac = e.mac p

/-- What is known of the REQUESTs of an acquire call from the place where its
thread is in the loop of line 127. -/
structure Loop (e : Env N A P C) (s : State N A P C) : Prop where
  before : ∀ x, s.handler x = .idle ∨ s.handler x = .waiting → ∀ j, s.request (x, j) = .unsent
  ahead : ∀ x i, s.handler x = .sending i → ∀ j, i ≤ j → s.request (x, j) = .unsent
  beyond : ∀ x i, s.handler x = .awaiting i → ∀ j, i < j → s.request (x, j) = .unsent
  past : ∀ x i, s.handler x = .sending i ∨ s.handler x = .awaiting i → ∀ j, j < i →
    ∃ a pack, (s.server (e.node x)).nodes[j]? = some a ∧
      s.request (x, j) = .replied (e.resolve (e.node x) a) pack
  current : ∀ x i, s.handler x = .awaiting i → ∃ a pack,
    (s.server (e.node x)).nodes[i]? = some a ∧
      (s.request (x, i)).MadeTo (e.resolve (e.node x) a) pack
  answered : ∀ x, s.handler x = .completed → ∀ j, s.request (x, j) = .unsent ∨
    ∃ q pack, s.request (x, j) = .replied q pack
  granted : ∀ x, s.handler x = .completed → ∀ a ∈ e.names (e.process x),
    a ∉ e.localIpAddresses (e.node x) → ∃ j pack,
      s.request (x, j) = .replied (e.resolve (e.node x) a) pack

theorem clients_initial (e : Env N A P C) : Clients e (initial e) := by
  constructor <;> simp [initial, initializeGlobalVariable]

theorem loop_initial (e : Env N A P C) : Loop e (initial e) := by
  constructor <;> simp [initial]

/-- The `nodes` array of its server holds what the process of an acquire call named. -/
theorem named_of_started {e : Env N A P C} {s : State N A P C} (hc : Clients e s) {x : C}
    (hx : s.handler x ≠ .idle) {a : A} (ha : a ∈ e.names (e.process x))
    (hl : a ∉ e.localIpAddresses (e.node x)) : a ∈ (s.server (e.node x)).nodes := by
  have hserved := hc.served _ (hc.called x (hc.started x hx))
  exact hc.named (e.process x) hserved a ha hl

/-- When the loop ends, everything that was named has been asked and has answered. -/
theorem granted_of_ends {e : Env N A P C} {s : State N A P C} (hc : Clients e s) (hl : Loop e s)
    {x : C} {k : ℕ} (hx : s.handler x = .sending k)
    (hk : (s.server (e.node x)).nodes.length ≤ k) {b : A} (hb : b ∈ e.names (e.process x))
    (hloc : b ∉ e.localIpAddresses (e.node x)) :
    ∃ j pack, s.request (x, j) = .replied (e.resolve (e.node x) b) pack := by
  have hmem := named_of_started hc (by simp [hx]) hb hloc
  obtain ⟨j, hj, rfl⟩ := List.getElem_of_mem hmem
  obtain ⟨c, pack, hc', hr⟩ := hl.past x k (.inl hx) j (by omega)
  rw [List.getElem?_eq_getElem hj] at hc'
  obtain rfl := Option.some.inj hc'
  exact ⟨j, pack, hr⟩

variable [DecidableEq N] [DecidableEq A] [DecidableEq P] [DecidableEq C]

/-- A step never removes an entry of any `nodes` array, nor changes an address. -/
theorem nodes_effect {e : Env N A P C} {s s' : State N A P C} {a : Action P C}
    (h : Effect e s a s') (p : N) :
    (s.server p).nodes <+: (s'.server p).nodes ∧ (s'.server p).mac = (s.server p).mac := by
  have hu : ∀ q srv, (s.server q).nodes <+: srv.nodes → srv.mac = (s.server q).mac →
      (s.server p).nodes <+: (Function.update s.server q srv p).nodes ∧
        (Function.update s.server q srv p).mac = (s.server p).mac := by
    intro q srv hn hm
    exact (Function.forall_update_iff s.server fun p srv =>
      (s.server p).nodes <+: srv.nodes ∧ srv.mac = (s.server p).mac).mpr
        ⟨⟨hn, hm⟩, fun _ _ => ⟨List.prefix_rfl, rfl⟩⟩ p
  cases h with
  | initServe q hi => exact hu _ _ (List.prefix_append _ _) rfl
  | acquireArrive x ht hh => exact hu _ _ (by simp) (by simp)
  | acquireEnter x srv hh hs =>
    obtain ⟨-, hn, hm, -⟩ := acquireEnter_eq_some hs
    exact hu _ _ (by rw [hn]) hm
  | defer x i q pack hr hd => exact hu _ _ (by simp) (by simp)
  | grant x i q pack hr hd => exact hu _ _ (by simp) (by simp)
  | releaseServe x woken srv ht hs =>
    obtain ⟨-, hn, hm, -⟩ := releaseLock1Svc_eq_some hs
    exact hu _ _ (by rw [hn]) hm
  | _ => exact ⟨List.prefix_rfl, rfl⟩

theorem getElem?_nodes_effect {e : Env N A P C} {s s' : State N A P C} {a : Action P C}
    (h : Effect e s a s') {p : N} {j : ℕ} {b : A} (hb : (s.server p).nodes[j]? = some b) :
    (s'.server p).nodes[j]? = some b := by
  obtain ⟨hj, rfl⟩ := List.getElem?_eq_some_iff.mp hb
  exact List.prefix_iff_getElem?.mp (nodes_effect h p).1 j hj

/-- The life of the client thread of a call, as far as one step takes it. -/
theorem thread_effect {e : Env N A P C} {s s' : State N A P C} {a : Action P C}
    (h : Effect e s a s') (x : C) :
    s'.thread x = s.thread x ∨ s'.handler x = s.handler x ∧
      ((s.thread x = .idle ∧ s.hasInitialized (e.process x) = true ∧ s'.thread x = .acquiring) ∨
        (s.thread x = .acquiring ∧ s.handler x = .completed ∧ s'.thread x = .holding) ∨
        (s.thread x = .holding ∧ s'.thread x = .releasing) ∨
        (s.thread x = .releasing ∧ s'.thread x = .released)) := by
  cases h with
  | acquireCall y hi ht =>
    by_cases hx : x = y
    · subst hx
      exact .inr ⟨rfl, .inl ⟨ht, hi, Function.update_self ..⟩⟩
    · exact .inl (Function.update_of_ne hx ..)
  | acquireReturn y ht hh =>
    by_cases hx : x = y
    · subst hx
      exact .inr ⟨rfl, .inr (.inl ⟨ht, hh, Function.update_self ..⟩)⟩
    · exact .inl (Function.update_of_ne hx ..)
  | releaseCall y ht =>
    by_cases hx : x = y
    · subst hx
      exact .inr ⟨rfl, .inr (.inr (.inl ⟨ht, Function.update_self ..⟩))⟩
    · exact .inl (Function.update_of_ne hx ..)
  | releaseServe y woken srv ht hs =>
    by_cases hx : x = y
    · subst hx
      exact .inr ⟨rfl, .inr (.inr (.inr ⟨ht, Function.update_self ..⟩))⟩
    · exact .inl (Function.update_of_ne hx ..)
  | _ => exact .inl rfl

/-- The way of the thread of `acquire_lock_1_svc`, as far as one step takes it. -/
theorem handler_effect {e : Env N A P C} {s s' : State N A P C} {a : Action P C}
    (h : Effect e s a s') (x : C) :
    s'.handler x = s.handler x ∨ s'.thread x = s.thread x ∧
      ((s.handler x = .idle ∧ s.thread x ≠ .idle ∧ s'.handler x = .waiting) ∨
        (s.handler x = .waiting ∧ s'.handler x = .sending 0) ∨
        (∃ i a pack, s.handler x = .sending i ∧ s'.handler x = .awaiting i ∧
          (s.server (e.node x)).nodes[i]? = some a ∧
          s'.request (x, i) = .sent (e.resolve (e.node x) a) pack) ∨
        (∃ i q pack, s.handler x = .awaiting i ∧ s'.handler x = .sending (i + 1) ∧
          s.request (x, i) = .replied q pack ∧ s'.request (x, i) = .replied q pack) ∨
        (∃ i, s.handler x = .sending i ∧ s'.handler x = .completed ∧
          (s.server (e.node x)).nodes.length ≤ i)) := by
  cases h with
  | acquireArrive y ht hh =>
    by_cases hx : x = y
    · subst hx
      exact .inr ⟨rfl, .inl ⟨hh, ht, Function.update_self ..⟩⟩
    · exact .inl (Function.update_of_ne hx ..)
  | acquireEnter y srv hh hs =>
    by_cases hx : x = y
    · subst hx
      exact .inr ⟨rfl, .inr (.inl ⟨hh, Function.update_self ..⟩)⟩
    · exact .inl (Function.update_of_ne hx ..)
  | send y i a hh ha =>
    by_cases hx : x = y
    · subst hx
      exact .inr ⟨rfl, .inr (.inr (.inl
        ⟨i, a, _, hh, Function.update_self .., ha, Function.update_self ..⟩))⟩
    · exact .inl (Function.update_of_ne hx ..)
  | reply y i q pack hh hr =>
    by_cases hx : x = y
    · subst hx
      exact .inr ⟨rfl, .inr (.inr (.inr (.inl ⟨i, q, pack, hh, Function.update_self .., hr, hr⟩)))⟩
    · exact .inl (Function.update_of_ne hx ..)
  | complete y i hh hi =>
    by_cases hx : x = y
    · subst hx
      exact .inr ⟨rfl, .inr (.inr (.inr (.inr ⟨i, hh, Function.update_self .., hi⟩)))⟩
    · exact .inl (Function.update_of_ne hx ..)
  | _ => exact .inl rfl

/-- The INIT_LOCK_MGR call of a process, as far as one step takes it. -/
theorem init_effect {e : Env N A P C} {s s' : State N A P C} {a : Action P C}
    (h : Effect e s a s') (p : P) :
    (s.hasInitialized p = true → s'.hasInitialized p = true) ∧
      (s.init p = .served → s'.init p = .served) ∧
      (s'.hasInitialized p = true → s.hasInitialized p = true ∨ s.init p = .served) ∧
      (s'.init p = .served → s.init p = .served ∨ ∀ a ∈ e.names p,
        a ∉ e.localIpAddresses (e.host p) → a ∈ (s'.server (e.host p)).nodes) := by
  cases h with
  | initCall q hi =>
    by_cases hp : p = q
    · subst hp
      exact ⟨id, fun hs => by simp [hi] at hs, .inl, fun hs => by simp at hs⟩
    · exact ⟨id, fun hs => by simpa [hp] using hs, .inl, fun hs => .inl (by simpa [hp] using hs)⟩
  | initServe q hi =>
    by_cases hp : p = q
    · subst hp
      refine ⟨id, fun _ => Function.update_self .., .inl, fun _ => .inr ?_⟩
      intro a ha hl
      simp [initLockMgr1Svc, ha, hl]
    · exact ⟨id, fun hs => by simpa [hp] using hs, .inl, fun hs => .inl (by simpa [hp] using hs)⟩
  | initReturn q hi =>
    by_cases hp : p = q
    · subst hp
      exact ⟨fun _ => Function.update_self .., id, fun _ => .inr hi, .inl⟩
    · exact ⟨fun hs => by simpa [hp] using hs, id, fun hs => .inl (by simpa [hp] using hs), .inl⟩
  | _ => exact ⟨id, id, .inl, .inl⟩

/-- The way of a REQUEST call, as far as one step takes it. -/
theorem request_effect {e : Env N A P C} {s s' : State N A P C} {a : Action P C}
    (h : Effect e s a s') (x : C) (j : ℕ) :
    s'.request (x, j) = s.request (x, j) ∨
      (s.handler x = .sending j ∧ s'.handler x = .awaiting j ∧
        ∃ q pack, s'.request (x, j) = .sent q pack) ∨
      (∃ q pack, s.request (x, j) = .sent q pack ∧ (s'.request (x, j)).SeenBy q pack) ∨
      (∃ q pack, s.request (x, j) = .parked q pack ∧ s'.request (x, j) = .replied q pack) := by
  cases h with
  | send y i b hh hb =>
    by_cases hx : (x, j) = (y, i)
    · obtain ⟨rfl, rfl⟩ := Prod.mk.inj hx
      exact .inr (.inl ⟨hh, by simp, _, _, Function.update_self _ _ _⟩)
    · exact .inl (by simp only [Function.update_of_ne hx])
  | defer y i q pack hr hd =>
    by_cases hx : (x, j) = (y, i)
    · exact .inr (.inr (.inl ⟨q, pack, hx ▸ hr, .inl (by simp [hx])⟩))
    · exact .inl (by simp only [Function.update_of_ne hx])
  | grant y i q pack hr hd =>
    by_cases hx : (x, j) = (y, i)
    · exact .inr (.inr (.inl ⟨q, pack, hx ▸ hr, .inr (by simp [hx])⟩))
    · exact .inl (by simp only [Function.update_of_ne hx])
  | releaseServe y woken srv ht hs =>
    by_cases hw : (x, j) ∈ woken
    · cases hr : s.request (x, j) with
      | parked q pack => exact .inr (.inr (.inr ⟨q, pack, rfl, by simp [hw, hr, Request.wake]⟩))
      | _ => exact .inl (by simp [hw, hr, Request.wake])
    · exact .inl (by simp [hw])
  | _ => exact .inl rfl

theorem called_effect {e : Env N A P C} {s s' : State N A P C} {a : Action P C}
    (h : Effect e s a s') {x : C} (hx : s.thread x ≠ .idle) : s'.thread x ≠ .idle := by
  rcases thread_effect h x with ht | ⟨-, ⟨ht, -⟩ | ⟨-, -, ht⟩ | ⟨-, ht⟩ | ⟨-, ht⟩⟩
  · rwa [ht]
  · exact (hx ht).elim
  · simp [ht]
  · simp [ht]
  · simp [ht]

theorem completed_effect {e : Env N A P C} {s s' : State N A P C} {a : Action P C}
    (h : Effect e s a s') {x : C} (hx : s.handler x = .completed) :
    s'.handler x = .completed := by
  rcases handler_effect h x with hh | ⟨-, ⟨hh, -⟩ | ⟨hh, -⟩ | ⟨i, b, pack, hh, -⟩ |
    ⟨i, q, pack, hh, -⟩ | ⟨i, hh, -⟩⟩
  · exact hh.trans hx
  · simp [hx] at hh
  · simp [hx] at hh
  · simp [hx] at hh
  · simp [hx] at hh
  · simp [hx] at hh

theorem clients_effect {e : Env N A P C} {s s' : State N A P C} {a : Action P C}
    (hc : Clients e s) (h : Effect e s a s') : Clients e s' := by
  refine ⟨?_, ?_, ?_, ?_, ?_, ?_⟩
  · intro p hp
    obtain ⟨-, hkeep, hcases, -⟩ := init_effect h p
    rcases hcases hp with hp | hp
    · exact hkeep (hc.served p hp)
    · exact hkeep hp
  · intro x hx
    obtain ⟨hkeep, -⟩ := init_effect h (e.process x)
    apply hkeep
    rcases thread_effect h x with ht | ⟨-, ⟨-, hi, -⟩ | ⟨ht, -⟩ | ⟨ht, -⟩ | ⟨ht, -⟩⟩
    · exact hc.called x (ht ▸ hx)
    · exact hi
    · exact hc.called x (by simp [ht])
    · exact hc.called x (by simp [ht])
    · exact hc.called x (by simp [ht])
  · intro x hx
    apply called_effect h
    rcases handler_effect h x with hh | ⟨-, ⟨-, ht, -⟩ | ⟨hh, -⟩ | ⟨i, b, pack, hh, -⟩ |
      ⟨i, q, pack, hh, -⟩ | ⟨i, hh, -⟩⟩
    · exact hc.started x (hh ▸ hx)
    · exact ht
    · exact hc.started x (by simp [hh])
    · exact hc.started x (by simp [hh])
    · exact hc.started x (by simp [hh])
    · exact hc.started x (by simp [hh])
  · intro x hx hx'
    apply completed_effect h
    rcases thread_effect h x with ht | ⟨-, ⟨-, -, ht⟩ | ⟨-, hh, -⟩ | ⟨ht, -⟩ | ⟨ht, -⟩⟩
    · exact hc.returned x (ht ▸ hx) (ht ▸ hx')
    · exact (hx' ht).elim
    · exact hh
    · exact hc.returned x (by simp [ht]) (by simp [ht])
    · exact hc.returned x (by simp [ht]) (by simp [ht])
  · intro p hp a ha hl
    obtain ⟨-, -, -, hcases⟩ := init_effect h p
    rcases hcases hp with hp | hp
    · exact (nodes_effect h (e.host p)).1.subset (hc.named p hp a ha hl)
    · exact hp a ha hl
  · intro p
    rw [(nodes_effect h p).2]
    exact hc.mac p

theorem unsent_effect {e : Env N A P C} {s s' : State N A P C} {a : Action P C}
    (h : Effect e s a s') {x : C} {j : ℕ} (hu : s.request (x, j) = .unsent)
    (hx : s'.handler x ≠ .awaiting j) : s'.request (x, j) = .unsent := by
  rcases request_effect h x j with hr | ⟨-, hr, -⟩ | ⟨q, pack, hr, -⟩ | ⟨q, pack, hr, -⟩
  · exact hr.trans hu
  · exact (hx hr).elim
  · simp [hu] at hr
  · simp [hu] at hr

/-- Once its handler has replied, a REQUEST is over. -/
theorem replied_effect {e : Env N A P C} {s s' : State N A P C} {a : Action P C}
    (hl : Loop e s) (h : Effect e s a s') {x : C} {j : ℕ} {q : N} {pack : RequestPack ℤ}
    (hr : s.request (x, j) = .replied q pack) : s'.request (x, j) = .replied q pack := by
  rcases request_effect h x j with hr' | ⟨hh, -⟩ | ⟨q', pack', hr', -⟩ | ⟨q', pack', hr', -⟩
  · exact hr'.trans hr
  · simp [hl.ahead x j hh j le_rfl] at hr
  · simp [hr] at hr'
  · simp [hr] at hr'

theorem madeTo_effect {e : Env N A P C} {s s' : State N A P C} {a : Action P C}
    (hl : Loop e s) (h : Effect e s a s') {x : C} {j : ℕ} {q : N} {pack : RequestPack ℤ}
    (hr : (s.request (x, j)).MadeTo q pack) : (s'.request (x, j)).MadeTo q pack := by
  rcases request_effect h x j with hr' | ⟨hh, -⟩ | ⟨q', pack', hr', hs⟩ | ⟨q', pack', hr', hs⟩
  · rwa [hr']
  · simp [Request.MadeTo, hl.ahead x j hh j le_rfl] at hr
  · obtain ⟨rfl, rfl⟩ : q' = q ∧ pack' = pack := by simpa [Request.MadeTo, hr'] using hr
    exact hs.madeTo
  · obtain ⟨rfl, rfl⟩ : q' = q ∧ pack' = pack := by simpa [Request.MadeTo, hr'] using hr
    exact .inr (.inr hs)

theorem seenBy_effect {e : Env N A P C} {s s' : State N A P C} {a : Action P C}
    (hl : Loop e s) (h : Effect e s a s') {x : C} {j : ℕ} {q : N} {pack : RequestPack ℤ}
    (hr : (s.request (x, j)).SeenBy q pack) : (s'.request (x, j)).SeenBy q pack := by
  rcases request_effect h x j with hr' | ⟨hh, -⟩ | ⟨q', pack', hr', -⟩ | ⟨q', pack', hr', hs⟩
  · rwa [hr']
  · simp [Request.SeenBy, hl.ahead x j hh j le_rfl] at hr
  · simp [Request.SeenBy, hr'] at hr
  · obtain ⟨rfl, rfl⟩ : q' = q ∧ pack' = pack := by simpa [Request.SeenBy, hr'] using hr
    exact .inr hs

/-- An open call stays open until it is released. -/
theorem open_effect {e : Env N A P C} {s s' : State N A P C} {a : Action P C}
    (h : Effect e s a s') {x : C} (hx : Open s x) (hx' : s'.thread x ≠ .released) :
    Open s' x := by
  obtain ⟨hidle, hwaiting, -⟩ := hx
  rcases handler_effect h x with hh | ⟨-, ⟨hh, -⟩ | ⟨hh, -⟩ | ⟨k, b, pack, -, hh, -⟩ |
    ⟨k, q, pack, -, hh, -⟩ | ⟨k, -, hh, -⟩⟩
  · exact ⟨hh ▸ hidle, hh ▸ hwaiting, hx'⟩
  · exact (hidle hh).elim
  · exact (hwaiting hh).elim
  · exact ⟨by simp [hh], by simp [hh], hx'⟩
  · exact ⟨by simp [hh], by simp [hh], hx'⟩
  · exact ⟨by simp [hh], by simp [hh], hx'⟩

/-- How a call gets to the head of the loop of line 127. -/
theorem sending_effect {e : Env N A P C} {s s' : State N A P C} {a : Action P C}
    (h : Effect e s a s') {x : C} {i : ℕ} (hx : s'.handler x = .sending i) :
    s.handler x = .sending i ∨ (s.handler x = .waiting ∧ i = 0) ∨
      ∃ k q pack, i = k + 1 ∧ s.handler x = .awaiting k ∧ s.request (x, k) = .replied q pack ∧
        s'.request (x, k) = .replied q pack := by
  rcases handler_effect h x with hh | ⟨-, ⟨-, -, hh'⟩ | ⟨hh, hh'⟩ | ⟨k, b, pack, -, hh', -⟩ |
    ⟨k, q, pack, hh, hh', hr, hr'⟩ | ⟨k, -, hh', -⟩⟩
  · exact .inl (hh.symm.trans hx)
  · simp [hx] at hh'
  · exact .inr (.inl ⟨hh, by simpa [hx] using hh'⟩)
  · simp [hx] at hh'
  · exact .inr (.inr ⟨k, q, pack, by simpa [hx] using hh', hh, hr, hr'⟩)
  · simp [hx] at hh'

/-- How a call gets into `request_1`. -/
theorem awaiting_effect {e : Env N A P C} {s s' : State N A P C} {a : Action P C}
    (h : Effect e s a s') {x : C} {i : ℕ} (hx : s'.handler x = .awaiting i) :
    s.handler x = .awaiting i ∨ s.handler x = .sending i ∧ ∃ b pack,
      (s.server (e.node x)).nodes[i]? = some b ∧
        s'.request (x, i) = .sent (e.resolve (e.node x) b) pack := by
  rcases handler_effect h x with hh | ⟨-, ⟨-, -, hh'⟩ | ⟨-, hh'⟩ | ⟨k, b, pack, hh, hh', hb, hr⟩ |
    ⟨k, q, pack, -, hh', -⟩ | ⟨k, -, hh', -⟩⟩
  · exact .inl (hh.symm.trans hx)
  · simp [hx] at hh'
  · simp [hx] at hh'
  · obtain rfl : i = k := by simpa [hx] using hh'
    exact .inr ⟨hh, b, pack, hb, hr⟩
  · simp [hx] at hh'
  · simp [hx] at hh'

/-- How a call gets to the end of `acquire_lock_1_svc`. -/
theorem completes_effect {e : Env N A P C} {s s' : State N A P C} {a : Action P C}
    (h : Effect e s a s') {x : C} (hx : s'.handler x = .completed) :
    s.handler x = .completed ∨ ∃ i, s.handler x = .sending i ∧
      (s.server (e.node x)).nodes.length ≤ i := by
  rcases handler_effect h x with hh | ⟨-, ⟨-, -, hh'⟩ | ⟨-, hh'⟩ | ⟨k, b, pack, -, hh', -⟩ |
    ⟨k, q, pack, -, hh', -⟩ | ⟨k, hh, -, hk⟩⟩
  · exact .inl (hh.symm.trans hx)
  · simp [hx] at hh'
  · simp [hx] at hh'
  · simp [hx] at hh'
  · simp [hx] at hh'
  · exact .inr ⟨k, hh, hk⟩

theorem before_effect {e : Env N A P C} {s s' : State N A P C} {a : Action P C}
    (h : Effect e s a s') {x : C} (hx : s'.handler x = .idle ∨ s'.handler x = .waiting) :
    s.handler x = .idle ∨ s.handler x = .waiting := by
  rcases handler_effect h x with hh | ⟨-, ⟨hh, -⟩ | ⟨hh, -⟩ | ⟨k, b, pack, -, hh', -⟩ |
    ⟨k, q, pack, -, hh', -⟩ | ⟨k, -, hh', -⟩⟩
  · rwa [hh] at hx
  · exact .inl hh
  · exact .inr hh
  · simp [hh'] at hx
  · simp [hh'] at hx
  · simp [hh'] at hx

/-- The REQUESTs that are past stay answered, and the current one joins them when its
reply is taken. -/
theorem past_effect {e : Env N A P C} {s s' : State N A P C} {a : Action P C} (hl : Loop e s)
    (h : Effect e s a s') {x : C} {i j : ℕ}
    (hx : s'.handler x = .sending i ∨ s'.handler x = .awaiting i) (hj : j < i) :
    ∃ b pack, (s'.server (e.node x)).nodes[j]? = some b ∧
      s'.request (x, j) = .replied (e.resolve (e.node x) b) pack := by
  have hkeep : ∀ k, s.handler x = .sending k ∨ s.handler x = .awaiting k → j < k →
      ∃ b pack, (s'.server (e.node x)).nodes[j]? = some b ∧
        s'.request (x, j) = .replied (e.resolve (e.node x) b) pack := by
    intro k hk hjk
    obtain ⟨b, pack, hb, hr⟩ := hl.past x k hk j hjk
    exact ⟨b, pack, getElem?_nodes_effect h hb, replied_effect hl h hr⟩
  rcases hx with hx | hx
  · rcases sending_effect h hx with hh | ⟨-, rfl⟩ | ⟨k, q, pack, rfl, hh, hr, hr'⟩
    · exact hkeep i (.inl hh) hj
    · omega
    · rcases Nat.lt_succ_iff_lt_or_eq.mp hj with hjk | rfl
      · exact hkeep k (.inr hh) hjk
      · obtain ⟨b, pack', hb, hm⟩ := hl.current x j hh
        obtain ⟨rfl, rfl⟩ : q = e.resolve (e.node x) b ∧ pack = pack' := by
          simpa [Request.MadeTo, hr] using hm
        exact ⟨b, pack, getElem?_nodes_effect h hb, hr'⟩
  · rcases awaiting_effect h hx with hh | ⟨hh, -⟩
    · exact hkeep i (.inr hh) hj
    · exact hkeep i (.inl hh) hj

theorem loop_effect {e : Env N A P C} {s s' : State N A P C} {a : Action P C}
    (hc : Clients e s) (hl : Loop e s) (h : Effect e s a s') : Loop e s' := by
  refine ⟨?_, ?_, ?_, ?_, ?_, ?_, ?_⟩
  · intro x hx j
    refine unsent_effect h (hl.before x (before_effect h hx) j) ?_
    rcases hx with hx | hx
    · simp [hx]
    · simp [hx]
  · intro x i hx j hj
    refine unsent_effect h ?_ (by simp [hx])
    rcases sending_effect h hx with hh | ⟨hh, -⟩ | ⟨k, q, pack, rfl, hh, -⟩
    · exact hl.ahead x i hh j hj
    · exact hl.before x (.inr hh) j
    · exact hl.beyond x k hh j (by omega)
  · intro x i hx j hj
    refine unsent_effect h ?_ (by simp [hx]; omega)
    rcases awaiting_effect h hx with hh | ⟨hh, -⟩
    · exact hl.beyond x i hh j hj
    · exact hl.ahead x i hh j (by omega)
  · intro x i hx j hj
    exact past_effect hl h hx hj
  · intro x i hx
    rcases awaiting_effect h hx with hh | ⟨-, b, pack, hb, hr⟩
    · obtain ⟨b, pack, hb, hm⟩ := hl.current x i hh
      exact ⟨b, pack, getElem?_nodes_effect h hb, madeTo_effect hl h hm⟩
    · exact ⟨b, pack, getElem?_nodes_effect h hb, .inl hr⟩
  · intro x hx j
    have hkeep : s.request (x, j) = .unsent ∨ (∃ q pack, s.request (x, j) = .replied q pack) →
        s'.request (x, j) = .unsent ∨ ∃ q pack, s'.request (x, j) = .replied q pack := by
      rintro (hu | ⟨q, pack, hr⟩)
      · exact .inl (unsent_effect h hu (by simp [hx]))
      · exact .inr ⟨q, pack, replied_effect hl h hr⟩
    apply hkeep
    rcases completes_effect h hx with hh | ⟨k, hh, -⟩
    · exact hl.answered x hh j
    · rcases Nat.lt_or_ge j k with hj | hj
      · obtain ⟨b, pack, -, hr⟩ := hl.past x k (.inl hh) j hj
        exact .inr ⟨_, pack, hr⟩
      · exact .inl (hl.ahead x k hh j hj)
  · intro x hx b hb hloc
    have hgranted : ∃ j pack, s.request (x, j) = .replied (e.resolve (e.node x) b) pack := by
      rcases completes_effect h hx with hh | ⟨k, hh, hk⟩
      · exact hl.granted x hh b hb hloc
      · exact granted_of_ends hc hl hh hk hb hloc
    obtain ⟨j, pack, hr⟩ := hgranted
    exact ⟨j, pack, replied_effect hl h hr⟩

end DistributedSystem.LockProtocol
