import DistributedSystem.NodeList
import DistributedSystem.Transition

/-!
# Concurrent initialisations

The dispatcher runs every INIT_LOCK_MGR call in a thread of its own, and `strtok` keeps its
position in one place for the whole process. Each call of `strtok` and each append to
`nodes` is one step here. The state of `strtok` is the string at its saved position: the
copies that the threads split are never freed or changed otherwise, and a token that was
found has its final zero already.

A thread that starts while another one has names left moves the position away from them,
and they are lost.
-/
namespace DistributedSystem.NodeRaces
open NodeList Tokens Transition

variable {T : Type}

/-- The threads' arguments, and the addresses of the host. -/
structure Env (T : Type) where
  nodeStr : T → CString
  localIpAddresses : List CString

/-- Where a thread of `init_lock_mgr_1_svc` is: before its first `strtok`, with a token that
it is about to look up and append, before `strtok(NULL, ",")`, and past its loop. -/
inductive Loop where
  | start
  | token (pch : CString)
  | next
  | returned
  deriving DecidableEq, Repr

structure State (T : Type) where
  saved : CString
  nodes : List CString
  loop : T → Loop

/-- Calls that have not started yet, on a server that has `nodes` already. -/
def initial (nodes : List CString) : State T where
  saved := []
  nodes := nodes
  loop _ := .start

variable [DecidableEq T]

/-- What `strtok` returns to the thread `t` and saves for all threads. -/
def found (s : State T) (t : T) : Option (CString × CString) → State T
  | none => { s with saved := [], loop := Function.update s.loop t .returned }
  | some (pch, rest) => { s with saved := rest, loop := Function.update s.loop t (.token pch) }

/-- One step of the thread `t`. -/
def step (e : Env T) (s : State T) (t : T) : Option (State T) :=
  match s.loop t with
  | .start =>
    if e.localIpAddresses = [] then none else some (found s t (strtok comma (e.nodeStr t)))
  | .token pch =>
    some { s with
      nodes := if pch ∈ e.localIpAddresses then s.nodes else s.nodes ++ [pch]
      loop := Function.update s.loop t .next }
  | .next => some (found s t (strtok comma s.saved))
  | .returned => none

/-- The guard of the runs in which a thread makes its first call of `strtok` only when no
token is left at the saved position. -/
def NothingLeft (s : State T) (t : T) : Prop :=
  s.loop t = .start → strtok comma s.saved = none

instance (s : State T) (t : T) : Decidable (NothingLeft s t) :=
  inferInstanceAs (Decidable (s.loop t = .start → strtok comma s.saved = none))

/-- Every peer that is named in the string of a thread that has started is in `nodes`, or a
thread is about to append it, or it is still to be found; and while something is still
to be found, some thread goes on to look for it. -/
structure Kept (e : Env T) (s : State T) : Prop where
  named : ∀ t, s.loop t ≠ .start → ∀ node ∈ peers e.localIpAddresses (e.nodeStr t),
    node ∈ s.nodes ∨ (∃ u, s.loop u = .token node) ∨ node ∈ tokens comma s.saved
  looking : tokens comma s.saved ≠ [] → ∃ u, s.loop u ≠ .start ∧ s.loop u ≠ .returned

omit [DecidableEq T] in
theorem kept_initial (e : Env T) (nodes : List CString) : Kept e (initial nodes : State T) := by
  constructor
  · intro t ht
    exact (ht rfl).elim
  · simp [initial]

/-- A call of `strtok` on a string that has all tokens that were still to be found, and those
of the thread itself if it has just started, loses none. -/
theorem kept_found {e : Env T} {s : State T} {t : T} {str : CString} (h : Kept e s)
    (ht : ∀ pch, s.loop t ≠ .token pch)
    (hsaved : ∀ node ∈ tokens comma s.saved, node ∈ tokens comma str)
    (hstart : s.loop t = .start → str = e.nodeStr t) : Kept e (found s t (strtok comma str)) := by
  have hnamed : ∀ u, (u ≠ t → s.loop u ≠ .start) →
      ∀ node ∈ peers e.localIpAddresses (e.nodeStr u),
      node ∈ s.nodes ∨ (∃ v, v ≠ t ∧ s.loop v = .token node) ∨ node ∈ tokens comma str := by
    intro u hu node hnode
    by_cases hown : u = t ∧ s.loop t = .start
    · obtain ⟨rfl, hut⟩ := hown
      rw [hstart hut]
      exact .inr (.inr (List.mem_of_mem_filter hnode))
    · have hne : s.loop u ≠ .start := by
        by_cases hut : u = t
        · subst hut
          exact fun hs => hown ⟨rfl, hs⟩
        · exact hu hut
      rcases h.named u hne node hnode with hin | ⟨v, hv⟩ | hleft
      · exact .inl hin
      · refine .inr (.inl ⟨v, ?_, hv⟩)
        rintro rfl
        exact ht node hv
      · exact .inr (.inr (hsaved node hleft))
  have hmoved : ∀ (x : Loop) (u : T), Function.update s.loop t x u ≠ .start →
      ∀ node ∈ peers e.localIpAddresses (e.nodeStr u),
      node ∈ s.nodes ∨ (∃ v, Function.update s.loop t x v = .token node) ∨
        node ∈ tokens comma str := by
    intro x u hu node hnode
    have hother : u ≠ t → s.loop u ≠ .start := by
      intro hut
      rwa [Function.update_of_ne hut] at hu
    rcases hnamed u hother node hnode with hin | ⟨v, hvt, hv⟩ | hleft
    · exact .inl hin
    · exact .inr (.inl ⟨v, by rwa [Function.update_of_ne hvt]⟩)
    · exact .inr (.inr hleft)
  cases hstr : strtok comma str with
  | none =>
    rw [tokens_of_strtok_eq_none hstr] at hmoved
    exact ⟨hmoved _, by simp [found]⟩
  | some r =>
    obtain ⟨pch, rest⟩ := r
    rw [tokens_of_strtok_eq_some hstr] at hmoved
    constructor
    · intro u hu node hnode
      rcases hmoved _ u hu node hnode with hin | hv | hleft
      · exact .inl hin
      · exact .inr (.inl hv)
      · rcases List.mem_cons.mp hleft with rfl | hrest
        · exact .inr (.inl ⟨t, by simp [found]⟩)
        · exact .inr (.inr hrest)
    · intro _
      exact ⟨t, by simp [found], by simp [found]⟩

/-- A thread that has looked its token up has appended it, or it is a local address. -/
theorem kept_append {e : Env T} {s : State T} {t : T} {pch : CString} (h : Kept e s)
    (ht : s.loop t = .token pch) :
    Kept e { s with
      nodes := if pch ∈ e.localIpAddresses then s.nodes else s.nodes ++ [pch]
      loop := Function.update s.loop t .next } := by
  have hnodes : ∀ node ∈ s.nodes,
      node ∈ if pch ∈ e.localIpAddresses then s.nodes else s.nodes ++ [pch] := by
    intro node hnode
    split_ifs
    · exact hnode
    · exact List.mem_append_left _ hnode
  constructor
  · intro u hu node hnode
    have hne : s.loop u ≠ .start := by
      by_cases hut : u = t
      · simp [hut, ht]
      · simpa [Function.update_of_ne hut] using hu
    rcases h.named u hne node hnode with hin | ⟨v, hv⟩ | hleft
    · exact .inl (hnodes node hin)
    · by_cases hvt : v = t
      · obtain rfl : pch = node := by simpa [hvt, ht] using hv
        have hpeer : pch ∉ e.localIpAddresses := by simpa using (List.mem_filter.mp hnode).2
        left
        simp [hpeer]
      · exact .inr (.inl ⟨v, by simpa [Function.update_of_ne hvt] using hv⟩)
    · exact .inr (.inr hleft)
  · intro hleft
    obtain ⟨u, hu⟩ := h.looking hleft
    by_cases hut : u = t
    · exact ⟨t, by simp, by simp⟩
    · exact ⟨u, by simpa [Function.update_of_ne hut] using hu⟩

theorem kept_step {e : Env T} {s s' : State T} {t : T} (h : Kept e s) (hg : NothingLeft s t)
    (hs : step e s t = some s') : Kept e s' := by
  unfold step at hs
  split at hs
  · rename_i hstart
    split_ifs at hs
    obtain rfl := Option.some.inj hs
    refine kept_found h ?_ ?_ fun _ => rfl
    · simp [hstart]
    · rw [tokens_of_strtok_eq_none (hg hstart)]
      simp
  · rename_i pch htoken
    obtain rfl := Option.some.inj hs
    exact kept_append h htoken
  · rename_i hnext
    obtain rfl := Option.some.inj hs
    refine kept_found h ?_ (fun _ hnode => hnode) ?_
    · simp [hnext]
    · simp [hnext]
  · cases hs

/-- In every run in which a thread starts only when no token is left at the saved position:
when all calls have returned, every address of their strings that is not the server's own
is in `nodes`. -/
theorem no_peer_lost {e : Env T} {nodes : List CString} {s : State T}
    (h : Reaches (step e) NothingLeft (initial nodes) s) (hreturned : ∀ t, s.loop t = .returned)
    (t : T) : ∀ node ∈ peers e.localIpAddresses (e.nodeStr t), node ∈ s.nodes := by
  have hkept : Kept e s := h.invariant (Kept e) (kept_initial e nodes)
    fun _ _ _ hk hg hs => kept_step hk hg hs
  have hnone : tokens comma s.saved = [] := by
    by_contra hleft
    obtain ⟨u, -, hu⟩ := hkept.looking hleft
    exact hu (hreturned u)
  intro node hnode
  rcases hkept.named t (by simp [hreturned t]) node hnode with hin | ⟨u, hu⟩ | hleft
  · exact hin
  · cases (hreturned u).symm.trans hu
  · rw [hnone] at hleft
    cases hleft

/-- Two calls, with "a,b" and with "c,d". -/
def twoCalls : Env Bool where
  nodeStr t := [comma].intercalate (if t then [letter 2, letter 3] else [letter 0, letter 1])
  localIpAddresses := [letter 25]

/-- One call after the other. -/
def oneByOne : List Bool :=
  [false, false, false, false, false, true, true, true, true, true]

/-- The second call starts when the first has found its first token; the first one then goes
on in the string of the second. -/
def overtaking : List Bool := [false, true, false, false, false, false, true, true]

theorem no_peer_lost_oneByOne : ∃ s, exec (step twoCalls) (initial []) oneByOne = some s ∧
    ∀ t, ∀ node ∈ peers [letter 25] (twoCalls.nodeStr t), node ∈ s.nodes := by
  have hrun : (exec (step twoCalls) (initial []) oneByOne).map
      (fun s => (s.loop false, s.loop true)) = some (.returned, .returned) := by
    decide +kernel
  obtain ⟨s, hs, hloop⟩ := Option.map_eq_some_iff.mp hrun
  have hguard : Along (step twoCalls) NothingLeft (initial []) oneByOne := by
    decide +kernel
  refine ⟨s, hs, no_peer_lost (reaches_of_exec oneByOne hs hguard) ?_⟩
  intro t
  obtain ⟨hfalse, htrue⟩ := Prod.mk.inj hloop
  cases t with
  | false => exact hfalse
  | true => exact htrue

/-- The address "b" is lost. -/
theorem peer_lost : ∃ s, exec (step twoCalls) (initial []) overtaking = some s ∧
    (∀ t, s.loop t = .returned) ∧ letter 1 ∈ peers [letter 25] (twoCalls.nodeStr false) ∧
    letter 1 ∉ s.nodes := by
  have hrun : (exec (step twoCalls) (initial []) overtaking).map
      (fun s => (s.loop false, s.loop true, s.nodes)) =
        some (.returned, .returned, [letter 0, letter 3, letter 2]) := by
    decide +kernel
  obtain ⟨s, hs, hloop⟩ := Option.map_eq_some_iff.mp hrun
  obtain ⟨hfalse, hrest⟩ := Prod.mk.inj hloop
  obtain ⟨htrue, hnodes⟩ := Prod.mk.inj hrest
  refine ⟨s, hs, ?_, by decide, ?_⟩
  · intro t
    cases t with
    | false => exact hfalse
    | true => exact htrue
  · rw [hnodes]
    decide

end DistributedSystem.NodeRaces
