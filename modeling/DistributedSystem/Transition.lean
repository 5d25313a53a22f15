import Mathlib.Tactic

/-!
# Transition systems and their runs

A system is a partial step function: an action that is not enabled has no
successor. A schedule is a list of actions, and `exec` executes it. `Reaches G`
collects the states of every run whose steps all meet the guard `G`; the
unrestricted runs are the case of the guard that always holds. A safety result
is then one step lemma together with `Reaches.invariant`.
-/
namespace DistributedSystem.Transition

variable {σ τ α β : Type*}

/-- Execute a schedule, failing as soon as one of its actions is not enabled. -/
def exec (step : σ → α → Option σ) : σ → List α → Option σ
  | s, [] => some s
  | s, a :: as => (step s a).bind fun s' => exec step s' as

/-- The states of all runs from `s₀` in which every step meets the guard `G`,
a condition on the action and on the state it is taken in. -/
inductive Reaches (step : σ → α → Option σ) (G : σ → α → Prop) (s₀ : σ) : σ → Prop
  | refl : Reaches step G s₀ s₀
  | tail {s s' : σ} {a : α} : Reaches step G s₀ s → G s a → step s a = some s' →
      Reaches step G s₀ s'

/-- The guard of the unrestricted runs. -/
def anyStep (_ : σ) (_ : α) : Prop := True

/-- Every step of the schedule meets the guard in the state it is taken in. -/
def Along (step : σ → α → Option σ) (G : σ → α → Prop) : σ → List α → Prop
  | _, [] => True
  | s, a :: as => G s a ∧ ∀ s', step s a = some s' → Along step G s' as

/-- Every state that the schedule visits satisfies `Inv`, the first one included. -/
def Throughout (step : σ → α → Option σ) (Inv : σ → Prop) : σ → List α → Prop
  | s, [] => Inv s
  | s, a :: as => Inv s ∧ ∀ s', step s a = some s' → Throughout step Inv s' as

/-- What an execution of the schedule shows of itself, where `view` is what one step shows. -/
def observed (step : σ → α → Option σ) (view : σ → α → List β) : σ → List α → List β
  | _, [] => []
  | s, a :: as => view s a ++ (step s a).elim [] fun s' => observed step view s' as

instance decidableAlong (step : σ → α → Option σ) (G : σ → α → Prop)
    [∀ s a, Decidable (G s a)] : ∀ s as, Decidable (Along step G s as)
  | _, [] => isTrue trivial
  | s, a :: as =>
    match h : step s a with
    | none => decidable_of_iff (G s a) (by simp [Along, h])
    | some s' =>
      have := decidableAlong step G s' as
      decidable_of_iff (G s a ∧ Along step G s' as) (by simp [Along, h])

variable {step : σ → α → Option σ} {G H : σ → α → Prop} {s₀ s s' : σ}

namespace Reaches

/-- The invariant rule: what holds at the start and is kept by every step that
meets the guard holds in every state of every such run. -/
theorem invariant (h : Reaches step G s₀ s) (Inv : σ → Prop) (h₀ : Inv s₀)
    (hstep : ∀ s a s', Inv s → G s a → step s a = some s' → Inv s') : Inv s := by
  induction h with
  | refl => exact h₀
  | tail _ hg hs ih => exact hstep _ _ _ ih hg hs

/-- The rule for an invariant whose step lemma needs another invariant `J`. -/
theorem invariant_with (h : Reaches step G s₀ s) (J Inv : σ → Prop) (hJ₀ : J s₀)
    (hJ : ∀ s a s', J s → G s a → step s a = some s' → J s') (h₀ : Inv s₀)
    (hstep : ∀ s a s', J s → Inv s → G s a → step s a = some s' → Inv s') : J s ∧ Inv s := by
  refine h.invariant (fun s => J s ∧ Inv s) ⟨hJ₀, h₀⟩ ?_
  rintro s a s' ⟨hj, hi⟩ hg hs
  exact ⟨hJ s a s' hj hg hs, hstep s a s' hj hi hg hs⟩

theorem trans (h : Reaches step G s₀ s) (h' : Reaches step G s s') :
    Reaches step G s₀ s' := by
  induction h' with
  | refl => exact h
  | tail _ hg hs ih => exact ih.tail hg hs

/-- A weaker guard admits more runs. -/
theorem mono (h : Reaches step G s₀ s) (hGH : ∀ s a, G s a → H s a) :
    Reaches step H s₀ s := by
  induction h with
  | refl => exact .refl
  | tail _ hg hs ih => exact ih.tail (hGH _ _ hg) hs

end Reaches

/-- The progress rule: if every state with the invariant that is not at the end has a step to
a smaller one, then a run comes to the end. -/
theorem exists_reaches_of_decreasing (Inv Final : σ → Prop) (size : σ → ℕ)
    (hstep : ∀ s, Inv s → ¬ Final s → ∃ a s', G s a ∧ step s a = some s' ∧ Inv s' ∧
      size s' < size s) (h : Inv s) : ∃ s', Reaches step G s s' ∧ Inv s' ∧ Final s' := by
  induction hn : size s using Nat.strong_induction_on generalizing s with
  | _ n ih =>
    by_cases hfinal : Final s
    · exact ⟨s, .refl, h, hfinal⟩
    · obtain ⟨a, u, hg, hu, hinv, hlt⟩ := hstep s h hfinal
      obtain ⟨s', hr, hs'⟩ := ih (size u) (by omega) hinv rfl
      exact ⟨s', (Reaches.refl.tail hg hu).trans hr, hs'⟩

/-- A schedule that executes and meets the guard throughout is a run. -/
theorem reaches_of_exec (as : List α) (he : exec step s as = some s')
    (hg : Along step G s as) : Reaches step G s s' := by
  induction as generalizing s with
  | nil =>
    obtain rfl : s = s' := by simpa [exec] using he
    exact .refl
  | cons a as ih =>
    obtain ⟨u, hu, he⟩ := Option.bind_eq_some_iff.mp he
    exact (Reaches.refl.tail hg.1 hu).trans (ih he (hg.2 u hu))

/-- Every schedule meets the guard that always holds. -/
theorem along_anyStep (as : List α) (s : σ) : Along step anyStep s as := by
  induction as generalizing s with
  | nil => trivial
  | cons a as ih => exact ⟨trivial, fun s' _ => ih s'⟩

theorem reaches_of_exec_anyStep (as : List α) (he : exec step s as = some s') :
    Reaches step anyStep s s' :=
  reaches_of_exec as he (along_anyStep as s)

theorem Throughout.head {Inv : σ → Prop} {as : List α} (h : Throughout step Inv s as) : Inv s := by
  cases as with
  | nil => exact h
  | cons a as => exact h.1

/-- What every step that meets the guard keeps holds throughout a run that meets it. -/
theorem throughout_of_along {Inv : σ → Prop}
    (hkeep : ∀ s a s', Inv s → G s a → step s a = some s' → Inv s') (as : List α) (hi : Inv s)
    (h : Along step G s as) : Throughout step Inv s as := by
  induction as generalizing s with
  | nil => exact hi
  | cons a as ih =>
    refine ⟨hi, ?_⟩
    intro s' hs
    exact ih (hkeep s a s' hi h.1 hs) (h.2 s' hs)

/-- A guard that is exact: `Inv` survives a step from a state with the invariant `J`
if and only if the step meets the guard. Then a run meets the guard throughout if
and only if it visits no state outside `Inv`. -/
theorem along_iff_throughout {J Inv : σ → Prop} (hJ : ∀ s a s', J s → step s a = some s' → J s')
    (hkeep : ∀ s a s', J s → Inv s → step s a = some s' → (G s a ↔ Inv s'))
    (hstuck : ∀ s a, step s a = none → G s a) (as : List α) (hs : J s) (hi : Inv s) :
    Along step G s as ↔ Throughout step Inv s as := by
  induction as generalizing s with
  | nil => exact ⟨fun _ => hi, fun _ => trivial⟩
  | cons a as ih =>
    cases ha : step s a with
    | none => simp [Along, Throughout, ha, hi, hstuck s a ha]
    | some s' =>
      have hg := hkeep s a s' hs hi ha
      simp only [Along, Throughout, ha, Option.some.injEq, forall_eq', hi, true_and]
      constructor
      · rintro ⟨hga, hal⟩
        exact (ih (hJ s a s' hs ha) (hg.mp hga)).mp hal
      · intro hth
        exact ⟨hg.mpr hth.head, (ih (hJ s a s' hs ha) hth.head).mpr hth⟩

/-- The erasure rule. A step that is not kept leads to states that are still related, and a
kept step can be taken on the other side too; then the kept steps of a run are a run, and
the two end in related states. -/
theorem exec_filter {J : σ → Prop} {R : σ → σ → Prop} {keep : α → Bool}
    (hJ : ∀ s a s', J s → step s a = some s' → J s')
    (hskip : ∀ s a s' t, J s → R s t → keep a = false → step s a = some s' → R s' t)
    (hkeep : ∀ s a s' t, J s → J t → R s t → keep a = true → step s a = some s' →
      ∃ t', step t a = some t' ∧ R s' t')
    (as : List α) {t : σ} (hs : J s) (ht : J t) (hr : R s t) (h : exec step s as = some s') :
    ∃ t', exec step t (as.filter keep) = some t' ∧ R s' t' := by
  induction as generalizing s t with
  | nil =>
    obtain rfl : s = s' := by simpa [exec] using h
    exact ⟨t, rfl, hr⟩
  | cons a as ih =>
    obtain ⟨u, hu, h⟩ := Option.bind_eq_some_iff.mp h
    have hju := hJ s a u hs hu
    cases ha : keep a with
    | false =>
      rw [List.filter_cons_of_neg (by simp [ha])]
      exact ih hju ht (hskip s a u t hs hr ha hu) h
    | true =>
      obtain ⟨v, hv, hrv⟩ := hkeep s a u t hs ht hr ha hu
      rw [List.filter_cons_of_pos ha]
      obtain ⟨t', ht', hrt'⟩ := ih hju (hJ t a v ht hv) hrv h
      exact ⟨t', by simp [exec, hv, ht'], hrt'⟩

theorem exec_append (as bs : List α) :
    exec step s (as ++ bs) = (exec step s as).bind fun s' => exec step s' bs := by
  induction as generalizing s with
  | nil => rfl
  | cons a as ih =>
    cases ha : step s a with
    | none => simp [exec, ha]
    | some u => simpa [exec, ha] using ih

/-- The rule for what is said about a state and the actions that have led to it. -/
theorem exec_history {I : List α → σ → Prop}
    (hstep : ∀ bs s a s', I bs s → step s a = some s' → I (bs ++ [a]) s') (as : List α)
    {bs : List α} (hs : I bs s) (h : exec step s as = some s') : I (bs ++ as) s' := by
  induction as generalizing s bs with
  | nil =>
    obtain rfl : s = s' := by simpa [exec] using h
    rwa [List.append_nil]
  | cons a as ih =>
    obtain ⟨u, hu, h⟩ := Option.bind_eq_some_iff.mp h
    have hall := ih (hstep bs s a u hs hu) h
    rwa [List.append_assoc] at hall

/-- A bound that each counted step raises by one is raised by as many as a run counts. -/
theorem exec_countP {I : ℕ → σ → Prop} {p : α → Bool}
    (hstep : ∀ k s a s', I k s → step s a = some s' → I (k + if p a then 1 else 0) s')
    (as : List α) {k : ℕ} (hs : I k s) (h : exec step s as = some s') :
    I (k + as.countP p) s' := by
  have hcount : ∀ bs s a s', I (k + bs.countP p) s → step s a = some s' →
      I (k + (bs ++ [a]).countP p) s' := by
    intro bs s a s' hbs hs'
    have hnext := hstep _ s a s' hbs hs'
    rwa [List.countP_append, List.countP_singleton, ← Nat.add_assoc]
  have hall : I (k + ([] ++ as).countP p) s' := exec_history hcount as hs h
  rwa [List.nil_append] at hall

/-- The simulation rule. If the abstract system can do what each step shows, and the states are
related again, then it can do what a whole run shows. -/
theorem exists_exec_observed {astep : τ → β → Option τ} {view : σ → α → List β} {J : σ → Prop}
    {R : σ → τ → Prop} (hJ : ∀ s a s', J s → G s a → step s a = some s' → J s')
    (hsim : ∀ s a s' t, J s → R s t → G s a → step s a = some s' →
      ∃ t', exec astep t (view s a) = some t' ∧ R s' t')
    (as : List α) {t : τ} (hs : J s) (hr : R s t) (hal : Along step G s as)
    (h : exec step s as = some s') :
    ∃ t', exec astep t (observed step view s as) = some t' ∧ R s' t' := by
  induction as generalizing s t with
  | nil =>
    obtain rfl : s = s' := by simpa [exec] using h
    exact ⟨t, rfl, hr⟩
  | cons a as ih =>
    obtain ⟨u, hu, h⟩ := Option.bind_eq_some_iff.mp h
    obtain ⟨v, hv, hrv⟩ := hsim s a u t hs hr hal.1 hu
    obtain ⟨t', ht', hrt'⟩ := ih (hJ s a u hs hal.1 hu) hrv (hal.2 u hu) h
    refine ⟨t', ?_, hrt'⟩
    rw [observed, hu, Option.elim_some, exec_append, hv, Option.bind_some, ht']

/-- The rule for two systems in lockstep: if each action is enabled in both of two related states
or in none of them, and leads to related states again, then so does each schedule. -/
theorem exec_rel {step' : τ → β → Option τ} {f : α → β} {J : σ → Prop} {R : σ → τ → Prop}
    (hJ : ∀ s a s', J s → step s a = some s' → J s')
    (hstep : ∀ s t a, J s → R s t → Option.Rel R (step s a) (step' t (f a))) (as : List α) {t : τ}
    (hs : J s) (h : R s t) : Option.Rel R (exec step s as) (exec step' t (as.map f)) := by
  induction as generalizing s t with
  | nil => exact .some h
  | cons a as ih =>
    have hrel := hstep s t a hs h
    rw [List.map_cons, exec, exec]
    generalize hnext : step s a = next at hrel ⊢
    generalize step' t (f a) = next' at hrel ⊢
    cases hrel with
    | none => exact .none
    | some hr => exact ih (hJ s a _ hs hnext) hr

end DistributedSystem.Transition
