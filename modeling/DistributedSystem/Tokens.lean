import Mathlib.Data.List.TakeWhile
import Mathlib.Tactic

/-!
# Tokens of a string

`strtok` with one delimiter, as a function from the string at the saved position to the
next token and the string at the new position. `tokens` are the non-empty pieces between
delimiters, and calling `strtok` until it finds nothing gives them one after the other.
-/
namespace DistributedSystem.Tokens

variable {α : Type*} [DecidableEq α] {sep : α} {s token rest : List α}

/-- Skip delimiters and take what stands before the next one. The new position is behind
that delimiter, or at the end of the string. -/
def strtok (sep : α) (s : List α) : Option (List α × List α) :=
  match s.dropWhile (· = sep) with
  | [] => none
  | a :: s => some (a :: s.takeWhile (· ≠ sep), (s.dropWhile (· ≠ sep)).tail)

def tokens (sep : α) (s : List α) : List (List α) := (s.splitOn sep).filter (· ≠ [])

@[simp] theorem tokens_nil : tokens sep [] = [] := by simp [tokens]

theorem tokens_cons_sep (sep : α) (s : List α) : tokens sep (sep :: s) = tokens sep s := by
  simp [tokens, List.splitOn_cons_eq_if_modifyHead]

theorem tokens_append_cons (hne : token ≠ []) (hsep : sep ∉ token) (s : List α) :
    tokens sep (token ++ sep :: s) = token :: tokens sep s := by
  rw [tokens, List.splitOn_append_cons_self_of_not_mem hsep, tokens,
    List.filter_cons_of_pos (by simpa using hne)]

theorem tokens_of_not_mem (hne : token ≠ []) (hsep : sep ∉ token) :
    tokens sep token = [token] := by
  rw [tokens, List.splitOn_eq_singleton hsep, List.filter_cons_of_pos (by simpa using hne),
    List.filter_nil]

theorem tokens_dropWhile (sep : α) (s : List α) :
    tokens sep (s.dropWhile (· = sep)) = tokens sep s := by
  induction s with
  | nil => rfl
  | cons a s ih =>
    by_cases ha : a = sep
    · subst ha
      rw [List.dropWhile_cons_of_pos (by simp), ih, tokens_cons_sep]
    · rw [List.dropWhile_cons_of_neg (by simpa using ha)]

/-- A string that starts with a token is that token and what `strtok` leaves. -/
theorem tokens_cons {a : α} (ha : a ≠ sep) (s : List α) :
    tokens sep (a :: s) =
      (a :: s.takeWhile (· ≠ sep)) :: tokens sep (s.dropWhile (· ≠ sep)).tail := by
  have hsep : sep ∉ a :: s.takeWhile (· ≠ sep) := by
    intro hmem
    rcases List.mem_cons.mp hmem with rfl | hmem
    · exact ha rfl
    · simpa using List.mem_takeWhile_imp hmem
  have hsplit : a :: s = (a :: s.takeWhile (· ≠ sep)) ++ s.dropWhile (· ≠ sep) := by
    rw [List.cons_append, List.takeWhile_append_dropWhile]
  cases hrest : s.dropWhile (· ≠ sep) with
  | nil =>
    rw [hrest, List.append_nil] at hsplit
    rw [← hsplit] at hsep ⊢
    simpa using tokens_of_not_mem (List.cons_ne_nil a s) hsep
  | cons b rest =>
    have hb := List.head?_dropWhile_not (· ≠ sep) s
    rw [hrest] at hb hsplit
    obtain rfl : b = sep := by simpa using hb
    conv_lhs => rw [hsplit]
    exact tokens_append_cons (List.cons_ne_nil _ _) hsep rest

/-- When `strtok` finds nothing there are no tokens. -/
theorem tokens_of_strtok_eq_none (h : strtok sep s = none) : tokens sep s = [] := by
  rw [← tokens_dropWhile]
  unfold strtok at h
  split at h
  · rename_i hnil
    rw [hnil, tokens_nil]
  · cases h

/-- Otherwise it finds the first token and leaves the others. -/
theorem tokens_of_strtok_eq_some (h : strtok sep s = some (token, rest)) :
    tokens sep s = token :: tokens sep rest := by
  rw [← tokens_dropWhile]
  unfold strtok at h
  split at h
  · cases h
  · rename_i a r hcons
    have ha := List.head?_dropWhile_not (· = sep) s
    rw [hcons] at ha ⊢
    obtain ⟨rfl, rfl⟩ := Prod.mk.inj (Option.some.inj h)
    exact tokens_cons (by simpa using ha) r

theorem length_lt_of_strtok (h : strtok sep s = some (token, rest)) :
    rest.length < s.length := by
  unfold strtok at h
  split at h
  · cases h
  · rename_i a r hcons
    obtain ⟨-, rfl⟩ := Prod.mk.inj (Option.some.inj h)
    have hdrop := (List.dropWhile_sublist (· = sep) (l := s)).length_le
    have hrest := (List.dropWhile_sublist (· ≠ sep) (l := r)).length_le
    rw [hcons, List.length_cons] at hdrop
    rw [List.length_tail]
    omega

/-- Joining non-empty pieces without delimiters and taking the tokens gives them back. -/
theorem tokens_intercalate {ls : List (List α)} (hne : ∀ l ∈ ls, l ≠ [])
    (hsep : ∀ l ∈ ls, sep ∉ l) : tokens sep ([sep].intercalate ls) = ls := by
  by_cases hls : ls = []
  · simp [hls]
  · rw [tokens, List.splitOn_intercalate sep hsep hls, List.filter_eq_self]
    simpa using hne

omit [DecidableEq α] in
/-- A join is made of its delimiter and its pieces. -/
theorem mem_intercalate {ls : List (List α)} {a : α} (h : a ∈ [sep].intercalate ls) :
    a = sep ∨ ∃ l ∈ ls, a ∈ l := by
  induction ls with
  | nil => simp at h
  | cons l ls ih =>
    cases ls with
    | nil =>
      rw [List.intercalate_singleton] at h
      exact .inr ⟨l, List.mem_cons_self, h⟩
    | cons next ls =>
      rw [List.intercalate_cons_cons, List.mem_append, List.mem_append, List.mem_singleton] at h
      obtain (hl | hsep) | hrest := h
      · exact .inr ⟨l, List.mem_cons_self, hl⟩
      · exact .inl hsep
      · obtain hsep | ⟨l', hl', ha⟩ := ih hrest
        · exact .inl hsep
        · exact .inr ⟨l', List.mem_cons_of_mem l hl', ha⟩

omit [DecidableEq α] in
/-- Pieces of bounded length make a join of bounded length. -/
theorem length_intercalate_lt {ls : List (List α)} {k : ℕ} (hne : ls ≠ [])
    (h : ∀ l ∈ ls, l.length ≤ k) : ([sep].intercalate ls).length < (k + 1) * ls.length := by
  induction ls with
  | nil => exact absurd rfl hne
  | cons l ls ih =>
    have hl := h l List.mem_cons_self
    cases ls with
    | nil =>
      rw [List.intercalate_singleton, List.length_singleton]
      omega
    | cons next ls =>
      have hrest := ih (List.cons_ne_nil next ls) fun l' hl' => h l' (List.mem_cons_of_mem l hl')
      rw [List.intercalate_cons_cons, List.length_append, List.length_append,
        List.length_singleton, List.length_cons (a := l), Nat.mul_succ]
      omega

end DistributedSystem.Tokens
