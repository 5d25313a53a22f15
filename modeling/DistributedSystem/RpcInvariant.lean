import DistributedSystem.Rpc

/-!
# Invariants of servers that call each other

What the handlers keep when each of them runs alone, the servers keep in every order of
steps. A server that waits relies on its callee for the answer, and the callee was asked
by that server alone, so that the postcondition of the call that was made is the one of the
handler that answers it.
-/
namespace DistributedSystem.Rpc
open Transition

variable {N A σ κ ρ : Type}

/-- The state of the server at this point of its handler. -/
def Prog.current : Prog A σ κ ρ → σ
  | .ret s _ => s
  | .exit s => s
  | .call s _ _ _ => s

def Status.current : Status N A σ κ ρ → σ
  | .idle s => s
  | .running p _ => p.current
  | .waiting s _ _ _ _ _ => s
  | .exited s => s

/-- The handler makes only calls that satisfy `C`, if the invariant holds when an answer
arrives and replies satisfy `post`. -/
def Prog.CallsOnly (I : σ → Prop) (post : κ → ρ → Prop) (C : κ → Prop) : Prog A σ κ ρ → Prop
  | .call _ _ c k => C c ∧ ∀ s ans, I s → (∀ r, ans = .reply r → post c r) →
      (k s ans).CallsOnly I post C
  | _ => True

/-- The handler keeps the invariant, makes only calls that satisfy `C` and returns what
satisfies `Q`. -/
structure Prog.Obeys (I : σ → Prop) (post : κ → ρ → Prop) (C : κ → Prop) (Q : ρ → Prop)
    (p : Prog A σ κ ρ) : Prop where
  meets : p.Meets I post Q
  calls : p.CallsOnly I post C

section
variable {I : σ → Prop} {post : κ → ρ → Prop} {C : κ → Prop} {Q : ρ → Prop}

theorem Prog.Meets.current {p : Prog A σ κ ρ} (h : p.Meets I post Q) : I p.current := by
  cases p with
  | ret s r => exact h.1
  | exit s => exact h
  | call s a c k => exact h.1

theorem Prog.Obeys.next {s s' : σ} {a : A} {c : κ} {k : σ → Answer ρ → Prog A σ κ ρ}
    {ans : Answer ρ} (h : (Prog.call s a c k).Obeys I post C Q) (hs' : I s')
    (hans : ∀ r, ans = .reply r → post c r) : (k s' ans).Obeys I post C Q :=
  ⟨h.meets.2 s' ans hs' hans, h.calls.2 s' ans hs' hans⟩

theorem Prog.obeys_ret {s : σ} {r : ρ} (hs : I s) (hr : Q r) :
    (Prog.ret s r : Prog A σ κ ρ).Obeys I post C Q :=
  ⟨⟨hs, hr⟩, trivial⟩

theorem Prog.obeys_exit {s : σ} (hs : I s) : (Prog.exit s : Prog A σ κ ρ).Obeys I post C Q :=
  ⟨hs, trivial⟩

theorem Prog.obeys_call {s : σ} {a : A} {c : κ} {k : σ → Answer ρ → Prog A σ κ ρ} (hs : I s)
    (hc : C c) (hk : ∀ s' ans, I s' → (∀ r, ans = .reply r → post c r) →
      (k s' ans).Obeys I post C Q) : (Prog.call s a c k).Obeys I post C Q :=
  ⟨⟨hs, fun s' ans hs' hans => (hk s' ans hs' hans).meets⟩, hc,
    fun s' ans hs' hans => (hk s' ans hs' hans).calls⟩

/-- A handler that may make any call. -/
theorem Prog.Meets.obeys {p : Prog A σ κ ρ} (h : p.Meets I post Q) :
    p.Obeys I post (fun _ => True) Q := by
  refine ⟨h, ?_⟩
  induction p with
  | ret s r => exact trivial
  | exit s => exact trivial
  | call s a c k ih =>
    refine ⟨trivial, ?_⟩
    intro s' ans hs' hans
    exact ih s' ans (h.2 s' ans hs' hans)

end

/-- The handler on server `n` that has this caller answers the call `c`: the caller waits
for `n` to answer `c`. -/
def Asked (st : N → Status N A σ κ ρ) (n : N) (caller : Caller N) (c : κ) : Prop :=
  ∀ m, caller = .server m → ∃ s k up, st m = .waiting s n c true k up

/-- What is known of a server whose handlers obey. -/
def Status.Ok (I : σ → Prop) (post : κ → ρ → Prop) (C : κ → Prop)
    (asked : Caller N → κ → Prop) : Status N A σ κ ρ → Prop
  | .idle s => I s
  | .exited s => I s
  | .running p caller => ∃ c, asked caller c ∧ p.Obeys I post C (post c)
  | .waiting s _ c _ k caller => I s ∧ C c ∧ ∃ c', asked caller c' ∧
      ∀ s' ans, I s' → (∀ r, ans = .reply r → post c r) → (k s' ans).Obeys I post C (post c')

/-- All servers keep their invariants, and their handlers obey. -/
def AllObey (I : N → σ → Prop) (post : κ → ρ → Prop) (C : κ → Prop)
    (st : N → Status N A σ κ ρ) : Prop :=
  ∀ n, (st n).Ok (I n) post C (Asked st n)

section
variable {I : N → σ → Prop} {post : κ → ρ → Prop} {C : κ → Prop}

theorem Status.Ok.mono {I : σ → Prop} {asked asked' : Caller N → κ → Prop}
    {t : Status N A σ κ ρ} (h : t.Ok I post C asked)
    (hasked : ∀ caller c, asked caller c → asked' caller c) : t.Ok I post C asked' := by
  cases t with
  | idle s => exact h
  | exited s => exact h
  | running p caller =>
    obtain ⟨c, hc, hp⟩ := h
    exact ⟨c, hasked caller c hc, hp⟩
  | waiting s dest c taken k caller =>
    obtain ⟨hs, hC, c', hc', hk⟩ := h
    exact ⟨hs, hC, c', hasked caller c' hc', hk⟩

theorem AllObey.current {st : N → Status N A σ κ ρ} (h : AllObey I post C st) (n : N) :
    I n (st n).current := by
  have hn := h n
  cases hst : st n with
  | idle s => rwa [hst] at hn
  | exited s => rwa [hst] at hn
  | running p caller =>
    rw [hst] at hn
    obtain ⟨c, -, hp⟩ := hn
    exact hp.meets.current
  | waiting s dest c taken k caller =>
    rw [hst] at hn
    exact hn.1

variable [DecidableEq N]

/-- The server whose call nobody has taken up yet has asked nobody. -/
theorem asked_update {st : N → Status N A σ κ ρ} {n : N} {t : Status N A σ κ ρ}
    (hn : ∀ s dest c k up, st n ≠ .waiting s dest c true k up) {x : N} {caller : Caller N} {c : κ}
    (h : Asked st x caller c) : Asked (Function.update st n t) x caller c := by
  intro m hm
  obtain ⟨s, k, up, hst⟩ := h m hm
  have hne : m ≠ n := by
    rintro rfl
    exact hn _ _ _ _ _ hst
  exact ⟨s, k, up, by rw [Function.update_of_ne hne, hst]⟩

/-- A server that nobody works for changes its status. -/
theorem AllObey.update {st : N → Status N A σ κ ρ} (h : AllObey I post C st) {n : N}
    {t : Status N A σ κ ρ} (hn : ∀ s dest c k up, st n ≠ .waiting s dest c true k up)
    (ht : t.Ok (I n) post C (Asked st n)) : AllObey I post C (Function.update st n t) := by
  intro x
  by_cases hx : x = n
  · subst hx
    rw [Function.update_self]
    exact ht.mono fun caller c => asked_update hn
  · rw [Function.update_of_ne hx]
    exact (h x).mono fun caller c => asked_update hn

/-- The server that waits for `n` has asked no other one. -/
theorem asked_resume {st : N → Status N A σ κ ρ} {m n : N} {s : σ} {c : κ}
    {k : σ → Answer ρ → Prog A σ κ ρ} {up : Caller N} {t : Status N A σ κ ρ}
    (hm : st m = .waiting s n c true k up) {x : N} (hx : x ≠ n) {caller : Caller N} {d : κ}
    (h : Asked st x caller d) : Asked (Function.update st m t) x caller d := by
  intro y hy
  obtain ⟨s', k', up', hst⟩ := h y hy
  have hne : y ≠ m := by
    rintro rfl
    rw [hm] at hst
    injection hst with _ hdest
    exact hx hdest.symm
  exact ⟨s', k', up', by rw [Function.update_of_ne hne, hst]⟩

/-- A server that waits for `n` goes on when `n` is done. -/
theorem AllObey.resume {st : N → Status N A σ κ ρ} (h : AllObey I post C st) {m n : N}
    {s : σ} {c : κ} {k : σ → Answer ρ → Prog A σ κ ρ} {up : Caller N} {ans : Answer ρ}
    (hmn : m ≠ n) (hm : st m = .waiting s n c true k up)
    (hn : (∃ t, st n = .idle t) ∨ ∃ t, st n = .exited t)
    (hans : ∀ r, ans = .reply r → post c r) :
    AllObey I post C (Function.update st m (.running (k s ans) up)) := by
  have hok := h m
  rw [hm] at hok
  obtain ⟨hs, -, c', hc', hk⟩ := hok
  intro x
  by_cases hx : x = m
  · subst hx
    rw [Function.update_self]
    exact ⟨c', asked_resume hm hmn hc', hk s ans hs hans⟩
  · rw [Function.update_of_ne hx]
    by_cases hxn : x = n
    · subst hxn
      have hx' := h x
      rcases hn with ⟨t, ht⟩ | ⟨t, ht⟩
      · rw [ht] at hx' ⊢
        exact hx'
      · rw [ht] at hx' ⊢
        exact hx'
    · exact (h x).mono fun caller d => asked_resume hm hxn

/-- A handler ends, and its answer goes to its caller. -/
theorem AllObey.answer {st : N → Status N A σ κ ρ} (h : AllObey I post C st) {n : N}
    {p : Prog A σ κ ρ} {caller : Caller N} {t : Status N A σ κ ρ} {ans : Answer ρ}
    (hn : st n = .running p caller) (ht : (∃ s, t = .idle s ∧ I n s) ∨ ∃ s, t = .exited s ∧ I n s)
    (hans : ∀ c, p.Obeys (I n) post C (post c) → ∀ r, ans = .reply r → post c r) :
    AllObey I post C (answer caller ans (Function.update st n t)) := by
  have hok := h n
  rw [hn] at hok
  obtain ⟨c, hc, hp⟩ := hok
  have hupdate : AllObey I post C (Function.update st n t) := by
    refine h.update (by simp [hn]) ?_
    rcases ht with ⟨s, rfl, hs⟩ | ⟨s, rfl, hs⟩
    · exact hs
    · exact hs
  cases caller with
  | client => exact hupdate
  | server m =>
    obtain ⟨s, k, up, hm⟩ := hc m rfl
    have hmn : m ≠ n := by
      rintro rfl
      simp [hn] at hm
    have hm' : Function.update st n t m = .waiting s n c true k up := by
      rw [Function.update_of_ne hmn, hm]
    simp only [Rpc.answer, hm']
    refine hupdate.resume hmn hm' ?_ (hans c hp)
    rw [Function.update_self]
    rcases ht with ⟨s, hs, -⟩ | ⟨s, hs, -⟩
    · exact .inl ⟨s, hs⟩
    · exact .inr ⟨s, hs⟩

/-- A handler that makes a call whose answer is there at once. -/
theorem AllObey.proceed {st : N → Status N A σ κ ρ} (h : AllObey I post C st) {n : N}
    {s : σ} {a : A} {c : κ} {k : σ → Answer ρ → Prog A σ κ ρ} {caller : Caller N}
    (hn : st n = .running (.call s a c k) caller) :
    AllObey I post C (Function.update st n (.running (k s .unreachable) caller)) := by
  have hok := h n
  rw [hn] at hok
  obtain ⟨d, hd, hp⟩ := hok
  exact h.update (by simp [hn]) ⟨d, hd, hp.next hp.meets.1 (by simp)⟩

theorem AllObey.run {sv : Service N A σ κ ρ} {st st' : N → Status N A σ κ ρ} {n : N}
    (h : AllObey I post C st) (hs : step sv st (.run n) = some st') : AllObey I post C st' := by
  cases hn : st n with
  | idle s => simp [step, hn] at hs
  | waiting s m c taken k up => simp [step, hn] at hs
  | exited s => simp [step, hn] at hs
  | running p caller =>
    have hok := h n
    rw [hn] at hok
    obtain ⟨d, hd, hp⟩ := hok
    cases p with
    | ret s r =>
      obtain rfl : _ = st' := by simpa [step, hn] using hs
      refine h.answer hn (.inl ⟨s, rfl, hp.meets.1⟩) ?_
      rintro c hc _ ⟨rfl⟩
      exact hc.meets.2
    | exit s =>
      obtain rfl : _ = st' := by simpa [step, hn] using hs
      exact h.answer hn (.inr ⟨s, rfl, hp.meets⟩) (by simp)
    | call s a c k =>
      cases ha : sv.resolve a with
      | none =>
        obtain rfl : _ = st' := by simpa [step, hn, ha] using hs
        exact h.proceed hn
      | some m =>
        have hwait : AllObey I post C (Function.update st n (.waiting s m c false k caller)) :=
          h.update (by simp [hn]) ⟨hp.meets.1, hp.calls.1, d, hd, fun s' ans => hp.next⟩
        cases hm : st m with
        | exited t =>
          obtain rfl : _ = st' := by simpa [step, hn, ha, hm] using hs
          exact h.proceed hn
        | _ =>
          obtain rfl : _ = st' := by simpa [step, hn, ha, hm] using hs
          exact hwait

theorem AllObey.take {sv : Service N A σ κ ρ} {st st' : N → Status N A σ κ ρ} {n : N}
    (hsv : ∀ n c s, I n s → (sv.handler c s).Obeys (I n) post C (post c))
    (h : AllObey I post C st) (hs : step sv st (.take n) = some st') :
    AllObey I post C st' := by
  cases hn : st n with
  | idle s => simp [step, hn] at hs
  | running p up => simp [step, hn] at hs
  | exited s => simp [step, hn] at hs
  | waiting s m c taken k caller =>
    cases taken with
    | true => simp [step, hn] at hs
    | false =>
      have hok := h n
      rw [hn] at hok
      cases hm : st m with
      | running p up => simp [step, hn, hm] at hs
      | waiting t d e b j up => simp [step, hn, hm] at hs
      | exited t =>
        obtain rfl : _ = st' := by simpa [step, hn, hm] using hs
        obtain ⟨hI, -, d, hd, hk⟩ := hok
        exact h.update (by simp [hn]) ⟨d, hd, hk s .failed hI (by simp)⟩
      | idle t =>
        obtain rfl : _ = st' := by simpa [step, hn, hm] using hs
        have hmn : m ≠ n := by
          rintro rfl
          simp [hn] at hm
        have hst : Function.update st n (.waiting s m c true k caller) m = .idle t := by
          rw [Function.update_of_ne hmn, hm]
        have htaken := h.update (t := .waiting s m c true k caller) (by simp [hn]) hok
        have ht : I m t := by
          have := htaken m
          rwa [hst] at this
        refine htaken.update (by simp [hst]) ⟨c, ?_, hsv m c t ht⟩
        rintro x ⟨rfl⟩
        exact ⟨s, k, caller, Function.update_self ..⟩

/-- If the handlers obey, every step keeps what is known of the servers. -/
theorem allObey_step {sv : Service N A σ κ ρ} {st st' : N → Status N A σ κ ρ} {a : Action N κ}
    (hsv : ∀ n c s, I n s → (sv.handler c s).Obeys (I n) post C (post c))
    (h : AllObey I post C st) (hs : step sv st a = some st') : AllObey I post C st' := by
  cases a with
  | start n c =>
    cases hn : st n with
    | idle s =>
      obtain rfl : _ = st' := by simpa [step, hn] using hs
      have hI := h n
      rw [hn] at hI
      refine h.update (by simp [hn]) ⟨c, ?_, hsv n c s hI⟩
      rintro m ⟨⟩
    | running p up => simp [step, hn] at hs
    | waiting s m c taken k up => simp [step, hn] at hs
    | exited s => simp [step, hn] at hs
  | run n => exact h.run hs
  | take n => exact h.take hsv hs

/-- An idle server may be given another invariant. -/
theorem AllObey.of_idle {st : N → Status N A σ κ ρ} (h : AllObey I post C st) {n : N} {s : σ}
    {J : σ → Prop} (hn : st n = .idle s) (hs : J s) :
    AllObey (Function.update I n J) post C st := by
  intro m
  by_cases hm : m = n
  · subst hm
    rw [Function.update_self, hn]
    exact hs
  · rw [Function.update_of_ne hm]
    exact h m

/-- The rule for invariants: what each handler keeps alone, all servers keep in every order of
steps. -/
theorem allObey_reaches {sv : Service N A σ κ ρ} {st st' : N → Status N A σ κ ρ}
    {G : (N → Status N A σ κ ρ) → Action N κ → Prop}
    (hsv : ∀ n c s, I n s → (sv.handler c s).Obeys (I n) post C (post c))
    (h : AllObey I post C st) (hr : Reaches (step sv) G st st') : AllObey I post C st' :=
  hr.invariant (AllObey I post C) h fun _ _ _ hu _ hs => allObey_step hsv hu hs

end

end DistributedSystem.Rpc
