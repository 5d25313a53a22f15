import DistributedSystem.Rpc

/-!
# Calls one at a time are runs

What `serve` computes of a call in one go, with everything that is called in turn, is what the
servers come to in one of their runs, when `step` lets them work at the same time.
-/
namespace DistributedSystem.Rpc
open Transition

variable {N A σ κ ρ : Type} [DecidableEq N]

/-- What a server does between calls. -/
def Process.status (p : Process σ) : Status N A σ κ ρ :=
  if p.exited then .exited p.state else .idle p.state

/-- The servers in `busy` are as they were, and all others are between calls. -/
def settled (busy : List N) (st : N → Status N A σ κ ρ) (net : N → Process σ) :
    N → Status N A σ κ ρ :=
  fun x => if x ∈ busy then st x else (net x).status

theorem settled_eq {busy : List N} {st : N → Status N A σ κ ρ} {net : N → Process σ} {n : N}
    (h : ∀ x, x ∉ busy → x ≠ n → st x = (net x).status) (hn : n ∉ busy) (p : Process σ) :
    settled busy st (Function.update net n p) = Function.update st n p.status := by
  funext x
  unfold settled
  by_cases hx : x = n
  · subst hx
    rw [if_neg hn, Function.update_self, Function.update_self]
  · rw [Function.update_of_ne hx, Function.update_of_ne hx]
    split_ifs with hbusy
    · rfl
    · exact (h x hbusy hx).symm

theorem settled_congr {busy : List N} {st st' : N → Status N A σ κ ρ}
    (h : ∀ x, x ∈ busy → st' x = st x) (net : N → Process σ) :
    settled busy st' net = settled busy st net := by
  funext x
  unfold settled
  split_ifs with hbusy
  · exact h x hbusy
  · rfl

theorem settled_nil (st : N → Status N A σ κ ρ) (net : N → Process σ) :
    settled [] st net = fun x => (net x).status := by
  funext x
  simp [settled]

/-- A server that gets an answer goes on, and what it was before makes no difference. -/
theorem answer_settled {busy : List N} {st st' : N → Status N A σ κ ρ} {n dest : N} {s : σ} {c : κ}
    {k : σ → Answer ρ → Prog A σ κ ρ} {caller : Caller N} (hn : st' n = .waiting s dest c true k caller)
    (h : ∀ x, x ∈ busy → x ≠ n → st' x = st x) (ans : Answer ρ) (net : N → Process σ) :
    answer (.server n) ans (settled (n :: busy) st' net) =
      Function.update (settled (n :: busy) st net) n (.running (k s ans) caller) := by
  have hwaits : settled (n :: busy) st' net n = .waiting s dest c true k caller := by
    rw [settled, if_pos List.mem_cons_self, hn]
  simp only [answer, hwaits]
  funext x
  by_cases hx : x = n
  · rw [hx, Function.update_self, Function.update_self]
  · rw [Function.update_of_ne hx, Function.update_of_ne hx, settled, settled]
    split_ifs with hmem
    · exact h x ((List.mem_cons.mp hmem).resolve_left hx) hx
    · rfl

/-- A call that server `n` makes, while the servers in `busy` wait and the others do nothing,
is answered in a run of all servers as `serve` answers it. -/
def Realises (sv : Service N A σ κ ρ)
    (serve : N → κ → (N → Process σ) → Option (Answer ρ × (N → Process σ))) (busy : List N)
    (n : N) : Prop :=
  ∀ m c net r st s a k caller, serve m c net = some r → sv.resolve a = some m →
    st n = .running (.call s a c k) caller →
    (∀ x, x ∉ busy → x ≠ n → st x = (net x).status) →
    Reaches (step sv) anyStep st
      (Function.update (settled (n :: busy) st r.2) n (.running (k s r.1) caller))

/-- A handler comes to its end in a run of all servers, and its caller gets the answer. -/
theorem execute_reaches {sv : Service N A σ κ ρ}
    {serve : N → κ → (N → Process σ) → Option (Answer ρ × (N → Process σ))} {busy : List N}
    {n : N} {p : Prog A σ κ ρ} {net : N → Process σ} {r : Answer ρ × (N → Process σ)}
    {st : N → Status N A σ κ ρ} {caller : Caller N} (hn : n ∉ busy)
    (hserve : Realises sv serve busy n)
    (hkeep : ∀ m c net r, serve m c net = some r → r.2 n = net n)
    (h : execute sv.resolve serve n p net = some r) (hp : st n = .running p caller)
    (hst : ∀ x, x ∉ busy → x ≠ n → st x = (net x).status) :
    Reaches (step sv) anyStep st (answer caller r.1 (settled busy st r.2)) := by
  induction p generalizing net st with
  | ret s x =>
    obtain rfl : _ = r := by simpa [execute] using h
    refine Reaches.refl.tail (a := .run n) trivial ?_
    rw [settled_eq hst hn]
    simp [step, hp, Process.status]
  | exit s =>
    obtain rfl : _ = r := by simpa [execute] using h
    refine Reaches.refl.tail (a := .run n) trivial ?_
    rw [settled_eq hst hn]
    simp [step, hp, Process.status]
  | call s a c k ih =>
    have hst' : ∀ x, x ∉ busy → x ≠ n → st x = (Function.update net n ⟨s, false⟩ x).status := by
      intro x hbusy hx
      rw [Function.update_of_ne hx]
      exact hst x hbusy hx
    -- The handler goes on with an answer that has come in a run to `st'`.
    have hcontinue : ∀ {st' : N → Status N A σ κ ρ} {net' : N → Process σ} {ans : Answer ρ},
        Reaches (step sv) anyStep st st' → st' n = .running (k s ans) caller →
        (∀ x, x ∈ busy → st' x = st x) → (∀ x, x ∉ busy → x ≠ n → st' x = (net' x).status) →
        execute sv.resolve serve n (k s ans) net' = some r →
        Reaches (step sv) anyStep st (answer caller r.1 (settled busy st r.2)) := by
      intro st' net' ans hreach hrunning hbusy hothers hexecute
      have hrest := ih s ans hexecute hrunning hothers
      rw [settled_congr hbusy] at hrest
      exact hreach.trans hrest
    have hne : ∀ x, x ∈ busy → x ≠ n := by
      rintro x hx rfl
      exact hn hx
    cases ha : sv.resolve a with
    | none =>
      simp only [execute, ha] at h
      have hstep : step sv st (.run n) =
          some (Function.update st n (.running (k s .unreachable) caller)) := by
        simp [step, hp, ha]
      refine hcontinue (Reaches.refl.tail trivial hstep) (Function.update_self ..) ?_ ?_ h
      · intro x hbusy
        exact Function.update_of_ne (hne x hbusy) _ _
      · intro x hbusy hx
        rw [Function.update_of_ne hx]
        exact hst' x hbusy hx
    | some m =>
      simp only [execute, ha] at h
      obtain ⟨r', hr', h⟩ := Option.bind_eq_some_iff.mp h
      have hs : (r'.2 n).state = s := by rw [hkeep m c _ r' hr', Function.update_self]
      rw [hs] at h
      have hcall := hserve m c _ r' st s a k caller hr' ha hp hst'
      refine hcontinue hcall (Function.update_self ..) ?_ ?_ h
      · intro x hbusy
        rw [Function.update_of_ne (hne x hbusy), settled, if_pos (List.mem_cons_of_mem n hbusy)]
      · intro x hbusy hx
        rw [Function.update_of_ne hx, settled, if_neg (by simp [hx, hbusy])]

/-- Servers that are between calls are settled already. -/
theorem update_settled {busy : List N} {st : N → Status N A σ κ ρ} {net : N → Process σ} {n : N}
    (h : ∀ x, x ∉ busy → x ≠ n → st x = (net x).status) (t : Status N A σ κ ρ) :
    Function.update (settled (n :: busy) st net) n t = Function.update st n t := by
  funext x
  by_cases hx : x = n
  · rw [hx, Function.update_self, Function.update_self]
  · rw [Function.update_of_ne hx, Function.update_of_ne hx, settled]
    split_ifs with hwaits
    · rfl
    · have hbusy : x ∉ busy := fun hb => hwaits (List.mem_cons_of_mem n hb)
      exact (h x hbusy hx).symm

theorem realises_serve (sv : Service N A σ κ ρ) (depth : ℕ) (busy : List N) (n : N) :
    Realises sv (serve sv depth (n :: busy)) busy n := by
  induction depth generalizing busy n with
  | zero =>
    intro m c net r st s a k caller h
    simp [serve] at h
  | succ depth ih =>
    intro m c net r st s a k caller h ha hn hst
    rw [serve] at h
    split_ifs at h with hbusy hexited
    · obtain rfl := Option.some.inj h
      obtain ⟨hmn, hm⟩ : m ≠ n ∧ m ∉ busy := by simpa using hbusy
      have hdown : st m = .exited (net m).state := by
        rw [hst m hm hmn, Process.status, if_pos hexited]
      have hstep : step sv st (.run n) =
          some (Function.update st n (.running (k s .unreachable) caller)) := by
        simp [step, hn, ha, hdown]
      rw [update_settled hst]
      exact Reaches.refl.tail trivial hstep
    · obtain ⟨hmn, hm⟩ : m ≠ n ∧ m ∉ busy := by simpa using hbusy
      have hidle : st m = .idle (net m).state := by
        rw [hst m hm hmn, Process.status, if_neg hexited]
      have hrun : step sv st (.run n) =
          some (Function.update st n (.waiting s m c false k caller)) := by
        simp [step, hn, ha, hidle]
      -- The states of the servers when `m` has taken up the call.
      obtain ⟨taken, htaken⟩ : ∃ taken, taken = Function.update
          (Function.update st n (.waiting s m c true k caller)) m
            (.running (sv.handler c (net m).state) (.server n)) := ⟨_, rfl⟩
      have htake : step sv (Function.update st n (.waiting s m c false k caller)) (.take n) =
          some taken := by
        simp [step, Function.update_of_ne hmn, hidle, htaken]
      have hcallee : taken m = .running (sv.handler c (net m).state) (.server n) := by
        rw [htaken, Function.update_self]
      have hcaller : taken n = .waiting s m c true k caller := by
        rw [htaken, Function.update_of_ne hmn.symm, Function.update_self]
      have hrest : ∀ x, x ≠ n → x ≠ m → taken x = st x := by
        intro x hxn hxm
        rw [htaken, Function.update_of_ne hxm, Function.update_of_ne hxn]
      have hothers : ∀ x, x ∉ n :: busy → x ≠ m → taken x = (net x).status := by
        intro x hx hxm
        obtain ⟨hxn, hxb⟩ : x ≠ n ∧ x ∉ busy := by simpa using hx
        exact (hrest x hxn hxm).trans (hst x hxb hxn)
      have hkept : ∀ x, x ∈ busy → x ≠ n → taken x = st x := by
        intro x hx hxn
        apply hrest x hxn
        rintro rfl
        exact hm hx
      have hhandler := execute_reaches hbusy (ih (n :: busy) m)
        (fun _ _ _ _ hr => serve_busy List.mem_cons_self hr) h hcallee hothers
      rw [answer_settled hcaller hkept] at hhandler
      exact ((Reaches.refl.tail trivial hrun).tail trivial htake).trans hhandler

/-- What the servers come to when a call finds all of them between calls, they come to in one
of their runs. -/
theorem serve_reaches {sv : Service N A σ κ ρ} {depth : ℕ} {n : N} {c : κ}
    {net : N → Process σ} {r : Answer ρ × (N → Process σ)}
    (h : serve sv depth [] n c net = some r) :
    Reaches (step sv) anyStep (fun x => (net x).status) fun x => (r.2 x).status := by
  cases depth with
  | zero => simp [serve] at h
  | succ depth =>
    rw [serve, if_neg (by simp)] at h
    split_ifs at h with hexited
    · obtain rfl := Option.some.inj h
      exact .refl
    · have hstart : step sv (fun x => (net x).status) (.start n c) =
          some (Function.update (fun x => (net x).status) n
            (.running (sv.handler c (net n).state) .client)) := by
        simp [step, Process.status, hexited]
      have hothers : ∀ x, x ∉ [] → x ≠ n → Function.update (fun x => (net x).status) n
          (.running (sv.handler c (net n).state) .client) x =
            ((net x).status : Status N A σ κ ρ) := by
        intro x _ hx
        exact Function.update_of_ne hx _ _
      have hrun := execute_reaches (by simp) (realises_serve sv depth [] n)
        (fun _ _ _ _ hr => serve_busy List.mem_cons_self hr) h (Function.update_self ..) hothers
      have hall := (Reaches.refl.tail trivial hstart).trans hrun
      rw [settled_nil] at hall
      exact hall

end DistributedSystem.Rpc
