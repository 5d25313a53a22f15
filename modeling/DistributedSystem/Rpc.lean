import DistributedSystem.Transition
import Mathlib.Logic.Relation

/-!
# Servers that call each other

A server handles one call at a time. Its handler is a program that computes on the
server's state and makes remote calls, and while it waits for the answer to one of
them the server does nothing else. `serve` is the meaning of a call that finds all
servers idle. `step` lets any number of calls run at the same time on different
servers; then a server that waits has an edge to the one it waits for, and a cycle
of such edges is never resolved.
-/
namespace DistributedSystem.Rpc
open Transition

variable {N A σ κ ρ : Type}

/-- What comes back from a remote call: the callee could not be reached, it ended
without a reply, or its reply. -/
inductive Answer (ρ : Type) where
  | unreachable
  | failed
  | reply (r : ρ)
  deriving DecidableEq, Repr

/-- A handler on a server with states `σ`: it returns, ends the process, or makes the
call `c` at the address `a` and continues in the state that it finds then. -/
inductive Prog (A σ κ ρ : Type) where
  | ret (s : σ) (r : ρ)
  | exit (s : σ)
  | call (s : σ) (a : A) (c : κ) (k : σ → Answer ρ → Prog A σ κ ρ)

/-- The servers' program: which server an address denotes, and the handlers. -/
structure Service (N A σ κ ρ : Type) where
  resolve : A → Option N
  handler : κ → σ → Prog A σ κ ρ

/-- A server process. -/
structure Process (σ : Type) where
  state : σ
  exited : Bool

variable [DecidableEq N]

/-! ## One call at a time -/

/-- Execute a handler on server `n`, with the calls it makes served by `serve`. There
is no result if one of them never comes back. -/
def execute (resolve : A → Option N)
    (serve : N → κ → (N → Process σ) → Option (Answer ρ × (N → Process σ))) (n : N) :
    Prog A σ κ ρ → (N → Process σ) → Option (Answer ρ × (N → Process σ))
  | .ret s r, net => some (.reply r, Function.update net n ⟨s, false⟩)
  | .exit s, net => some (.failed, Function.update net n ⟨s, true⟩)
  | .call s a c k, net =>
    match resolve a with
    | none => execute resolve serve n (k s .unreachable) (Function.update net n ⟨s, false⟩)
    | some m =>
      (serve m c (Function.update net n ⟨s, false⟩)).bind fun r =>
        execute resolve serve n (k (r.2 n).state r.1) r.2

/-- Serve a call at server `n` while the servers in `busy` wait, with calls nested at
most `depth` deep. A busy server never takes the call up. -/
def serve (sv : Service N A σ κ ρ) :
    ℕ → List N → N → κ → (N → Process σ) → Option (Answer ρ × (N → Process σ))
  | 0, _, _, _, _ => none
  | depth + 1, busy, n, c, net =>
    if n ∈ busy then none
    else if (net n).exited then some (.unreachable, net)
    else execute sv.resolve (serve sv depth (n :: busy)) n (sv.handler c (net n).state) net

/-- A server that is running and not busy takes the call up. -/
theorem serve_running {sv : Service N A σ κ ρ} {busy : List N} {n : N} {net : N → Process σ}
    (hbusy : n ∉ busy) (hrunning : (net n).exited = false) (depth : ℕ) (c : κ) :
    serve sv (depth + 1) busy n c net =
      execute sv.resolve (serve sv depth (n :: busy)) n (sv.handler c (net n).state) net := by
  rw [serve, if_neg hbusy, hrunning, if_neg Bool.false_ne_true]

/-- A server that has ended cannot be reached. -/
theorem serve_exited {sv : Service N A σ κ ρ} {busy : List N} {n : N} {net : N → Process σ}
    (hbusy : n ∉ busy) (hexited : (net n).exited = true) (depth : ℕ) (c : κ) :
    serve sv (depth + 1) busy n c net = some (.unreachable, net) := by
  rw [serve, if_neg hbusy, if_pos hexited]

/-- Nothing happens when a running server stays in its state. -/
theorem update_running {n : N} {net : N → Process σ} (hrunning : (net n).exited = false) :
    Function.update net n ⟨(net n).state, false⟩ = net := by
  have hself : (⟨(net n).state, false⟩ : Process σ) = net n := by rw [← hrunning]
  rw [hself, Function.update_eq_self]

/-- A handler keeps the invariant `I` at every point and returns what satisfies `Q`, if
the invariant still holds when an answer arrives and replies satisfy `post`. -/
def Prog.Meets (I : σ → Prop) (post : κ → ρ → Prop) (Q : ρ → Prop) : Prog A σ κ ρ → Prop
  | .ret s r => I s ∧ Q r
  | .exit s => I s
  | .call s _ c k => I s ∧ ∀ s' ans, I s' → (∀ r, ans = .reply r → post c r) →
      (k s' ans).Meets I post Q

omit [DecidableEq N] in
/-- More is known of the answers, and less is asked of the reply. -/
theorem Prog.Meets.mono {I : σ → Prop} {post post' : κ → ρ → Prop} {Q Q' : ρ → Prop}
    {p : Prog A σ κ ρ} (h : p.Meets I post Q) (hpost : ∀ c r, post' c r → post c r)
    (hQ : ∀ r, Q r → Q' r) : p.Meets I post' Q' := by
  induction p with
  | ret s r => exact ⟨h.1, hQ r h.2⟩
  | exit s => exact h
  | call s a c k ih =>
    refine ⟨h.1, ?_⟩
    intro s' ans hs' hans
    exact ih s' ans (h.2 s' ans hs' fun r hr => hpost c r (hans r hr))

/-- All servers satisfy the invariant and the reply, if there is one, satisfies `Q`. -/
def Good (I : σ → Prop) (Q : ρ → Prop) (r : Answer ρ × (N → Process σ)) : Prop :=
  (∀ n, I (r.2 n).state) ∧ ∀ x, r.1 = .reply x → Q x

/-- The calls that a handler makes may change the other servers, as long as each of these keeps
its own invariant. -/
theorem execute_meets {I : N → σ → Prop} {post : κ → ρ → Prop} {Q : ρ → Prop}
    {resolve : A → Option N}
    {serve : N → κ → (N → Process σ) → Option (Answer ρ × (N → Process σ))}
    (hserve : ∀ m c net r, (∀ n, I n (net n).state) → serve m c net = some r →
      (∀ n, I n (r.2 n).state) ∧ ∀ x, r.1 = .reply x → post c x)
    {n : N} {p : Prog A σ κ ρ} (hp : p.Meets (I n) post Q) {net : N → Process σ}
    (hnet : ∀ m, I m (net m).state) {r : Answer ρ × (N → Process σ)}
    (h : execute resolve serve n p net = some r) :
    (∀ m, I m (r.2 m).state) ∧ ∀ x, r.1 = .reply x → Q x := by
  have hupdate : ∀ (net : N → Process σ) (s : σ) (b : Bool), (∀ m, I m (net m).state) → I n s →
      ∀ m, I m (Function.update net n ⟨s, b⟩ m).state := by
    intro net s b hnet hs
    exact (Function.forall_update_iff net fun m p => I m p.state).mpr ⟨hs, fun m _ => hnet m⟩
  induction p generalizing net with
  | ret s x =>
    obtain rfl : _ = r := by simpa [execute] using h
    refine ⟨hupdate net s false hnet hp.1, ?_⟩
    intro y hy
    obtain rfl : x = y := by simpa using hy
    exact hp.2
  | exit s =>
    obtain rfl : _ = r := by simpa [execute] using h
    exact ⟨hupdate net s true hnet hp, by simp⟩
  | call s a c k ih =>
    have hnet' := hupdate net s false hnet hp.1
    cases ha : resolve a with
    | none =>
      simp only [execute, ha] at h
      exact ih s .unreachable (hp.2 s .unreachable hp.1 (by simp)) hnet' h
    | some m =>
      simp only [execute, ha] at h
      obtain ⟨r', hr', h⟩ := Option.bind_eq_some_iff.mp h
      have hgood := hserve m c _ r' hnet' hr'
      exact ih _ r'.1 (hp.2 _ r'.1 (hgood.1 n) hgood.2) hgood.1 h

/-- If the handlers keep the invariant of each server and meet their postconditions, so do the
calls that are served by them. -/
theorem serve_meets_each {I : N → σ → Prop} {post : κ → ρ → Prop} {sv : Service N A σ κ ρ}
    (hsv : ∀ n c s, I n s → (sv.handler c s).Meets (I n) post (post c)) {depth : ℕ}
    {busy : List N} {n : N} {c : κ} {net : N → Process σ} (hnet : ∀ m, I m (net m).state)
    {r : Answer ρ × (N → Process σ)} (h : serve sv depth busy n c net = some r) :
    (∀ m, I m (r.2 m).state) ∧ ∀ x, r.1 = .reply x → post c x := by
  induction depth generalizing busy n c net r with
  | zero => simp [serve] at h
  | succ depth ih =>
    rw [serve] at h
    split_ifs at h with hbusy hexited
    · obtain rfl := Option.some.inj h
      exact ⟨hnet, by simp⟩
    · exact execute_meets (fun m c net r hnet hr => ih hnet hr) (hsv n c _ (hnet n)) hnet h

/-- The case in which all servers have the same invariant. -/
theorem serve_meets {I : σ → Prop} {post : κ → ρ → Prop} {sv : Service N A σ κ ρ}
    (hsv : ∀ c s, I s → (sv.handler c s).Meets I post (post c)) {depth : ℕ} {busy : List N}
    {n : N} {c : κ} {net : N → Process σ} (hnet : ∀ m, I (net m).state)
    {r : Answer ρ × (N → Process σ)} (h : serve sv depth busy n c net = some r) :
    Good I (post c) r :=
  serve_meets_each (I := fun _ => I) (fun _ => hsv) hnet h

/-! ## The remote calls of one handler -/

/-- The handler returns with the state `s` and the reply `r` after the remote calls of the
trace, each with the answer it got. Nothing changes the state while the handler waits. -/
inductive Prog.Returns : Prog A σ κ ρ → List (A × κ × Answer ρ) → σ → ρ → Prop
  | ret (s : σ) (r : ρ) : Returns (.ret s r) [] s r
  | call {s s' : σ} {a : A} {c : κ} {k : σ → Answer ρ → Prog A σ κ ρ} {r : ρ}
      {trace : List (A × κ × Answer ρ)} (ans : Answer ρ) :
      Returns (k s ans) trace s' r → Returns (.call s a c k) ((a, c, ans) :: trace) s' r

/-- There are answers with which the handler returns. -/
def Prog.CanReturn (p : Prog A σ κ ρ) : Prop := ∃ trace s r, p.Returns trace s r

theorem Prog.canReturn_ret (s : σ) (r : ρ) : (Prog.ret s r : Prog A σ κ ρ).CanReturn :=
  ⟨[], s, r, .ret s r⟩

theorem Prog.canReturn_call {s : σ} {a : A} {c : κ} {k : σ → Answer ρ → Prog A σ κ ρ}
    (ans : Answer ρ) (h : (k s ans).CanReturn) : (Prog.call s a c k).CanReturn := by
  obtain ⟨trace, s', r, h⟩ := h
  exact ⟨_, s', r, .call ans h⟩

/-- The handler has come to `q` after the remote calls of the trace. Nothing changes the state
while the handler waits. -/
inductive Prog.Runs : Prog A σ κ ρ → List (A × κ × Answer ρ) → Prog A σ κ ρ → Prop
  | refl (p : Prog A σ κ ρ) : Runs p [] p
  | call {s : σ} {a : A} {c : κ} {k : σ → Answer ρ → Prog A σ κ ρ} {q : Prog A σ κ ρ}
      {trace : List (A × κ × Answer ρ)} (ans : Answer ρ) :
      Runs (k s ans) trace q → Runs (.call s a c k) ((a, c, ans) :: trace) q

/-- There are answers with which the handler makes the call `c` at the address `a`. -/
def Prog.Calls (p : Prog A σ κ ρ) (a : A) (c : κ) : Prop :=
  ∃ trace s k, p.Runs trace (.call s a c k)

/-- The handler is at its end. -/
def Prog.Final : Prog A σ κ ρ → Prop
  | .call _ _ _ _ => False
  | _ => True

omit [DecidableEq N] in
theorem Prog.Returns.runs {p : Prog A σ κ ρ} {trace : List (A × κ × Answer ρ)} {s : σ} {r : ρ}
    (h : p.Returns trace s r) : p.Runs trace (.ret s r) := by
  induction h with
  | ret s r => exact .refl _
  | call ans _ ih => exact .call ans ih

/-- What a handler meets whatever its calls bring back, it still meets later on. -/
theorem Prog.Meets.runs {I : σ → Prop} {Q : ρ → Prop} {p q : Prog A σ κ ρ}
    {trace : List (A × κ × Answer ρ)} (hp : p.Meets I (fun _ _ => True) Q)
    (h : p.Runs trace q) : q.Meets I (fun _ _ => True) Q := by
  induction h with
  | refl p => exact hp
  | call ans _ ih => exact ih (hp.2 _ ans hp.1 fun _ _ => trivial)

theorem execute_busy {resolve : A → Option N}
    {serve : N → κ → (N → Process σ) → Option (Answer ρ × (N → Process σ))} {m n : N}
    (hserve : ∀ n c net r, serve n c net = some r → r.2 m = net m) (hmn : m ≠ n)
    {p : Prog A σ κ ρ} {net : N → Process σ} {r : Answer ρ × (N → Process σ)}
    (h : execute resolve serve n p net = some r) : r.2 m = net m := by
  induction p generalizing net with
  | ret s x =>
    obtain rfl : _ = r := by simpa [execute] using h
    exact Function.update_of_ne hmn _ _
  | exit s =>
    obtain rfl : _ = r := by simpa [execute] using h
    exact Function.update_of_ne hmn _ _
  | call s a c k ih =>
    cases ha : resolve a with
    | none =>
      simp only [execute, ha] at h
      rw [ih s .unreachable h, Function.update_of_ne hmn]
    | some d =>
      simp only [execute, ha] at h
      obtain ⟨r', hr', h⟩ := Option.bind_eq_some_iff.mp h
      rw [ih _ r'.1 h, hserve d c _ r' hr', Function.update_of_ne hmn]

/-- A server that waits is left as it is by the calls that are served meanwhile. -/
theorem serve_busy {sv : Service N A σ κ ρ} {depth : ℕ} {busy : List N} {m n : N} {c : κ}
    {net : N → Process σ} {r : Answer ρ × (N → Process σ)} (hm : m ∈ busy)
    (h : serve sv depth busy n c net = some r) : r.2 m = net m := by
  induction depth generalizing busy n c net r with
  | zero => simp [serve] at h
  | succ depth ih =>
    rw [serve] at h
    split_ifs at h with hbusy hexited
    · obtain rfl := Option.some.inj h
      rfl
    · have hmn : m ≠ n := fun he => hbusy (he ▸ hm)
      exact execute_busy (fun _ _ _ _ hr => ih (List.mem_cons_of_mem n hm) hr) hmn h

/-- Who waits for the result of a handler. -/
inductive Caller (N : Type) where
  | client
  | server (n : N)
  deriving DecidableEq, Repr

/-- What a server does: nothing, run a handler, or wait for the answer of server
`dest` to the call `c`, which `dest` has taken up or not. -/
inductive Status (N A σ κ ρ : Type) where
  | idle (s : σ)
  | running (p : Prog A σ κ ρ) (caller : Caller N)
  | waiting (s : σ) (dest : N) (c : κ) (taken : Bool) (k : σ → Answer ρ → Prog A σ κ ρ)
      (caller : Caller N)
  | exited (s : σ)

/-- The server that a server waits for. -/
def Status.waitsFor : Status N A σ κ ρ → Option N
  | .waiting _ dest _ _ _ _ => some dest
  | _ => none

/-- A client's call is taken up by server `n`; server `n` runs its handler to the next
remote call or to its end; the call that server `n` waits for is taken up. -/
inductive Action (N κ : Type) where
  | start (n : N) (c : κ)
  | run (n : N)
  | take (n : N)
  deriving DecidableEq, Repr

/-- Hand an answer to the server that waits for it. -/
def answer (caller : Caller N) (ans : Answer ρ) (st : N → Status N A σ κ ρ) :
    N → Status N A σ κ ρ :=
  match caller with
  | .client => st
  | .server m =>
    match st m with
    | .waiting s _ _ _ k up => Function.update st m (.running (k s ans) up)
    | _ => st

/-- One step. A call at an address without a server, or at one that has ended, is
answered at once. -/
def step (sv : Service N A σ κ ρ) (st : N → Status N A σ κ ρ) :
    Action N κ → Option (N → Status N A σ κ ρ)
  | .start n c =>
    match st n with
    | .idle s => some (Function.update st n (.running (sv.handler c s) .client))
    | _ => none
  | .run n =>
    match st n with
    | .running (.ret s r) caller =>
      some (answer caller (.reply r) (Function.update st n (.idle s)))
    | .running (.exit s) caller =>
      some (answer caller .failed (Function.update st n (.exited s)))
    | .running (.call s a c k) caller =>
      match sv.resolve a with
      | none => some (Function.update st n (.running (k s .unreachable) caller))
      | some m =>
        match st m with
        | .exited _ => some (Function.update st n (.running (k s .unreachable) caller))
        | _ => some (Function.update st n (.waiting s m c false k caller))
    | _ => none
  | .take n =>
    match st n with
    | .waiting s m c false k caller =>
      match st m with
      | .idle t =>
        some (Function.update (Function.update st n (.waiting s m c true k caller)) m
          (.running (sv.handler c t) (.server n)))
      | .exited _ => some (Function.update st n (.running (k s .failed) caller))
      | _ => none
    | _ => none

/-! ## Cycles of waiting servers -/

/-- No server waits, over any number of others, for itself. -/
def Acyclic (waits : N → Option N) : Prop :=
  ∀ n, ¬ Relation.TransGen (fun a b => waits a = some b) n n

/-- The handler of server `n` makes a call at `n` itself or at a server that waits. -/
def blockedCallee (sv : Service N A σ κ ρ) (st : N → Status N A σ κ ρ) : Action N κ → Bool
  | .run n =>
    match st n with
    | .running (.call _ a _ _) _ =>
      match sv.resolve a with
      | some m => m = n || (st m).waitsFor.isSome
      | none => false
    | _ => false
  | _ => false

/-- The guard of the runs in which every call is made at another server that does not
itself wait for an answer. -/
def CalleeFree (sv : Service N A σ κ ρ) (st : N → Status N A σ κ ρ) (a : Action N κ) : Prop :=
  blockedCallee sv st a = false

instance (sv : Service N A σ κ ρ) (st : N → Status N A σ κ ρ) (a : Action N κ) :
    Decidable (CalleeFree sv st a) :=
  inferInstanceAs (Decidable (blockedCallee sv st a = false))

omit [DecidableEq N] in
theorem Acyclic.mono {waits waits' : N → Option N} (h : Acyclic waits)
    (hle : ∀ a b, waits' a = some b → waits a = some b) : Acyclic waits' := by
  intro n hn
  exact h n (Relation.TransGen.mono hle n n hn)

/-- A new edge to a server without one closes no cycle. -/
theorem Acyclic.update {waits : N → Option N} (h : Acyclic waits) {n m : N} (hmn : m ≠ n)
    (hm : waits m = none) : Acyclic (Function.update waits n (some m)) := by
  have hend : ∀ b, Function.update waits n (some m) m ≠ some b := by
    intro b
    simp [Function.update_of_ne hmn, hm]
  have hpath : ∀ a b, Relation.TransGen
      (fun a b => Function.update waits n (some m) a = some b) a b →
      Relation.TransGen (fun a b => waits a = some b) a b ∨ b = m := by
    intro a b hab
    induction hab with
    | @single b hab =>
      by_cases ha : a = n
      · right
        simpa [ha, eq_comm] using hab
      · left
        exact .single (by simpa [Function.update_of_ne ha] using hab)
    | @tail b c hab hbc ih =>
      rcases ih with hwaits | rfl
      · by_cases hb : b = n
        · right
          simpa [hb, eq_comm] using hbc
        · left
          exact hwaits.tail (by simpa [Function.update_of_ne hb] using hbc)
      · exact (hend c hbc).elim
  intro x hx
  rcases hpath x x hx with hwaits | rfl
  · exact h x hwaits
  · obtain ⟨b, hb, -⟩ := Relation.TransGen.head'_iff.mp hx
    exact hend b hb

/-- An edge from a server to itself, or to one that waits for it, closes a cycle. -/
theorem not_acyclic_update {waits : N → Option N} {n m : N} (hm : m = n ∨ waits m = some n) :
    ¬ Acyclic (Function.update waits n (some m)) := by
  intro h
  have hedge : Function.update waits n (some m) n = some m := by simp
  by_cases hmn : m = n
  · subst hmn
    exact h m (.single hedge)
  · have hback : Function.update waits n (some m) m = some n := by
      simpa [Function.update_of_ne hmn] using hm.resolve_left hmn
    exact h n (.tail (.single hedge) hback)

/-- The server that each server waits for. -/
def waits (st : N → Status N A σ κ ρ) (n : N) : Option N := (st n).waitsFor

/-- A server that gets a status without an edge adds none. -/
theorem waits_update {st : N → Status N A σ κ ρ} {n : N} {t : Status N A σ κ ρ}
    (ht : t.waitsFor = none) {x y : N} (h : waits (Function.update st n t) x = some y) :
    waits st x = some y := by
  by_cases hx : x = n
  · simp [waits, hx, ht] at h
  · simpa [waits, Function.update_of_ne hx] using h

theorem waits_answer {st : N → Status N A σ κ ρ} {caller : Caller N} {ans : Answer ρ} {x y : N}
    (h : waits (answer caller ans st) x = some y) : waits st x = some y := by
  cases caller with
  | client => exact h
  | server m =>
    simp only [answer] at h
    split at h
    · exact waits_update rfl h
    · exact h

/-- A step adds no edge, or the one from a server to the callee of its handler. -/
theorem waits_step {sv : Service N A σ κ ρ} {st st' : N → Status N A σ κ ρ} {a : Action N κ}
    (h : step sv st a = some st') :
    (blockedCallee sv st a = false ∧ ∀ x y, waits st' x = some y → waits st x = some y) ∨
      ∃ n m, blockedCallee sv st a = (decide (m = n) || (waits st m).isSome) ∧
        waits st n = none ∧ waits st' = Function.update (waits st) n (some m) := by
  cases a with
  | start n c =>
    simp only [step] at h
    split at h
    · obtain rfl := Option.some.inj h
      exact .inl ⟨rfl, fun x y hxy => waits_update rfl hxy⟩
    · cases h
  | take n =>
    cases hn : st n with
    | waiting s m c taken k caller =>
      cases taken with
      | true => simp [step, hn] at h
      | false =>
        refine .inl ⟨rfl, ?_⟩
        intro x y hxy
        cases hm : st m with
        | idle t =>
          obtain rfl : _ = st' := by simpa [step, hn, hm] using h
          have hxy := waits_update rfl hxy
          by_cases hx : x = n
          · subst hx
            simpa [waits, hn, Status.waitsFor] using hxy
          · simpa [waits, Function.update_of_ne hx] using hxy
        | exited t =>
          obtain rfl : _ = st' := by simpa [step, hn, hm] using h
          exact waits_update rfl hxy
        | running p up => simp [step, hn, hm] at h
        | waiting t d e b j up => simp [step, hn, hm] at h
    | idle s => simp [step, hn] at h
    | running p up => simp [step, hn] at h
    | exited s => simp [step, hn] at h
  | run n =>
    cases hn : st n with
    | idle s => simp [step, hn] at h
    | waiting s m c taken k up => simp [step, hn] at h
    | exited s => simp [step, hn] at h
    | running p caller =>
      cases p with
      | ret s r =>
        obtain rfl : _ = st' := by simpa [step, hn] using h
        refine .inl ⟨by simp [blockedCallee, hn], ?_⟩
        intro x y hxy
        exact waits_update rfl (waits_answer hxy)
      | exit s =>
        obtain rfl : _ = st' := by simpa [step, hn] using h
        refine .inl ⟨by simp [blockedCallee, hn], ?_⟩
        intro x y hxy
        exact waits_update rfl (waits_answer hxy)
      | call s a c k =>
        cases ha : sv.resolve a with
        | none =>
          obtain rfl : _ = st' := by simpa [step, hn, ha] using h
          exact .inl ⟨by simp [blockedCallee, hn, ha], fun x y hxy => waits_update rfl hxy⟩
        | some m =>
          by_cases hex : ∃ t, st m = .exited t
          · obtain ⟨t, hm⟩ := hex
            obtain rfl : _ = st' := by simpa [step, hn, ha, hm] using h
            have hmn : m ≠ n := by
              rintro rfl
              simp [hn] at hm
            exact .inl ⟨by simp [blockedCallee, hn, ha, hm, hmn, Status.waitsFor],
              fun x y hxy => waits_update rfl hxy⟩
          · right
            refine ⟨n, m, by simp [blockedCallee, hn, ha, waits],
              by simp [waits, hn, Status.waitsFor], ?_⟩
            have hstep : st' = Function.update st n (.waiting s m c false k caller) := by
              cases hm : st m with
              | exited t => exact (hex ⟨t, hm⟩).elim
              | _ => simpa [step, hn, ha, hm, eq_comm] using h
            funext x
            by_cases hx : x = n
            · simp [waits, hstep, hx, Status.waitsFor]
            · simp [waits, hstep, Function.update_of_ne hx]

/-- A step that makes its call at a free server closes no cycle. -/
theorem acyclic_step {sv : Service N A σ κ ρ} {st st' : N → Status N A σ κ ρ} {a : Action N κ}
    (hac : Acyclic (waits st)) (hg : CalleeFree sv st a) (h : step sv st a = some st') :
    Acyclic (waits st') := by
  rcases waits_step h with ⟨-, hle⟩ | ⟨n, m, hb, -, heq⟩
  · exact hac.mono hle
  · rw [CalleeFree, hb, Bool.or_eq_false_iff, decide_eq_false_iff_not] at hg
    rw [heq]
    exact hac.update hg.1 (by simpa using hg.2)

/-- Among two servers, a step that makes its call at a server that is not free
closes a cycle. -/
theorem not_acyclic_step {sv : Service N A σ κ ρ} {st st' : N → Status N A σ κ ρ}
    {a : Action N κ} (htwo : ∀ x y z : N, x = y ∨ y = z ∨ x = z) (hac : Acyclic (waits st))
    (hg : ¬ CalleeFree sv st a) (h : step sv st a = some st') : ¬ Acyclic (waits st') := by
  rcases waits_step h with ⟨hb, -⟩ | ⟨n, m, hb, -, heq⟩
  · exact (hg hb).elim
  · rw [CalleeFree, hb, Bool.not_eq_false, Bool.or_eq_true, decide_eq_true_eq] at hg
    rw [heq]
    refine not_acyclic_update ?_
    rcases hg with hmn | hsome
    · exact .inl hmn
    · obtain ⟨y, hy⟩ := Option.isSome_iff_exists.mp hsome
      have hym : y ≠ m := by
        rintro rfl
        exact hac y (.single hy)
      rcases htwo y n m with h | h | h
      · exact .inr (h ▸ hy)
      · exact .inl h.symm
      · exact (hym h).elim

/-- The step that makes a call is always possible. -/
theorem calleeFree_of_stuck {sv : Service N A σ κ ρ} {st : N → Status N A σ κ ρ}
    {a : Action N κ} (h : step sv st a = none) : CalleeFree sv st a := by
  cases a with
  | start n c => rfl
  | take n => rfl
  | run n =>
    cases hn : st n with
    | running p caller =>
      cases p with
      | call s b c k =>
        cases hb : sv.resolve b with
        | none => simp [CalleeFree, blockedCallee, hn, hb]
        | some m => cases hm : st m <;> simp [step, hn, hb, hm] at h
      | _ => simp [CalleeFree, blockedCallee, hn]
    | _ => simp [CalleeFree, blockedCallee, hn]

end DistributedSystem.Rpc
