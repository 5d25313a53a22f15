import DistributedSystem.RpcInvariant

/-!
# Calls as messages

Servers whose calls and replies are written into messages and read from them. If every reply
that a handler can give is read back as it was given, the servers behave as if calls and
replies themselves travelled between them: when calls are served one at a time, and in every
order of steps when the servers work at the same time.
-/
namespace DistributedSystem.Rpc
open Transition

variable {N A σ κ ρ κ' ρ' : Type}

/-- The message of a call, the message of a reply to it, and what its caller reads from the
message that comes back. -/
structure Encoding (κ ρ κ' ρ' : Type) where
  call : κ → κ'
  reply : κ → ρ → ρ'
  read : κ → ρ' → Answer ρ

namespace Encoding

def answer (e : Encoding κ ρ κ' ρ') (c : κ) : Answer ρ → Answer ρ'
  | .unreachable => .unreachable
  | .failed => .failed
  | .reply r => .reply (e.reply c r)

def readAnswer (e : Encoding κ ρ κ' ρ') (c : κ) : Answer ρ' → Answer ρ
  | .unreachable => .unreachable
  | .failed => .failed
  | .reply m => e.read c m

/-- What the caller reads is what the callee has answered. -/
theorem readAnswer_answer (e : Encoding κ ρ κ' ρ') {c : κ} {ans : Answer ρ}
    (h : ∀ r, ans = .reply r → e.read c (e.reply c r) = .reply r) :
    e.readAnswer c (e.answer c ans) = ans := by
  cases ans with
  | unreachable => rfl
  | failed => rfl
  | reply r => exact h r rfl

end Encoding

/-- The handler of the call `c₀`, with messages for its calls and its reply. -/
def Prog.encoded (e : Encoding κ ρ κ' ρ') (c₀ : κ) : Prog A σ κ ρ → Prog A σ κ' ρ'
  | .ret s r => .ret s (e.reply c₀ r)
  | .exit s => .exit s
  | .call s a c k => .call s a (e.call c) fun s ans => (k s (e.readAnswer c ans)).encoded e c₀

variable [DecidableEq N]

theorem execute_encoded {e : Encoding κ ρ κ' ρ'} {post : κ → ρ → Prop}
    (hread : ∀ c r, post c r → e.read c (e.reply c r) = .reply r) {resolve : A → Option N}
    {serve : N → κ → (N → Process σ) → Option (Answer ρ × (N → Process σ))}
    {serve' : N → κ' → (N → Process σ) → Option (Answer ρ' × (N → Process σ))}
    (hserve : ∀ m c net, serve' m (e.call c) net =
      (serve m c net).map fun r => (e.answer c r.1, r.2))
    (hpost : ∀ m c net r, serve m c net = some r → ∀ x, r.1 = .reply x → post c x)
    (n : N) (c₀ : κ) (p : Prog A σ κ ρ) (net : N → Process σ) :
    execute resolve serve' n (p.encoded e c₀) net =
      (execute resolve serve n p net).map fun r => (e.answer c₀ r.1, r.2) := by
  induction p generalizing net with
  | ret s r => rfl
  | exit s => rfl
  | call s a c k ih =>
    cases ha : resolve a with
    | none =>
      simp only [Prog.encoded, execute, ha]
      exact ih s .unreachable _
    | some m =>
      simp only [Prog.encoded, execute, ha, hserve]
      cases hr : serve m c (Function.update net n ⟨s, false⟩) with
      | none => rfl
      | some r =>
        have hans : e.readAnswer c (e.answer c r.1) = r.1 :=
          e.readAnswer_answer fun x hx => hread c x (hpost m c _ r hr x hx)
        simp only [Option.map_some, Option.bind_some, hans]
        exact ih _ r.1 r.2

/-- Servers that exchange messages serve a call as the servers that they stand for do, and the
caller reads the answer that these give. -/
theorem serve_encoded {e : Encoding κ ρ κ' ρ'} {post : κ → ρ → Prop}
    (hread : ∀ c r, post c r → e.read c (e.reply c r) = .reply r) {sv : Service N A σ κ ρ}
    {sv' : Service N A σ κ' ρ'} (hresolve : sv'.resolve = sv.resolve)
    (hhandler : ∀ c s, sv'.handler (e.call c) s = (sv.handler c s).encoded e c)
    (hsv : ∀ c s, (sv.handler c s).Meets (fun _ => True) post (post c)) (depth : ℕ)
    (busy : List N) (n : N) (c : κ) (net : N → Process σ) :
    serve sv' depth busy n (e.call c) net =
        (serve sv depth busy n c net).map (fun r => (e.answer c r.1, r.2)) ∧
      ∀ r, serve sv depth busy n c net = some r → e.readAnswer c (e.answer c r.1) = r.1 := by
  have hpost : ∀ depth busy m c net r, serve sv depth busy m c net = some r →
      ∀ x, r.1 = .reply x → post c x := by
    intro depth busy m c net r hr
    exact (serve_meets (fun c s _ => hsv c s) (fun _ => trivial) hr).2
  refine ⟨?_, fun r hr => e.readAnswer_answer fun x hx => hread c x (hpost _ _ _ _ _ r hr x hx)⟩
  induction depth generalizing busy n c net with
  | zero => rfl
  | succ depth ih =>
    rw [serve, serve]
    by_cases hbusy : n ∈ busy
    · rw [if_pos hbusy, if_pos hbusy]
      rfl
    · rw [if_neg hbusy, if_neg hbusy]
      cases hexited : (net n).exited with
      | true => rfl
      | false =>
        simp only [Bool.false_eq_true, if_false]
        rw [hhandler, hresolve]
        exact execute_encoded hread (fun m c net => ih (n :: busy) m c net)
          (fun m c net r hr => hpost _ _ m c net r hr) n c _ net

/-! ## Messages at the same time -/

/-- What a server does and what its state is, without its handler. -/
inductive Shape (N σ : Type) where
  | idle (s : σ)
  | running (s : σ) (caller : Caller N)
  | waiting (s : σ) (dest : N) (taken : Bool) (caller : Caller N)
  | exited (s : σ)
  deriving DecidableEq, Repr

def Status.shape : Status N A σ κ ρ → Shape N σ
  | .idle s => .idle s
  | .running p caller => .running p.current caller
  | .waiting s dest _ taken _ caller => .waiting s dest taken caller
  | .exited s => .exited s

def Action.encoded (e : Encoding κ ρ κ' ρ') : Action N κ → Action N κ'
  | .start n c => .start n (e.call c)
  | .run n => .run n
  | .take n => .take n

/-- The handler is the same up to the messages of the call that it answers. -/
def Status.Encodes (e : Encoding κ ρ κ' ρ') (asked : Caller N → κ → Prop) :
    Status N A σ κ ρ → Status N A σ κ' ρ' → Prop
  | .idle s, t' => t' = .idle s
  | .exited s, t' => t' = .exited s
  | .running p caller, t' => ∃ c₀, asked caller c₀ ∧ t' = .running (p.encoded e c₀) caller
  | .waiting s dest c taken k caller, t' => ∃ c₀, asked caller c₀ ∧
      t' = .waiting s dest (e.call c) taken
        (fun s ans => (k s (e.readAnswer c ans)).encoded e c₀) caller

/-- The servers in `st'` exchange the messages of what the servers in `st` exchange. -/
def AllEncode (e : Encoding κ ρ κ' ρ') (st : N → Status N A σ κ ρ)
    (st' : N → Status N A σ κ' ρ') : Prop :=
  ∀ n, (st n).Encodes e (Asked st n) (st' n)

section
variable {e : Encoding κ ρ κ' ρ'} {st : N → Status N A σ κ ρ} {st' : N → Status N A σ κ' ρ'}

omit [DecidableEq N] in
theorem Status.Encodes.mono {asked asked' : Caller N → κ → Prop} {t : Status N A σ κ ρ}
    {t' : Status N A σ κ' ρ'} (h : t.Encodes e asked t')
    (hasked : ∀ caller c, asked caller c → asked' caller c) : t.Encodes e asked' t' := by
  cases t with
  | idle s => exact h
  | exited s => exact h
  | running p caller =>
    obtain ⟨c₀, hc₀, ht'⟩ := h
    exact ⟨c₀, hasked caller c₀ hc₀, ht'⟩
  | waiting s dest c taken k caller =>
    obtain ⟨c₀, hc₀, ht'⟩ := h
    exact ⟨c₀, hasked caller c₀ hc₀, ht'⟩

omit [DecidableEq N] in
theorem Prog.current_encoded (c₀ : κ) (p : Prog A σ κ ρ) : (p.encoded e c₀).current = p.current := by
  cases p <;> rfl

omit [DecidableEq N] in
theorem AllEncode.idle (h : AllEncode e st st') {n : N} {s : σ} (hn : st n = .idle s) :
    st' n = .idle s := by
  have hn' := h n
  rwa [hn] at hn'

omit [DecidableEq N] in
theorem AllEncode.exited (h : AllEncode e st st') {n : N} {s : σ} (hn : st n = .exited s) :
    st' n = .exited s := by
  have hn' := h n
  rwa [hn] at hn'

omit [DecidableEq N] in
theorem AllEncode.running (h : AllEncode e st st') {n : N} {p : Prog A σ κ ρ} {caller : Caller N}
    (hn : st n = .running p caller) :
    ∃ c₀, Asked st n caller c₀ ∧ st' n = .running (p.encoded e c₀) caller := by
  have hn' := h n
  rwa [hn] at hn'

omit [DecidableEq N] in
theorem AllEncode.waiting (h : AllEncode e st st') {n dest : N} {s : σ} {c : κ} {taken : Bool}
    {k : σ → Answer ρ → Prog A σ κ ρ} {caller : Caller N}
    (hn : st n = .waiting s dest c taken k caller) :
    ∃ c₀, Asked st n caller c₀ ∧ st' n = .waiting s dest (e.call c) taken
      (fun s ans => (k s (e.readAnswer c ans)).encoded e c₀) caller := by
  have hn' := h n
  rwa [hn] at hn'

omit [DecidableEq N] in
theorem AllEncode.shape (h : AllEncode e st st') (n : N) : (st' n).shape = (st n).shape := by
  cases hn : st n with
  | idle s =>
    rw [h.idle hn]
    rfl
  | exited s =>
    rw [h.exited hn]
    rfl
  | running p caller =>
    obtain ⟨c₀, -, hn'⟩ := h.running hn
    rw [hn', Status.shape, Status.shape, Prog.current_encoded]
  | waiting s dest c taken k caller =>
    obtain ⟨c₀, -, hn'⟩ := h.waiting hn
    rw [hn']
    rfl

theorem AllEncode.update (h : AllEncode e st st') {n : N} {t : Status N A σ κ ρ}
    {t' : Status N A σ κ' ρ'} (hn : ∀ s dest c k up, st n ≠ .waiting s dest c true k up)
    (ht : t.Encodes e (Asked st n) t') :
    AllEncode e (Function.update st n t) (Function.update st' n t') := by
  intro x
  by_cases hx : x = n
  · subst hx
    rw [Function.update_self, Function.update_self]
    exact ht.mono fun caller c => asked_update hn
  · rw [Function.update_of_ne hx, Function.update_of_ne hx]
    exact (h x).mono fun caller c => asked_update hn

/-- A handler ends, and its caller reads the answer from the message that comes back. -/
theorem AllEncode.answer (h : AllEncode e st st') {n : N} {p : Prog A σ κ ρ} {caller : Caller N}
    {t : Status N A σ κ ρ} {t' : Status N A σ κ' ρ'} {c₀ : κ} {ans : Answer ρ}
    (hn : st n = .running p caller) (hc₀ : Asked st n caller c₀)
    (ht : (∃ s, t = .idle s ∧ t' = .idle s) ∨ ∃ s, t = .exited s ∧ t' = .exited s)
    (hans : ∀ m, caller = .server m → e.readAnswer c₀ (e.answer c₀ ans) = ans) :
    AllEncode e (Rpc.answer caller ans (Function.update st n t))
      (Rpc.answer caller (e.answer c₀ ans) (Function.update st' n t')) := by
  have hdone : ∀ asked, t.Encodes e asked t' := by
    intro asked
    rcases ht with ⟨s, rfl, rfl⟩ | ⟨s, rfl, rfl⟩
    · rfl
    · rfl
  have hupdate : AllEncode e (Function.update st n t) (Function.update st' n t') :=
    h.update (by simp [hn]) (hdone _)
  cases caller with
  | client => exact hupdate
  | server m =>
    obtain ⟨s, k, up, hm⟩ := hc₀ m rfl
    have hmn : m ≠ n := by
      rintro rfl
      simp [hn] at hm
    have hm₁ : Function.update st n t m = .waiting s n c₀ true k up := by
      rw [Function.update_of_ne hmn, hm]
    obtain ⟨c₁, hc₁, hm'⟩ := hupdate.waiting hm₁
    simp only [Rpc.answer, hm₁, hm', hans m rfl]
    intro x
    by_cases hx : x = m
    · subst hx
      rw [Function.update_self, Function.update_self]
      exact ⟨c₁, asked_resume hm₁ hmn hc₁, rfl⟩
    · rw [Function.update_of_ne hx, Function.update_of_ne hx]
      by_cases hxn : x = n
      · subst hxn
        rw [Function.update_self, Function.update_self]
        exact hdone _
      · exact (hupdate x).mono fun caller d => asked_resume hm₁ hxn

variable {sv : Service N A σ κ ρ} {sv' : Service N A σ κ' ρ'}

theorem AllEncode.start (hhandler : ∀ c s, sv'.handler (e.call c) s = (sv.handler c s).encoded e c)
    (h : AllEncode e st st') (n : N) (c : κ) :
    Option.Rel (AllEncode e) (step sv st (.start n c)) (step sv' st' (.start n (e.call c))) := by
  cases hn : st n with
  | idle s =>
    simp only [step, hn, h.idle hn, hhandler]
    refine .some (h.update (by simp [hn]) ⟨c, ?_, rfl⟩)
    rintro m ⟨⟩
  | exited s =>
    simp only [step, hn, h.exited hn]
    exact .none
  | running p caller =>
    obtain ⟨c₀, -, hn'⟩ := h.running hn
    simp only [step, hn, hn']
    exact .none
  | waiting s dest d taken k caller =>
    obtain ⟨c₀, -, hn'⟩ := h.waiting hn
    simp only [step, hn, hn']
    exact .none

theorem AllEncode.take (hhandler : ∀ c s, sv'.handler (e.call c) s = (sv.handler c s).encoded e c)
    (h : AllEncode e st st') (n : N) :
    Option.Rel (AllEncode e) (step sv st (.take n)) (step sv' st' (.take n)) := by
  cases hn : st n with
  | idle s =>
    simp only [step, hn, h.idle hn]
    exact .none
  | exited s =>
    simp only [step, hn, h.exited hn]
    exact .none
  | running p caller =>
    obtain ⟨c₀, -, hn'⟩ := h.running hn
    simp only [step, hn, hn']
    exact .none
  | waiting s m c taken k caller =>
    obtain ⟨c₀, hc₀, hn'⟩ := h.waiting hn
    cases taken with
    | true =>
      simp only [step, hn, hn']
      exact .none
    | false =>
      cases hm : st m with
      | idle t =>
        simp only [step, hn, hn', hm, h.idle hm, hhandler]
        have htaken := h.update (t := .waiting s m c true k caller) (by simp [hn]) ⟨c₀, hc₀, rfl⟩
        have hmn : m ≠ n := by
          rintro rfl
          simp [hn] at hm
        refine .some (htaken.update ?_ ⟨c, ?_, rfl⟩)
        · simp [Function.update_of_ne hmn, hm]
        · rintro x ⟨rfl⟩
          exact ⟨s, k, caller, Function.update_self ..⟩
      | exited t =>
        simp only [step, hn, hn', hm, h.exited hm]
        exact .some (h.update (by simp [hn]) ⟨c₀, hc₀, rfl⟩)
      | running p up =>
        obtain ⟨c₁, -, hm'⟩ := h.running hm
        simp only [step, hn, hn', hm, hm']
        exact .none
      | waiting t dest d b j up =>
        obtain ⟨c₁, -, hm'⟩ := h.waiting hm
        simp only [step, hn, hn', hm, hm']
        exact .none

/-- A handler that makes a call sends the message of that call. -/
theorem AllEncode.call (hresolve : sv'.resolve = sv.resolve) (h : AllEncode e st st') {n : N}
    {s : σ} {a : A} {c : κ} {k : σ → Answer ρ → Prog A σ κ ρ} {caller : Caller N}
    (hn : st n = .running (.call s a c k) caller) :
    Option.Rel (AllEncode e) (step sv st (.run n)) (step sv' st' (.run n)) := by
  obtain ⟨c₀, hc₀, hn'⟩ := h.running hn
  have hproceed : AllEncode e (Function.update st n (.running (k s .unreachable) caller))
      (Function.update st' n (.running ((k s .unreachable).encoded e c₀) caller)) :=
    h.update (by simp [hn]) ⟨c₀, hc₀, rfl⟩
  have hwait : ∀ m, AllEncode e (Function.update st n (.waiting s m c false k caller))
      (Function.update st' n (.waiting s m (e.call c) false
        (fun s ans => (k s (e.readAnswer c ans)).encoded e c₀) caller)) :=
    fun m => h.update (by simp [hn]) ⟨c₀, hc₀, rfl⟩
  cases ha : sv.resolve a with
  | none =>
    simp only [step, hn, hn', Prog.encoded, hresolve, ha]
    exact .some hproceed
  | some m =>
    cases hm : st m with
    | exited t =>
      simp only [step, hn, hn', Prog.encoded, hresolve, ha, hm, h.exited hm]
      exact .some hproceed
    | idle t =>
      simp only [step, hn, hn', Prog.encoded, hresolve, ha, hm, h.idle hm]
      exact .some (hwait m)
    | running p up =>
      obtain ⟨c₁, -, hm'⟩ := h.running hm
      simp only [step, hn, hn', Prog.encoded, hresolve, ha, hm, hm']
      exact .some (hwait m)
    | waiting t dest d b j up =>
      obtain ⟨c₁, -, hm'⟩ := h.waiting hm
      simp only [step, hn, hn', Prog.encoded, hresolve, ha, hm, hm']
      exact .some (hwait m)

omit [DecidableEq N] in
/-- A server answers one call at a time. -/
theorem Asked.eq {n m : N} {c c' : κ} (h : Asked st n (.server m) c)
    (h' : Asked st n (.server m) c') : c = c' := by
  obtain ⟨s, k, up, hm⟩ := h m rfl
  obtain ⟨s', k', up', hm'⟩ := h' m rfl
  rw [hm] at hm'
  injection hm'

theorem AllEncode.run {post : κ → ρ → Prop}
    (hread : ∀ c r, post c r → e.read c (e.reply c r) = .reply r)
    (hresolve : sv'.resolve = sv.resolve)
    (hobey : AllObey (fun _ _ => True) post (fun _ => True) st) (h : AllEncode e st st') (n : N) :
    Option.Rel (AllEncode e) (step sv st (.run n)) (step sv' st' (.run n)) := by
  cases hn : st n with
  | idle s =>
    simp only [step, hn, h.idle hn]
    exact .none
  | exited s =>
    simp only [step, hn, h.exited hn]
    exact .none
  | waiting s m c taken k caller =>
    obtain ⟨c₀, -, hn'⟩ := h.waiting hn
    simp only [step, hn, hn']
    exact .none
  | running p caller =>
    obtain ⟨c₀, hc₀, hn'⟩ := h.running hn
    cases p with
    | ret s r =>
      simp only [step, hn, hn', Prog.encoded]
      refine .some (h.answer hn hc₀ (.inl ⟨s, rfl, rfl⟩) ?_)
      rintro m rfl
      have hok := hobey n
      rw [hn] at hok
      obtain ⟨c₁, hc₁, hp⟩ := hok
      obtain rfl := hc₁.eq hc₀
      exact hread c₁ r hp.meets.2
    | exit s =>
      simp only [step, hn, hn', Prog.encoded]
      exact .some (h.answer hn hc₀ (.inr ⟨s, rfl, rfl⟩) fun _ _ => rfl)
    | call s a c k => exact h.call hresolve hn

/-- In every order of steps, servers that exchange messages can do what the servers that they
stand for can do, and nothing else. -/
theorem exec_encoded {post : κ → ρ → Prop}
    (hread : ∀ c r, post c r → e.read c (e.reply c r) = .reply r)
    (hresolve : sv'.resolve = sv.resolve)
    (hhandler : ∀ c s, sv'.handler (e.call c) s = (sv.handler c s).encoded e c)
    (hsv : ∀ c s, (sv.handler c s).Meets (fun _ => True) post (post c))
    (hobey : AllObey (fun _ _ => True) post (fun _ => True) st) (h : AllEncode e st st')
    (as : List (Action N κ)) :
    Option.Rel (AllEncode e) (exec (step sv) st as)
      (exec (step sv') st' (as.map (Action.encoded e))) := by
  refine exec_rel (J := AllObey (fun _ _ => True) post fun _ => True) ?_ ?_ as hobey h
  · intro u a u' hu hs
    exact allObey_step (fun _ c s _ => (hsv c s).obeys) hu hs
  · intro u u' a hu hencode
    cases a with
    | start n c => exact hencode.start hhandler n c
    | run n => exact hencode.run hread hresolve hu n
    | take n => exact hencode.take hhandler n

end

end DistributedSystem.Rpc
