import DistributedSystem.LockThreads

/-!
# Races between the threads of a node

Nothing but the mutex `lock` orders the threads of one node, and neither
`request_1_svc` nor the loop of `release_lock_1_svc` takes it. Two things depend on
luck for that reason: the value that line 170 leaves in `highestseqno`, and the
sequence number that a deferral is decided against. For each of them there is a
condition on single statements under which all interleavings come out right. A third,
the wake-up of a deferred thread, has a module of its own.
-/
namespace DistributedSystem.LockThreads
open LockManager Transition

variable {H C : Type}

/-! ## Lost updates of `highestseqno` -/

/-- The argument of a thread of `request_1_svc` that has executed line 170. -/
def RequestThread.bumped : RequestThread → Option (RequestPack ℤ)
  | .line172 pack | .line180 pack | .line183 pack | .line184 pack | .returned pack => some pack
  | _ => none

/-- The statement is a write of line 170 by a thread that has been overtaken: its own
number and the value that it has read are both smaller than `highestseqno` is now. -/
def lowers (s : State H C) : Action H C → Bool
  | .request h =>
    match s.request h with
    | .line170Write pack read =>
      decide (pack.seqno < s.lockvar.highestseqno) && decide (read < s.lockvar.highestseqno)
    | _ => false
  | _ => false

/-- The guard of the runs in which `highestseqno` never decreases. -/
def NotLowering (s : State H C) (a : Action H C) : Prop := lowers s a = false

instance (s : State H C) (a : Action H C) : Decidable (NotLowering s a) :=
  inferInstanceAs (Decidable (lowers s a = false))

variable [DecidableEq H] [DecidableEq C]

/-- All threads that have executed line 170 are accounted for in `highestseqno`, and
in the sequence number that a local call at line 126 chooses in this state. -/
def NoLostUpdate (mac : ℕ) (s : State H C) : Prop :=
  ∀ h pack, (s.request h).bumped = some pack → pack.seqno ≤ s.lockvar.highestseqno ∧
    ∀ x s', s.thread x = .line126 → step mac s (.run x) = some s' →
      pack.seqno < s'.lockvar.myseqno

theorem noLostUpdate_iff {mac : ℕ} {s : State H C} : NoLostUpdate mac s ↔
    ∀ h pack, (s.request h).bumped = some pack → pack.seqno ≤ s.lockvar.highestseqno := by
  constructor
  · intro hs h pack hb
    exact (hs h pack hb).1
  · intro hs h pack hb
    refine ⟨hs h pack hb, ?_⟩
    intro x s' ht hstep
    obtain rfl : _ = s' := by simpa [step, ht] using hstep
    exact Int.lt_add_one_of_le (hs h pack hb)

/-- Only the write of line 170 changes `highestseqno`, and a thread that has executed
it stays past it. -/
theorem highestseqno_effect {mac : ℕ} {s s' : State H C} {a : Action H C}
    (h : Effect mac s a s') :
    (lowers s a = false ∧ s'.lockvar.highestseqno = s.lockvar.highestseqno ∧
        ∀ g, (s'.request g).bumped = (s.request g).bumped) ∨
      ∃ g pack read, s.request g = .line170Write pack read ∧
        (lowers s a = true ↔ MAX pack.seqno read < s.lockvar.highestseqno) ∧
        s'.lockvar.highestseqno = MAX pack.seqno read ∧
        s'.request = Function.update s.request g (.line172 pack) := by
  have hkeep : ∀ (g : H) (pc : RequestThread), pc.bumped = (s.request g).bumped →
      ∀ k, (Function.update s.request g pc k).bumped = (s.request k).bumped := by
    intro g pc hpc
    exact (Function.forall_update_iff s.request fun k t => t.bumped = (s.request k).bumped).mpr
      ⟨hpc, fun _ _ => rfl⟩
  cases h with
  | writeHighest g pack read hr =>
    exact .inr ⟨g, pack, read, hr, by simp [lowers, hr, MAX_eq_max], rfl, rfl⟩
  | arrive g pack hr => exact .inl ⟨rfl, rfl, hkeep g _ (by rw [hr]; rfl)⟩
  | readHighest g pack hr => exact .inl ⟨by simp [lowers, hr], rfl, hkeep g _ (by rw [hr]; rfl)⟩
  | defer g pack hr hd => exact .inl ⟨by simp [lowers, hr], rfl, hkeep g _ (by rw [hr]; rfl)⟩
  | grant g pack hr hd => exact .inl ⟨by simp [lowers, hr], rfl, hkeep g _ (by rw [hr]; rfl)⟩
  | park g pack hr => exact .inl ⟨by simp [lowers, hr], rfl, hkeep g _ (by rw [hr]; rfl)⟩
  | lockFirst g pack hr hm => exact .inl ⟨by simp [lowers, hr], rfl, hkeep g _ (by rw [hr]; rfl)⟩
  | lockSecond g pack hr hm => exact .inl ⟨by simp [lowers, hr], rfl, hkeep g _ (by rw [hr]; rfl)⟩
  | _ => exact .inl ⟨rfl, rfl, fun _ => rfl⟩

/-- The value is the initial one of `highestseqno`, or the sequence number of a
thread that has executed line 170. -/
def Attained (s : State H C) (v : ℤ) : Prop :=
  v = 0 ∨ ∃ h pack, (s.request h).bumped = some pack ∧ pack.seqno = v

/-- All values that `highestseqno` has taken are attained and not negative. -/
structure Origin (s : State H C) : Prop where
  nonneg : 0 ≤ s.lockvar.highestseqno
  attained : Attained s s.lockvar.highestseqno
  read_nonneg : ∀ h pack read, s.request h = .line170Write pack read → 0 ≤ read
  read_attained : ∀ h pack read, s.request h = .line170Write pack read → Attained s read

omit [DecidableEq H] [DecidableEq C] in
theorem origin_initial (n : ℤ) : Origin (initial n : State H C) := by
  constructor <;> simp [initial, LockVar.new, Attained]

/-- A thread at the write of line 170 has just read `highestseqno`, or was there before. -/
theorem read_effect {mac : ℕ} {s s' : State H C} {a : Action H C} (h : Effect mac s a s')
    {g : H} {pack : RequestPack ℤ} {read : ℤ} (hg : s'.request g = .line170Write pack read) :
    s.request g = .line170Write pack read ∨ read = s.lockvar.highestseqno := by
  have hkeep : ∀ (k : H) (pc : RequestThread), pc ≠ .line170Write pack read →
      Function.update s.request k pc g = .line170Write pack read →
      s.request g = .line170Write pack read := by
    intro k pc hpc hk
    by_cases hgk : g = k
    · subst hgk
      simp [hpc] at hk
    · simpa [Function.update_of_ne hgk] using hk
  cases h with
  | readHighest k p hr =>
    by_cases hgk : g = k
    · subst hgk
      right
      simp only [Function.update_self, RequestThread.line170Write.injEq] at hg
      exact hg.2.symm
    · left
      simpa [Function.update_of_ne hgk] using hg
  | arrive k p hr => exact .inl (hkeep k _ (by simp) hg)
  | writeHighest k p r hr => exact .inl (hkeep k _ (by simp) hg)
  | defer k p hr hd => exact .inl (hkeep k _ (by simp) hg)
  | grant k p hr hd => exact .inl (hkeep k _ (by simp) hg)
  | park k p hr => exact .inl (hkeep k _ (by simp) hg)
  | lockFirst k p hr hm => exact .inl (hkeep k _ (by simp) hg)
  | lockSecond k p hr hm => exact .inl (hkeep k _ (by simp) hg)
  | _ => exact .inl hg

/-- A thread that has executed line 170 stays past it. -/
theorem bumped_effect {mac : ℕ} {s s' : State H C} {a : Action H C} (h : Effect mac s a s')
    {g : H} {pack : RequestPack ℤ} (hg : (s.request g).bumped = some pack) :
    (s'.request g).bumped = some pack := by
  rcases highestseqno_effect h with ⟨-, -, hb⟩ | ⟨k, p, read, hr, -, -, hb⟩
  · rw [hb, hg]
  · have hgk : g ≠ k := by
      rintro rfl
      simp [hr, RequestThread.bumped] at hg
    rw [hb, Function.update_of_ne hgk, hg]

theorem attained_effect {mac : ℕ} {s s' : State H C} {a : Action H C} (h : Effect mac s a s')
    {v : ℤ} (hv : Attained s v) : Attained s' v := by
  rcases hv with hv | ⟨g, pack, hg, hv⟩
  · exact .inl hv
  · exact .inr ⟨g, pack, bumped_effect h hg, hv⟩

theorem origin_effect {mac : ℕ} {s s' : State H C} {a : Action H C} (ho : Origin s)
    (h : Effect mac s a s') : Origin s' := by
  have hread : ∀ g pack read, s'.request g = .line170Write pack read →
      0 ≤ read ∧ Attained s' read := by
    intro g pack read hg
    rcases read_effect h hg with hg | rfl
    · exact ⟨ho.read_nonneg g pack read hg, attained_effect h (ho.read_attained g pack read hg)⟩
    · exact ⟨ho.nonneg, attained_effect h ho.attained⟩
  have hhigh : 0 ≤ s'.lockvar.highestseqno ∧ Attained s' s'.lockvar.highestseqno := by
    rcases highestseqno_effect h with ⟨-, hh, -⟩ | ⟨g, pack, read, hr, -, hh, hb⟩
    · rw [hh]
      exact ⟨ho.nonneg, attained_effect h ho.attained⟩
    · rw [hh, MAX_eq_max]
      have hnonneg := ho.read_nonneg g pack read hr
      refine ⟨le_max_of_le_right hnonneg, ?_⟩
      rcases le_total pack.seqno read with hle | hle
      · rw [max_eq_right hle]
        exact attained_effect h (ho.read_attained g pack read hr)
      · rw [max_eq_left hle]
        exact .inr ⟨g, pack, by simp [hb, RequestThread.bumped], rfl⟩
  exact ⟨hhigh.1, hhigh.2, fun g pack read hg => (hread g pack read hg).1,
    fun g pack read hg => (hread g pack read hg).2⟩

/-- A write that lowers `highestseqno` loses the thread whose sequence number it
was, and no other statement loses any. -/
theorem noLostUpdate_effect {mac : ℕ} {s s' : State H C} {a : Action H C} (ho : Origin s)
    (hs : NoLostUpdate mac s) (h : Effect mac s a s') : NotLowering s a ↔ NoLostUpdate mac s' := by
  rw [noLostUpdate_iff] at hs ⊢
  rw [NotLowering]
  rcases highestseqno_effect h with ⟨hl, hh, hb⟩ | ⟨g, pack, read, hr, hl, hh, hb⟩
  · refine ⟨fun _ => ?_, fun _ => hl⟩
    intro k p hk
    rw [hh]
    exact hs k p ((hb k).symm.trans hk)
  · have hmax := MAX_eq_max pack.seqno read
    have hnonneg := ho.read_nonneg g pack read hr
    rw [← Bool.not_eq_true, hl, not_lt]
    constructor
    · intro hle k p hk
      by_cases hkg : k = g
      · subst hkg
        obtain rfl : pack = p := by simpa [hb, RequestThread.bumped] using hk
        omega
      · rw [hb, Function.update_of_ne hkg] at hk
        have hkp := hs k p hk
        omega
    · -- the thread that `highestseqno` had its value from is the one that is lost
      intro hall
      rcases ho.attained with hzero | ⟨k, p, hk, hv⟩
      · omega
      · have hkp := hall k p (bumped_effect h hk)
        omega

/-- For every run: no thread that has executed line 170 is lost from `highestseqno`
or from a later choice of `myseqno`, in any state of the run, if and only if no
write of line 170 makes `highestseqno` smaller. -/
theorem noLostUpdate_iff_notLowering (n : ℤ) (mac : ℕ) (as : List (Action H C)) :
    Throughout (step mac) (NoLostUpdate mac) (initial n) as ↔
      Along (step mac) NotLowering (initial n) as := by
  refine (along_iff_throughout (J := Origin) ?_ ?_ ?_ as (origin_initial n) ?_).symm
  · intro s a s' ho hs
    exact origin_effect ho (effect_of_step hs)
  · intro s a s' ho hs hstep
    exact noLostUpdate_effect ho hs (effect_of_step hstep)
  · intro s a hstep
    by_contra hl
    cases a with
    | request h =>
      cases hr : s.request h with
      | line170Write pack read => simp [step, hr] at hstep
      | _ => simp [NotLowering, lowers, hr] at hl
    | _ => exact hl rfl
  · simp [noLostUpdate_iff, initial, RequestThread.bumped]

/-- The first thread reads 0 and is overtaken by a second one with a larger number;
its late write then takes that number back. -/
theorem not_noLostUpdate : ∃ s : State Bool Unit,
    Reaches (step 1) anyStep (initial 1) s ∧ ¬ NoLostUpdate 1 s := by
  let as : List (Action Bool Unit) :=
    [.arrive false ⟨1, 3, 2⟩, .arrive true ⟨1, 5, 3⟩, .request false, .request true,
      .request true, .request false]
  let s := (exec (step 1) (initial 1) as).get (by decide)
  refine ⟨s, reaches_of_exec_anyStep as (Option.some_get _).symm, ?_⟩
  intro h
  have hb : (s.request true).bumped = some ⟨1, 5, 3⟩ := by decide
  have hlow : s.lockvar.highestseqno = 3 := by decide
  have hle := (h true _ hb).1
  simp [hlow] at hle

/-! ## Deferrals and the number that is sent -/

/-- The call has executed line 126 and has not executed line 159. -/
def LocalThread.chosen : LocalThread → Bool
  | .line127 | .line150 _ | .line152 _ | .line153 _ | .line156 | .line157 | .line159 => true
  | _ => false

/-- The call has executed line 125 and has not executed line 159. -/
def LocalThread.past125 (t : LocalThread) : Bool := t = .line126 || t.chosen

omit [DecidableEq H] [DecidableEq C] in
/-- The thread decides to defer, on lines 172 to 174. -/
def decidesToDefer (mac : ℕ) (s : State H C) : Action H C → Bool
  | .request h =>
    match s.request h with
    | .line172 pack => s.lockvar.defers mac pack
    | _ => false
  | _ => false

/-- The guard of the runs in which no thread decides to defer while a local call is
between lines 125 and 126. -/
def NotBetween (mac : ℕ) (s : State H C) (a : Action H C) : Prop :=
  decidesToDefer mac s a = true → ∀ x, s.thread x ≠ .line126

instance [Fintype C] (mac : ℕ) (s : State H C) (a : Action H C) :
    Decidable (NotBetween mac s a) :=
  inferInstanceAs (Decidable (_ → _))

/-- The state is reached by a run under the guard `G` in which the thread `h` decided
to defer its request `pack` while the local call `x` was past line 125 and not yet
past line 159. -/
def DeferredDuring (n : ℤ) (mac : ℕ) (G : State H C → Action H C → Prop) (h : H)
    (pack : RequestPack ℤ) (x : C) (s : State H C) : Prop :=
  ∃ u u', Reaches (step mac) G (initial n) u ∧ (u.thread x).past125 = true ∧
    u.request h = .line172 pack ∧ u.lockvar.defers mac pack = true ∧ G u (.request h) ∧
    step mac u (.request h) = some u' ∧ Reaches (step mac) G u' s

/-- Only line 126 changes `myseqno`. -/
theorem myseqno_effect {mac : ℕ} {s s' : State H C} {a : Action H C} (h : Effect mac s a s') :
    s'.lockvar.myseqno = s.lockvar.myseqno ∨ ∃ y, s.thread y = .line126 := by
  cases h with
  | chooseSeqno y ht => exact .inr ⟨y, ht⟩
  | _ => exact .inl rfl

/-- While a call is between lines 126 and 159, its number stays what it is. -/
theorem priority_effect {mac : ℕ} {s s' : State H C} {a : Action H C} (ho : Owned s)
    (h : Effect mac s a s') {x : C} (hx : (s.thread x).chosen = true) :
    s'.lockvar.priority mac = s.lockvar.priority mac := by
  rcases myseqno_effect h with heq | ⟨y, hy⟩
  · rw [LockVar.priority, LockVar.priority, heq]
  · have hinside : (s.thread x).inside = true := by
      cases hpc : s.thread x <;> simp_all [LocalThread.chosen, LocalThread.inside]
    obtain rfl := ho.unique x y hinside (by simp [hy, LocalThread.inside])
    simp [hy, LocalThread.chosen] at hx

/-- A call that has chosen keeps what it has chosen until it returns. -/
theorem chosen_effect {mac : ℕ} {s s' : State H C} {a : Action H C} (h : Effect mac s a s')
    {x : C} (hx : (s.thread x).chosen = true) :
    (s'.thread x).chosen = true ∨ s'.thread x = .returned := by
  rcases thread_effect h x with heq | hnext
  · exact .inl (heq ▸ hx)
  · generalize s.thread x = t at hnext hx
    generalize s'.thread x = t' at hnext
    cases hnext <;> simp [LocalThread.chosen] at hx ⊢

theorem line126_of_chosen {mac : ℕ} {s s' : State H C} {a : Action H C} (h : Effect mac s a s')
    {x : C} (hx : (s'.thread x).chosen = true) :
    (s.thread x).chosen = true ∨ s.thread x = .line126 := by
  rcases thread_effect h x with heq | hnext
  · exact .inl (heq ▸ hx)
  · generalize s.thread x = t at hnext
    generalize s'.thread x = t' at hnext hx
    cases hnext <;> simp [LocalThread.chosen] at hx ⊢

theorem returned_effect {mac : ℕ} {s s' : State H C} {a : Action H C} (h : Effect mac s a s')
    {x : C} (hx : s.thread x = .returned) : s'.thread x = .returned := by
  rcases thread_effect h x with heq | hnext
  · exact heq.trans hx
  · rw [hx] at hnext
    cases hnext

theorem sends_effect {mac : ℕ} {s s' : State H C} {a : Action H C} (h : Effect mac s a s')
    (x : C) : s'.sent x = s.sent x ∨
      s.thread x = .line127 ∧ s'.sent x = s.sent x ++ [requestPack mac s.lockvar] := by
  cases h with
  | send y ht =>
    by_cases hxy : x = y
    · subst hxy
      exact .inr ⟨ht, by simp⟩
    · exact .inl (by simp [Function.update_of_ne hxy])
  | _ => exact .inl rfl

/-- A call sends nothing before line 126, and then its number. -/
structure Sent (mac : ℕ) (s : State H C) : Prop where
  before : ∀ x, (s.thread x).chosen = false → s.thread x ≠ .returned → s.sent x = []
  after : ∀ x, (s.thread x).chosen = true → ∀ p ∈ s.sent x,
    p.priority = s.lockvar.priority mac

theorem sent_effect {mac : ℕ} {s s' : State H C} {a : Action H C} (ho : Owned s) (hs : Sent mac s)
    (h : Effect mac s a s') : Sent mac s' := by
  refine ⟨?_, ?_⟩
  · intro x hx hret
    have hx₀ : (s.thread x).chosen = false := by
      by_contra hc
      rcases chosen_effect h (by simpa using hc) with hc' | hret'
      · simp [hx] at hc'
      · exact hret hret'
    have hempty := hs.before x hx₀ fun hr => hret (returned_effect h hr)
    rcases sends_effect h x with heq | ⟨ht, -⟩
    · exact heq.trans hempty
    · simp [ht, LocalThread.chosen] at hx₀
  · intro x hx p hp
    rcases line126_of_chosen h hx with hc | ht
    · rw [priority_effect ho h hc]
      rcases sends_effect h x with heq | ⟨-, happ⟩
      · exact hs.after x hc p (heq ▸ hp)
      · rw [happ, List.mem_append, List.mem_singleton] at hp
        rcases hp with hp | rfl
        · exact hs.after x hc p hp
        · rfl
    · have hempty := hs.before x (by simp [ht, LocalThread.chosen]) (by simp [ht])
      rcases sends_effect h x with heq | ⟨ht', -⟩
      · simp [heq, hempty] at hp
      · simp [ht] at ht'

theorem sent_reaches {n : ℤ} {mac : ℕ} {G : State H C → Action H C → Prop} {s : State H C}
    (h : Reaches (step mac) G (initial n) s) : Sent mac s := by
  have hall : Owned s ∧ Sent mac s := by
    refine h.invariant_with Owned (Sent mac) (owned_initial n)
      (fun u a u' ho _ hstep => owned_effect ho (effect_of_step hstep)) ?_ ?_
    · constructor <;> simp [initial, LocalThread.chosen]
    · intro u a u' ho hs _ hstep
      exact sent_effect ho hs (effect_of_step hstep)
  exact hall.2

/-- Everything that `x` has sent, and may still send, comes before `pack`. -/
structure Before (mac : ℕ) (pack : RequestPack ℤ) (x : C) (s : State H C) : Prop where
  sent : ∀ p ∈ s.sent x, p.priority < pack.priority
  mine : s.thread x = .returned ∨
    (s.thread x).chosen = true ∧ s.lockvar.priority mac < pack.priority

theorem before_effect {mac : ℕ} {pack : RequestPack ℤ} {x : C} {s s' : State H C}
    {a : Action H C} (ho : Owned s) (hb : Before mac pack x s) (h : Effect mac s a s') :
    Before mac pack x s' := by
  rcases hb.mine with hret | ⟨hc, hlt⟩
  · refine ⟨?_, .inl (returned_effect h hret)⟩
    rcases sends_effect h x with heq | ⟨ht, -⟩
    · exact heq ▸ hb.sent
    · simp [hret] at ht
  · refine ⟨?_, ?_⟩
    · intro p hp
      rcases sends_effect h x with heq | ⟨-, happ⟩
      · exact hb.sent p (heq ▸ hp)
      · rw [happ, List.mem_append, List.mem_singleton] at hp
        rcases hp with hp | rfl
        · exact hb.sent p hp
        · exact hlt
    · rcases chosen_effect h hc with hc' | hret
      · exact .inr ⟨hc', (priority_effect ho h hc).symm ▸ hlt⟩
      · exact .inl hret

/-- What a call sends comes before every request that is deferred during the call, if
no thread decides to defer between lines 125 and 126. -/
theorem before_of_deferredDuring {n : ℤ} {mac : ℕ} {h : H} {pack : RequestPack ℤ} {x : C}
    {s : State H C} (hd : DeferredDuring n mac (NotBetween mac) h pack x s) :
    ∀ p ∈ s.sent x, p.priority < pack.priority := by
  obtain ⟨u, u', hu, hx, hr, hdef, hg, hstep, hs⟩ := hd
  have ho := owned_reaches hu
  have heff := effect_of_step hstep
  have hline : u.thread x ≠ .line126 := hg (by simp [decidesToDefer, hr, hdef]) x
  have hc : (u.thread x).chosen = true := by
    simpa [LocalThread.past125, hline] using hx
  have hlt := ((LockVar.defers_iff mac pack u.lockvar).mp hdef).2
  have hbefore : Before mac pack x u := by
    refine ⟨?_, .inr ⟨hc, hlt⟩⟩
    intro p hp
    rw [(sent_reaches hu).after x hc p hp]
    exact hlt
  have hall : Owned s ∧ Before mac pack x s := by
    refine hs.invariant_with Owned (Before mac pack x) (owned_effect ho heff)
      (fun v a v' hov _ hv => owned_effect hov (effect_of_step hv))
      (before_effect ho hbefore heff) ?_
    intro v a v' hov hbv _ hv
    exact before_effect hov hbv (effect_of_step hv)
  exact hall.2.sent

/-- On every node, a request that is deferred during a local call comes after all that
this call sends, and so no two calls of two nodes are deferred by each other, as long
as no thread decides to defer between lines 125 and 126. -/
theorem deferral_agrees (n : ℤ) (mac : ℕ) {h : H} {pack : RequestPack ℤ} {x : C}
    {s : State H C} (hd : DeferredDuring n mac (NotBetween mac) h pack x s) :
    (∀ p ∈ s.sent x, p.priority < pack.priority) ∧
      ∀ (mac' : ℕ) (g : H) (pack' : RequestPack ℤ) (y : C) (s' : State H C),
        DeferredDuring n mac' (NotBetween mac') g pack' y s' → pack' ∈ s.sent x →
          pack ∉ s'.sent y := by
  have hx := before_of_deferredDuring hd
  refine ⟨hx, ?_⟩
  intro mac' g pack' y s' hd' hpack' hpack
  have hy := before_of_deferredDuring hd'
  exact lt_asymm (hx pack' hpack') (hy pack hpack)

/-- A local call up to its first REQUEST. -/
def callRun : List (Action Bool Unit) := [.run (), .run (), .run (), .run (), .send ()]

/-- A thread of `request_1_svc` up to its decision. -/
def arriveRun (h : Bool) (pack : RequestPack ℤ) : List (Action Bool Unit) :=
  [.arrive h pack, .request h, .request h]

/-- Two nodes with a call each. The first has answered a request of a third node
before its call, and so its own request is deferred by the second, while it defers
another request of the third. -/
theorem deferral_agrees_twoNodes : ∃ s s' : State Bool Unit,
    DeferredDuring 1 1 (NotBetween 1) true ⟨1, 2, 3⟩ () s ∧
      DeferredDuring 1 2 (NotBetween 2) true ⟨1, 2, 1⟩ () s' ∧
      s.sent () = [⟨1, 2, 1⟩] ∧ s'.sent () = [⟨1, 1, 2⟩] ∧
      (∀ p ∈ s.sent (), p.priority < (RequestPack.mk 1 2 3).priority) ∧
      ⟨1, 2, 3⟩ ∉ s'.sent () := by
  let as := arriveRun false ⟨1, 1, 3⟩ ++ [.request false] ++ callRun ++ arriveRun true ⟨1, 2, 3⟩
  let bs := callRun ++ arriveRun true ⟨1, 2, 1⟩
  let u := (exec (step 1) (initial 1) as).get (by decide)
  let v := (exec (step 2) (initial 1) bs).get (by decide)
  let s := (step 1 u (.request true)).get (by decide)
  let s' := (step 2 v (.request true)).get (by decide)
  have hu : Reaches (step 1) (NotBetween 1) (initial 1) u :=
    reaches_of_exec as (Option.some_get _).symm (by decide)
  have hv : Reaches (step 2) (NotBetween 2) (initial 1) v :=
    reaches_of_exec bs (Option.some_get _).symm (by decide)
  have hd : DeferredDuring 1 1 (NotBetween 1) true ⟨1, 2, 3⟩ () s :=
    ⟨u, s, hu, by decide, by decide, by decide, by decide, (Option.some_get _).symm, .refl⟩
  have hd' : DeferredDuring 1 2 (NotBetween 2) true ⟨1, 2, 1⟩ () s' :=
    ⟨v, s', hv, by decide, by decide, by decide, by decide, (Option.some_get _).symm, .refl⟩
  obtain ⟨hbefore, hnot⟩ := deferral_agrees 1 1 hd
  exact ⟨s, s', hd, hd', by decide, by decide, hbefore, hnot 2 true _ () s' hd' (by decide)⟩

/-- The first node defers the second one's request between lines 125 and 126, against
the number 0 that it never sends; it then sends 2, which the second node defers. -/
theorem not_deferral_agrees : ∃ s s' : State Bool Unit,
    DeferredDuring 1 1 anyStep true ⟨1, 1, 2⟩ () s ∧
      DeferredDuring 1 2 anyStep true ⟨1, 2, 1⟩ () s' ∧
      ⟨1, 2, 1⟩ ∈ s.sent () ∧ ⟨1, 1, 2⟩ ∈ s'.sent () ∧
      ¬ ∀ p ∈ s.sent (), p.priority < (RequestPack.mk 1 1 2).priority := by
  let as := [.run (), .run (), .run ()] ++ arriveRun true ⟨1, 1, 2⟩
  let bs := callRun ++ arriveRun true ⟨1, 2, 1⟩
  let u := (exec (step 1) (initial 1) as).get (by decide)
  let v := (exec (step 2) (initial 1) bs).get (by decide)
  let u' := (step 1 u (.request true)).get (by decide)
  let s := (exec (step 1) u' [.run (), .send ()]).get (by decide)
  let s' := (step 2 v (.request true)).get (by decide)
  have hu : Reaches (step 1) anyStep (initial 1) u :=
    reaches_of_exec_anyStep as (Option.some_get _).symm
  have hv : Reaches (step 2) anyStep (initial 1) v :=
    reaches_of_exec_anyStep bs (Option.some_get _).symm
  have hs : Reaches (step 1) anyStep u' s :=
    reaches_of_exec_anyStep [.run (), .send ()] (Option.some_get _).symm
  have hsent : ⟨1, 2, 1⟩ ∈ s.sent () := by decide
  refine ⟨s, s', ?_, ?_, hsent, by decide, ?_⟩
  · exact ⟨u, u', hu, by decide, by decide, by decide, trivial, (Option.some_get _).symm, hs⟩
  · exact ⟨v, s', hv, by decide, by decide, by decide, trivial, (Option.some_get _).symm, .refl⟩
  · intro hall
    have hlt := hall _ hsent
    simp [RequestPack.priority, Prod.Lex.toLex_lt_toLex] at hlt

end DistributedSystem.LockThreads
