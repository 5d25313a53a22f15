import DistributedSystem.DsmHome

/-!
# What the handlers keep

The handlers change the state of their server by a few operations only. A property that
none of these breaks is kept by every handler at every point, whatever its remote calls
bring back.
-/
namespace DistributedSystem.Dsm
open LinkedList Rpc

/-- No operation of the handlers breaks the property. -/
structure Kept (I : Server → Prop) : Prop where
  unset : ∀ s, I s → I s.unset.2
  shmget : ∀ s key, I s → I (s.shmget key)
  shmat : ∀ s key, I s → I (s.shmat key).2
  mprotect : ∀ s addr prot, I s → I (s.mprotect addr prot)
  memcpyTo : ∀ s s' addr bytes, s.memcpyTo addr bytes = some s' → I s → I s'
  insertDir : ∀ s s' entry, insertDir entry s = some s' → I s → I s'
  insertDsm : ∀ s s' page location, insertDsm page location s = some s' → I s → I s'
  result : ∀ s page, I s → I { s with result := page }
  setPbits : ∀ s p iserv mode, I s →
    I { s with dirHeap := modifyEntry s.dirHeap p (DirEntry.setPbits iserv mode) }

/-- The variables of a server that no handler assigns: `insert_dir` and `insert_dsm` are given
the values of `dir` and `dsm`. -/
def Server.fixed (s : Server) : Ip × ℕ × Vector Ip maxServ × Option ℕ × Option ℕ :=
  (s.localHost, s.nserver, s.server, s.dir, s.dsm)

/-- A property of these variables is kept. -/
theorem Kept.of_fixed {I : Server → Prop} (hI : ∀ s s', s'.fixed = s.fixed → I s → I s') :
    Kept I where
  unset s h := hI s _ rfl h
  shmget s _ h := hI s _ rfl h
  shmat s _ h := hI s _ rfl h
  mprotect s _ _ h := hI s _ rfl h
  memcpyTo s s' addr bytes hs h := by
    obtain ⟨m, -, hm⟩ := Option.bind_eq_some_iff.mp hs
    split_ifs at hm
    obtain rfl := Option.some.inj hm
    exact hI s _ rfl h
  insertDir s s' entry hs h := by
    obtain ⟨heap, -, rfl⟩ := Option.map_eq_some_iff.mp hs
    exact hI s _ rfl h
  insertDsm s s' page location hs h := by
    obtain ⟨heap, -, rfl⟩ := Option.map_eq_some_iff.mp hs
    exact hI s _ rfl h
  result s _ h := hI s _ rfl h
  setPbits s _ _ _ h := hI s _ rfl h

/-- The replies that a handler can give. -/
def replies : Call → Reply → Prop
  | .pageFind _, r => ∃ result, r = .int result
  | .pageLocate _, r => ∃ ip, r = .host ip
  | .pageCreat _, r => r = .int 1
  | .pageUpdate _, r => r = .int 0
  | .pageRequest _, r => ∃ page, r = .page page
  | .pageFetch _, r => ∃ page, r = .page page
  | .pageAck _, r => r = .void

/-- The handler keeps the property at every point and returns what satisfies `Q`, whatever its
calls bring back. -/
def Keeps (I : Server → Prop) (Q : Reply → Prop) (p : Handler) : Prop :=
  p.Meets I (fun _ _ => True) Q

section
variable {I : Server → Prop} {Q : Reply → Prop} {s : Server}

theorem keeps_orExit {α : Type} {r : Option α} {k : α → Handler} (h : I s)
    (hk : ∀ a, r = some a → Keeps I Q (k a)) : Keeps I Q (orExit s r k) :=
  orExit_meets h hk

theorem keeps_call {ip : Ip} {c : Call} {k : Server → Answer Reply → Handler} (h : I s)
    (hk : ∀ s' ans, I s' → Keeps I Q (k s' ans)) : Keeps I Q (.call s ip c k) :=
  ⟨h, fun s' ans hs' _ => hk s' ans hs'⟩

theorem keeps_locateRemote (argp : PageId) (ips : List Ip) (h : I s) :
    Keeps I (fun r => ∃ ip, r = .host ip) (locateRemote argp ips s) := by
  induction ips generalizing s with
  | nil => exact ⟨h, _, rfl⟩
  | cons ip ips ih =>
    rw [locateRemote]
    split_ifs with hlocal
    · exact ih h
    · refine keeps_call h ?_
      intro s₁ ans h₁
      split
      · exact ⟨h₁, _, rfl⟩
      · exact ih h₁
      · exact h₁

variable (hI : Kept I)
include hI

theorem Kept.creatAttach (pageid : PageId) (bytes : Bytes) (location : Ip) (h : I s) :
    Keeps I (· = .int 1) (creatAttach pageid bytes location s) := by
  have h₁ := hI.shmat _ (pageKey pageid s.unset.1)
    (hI.shmget _ (pageKey pageid s.unset.1) (hI.unset s h))
  refine keeps_orExit (hI.mprotect _ _ _ h₁) ?_
  intro s₂ hs₂
  have h₂ := hI.memcpyTo _ _ _ _ hs₂ (hI.mprotect _ _ _ h₁)
  refine keeps_orExit h₂ ?_
  intro s₃ hs₃
  exact ⟨hI.insertDsm _ _ _ _ hs₃ h₂, rfl⟩

theorem Kept.creatLocal (pageid : PageId) (h : I s) :
    Keeps I (· = .int 1) (creatLocal pageid s) := by
  refine keeps_orExit h ?_
  intro s₁ hs₁
  have h₁ := hI.insertDir _ _ _ hs₁ h
  have h₂ := hI.shmat _ (pageKey pageid s₁.unset.1)
    (hI.shmget _ (pageKey pageid s₁.unset.1) (hI.unset s₁ h₁))
  refine keeps_orExit h₂ ?_
  intro s₃ hs₃
  exact ⟨hI.mprotect _ _ _ (hI.insertDsm _ _ _ _ hs₃ h₂), rfl⟩

theorem Kept.creatRemote (pageid : PageId) (ips : List Ip) (h : I s) :
    Keeps I (· = .int 1) (creatRemote pageid ips s) := by
  induction ips generalizing s with
  | nil => exact hI.creatLocal pageid h
  | cons ip ips ih =>
    rw [Dsm.creatRemote]
    split_ifs with hlocal
    · exact ih h
    · refine keeps_call h ?_
      intro s₁ ans h₁
      split
      · refine keeps_call (hI.unset s₁ h₁) ?_
        intro s₂ ans₂ h₂
        split
        · exact h₂
        · exact hI.creatAttach _ _ _ (hI.unset s₂ h₂)
      · exact ih h₁
      · exact h₁

theorem Kept.pageCreat (argp : PageId) (h : I s) :
    Keeps I (· = .int 1) (psuDsmPageCreat1Svc argp s) := by
  refine keeps_orExit h ?_
  intro found _
  cases found with
  | none => exact hI.creatRemote argp _ h
  | some p =>
    refine keeps_call (hI.unset s h) ?_
    intro s₁ ans h₁
    split
    · exact hI.creatAttach _ _ _ h₁
    · exact h₁
    · exact hI.shmget _ _ (hI.unset s₁ h₁)

theorem Kept.requestDone (argp : Request) (p : ℕ) (mode : Mode) (h : I s) :
    Keeps I (fun r => ∃ page, r = .page page) (requestDone argp p mode s) :=
  ⟨hI.setPbits s p _ mode h, _, rfl⟩

theorem Kept.readTake (argp : Request) (p : ℕ) (fetched : Answer Reply) (h : I s) :
    Keeps I (fun r => ∃ page, r = .page page) (readTake argp p fetched s) := by
  unfold Dsm.readTake
  split
  · exact hI.requestDone argp p .RO (hI.result s _ h)
  · exact h

theorem Kept.requestRead (argp : Request) (p : ℕ) (is : List ℕ) (h : I s) :
    Keeps I (fun r => ∃ page, r = .page page) (requestRead argp p is s) := by
  induction is generalizing s with
  | nil => exact hI.requestDone argp p .RO h
  | cons i is ih =>
    rw [requestRead_cons]
    split_ifs with hholds
    · refine keeps_orExit h ?_
      intro ip _
      refine keeps_call h ?_
      intro s₁ fetched h₁
      unfold readFetched
      split
      · exact h₁
      · split_ifs
        · refine keeps_call h₁ ?_
          intro s₂ _ h₂
          exact hI.readTake argp p fetched h₂
        · exact hI.readTake argp p fetched h₁
    · exact ih h

theorem Kept.requestWrite (argp : Request) (p : ℕ) (is : List ℕ) (first : ℕ) (h : I s) :
    Keeps I (fun r => ∃ page, r = .page page) (requestWrite argp p is first s) := by
  induction is generalizing s first with
  | nil => exact hI.requestDone argp p .RW h
  | cons i is ih =>
    have htold : ∀ s₁ ans, I s₁ →
        Keeps I (fun r => ∃ page, r = .page page)
          (writeTold (requestWrite argp p is (first + 1)) first ans s₁) := by
      intro s₁ ans h₁
      unfold writeTold
      split
      · exact h₁
      · exact ih _ h₁
    rw [requestWrite_cons]
    by_cases hholds : holds p i s = true
    · rw [if_pos hholds]
      refine keeps_orExit h ?_
      intro ip _
      split_ifs
      · refine keeps_call h ?_
        intro s₁ ans h₁
        unfold writeFetched
        split
        · exact keeps_call (hI.result s₁ _ h₁) htold
        · exact h₁
      · exact keeps_call h htold
    · rw [if_neg hholds]
      exact ih _ h

/-- Every handler keeps the property, and gives one of its replies. -/
theorem Kept.psuDsm1 (c : Call) (h : I s) : Keeps I (replies c) (psuDsm1 c s) := by
  cases c with
  | pageFind argp =>
    refine keeps_orExit h ?_
    intro found _
    cases found with
    | none => exact ⟨h, 0, rfl⟩
    | some p => exact ⟨h, 1, rfl⟩
  | pageLocate argp =>
    refine keeps_orExit h ?_
    intro found _
    cases found with
    | none => exact ⟨h, _, rfl⟩
    | some p => exact keeps_locateRemote argp _ h
  | pageCreat argp => exact hI.pageCreat argp h
  | pageUpdate argp =>
    refine keeps_orExit h ?_
    intro found _
    cases found with
    | none => exact h
    | some p =>
      refine keeps_orExit h ?_
      intro c _
      have hro : I (if argp.mode = .RO then s.mprotect c.entry.addr .read else s) := by
        split_ifs
        · exact hI.mprotect s _ _ h
        · exact h
      refine ⟨?_, rfl⟩
      generalize (if argp.mode = .RO then s.mprotect c.entry.addr .read else s) = s₁ at hro ⊢
      split_ifs
      · exact hI.mprotect s₁ _ _ hro
      · exact hro
  | pageRequest argp =>
    refine keeps_orExit h ?_
    intro found _
    cases found with
    | none => exact h
    | some p =>
      have hunset := hI.unset s h
      dsimp only [Server.unset] at hunset ⊢
      split
      · exact hI.requestRead argp p _ hunset
      · exact hI.requestWrite argp p _ _ hunset
      · exact ⟨hunset, _, rfl⟩
  | pageFetch argp =>
    refine keeps_orExit h ?_
    intro found _
    cases found with
    | none => exact h
    | some p =>
      refine keeps_orExit h ?_
      intro c _
      refine keeps_orExit h ?_
      intro bytes _
      exact ⟨h, _, rfl⟩
  | pageAck argp => exact ⟨h, rfl⟩

end

/-- A call that is served keeps the property of each server, and is answered with one of the
replies of its handler. -/
theorem serve_kept {N : Type} [DecidableEq N] {I : N → Server → Prop} (hI : ∀ n, Kept (I n))
    {resolve : Ip → Option N} {depth : ℕ} {busy : List N} {n : N} {c : Call}
    {net : N → Process Server} {r : Answer Reply × (N → Process Server)}
    (hnet : ∀ m, I m (net m).state) (hr : serve (service resolve) depth busy n c net = some r) :
    (∀ m, I m (r.2 m).state) ∧ ∀ x, r.1 = .reply x → replies c x := by
  refine serve_meets_each ?_ hnet hr
  intro n c s hs
  exact ((hI n).psuDsm1 c hs).mono (fun _ _ _ => trivial) fun _ h => h

end DistributedSystem.Dsm
