import DistributedSystem.LockProtocol

/-!
# Locks do not interfere

Every service routine gets the variables of a lock from `find_lockvar`. The list that it
searches never has two entries of one number, and an entry keeps its place for ever. It
follows that the steps of one lock leave the variables of all other locks alone, in every
run of all nodes, failures included, and that all steps of one lock can be left out of a
run without a difference for the others.
-/
namespace DistributedSystem.LockManager

variable {S ι A : Type}

/-! ## The list of lock variables -/

/-- A use of `find_lockvar`: its arguments, and what the caller does to the entry that it
gets. No caller assigns the number of an entry. -/
structure Access (S ι : Type) where
  number : ℤ
  create : Bool
  run : LockVar S ι → LockVar S ι
  keeps : ∀ v, (run v).lockNumber = v.lockNumber

variable [Zero S]

/-- The list after an access. -/
def access (l : List (LockVar S ι)) (a : Access S ι) : List (LockVar S ι) :=
  match findLockvar a.number a.create l with
  | (some i, l) => l.modify i a.run
  | (none, l) => l

def numbers (l : List (LockVar S ι)) : List ℤ := l.map LockVar.lockNumber

omit [Zero S] in
theorem findIdx?_numbers (n : ℤ) (l : List (LockVar S ι)) :
    l.findIdx? (fun v => v.lockNumber = n) = (numbers l).findIdx? (· = n) := by
  rw [numbers, List.findIdx?_map]
  rfl

omit [Zero S] in
theorem numbers_modify {f : LockVar S ι → LockVar S ι}
    (hf : ∀ v, (f v).lockNumber = v.lockNumber) (l : List (LockVar S ι)) (i : ℕ) :
    numbers (l.modify i f) = numbers l := by
  apply List.ext_getElem?
  intro j
  simp only [numbers, List.getElem?_map, List.getElem?_modify]
  cases l[j]? with
  | none => rfl
  | some v =>
    by_cases hij : i = j
    · simp [hij, hf]
    · simp [hij]

/-- What a call of `find_lockvar` returns, and what it leaves. -/
theorem findLockvar_eq (n : ℤ) (create : Bool) (l : List (LockVar S ι)) :
    findLockvar n create l =
      if n ∈ numbers l then ((numbers l).findIdx? (· = n), l)
      else if create then (some l.length, l ++ [LockVar.new n]) else (none, l) := by
  unfold findLockvar
  rw [findIdx?_numbers]
  cases hi : (numbers l).findIdx? (· = n) with
  | none =>
    have hn : n ∉ numbers l := by
      intro hmem
      have hne := List.findIdx?_eq_none_iff.mp hi n hmem
      simp at hne
    rw [if_neg hn]
  | some i =>
    have hn : n ∈ numbers l := by
      obtain ⟨hlt, hp, -⟩ := List.findIdx?_eq_some_iff_getElem.mp hi
      have heq : (numbers l)[i] = n := by simpa using hp
      exact heq ▸ List.getElem_mem hlt
    rw [if_pos hn]

/-- An access adds its number if it creates an entry, and no other number. -/
theorem numbers_access (l : List (LockVar S ι)) (a : Access S ι) :
    numbers (access l a) =
      if a.create = true ∧ a.number ∉ numbers l then numbers l ++ [a.number] else numbers l := by
  unfold access
  rw [findLockvar_eq]
  by_cases hn : a.number ∈ numbers l
  · rw [if_pos hn, if_neg (by simp [hn])]
    split
    · rename_i i l' heq
      obtain ⟨-, rfl⟩ := Prod.mk.inj heq
      exact numbers_modify a.keeps _ i
    · rename_i l' heq
      obtain ⟨-, rfl⟩ := Prod.mk.inj heq
      rfl
  · rw [if_neg hn]
    cases hc : a.create with
    | true =>
      simp only [if_true, hn, not_false_eq_true, and_self]
      rw [numbers_modify a.keeps]
      simp [numbers, LockVar.new]
    | false => simp

theorem nodup_access {l : List (LockVar S ι)} (h : (numbers l).Nodup) (a : Access S ι) :
    (numbers (access l a)).Nodup := by
  rw [numbers_access]
  split_ifs with hnew
  · rw [List.nodup_append]
    refine ⟨h, List.nodup_singleton _, ?_⟩
    rintro x hx y hy rfl
    exact hnew.2 (List.mem_singleton.mp hy ▸ hx)
  · exact h

/-- The number at a place of the list stays there. -/
theorem numbers_foldl_access (as : List (Access S ι)) (l : List (LockVar S ι)) :
    numbers l <+: numbers (as.foldl access l) := by
  induction as generalizing l with
  | nil => exact List.prefix_rfl
  | cons a as ih =>
    refine List.IsPrefix.trans ?_ (ih (access l a))
    rw [numbers_access]
    split_ifs
    · exact List.prefix_append _ _
    · exact List.prefix_rfl

theorem nodup_foldl_access (as : List (Access S ι)) {l : List (LockVar S ι)}
    (h : (numbers l).Nodup) : (numbers (as.foldl access l)).Nodup := by
  induction as generalizing l with
  | nil => exact h
  | cons a as ih => exact ih (nodup_access h a)

omit [Zero S] in
theorem mem_numbers_of_findIdx? {n : ℤ} {l : List (LockVar S ι)} {i : ℕ}
    (h : (numbers l).findIdx? (· = n) = some i) : (numbers l)[i]? = some n ∧ n ∈ numbers l := by
  obtain ⟨hlt, hp, -⟩ := List.findIdx?_eq_some_iff_getElem.mp h
  have heq : (numbers l)[i] = n := by simpa using hp
  exact ⟨by rw [List.getElem?_eq_getElem hlt, heq], heq ▸ List.getElem_mem hlt⟩

/-- The place that is returned is the first one of its number afterwards. -/
theorem findIdx?_of_findLockvar {n : ℤ} {create : Bool} {l : List (LockVar S ι)} {i : ℕ}
    (h : (findLockvar n create l).1 = some i) :
    (numbers (findLockvar n create l).2).findIdx? (· = n) = some i := by
  rw [findLockvar_eq] at h ⊢
  by_cases hn : n ∈ numbers l
  · rw [if_pos hn] at h ⊢
    exact h
  · rw [if_neg hn] at h ⊢
    cases create with
    | false => cases h
    | true =>
      obtain rfl : l.length = i := by simpa using h
      have hnone : (numbers l).findIdx? (· = n) = none := by
        rw [List.findIdx?_eq_none_iff]
        intro x hx
        simpa using fun hxn : x = n => hn (hxn ▸ hx)
      have hsplit : numbers (l ++ [LockVar.new n]) = numbers l ++ [n] := by
        simp [numbers, LockVar.new]
      simp only [if_true, hsplit, List.findIdx?_append, hnone]
      simp [numbers]

/-- An entry that was returned once is returned for its number ever after. -/
theorem findLockvar_foldl_access {n : ℤ} {l : List (LockVar S ι)} {i : ℕ}
    (h : (numbers l).findIdx? (· = n) = some i) (as : List (Access S ι)) (create : Bool) :
    findLockvar n create (as.foldl access l) = (some i, as.foldl access l) := by
  obtain ⟨t, ht⟩ := numbers_foldl_access as l
  have hidx : (numbers (as.foldl access l)).findIdx? (· = n) = some i := by
    rw [← ht, List.findIdx?_append, h]
    rfl
  rw [findLockvar_eq, if_pos (mem_numbers_of_findIdx? hidx).2, hidx]

/-- What holds of the list of lock variables and of a look-up in it. -/
structure LooksUp (l : List (LockVar S ι)) (n : ℤ) (create : Bool) : Prop where
  nodup : (numbers l).Nodup
  number : ∀ i, (findLockvar n create l).1 = some i →
    (numbers (findLockvar n create l).2)[i]? = some n
  stays : ∀ i, (findLockvar n create l).1 = some i → ∀ (as : List (Access S ι)) (create' : Bool),
    findLockvar n create' (as.foldl access (findLockvar n create l).2) =
      (some i, as.foldl access (findLockvar n create l).2)
  null : (findLockvar n create l).1 = none ↔ create = false ∧ n ∉ numbers l
  adds : (findLockvar n create l).2 =
    if create = true ∧ n ∉ numbers l then l ++ [LockVar.new n] else l

/-- After any sequence of accesses the list is exact for any look-up. -/
theorem looksUp_foldl_access (as : List (Access S ι)) (n : ℤ) (create : Bool) :
    LooksUp (as.foldl access []) n create := by
  constructor
  · exact nodup_foldl_access as List.nodup_nil
  · intro i hi
    exact (mem_numbers_of_findIdx? (findIdx?_of_findLockvar hi)).1
  · intro i hi bs create'
    exact findLockvar_foldl_access (findIdx?_of_findLockvar hi) bs create'
  · generalize as.foldl access [] = l
    rw [findLockvar_eq]
    by_cases hn : n ∈ numbers l
    · have hsome : (numbers l).findIdx? (· = n) ≠ none := by
        intro hnone
        simpa using List.findIdx?_eq_none_iff.mp hnone n hn
      simp [hn, hsome]
    · cases create <;> simp [hn]
  · rw [findLockvar_eq]
    split_ifs <;> simp_all

/-- The list has come from the empty one by accesses. -/
def Accessed (l : List (LockVar S ι)) : Prop := ∃ as : List (Access S ι), l = as.foldl access []

theorem Accessed.looksUp {l : List (LockVar S ι)} (h : Accessed l) (n : ℤ) (create : Bool) :
    LooksUp l n create := by
  obtain ⟨as, rfl⟩ := h
  exact looksUp_foldl_access as n create

theorem Accessed.access {l : List (LockVar S ι)} (h : Accessed l) (a : Access S ι) :
    Accessed (access l a) := by
  obtain ⟨as, rfl⟩ := h
  exact ⟨as ++ [a], by rw [List.foldl_append]; rfl⟩

/-! ## One server -/

namespace Server

theorem accessed_modifyLockvar {n : ℤ} {f : LockVar S ι → LockVar S ι}
    (hf : ∀ v, (f v).lockNumber = v.lockNumber) {srv : Server S ι A}
    (h : Accessed srv.lockvarList) : Accessed (srv.modifyLockvar n f).lockvarList := by
  obtain ⟨i, hi, -⟩ := findLockvar_create n srv.lockvarList
  have heq : (srv.modifyLockvar n f).lockvarList = access srv.lockvarList ⟨n, true, f, hf⟩ := by
    rw [access, modifyLockvar]
    dsimp only
    split
    · rename_i j l hl
      simp [hl]
    · rename_i l hl
      simp [hl] at hi
  rw [heq]
  exact h.access _

theorem accessed_acquireFind {n : ℤ} {srv : Server S ι A} (h : Accessed srv.lockvarList) :
    Accessed (acquireFind n srv).lockvarList := by
  have heq : (acquireFind n srv).lockvarList =
      access srv.lockvarList ⟨n, true, id, fun _ => rfl⟩ := by
    rw [access, acquireFind]
    dsimp only
    split
    · rename_i j l hl
      simp [hl]
    · rename_i l hl
      simp [hl]
  rw [heq]
  exact h.access _

/-- The entry of lock `m`, if there is one. -/
def entry (srv : Server S ι A) (m : ℤ) : Option (LockVar S ι) :=
  srv.lockvarList.find? fun v => v.lockNumber = m

theorem lockvar_eq_entry (srv : Server S ι A) (m : ℤ) :
    srv.lockvar m = (srv.entry m).getD (LockVar.new m) := rfl

theorem find?_findLockvar {n m : ℤ} (hm : m ≠ n) (create : Bool) (l : List (LockVar S ι)) :
    (findLockvar n create l).2.find? (fun v => v.lockNumber = m) =
      l.find? (fun v => v.lockNumber = m) := by
  unfold findLockvar
  split
  · rfl
  · split_ifs
    · simp [List.find?_append, LockVar.new, Ne.symm hm]
    · rfl

theorem entry_modifyLockvar (n m : ℤ) {f : LockVar S ι → LockVar S ι}
    (hf : ∀ v, (f v).lockNumber = v.lockNumber) (srv : Server S ι A) :
    (srv.modifyLockvar n f).entry m =
      if m = n then some (f (srv.lockvar n)) else srv.entry m := by
  obtain ⟨i, hpos, hi, ⟨v, hv⟩, hview⟩ := findLockvar_create n srv.lockvarList
  simp only [entry, modifyLockvar, hpos, Option.getD_some, find?_modify hf hi]
  split_ifs with hm
  · have hvn := hview n
    rw [hv, Option.getD_some] at hvn
    rw [hm, hv, Option.map_some, hvn]
    rfl
  · rw [find?_findLockvar hm, Option.map_id, id]

theorem entry_acquireFind (n m : ℤ) (srv : Server S ι A) :
    (acquireFind n srv).entry m =
      if m = n then some (srv.lockvar n) else srv.entry m := by
  obtain ⟨i, -, -, ⟨v, hv⟩, hview⟩ := findLockvar_create n srv.lockvarList
  split_ifs with hm
  · have hvn := hview n
    rw [hv, Option.getD_some] at hvn
    rw [entry, acquireFind, hm, hv, hvn]
    rfl
  · exact find?_findLockvar hm true srv.lockvarList

/-- The two servers have the same nodes and the same entries of all locks but `n`. -/
structure AgreeOff (n : ℤ) (srv srv' : Server S ι A) : Prop where
  nodes : srv.nodes = srv'.nodes
  mac : srv.mac = srv'.mac
  entry : ∀ m, m ≠ n → srv.entry m = srv'.entry m

namespace AgreeOff

variable {n m : ℤ} {srv srv' srv'' : Server S ι A} {f : LockVar S ι → LockVar S ι}

omit [Zero S] in
theorem refl (n : ℤ) (srv : Server S ι A) : AgreeOff n srv srv := ⟨rfl, rfl, fun _ _ => rfl⟩

omit [Zero S] in
theorem trans (h : AgreeOff n srv srv') (h' : AgreeOff n srv' srv'') : AgreeOff n srv srv'' :=
  ⟨h.nodes.trans h'.nodes, h.mac.trans h'.mac, fun m hm => (h.entry m hm).trans (h'.entry m hm)⟩

theorem lockvar (h : AgreeOff n srv srv') (hm : m ≠ n) : srv.lockvar m = srv'.lockvar m := by
  rw [lockvar_eq_entry, lockvar_eq_entry, h.entry m hm]

/-- What is done to the entry of `n` makes no difference. -/
theorem modify_self (hf : ∀ v, (f v).lockNumber = v.lockNumber) (srv : Server S ι A) :
    AgreeOff n (srv.modifyLockvar n f) srv := by
  refine ⟨rfl, rfl, ?_⟩
  intro m hm
  rw [entry_modifyLockvar n m hf, if_neg hm]

/-- The same statements on the entry of another lock have the same effect. -/
theorem modify (h : AgreeOff n srv srv') (hm : m ≠ n)
    (hf : ∀ v, (f v).lockNumber = v.lockNumber) :
    AgreeOff n (srv.modifyLockvar m f) (srv'.modifyLockvar m f) := by
  refine ⟨h.nodes, h.mac, ?_⟩
  intro k hk
  rw [entry_modifyLockvar m k hf, entry_modifyLockvar m k hf, h.lockvar hm, h.entry k hk]

theorem acquireFind_self (srv : Server S ι A) : AgreeOff n (acquireFind n srv) srv := by
  refine ⟨rfl, rfl, ?_⟩
  intro m hm
  rw [entry_acquireFind, if_neg hm]

theorem acquireFind (h : AgreeOff n srv srv') (hm : m ≠ n) :
    AgreeOff n (acquireFind m srv) (LockManager.acquireFind m srv') := by
  refine ⟨h.nodes, h.mac, ?_⟩
  intro k hk
  rw [entry_acquireFind, entry_acquireFind, h.lockvar hm, h.entry k hk]

omit [Zero S] in
theorem init [DecidableEq A] (h : AgreeOff n srv srv') (localIpAddresses names : List A) :
    AgreeOff n (initLockMgr1Svc localIpAddresses names srv)
      (initLockMgr1Svc localIpAddresses names srv') := by
  refine ⟨?_, h.mac, h.entry⟩
  rw [initLockMgr1Svc, initLockMgr1Svc, h.nodes]

theorem acquireEnter_self [Add S] [One S] (h : LockManager.acquireEnter n srv = some srv') :
    AgreeOff n srv' srv := by
  unfold LockManager.acquireEnter at h
  split_ifs at h
  obtain rfl := Option.some.inj h
  refine modify_self ?_ srv
  exact fun _ => rfl

theorem acquireEnter [Add S] [One S] (h : AgreeOff n srv srv') (hm : m ≠ n)
    {t : Server S ι A} (ht : acquireEnter m srv = some t) :
    ∃ t', LockManager.acquireEnter m srv' = some t' ∧ AgreeOff n t t' := by
  unfold LockManager.acquireEnter at ht ⊢
  rw [← h.lockvar hm]
  split_ifs at ht ⊢
  obtain rfl := Option.some.inj ht
  refine ⟨_, rfl, h.modify hm ?_⟩
  exact fun _ => rfl

section Request
variable [LT S] [DecidableLT S] [DecidableEq S]

theorem request_self (i : ι) {pack : RequestPack S} (hn : pack.lockNumber = n)
    (srv : Server S ι A) : AgreeOff n (request1Svc i pack srv).2 srv := by
  refine ⟨request1Svc_nodes i pack srv, request1Svc_mac i pack srv, ?_⟩
  intro m hm
  subst hn
  rw [request1Svc_eq]
  dsimp only
  split_ifs
  · rw [entry_modifyLockvar, if_neg hm, entry_modifyLockvar, if_neg hm]
    · exact fun _ => rfl
    · exact fun _ => rfl
  · rw [entry_modifyLockvar, if_neg hm]
    exact fun _ => rfl

theorem request (h : AgreeOff n srv srv') (i : ι) {pack : RequestPack S}
    (hn : pack.lockNumber ≠ n) :
    (request1Svc i pack srv).1 = (request1Svc i pack srv').1 ∧
      AgreeOff n (request1Svc i pack srv).2 (request1Svc i pack srv').2 := by
  have hbump : AgreeOff n
      (srv.modifyLockvar pack.lockNumber fun v => v.writeHighest pack.seqno v.highestseqno)
      (srv'.modifyLockvar pack.lockNumber fun v => v.writeHighest pack.seqno v.highestseqno) := by
    refine h.modify hn ?_
    exact fun _ => rfl
  have hdefers : (srv.lockvar pack.lockNumber).defers srv.mac pack =
      (srv'.lockvar pack.lockNumber).defers srv'.mac pack := by
    rw [h.lockvar hn, h.mac]
  rw [request1Svc_eq, request1Svc_eq]
  dsimp only
  rw [hdefers]
  split_ifs
  · refine ⟨rfl, hbump.modify hn ?_⟩
    exact fun _ => rfl
  · exact ⟨rfl, hbump⟩

end Request

theorem release_self {woken : List ι} (h : releaseLock1Svc n srv = some (woken, srv')) :
    AgreeOff n srv' srv := by
  obtain ⟨-, -, hi⟩ := Option.map_eq_some_iff.mp h
  obtain ⟨-, rfl⟩ := Prod.mk.inj hi
  refine modify_self ?_ srv
  exact fun _ => rfl

/-- Whether a release finds an entry depends on the entry of its lock only. -/
theorem isSome_findLockvar (h : AgreeOff n srv srv') (hm : m ≠ n) :
    (findLockvar m false srv.lockvarList).1.isSome =
      (findLockvar m false srv'.lockvarList).1.isSome := by
  have hentry : ∀ t : Server S ι A,
      (findLockvar m false t.lockvarList).1.isSome = (t.entry m).isSome := by
    intro t
    rw [Bool.eq_iff_iff, Server.entry, List.find?_isSome]
    unfold findLockvar
    rw [← List.any_eq_true, ← List.findIdx?_isSome]
    cases t.lockvarList.findIdx? fun v => v.lockNumber = m <;> simp
  rw [hentry, hentry, h.entry m hm]

theorem release (h : AgreeOff n srv srv') (hm : m ≠ n) {woken : List ι} {t : Server S ι A}
    (ht : releaseLock1Svc m srv = some (woken, t)) :
    ∃ t', releaseLock1Svc m srv' = some (woken, t') ∧ AgreeOff n t t' := by
  obtain ⟨i, hi, heq⟩ := Option.map_eq_some_iff.mp ht
  obtain ⟨rfl, rfl⟩ := Prod.mk.inj heq
  have hfound := h.isSome_findLockvar hm
  rw [hi] at hfound
  obtain ⟨j, hj⟩ := Option.isSome_iff_exists.mp hfound.symm
  refine ⟨_, ?_, h.modify hm ?_⟩
  · rw [releaseLock1Svc, hj, h.lockvar hm]
    rfl
  · exact fun _ => rfl

end AgreeOff

end Server

end DistributedSystem.LockManager

namespace DistributedSystem.LockProtocol
open LockManager Transition

variable {N A P C : Type}

/-! ## All nodes -/

/-- The lock that an action is a step of. -/
def Action.lock (e : Env N A P C) : Action P C → Option ℤ
  | .initCall _ | .initServe _ | .initReturn _ | .initFail _ => none
  | .acquireCall x | .acquireArrive x | .acquireEnter x | .send x | .serve x _ | .reply x
  | .requestFail x | .complete x | .acquireReturn x | .acquireFail x | .releaseCall x
  | .releaseServe x => some (e.number x)

/-- The argument of a REQUEST call that has been made. -/
def Request.pack : Request N → Option (RequestPack ℤ)
  | .unsent => none
  | .sent _ pack | .parked _ pack | .replied _ pack => some pack

@[simp] theorem Request.pack_wake (r : Request N) : r.wake.pack = r.pack := by
  cases r <;> rfl

/-- REQUEST calls carry the number of the lock that they are made for, and their handlers are
parked under that number. -/
structure Tagged (e : Env N A P C) (s : State N A P C) : Prop where
  pack : ∀ h pack, (s.request h).pack = some pack → pack.lockNumber = e.number h.1
  deffered : ∀ p m, ∀ h ∈ ((s.server p).lockvar m).deffered, e.number h.1 = m

theorem tagged_initial (e : Env N A P C) : Tagged e (initial e) := by
  constructor
  · intro h pack hpack
    cases hpack
  · intro p m h hh
    cases hh

/-- The two states are the same for every lock but `n`. -/
structure Agree (e : Env N A P C) (n : ℤ) (s t : State N A P C) : Prop where
  server : ∀ p, (s.server p).AgreeOff n (t.server p)
  init : s.init = t.init
  hasInitialized : s.hasInitialized = t.hasInitialized
  thread : ∀ x, e.number x ≠ n → s.thread x = t.thread x
  handler : ∀ x, e.number x ≠ n → s.handler x = t.handler x
  request : ∀ h, e.number h.1 ≠ n → s.request h = t.request h

theorem Agree.refl (e : Env N A P C) (n : ℤ) (s : State N A P C) : Agree e n s s :=
  ⟨fun p => .refl n (s.server p), rfl, rfl, fun _ _ => rfl, fun _ _ => rfl, fun _ _ => rfl⟩

theorem Agree.trans {e : Env N A P C} {n : ℤ} {s t u : State N A P C} (h : Agree e n s t)
    (h' : Agree e n t u) : Agree e n s u :=
  ⟨fun p => (h.server p).trans (h'.server p), h.init.trans h'.init,
    h.hasInitialized.trans h'.hasInitialized,
    fun x hx => (h.thread x hx).trans (h'.thread x hx),
    fun x hx => (h.handler x hx).trans (h'.handler x hx),
    fun i hi => (h.request i hi).trans (h'.request i hi)⟩

section Updates
variable [DecidableEq N] {ι S : Type} {n : ℤ}

theorem agreeOff_update {f g : N → Server S ι A} (h : ∀ p, (f p).AgreeOff n (g p)) (q : N)
    {v w : Server S ι A} (hq : v.AgreeOff n w) (p : N) :
    (Function.update f q v p).AgreeOff n (Function.update g q w p) := by
  by_cases hp : p = q
  · subst hp
    simpa using hq
  · simpa [Function.update_of_ne hp] using h p

theorem agreeOff_update_self (f : N → Server S ι A) (q : N) {v : Server S ι A}
    (hq : v.AgreeOff n (f q)) (p : N) : (Function.update f q v p).AgreeOff n (f p) := by
  have h := agreeOff_update (fun p => .refl n (f p)) q hq p
  rwa [Function.update_eq_self] at h

end Updates

variable [DecidableEq N] [DecidableEq A] [DecidableEq P] [DecidableEq C]

omit [DecidableEq A] [DecidableEq P] [DecidableEq C] in
/-- A server whose parked handlers are tagged may take the place of another one. -/
theorem deffered_update {e : Env N A P C} {s : State N A P C} (ht : Tagged e s) (q : N)
    {srv : Server ℤ (C × ℕ) A} (hsrv : ∀ m, ∀ h ∈ (srv.lockvar m).deffered, e.number h.1 = m) :
    ∀ p m, ∀ h ∈ ((Function.update s.server q srv p).lockvar m).deffered, e.number h.1 = m := by
  exact (Function.forall_update_iff s.server fun _ (srv : Server ℤ (C × ℕ) A) =>
    ∀ m, ∀ h ∈ (srv.lockvar m).deffered, e.number h.1 = m).mpr ⟨hsrv, fun p _ => ht.deffered p⟩

omit [DecidableEq N] [DecidableEq A] [DecidableEq P] in
theorem pack_update {e : Env N A P C} {s : State N A P C} (ht : Tagged e s) (i : C × ℕ)
    {r : Request N} (hr : ∀ pack, r.pack = some pack → pack.lockNumber = e.number i.1) :
    ∀ h pack, (Function.update s.request i r h).pack = some pack →
      pack.lockNumber = e.number h.1 := by
  intro h pack hpack
  by_cases hi : h = i
  · subst hi
    rw [Function.update_self] at hpack
    exact hr pack hpack
  · rw [Function.update_of_ne hi] at hpack
    exact ht.pack h pack hpack

omit [DecidableEq N] [DecidableEq A] [DecidableEq P] [DecidableEq C] in
theorem lockNumber_of_sent {e : Env N A P C} {s : State N A P C} (ht : Tagged e s) {x : C} {i : ℕ}
    {q : N} {pack : RequestPack ℤ} (hr : s.request (x, i) = .sent q pack) :
    pack.lockNumber = e.number x := by
  refine ht.pack (x, i) pack ?_
  rw [hr]
  rfl

omit [DecidableEq N] [DecidableEq A] [DecidableEq P] [DecidableEq C] in
/-- A handler that is parked is one of the lock that its REQUEST names. -/
theorem deffered_request {e : Env N A P C} {s : State N A P C} (ht : Tagged e s) {x : C} {i : ℕ}
    {q : N} {pack : RequestPack ℤ} (hr : s.request (x, i) = .sent q pack) (m : ℤ) :
    ∀ j ∈ ((request1Svc (x, i) pack (s.server q)).2.lockvar m).deffered, e.number j.1 = m := by
  intro j hj
  rw [lockvar_request1Svc] at hj
  split_ifs at hj with hm
  · subst hm
    dsimp only at hj
    split_ifs at hj
    · rcases List.mem_append.mp hj with hold | hnew
      · exact ht.deffered q _ j hold
      · rw [List.mem_singleton.mp hnew, lockNumber_of_sent ht hr]
    · exact ht.deffered q _ j hj
  · exact ht.deffered q m j hj

theorem tagged_effect {e : Env N A P C} {s s' : State N A P C} {a : Action P C} (ht : Tagged e s)
    (h : Effect e s a s') : Tagged e s' := by
  cases h with
  | initServe p => exact ⟨ht.pack, deffered_update ht _ (ht.deffered (e.host p))⟩
  | acquireArrive x =>
    refine ⟨ht.pack, deffered_update ht _ ?_⟩
    intro m
    rw [lockvar_acquireFind]
    exact ht.deffered (e.node x) m
  | acquireEnter x srv hh hs =>
    obtain ⟨-, -, -, hlockvar⟩ := acquireEnter_eq_some hs
    refine ⟨ht.pack, deffered_update ht _ ?_⟩
    intro m
    rw [hlockvar]
    split_ifs with hm
    · rw [hm]
      exact ht.deffered (e.node x) (e.number x)
    · exact ht.deffered (e.node x) m
  | send x =>
    refine ⟨pack_update ht _ ?_, ht.deffered⟩
    rintro pack ⟨rfl⟩
    rfl
  | defer x i q pack hr =>
    refine ⟨pack_update ht _ ?_, deffered_update ht _ (deffered_request ht hr)⟩
    rintro pack' ⟨rfl⟩
    exact lockNumber_of_sent ht hr
  | grant x i q pack hr =>
    refine ⟨pack_update ht _ ?_, deffered_update ht _ (deffered_request ht hr)⟩
    rintro pack' ⟨rfl⟩
    exact lockNumber_of_sent ht hr
  | releaseServe x woken srv hth hs =>
    obtain ⟨-, -, -, hlockvar⟩ := releaseLock1Svc_eq_some hs
    refine ⟨?_, deffered_update ht _ ?_⟩
    · intro i pack hpack
      dsimp only at hpack
      split_ifs at hpack
      · rw [Request.pack_wake] at hpack
        exact ht.pack i pack hpack
      · exact ht.pack i pack hpack
    · intro m j hj
      rw [hlockvar] at hj
      split_ifs at hj
      · cases hj
      · exact ht.deffered (e.node x) m j hj
  | _ => exact ⟨ht.pack, ht.deffered⟩

theorem tagged_step {e : Env N A P C} {s s' : State N A P C} {a : Action P C} (ht : Tagged e s)
    (h : step e s a = some s') : Tagged e s' := by
  cases step_eq_some_iff.mp h with
  | effect h => exact tagged_effect ht h
  | initFail p => exact ⟨ht.pack, ht.deffered⟩
  | requestFail x => exact ⟨ht.pack, ht.deffered⟩
  | acquireFail x => exact ⟨ht.pack, ht.deffered⟩

omit [DecidableEq N] [DecidableEq A] [DecidableEq P] in
/-- Another call's field, where `x` is one of lock `n` and the other is not. -/
theorem update_of_number {e : Env N A P C} {n : ℤ} {x y : C} (hx : e.number x = n)
    (hy : e.number y ≠ n) {β : Type} (f : C → β) (v : β) : Function.update f x v y = f y := by
  refine Function.update_of_ne ?_ v f
  rintro rfl
  exact hy hx

/-- A step of lock `n` changes nothing for any other lock. -/
theorem agree_step {e : Env N A P C} {s s' : State N A P C} {a : Action P C} {n : ℤ}
    (ht : Tagged e s) (ha : a.lock e = some n) (h : step e s a = some s') : Agree e n s' s := by
  have hrefl := Agree.refl e n s
  have hserve : ∀ x i q pack r, e.number x = n → s.request (x, i) = .sent q pack →
      Agree e n { s with
        server := Function.update s.server q (request1Svc (x, i) pack (s.server q)).2
        request := Function.update s.request (x, i) r } s := by
    intro x i q pack r hx hr
    have hpack : pack.lockNumber = n := (lockNumber_of_sent ht hr).trans hx
    refine { hrefl with
      server := agreeOff_update_self s.server _ (.request_self _ hpack _), request := ?_ }
    intro j hj
    refine Function.update_of_ne ?_ _ _
    rintro rfl
    exact hj hx
  cases step_eq_some_iff.mp h with
  | initFail p => cases ha
  | requestFail x =>
    have hx : e.number x = n := Option.some.inj ha
    exact { hrefl with handler := fun y hy => update_of_number hx hy _ _ }
  | acquireFail x =>
    have hx : e.number x = n := Option.some.inj ha
    exact { hrefl with thread := fun y hy => update_of_number hx hy _ _ }
  | effect h =>
    cases h with
    | initCall p => cases ha
    | initServe p => cases ha
    | initReturn p => cases ha
    | acquireCall x =>
      have hx : e.number x = n := Option.some.inj ha
      exact { hrefl with thread := fun y hy => update_of_number hx hy _ _ }
    | acquireArrive x =>
      obtain rfl : e.number x = n := Option.some.inj ha
      exact { hrefl with
        server := agreeOff_update_self s.server _ (.acquireFind_self _)
        handler := fun y hy => update_of_number rfl hy _ _ }
    | acquireEnter x srv hh hs =>
      obtain rfl : e.number x = n := Option.some.inj ha
      exact { hrefl with
        server := agreeOff_update_self s.server _ (.acquireEnter_self hs)
        handler := fun y hy => update_of_number rfl hy _ _ }
    | send x =>
      have hx : e.number x = n := Option.some.inj ha
      refine { hrefl with handler := fun y hy => update_of_number hx hy _ _, request := ?_ }
      intro i hi
      refine Function.update_of_ne ?_ _ _
      rintro rfl
      exact hi hx
    | defer x i q pack hr => exact hserve x i q pack _ (Option.some.inj ha) hr
    | grant x i q pack hr => exact hserve x i q pack _ (Option.some.inj ha) hr
    | reply x =>
      have hx : e.number x = n := Option.some.inj ha
      exact { hrefl with handler := fun y hy => update_of_number hx hy _ _ }
    | complete x =>
      have hx : e.number x = n := Option.some.inj ha
      exact { hrefl with handler := fun y hy => update_of_number hx hy _ _ }
    | acquireReturn x =>
      have hx : e.number x = n := Option.some.inj ha
      exact { hrefl with thread := fun y hy => update_of_number hx hy _ _ }
    | releaseCall x =>
      have hx : e.number x = n := Option.some.inj ha
      exact { hrefl with thread := fun y hy => update_of_number hx hy _ _ }
    | releaseServe x woken srv hth hs =>
      obtain rfl : e.number x = n := Option.some.inj ha
      obtain ⟨rfl, -⟩ := releaseLock1Svc_eq_some hs
      refine { hrefl with
        server := agreeOff_update_self s.server _ (.release_self hs)
        thread := fun y hy => update_of_number rfl hy _ _, request := ?_ }
      intro i hi
      -- only handlers that are parked under the released number are woken
      exact if_neg fun hw => hi (ht.deffered _ _ i hw)

omit [DecidableEq N] [DecidableEq A] [DecidableEq P] in
/-- The same update on both sides of two fields that agree on the calls of other locks. -/
theorem update_congr {e : Env N A P C} {n : ℤ} {β : Type} {f g : C → β}
    (h : ∀ y, e.number y ≠ n → f y = g y) (x : C) (v : β) :
    ∀ y, e.number y ≠ n → Function.update f x v y = Function.update g x v y := by
  intro y hy
  by_cases hyx : y = x
  · simp [hyx]
  · rw [Function.update_of_ne hyx, Function.update_of_ne hyx, h y hy]

omit [DecidableEq N] [DecidableEq A] [DecidableEq P] in
theorem update_request_congr {e : Env N A P C} {n : ℤ} {f g : C × ℕ → Request N}
    (h : ∀ i, e.number i.1 ≠ n → f i = g i) (j : C × ℕ) (r : Request N) :
    ∀ i, e.number i.1 ≠ n → Function.update f j r i = Function.update g j r i := by
  intro i hi
  by_cases hij : i = j
  · simp [hij]
  · rw [Function.update_of_ne hij, Function.update_of_ne hij, h i hi]

omit [DecidableEq A] [DecidableEq P] in
/-- A REQUEST for another lock is deferred in both states or in none, and leads to states that
are again the same for all locks but `n`. -/
theorem agree_serve {e : Env N A P C} {s t : State N A P C} {n : ℤ} (ht : Tagged e s)
    (hr : Agree e n s t) {x : C} (hx : e.number x ≠ n) {i : ℕ} {q : N} {pack : RequestPack ℤ}
    (hq : s.request (x, i) = .sent q pack) (r : Request N) :
    ((t.server q).lockvar pack.lockNumber).defers (t.server q).mac pack =
        ((s.server q).lockvar pack.lockNumber).defers (s.server q).mac pack ∧
      Agree e n
        { s with
          server := Function.update s.server q (request1Svc (x, i) pack (s.server q)).2
          request := Function.update s.request (x, i) r }
        { t with
          server := Function.update t.server q (request1Svc (x, i) pack (t.server q)).2
          request := Function.update t.request (x, i) r } := by
  have hpack : pack.lockNumber ≠ n := by
    rw [lockNumber_of_sent ht hq]
    exact hx
  obtain ⟨hfst, hsnd⟩ := (hr.server q).request (x, i) hpack
  rw [request1Svc_fst, request1Svc_fst] at hfst
  exact ⟨hfst.symm, { hr with
    server := agreeOff_update hr.server _ hsnd
    request := update_request_congr hr.request _ _ }⟩

omit [DecidableEq N] [DecidableEq A] [DecidableEq P] [DecidableEq C] in
theorem number_ne_of_lock {e : Env N A P C} {a : Action P C} {n : ℤ} (ha : a.lock e ≠ some n)
    (x : C) (hx : a.lock e = some (e.number x)) : e.number x ≠ n := by
  intro hn
  rw [hx, hn] at ha
  exact ha rfl

theorem simulate_effect {e : Env N A P C} {s s' t : State N A P C} {a : Action P C} {n : ℤ}
    (ht : Tagged e s) (hr : Agree e n s t) (ha : a.lock e ≠ some n) (h : Effect e s a s') :
    ∃ t', step e t a = some t' ∧ Agree e n s' t' := by
  have hlock := number_ne_of_lock ha
  cases h with
  | initCall p hi =>
    rw [hr.init] at hi
    exact ⟨_, step_of_effect (.initCall p hi), { hr with init := by simp [hr.init] }⟩
  | initServe p hi =>
    rw [hr.init] at hi
    exact ⟨_, step_of_effect (.initServe p hi), { hr with
      init := by simp [hr.init]
      server := agreeOff_update hr.server _ ((hr.server _).init _ _) }⟩
  | initReturn p hi =>
    rw [hr.init] at hi
    exact ⟨_, step_of_effect (.initReturn p hi),
      { hr with hasInitialized := by simp [hr.hasInitialized] }⟩
  | acquireCall x hi hth =>
    rw [hr.hasInitialized] at hi
    rw [hr.thread x (hlock x rfl)] at hth
    exact ⟨_, step_of_effect (.acquireCall x hi hth),
      { hr with thread := update_congr hr.thread x _ }⟩
  | acquireArrive x hth hh =>
    have hx := hlock x rfl
    rw [hr.thread x hx] at hth
    rw [hr.handler x hx] at hh
    exact ⟨_, step_of_effect (.acquireArrive x hth hh), { hr with
      handler := update_congr hr.handler x _
      server := agreeOff_update hr.server _ ((hr.server _).acquireFind hx) }⟩
  | acquireEnter x srv hh hs =>
    have hx := hlock x rfl
    obtain ⟨srv', hs', hagree⟩ := (hr.server (e.node x)).acquireEnter hx hs
    rw [hr.handler x hx] at hh
    exact ⟨_, step_of_effect (.acquireEnter x srv' hh hs'), { hr with
      handler := update_congr hr.handler x _
      server := agreeOff_update hr.server _ hagree }⟩
  | send x i node hh hnode =>
    have hx := hlock x rfl
    have hpack : acquirePack (e.number x) (s.server (e.node x)) =
        acquirePack (e.number x) (t.server (e.node x)) := by
      rw [acquirePack, acquirePack, (hr.server _).lockvar hx, (hr.server _).mac]
    rw [hr.handler x hx] at hh
    rw [(hr.server _).nodes] at hnode
    refine ⟨_, step_of_effect (.send x i node hh hnode), ?_⟩
    rw [hpack]
    exact { hr with
      handler := update_congr hr.handler x _
      request := update_request_congr hr.request _ _ }
  | defer x i q pack hq hd =>
    have hx := hlock x rfl
    obtain ⟨hdefers, hagree⟩ := agree_serve ht hr hx hq (.parked q pack)
    rw [hr.request (x, i) hx] at hq
    exact ⟨_, step_of_effect (.defer x i q pack hq (hdefers.trans hd)), hagree⟩
  | grant x i q pack hq hd =>
    have hx := hlock x rfl
    obtain ⟨hdefers, hagree⟩ := agree_serve ht hr hx hq (.replied q pack)
    rw [hr.request (x, i) hx] at hq
    exact ⟨_, step_of_effect (.grant x i q pack hq (hdefers.trans hd)), hagree⟩
  | reply x i q pack hh hq =>
    have hx := hlock x rfl
    rw [hr.handler x hx] at hh
    rw [hr.request (x, i) hx] at hq
    exact ⟨_, step_of_effect (.reply x i q pack hh hq),
      { hr with handler := update_congr hr.handler x _ }⟩
  | complete x i hh hi =>
    rw [hr.handler x (hlock x rfl)] at hh
    rw [(hr.server _).nodes] at hi
    exact ⟨_, step_of_effect (.complete x i hh hi),
      { hr with handler := update_congr hr.handler x _ }⟩
  | acquireReturn x hth hh =>
    have hx := hlock x rfl
    rw [hr.thread x hx] at hth
    rw [hr.handler x hx] at hh
    exact ⟨_, step_of_effect (.acquireReturn x hth hh),
      { hr with thread := update_congr hr.thread x _ }⟩
  | releaseCall x hth =>
    rw [hr.thread x (hlock x rfl)] at hth
    exact ⟨_, step_of_effect (.releaseCall x hth),
      { hr with thread := update_congr hr.thread x _ }⟩
  | releaseServe x woken srv hth hs =>
    have hx := hlock x rfl
    obtain ⟨srv', hs', hagree⟩ := (hr.server (e.node x)).release hx hs
    rw [hr.thread x hx] at hth
    refine ⟨_, step_of_effect (.releaseServe x woken srv' hth hs'), { hr with
      server := agreeOff_update hr.server _ hagree
      thread := update_congr hr.thread x _, request := ?_ }⟩
    intro i hi
    dsimp only
    rw [hr.request i hi]

/-- A step that is not one of lock `n` can be taken in every state that is the same for all
other locks, and leads to states that are again the same for them. -/
theorem simulate_step {e : Env N A P C} {s s' t : State N A P C} {a : Action P C} {n : ℤ}
    (ht : Tagged e s) (hr : Agree e n s t) (ha : a.lock e ≠ some n) (h : step e s a = some s') :
    ∃ t', step e t a = some t' ∧ Agree e n s' t' := by
  have hlock := number_ne_of_lock ha
  cases step_eq_some_iff.mp h with
  | effect h => exact simulate_effect ht hr ha h
  | initFail p hi =>
    rw [hr.init] at hi
    exact ⟨_, step_eq_some_iff.mpr (.initFail p hi),
      { hr with hasInitialized := by simp [hr.hasInitialized] }⟩
  | requestFail x i hh =>
    rw [hr.handler x (hlock x rfl)] at hh
    exact ⟨_, step_eq_some_iff.mpr (.requestFail x i hh),
      { hr with handler := update_congr hr.handler x _ }⟩
  | acquireFail x hth =>
    rw [hr.thread x (hlock x rfl)] at hth
    exact ⟨_, step_eq_some_iff.mpr (.acquireFail x hth),
      { hr with thread := update_congr hr.thread x _ }⟩

/-- The service routines change the list of their server by accesses only. -/
theorem accessed_step {e : Env N A P C} {s s' : State N A P C} {a : Action P C}
    (hs : ∀ p, Accessed (s.server p).lockvarList) (h : step e s a = some s') :
    ∀ p, Accessed (s'.server p).lockvarList := by
  have hupdate : ∀ (q : N) (srv : Server ℤ (C × ℕ) A), Accessed srv.lockvarList →
      ∀ p, Accessed (Function.update s.server q srv p).lockvarList := by
    intro q srv hsrv
    exact (Function.forall_update_iff s.server fun _ (srv : Server ℤ (C × ℕ) A) =>
      Accessed srv.lockvarList).mpr ⟨hsrv, fun p _ => hs p⟩
  have hserve : ∀ q i pack, Accessed (request1Svc i pack (s.server q)).2.lockvarList := by
    intro q i pack
    rw [request1Svc_eq]
    dsimp only
    split_ifs
    · refine Server.accessed_modifyLockvar ?_ (Server.accessed_modifyLockvar ?_ (hs q))
      · exact fun _ => rfl
      · exact fun _ => rfl
    · refine Server.accessed_modifyLockvar ?_ (hs q)
      exact fun _ => rfl
  cases step_eq_some_iff.mp h with
  | initFail p => exact hs
  | requestFail x => exact hs
  | acquireFail x => exact hs
  | effect h =>
    cases h with
    | initServe p => exact hupdate _ _ (hs (e.host p))
    | acquireArrive x => exact hupdate _ _ (Server.accessed_acquireFind (hs (e.node x)))
    | acquireEnter x srv hh hsrv =>
      refine hupdate _ _ ?_
      unfold LockManager.acquireEnter at hsrv
      split_ifs at hsrv
      obtain rfl := Option.some.inj hsrv
      refine Server.accessed_modifyLockvar ?_ (hs (e.node x))
      exact fun _ => rfl
    | defer x i q pack => exact hupdate _ _ (hserve q (x, i) pack)
    | grant x i q pack => exact hupdate _ _ (hserve q (x, i) pack)
    | releaseServe x woken srv hth hsrv =>
      obtain ⟨-, -, hsrv⟩ := Option.map_eq_some_iff.mp hsrv
      obtain ⟨-, rfl⟩ := Prod.mk.inj hsrv
      refine hupdate _ _ (Server.accessed_modifyLockvar ?_ (hs (e.node x)))
      exact fun _ => rfl
    | _ => exact hs

/-- Locks are independent. The list of lock variables is exact for every look-up, after any
sequence of accesses and in every state of every run. In every run a step of lock `n`
changes no entry of another lock on any node. And the steps of a run that are not steps
of lock `n` are a run, which ends in the same state of all other locks. -/
theorem locks_independent {S ι : Type} [Zero S] (e : Env N A P C) :
    (∀ (as : List (Access S ι)) (n : ℤ) (create : Bool),
      LooksUp (as.foldl access []) n create) ∧
    (∀ s, Reaches (step e) anyStep (initial e) s → ∀ p n create,
      LooksUp (s.server p).lockvarList n create) ∧
    (∀ s a s' n, Reaches (step e) anyStep (initial e) s → step e s a = some s' →
      a.lock e = some n → ∀ p m, m ≠ n → (s'.server p).entry m = (s.server p).entry m) ∧
    ∀ as s n, exec (step e) (initial e) as = some s →
      ∃ t, exec (step e) (initial e) (as.filter fun a => a.lock e ≠ some n) = some t ∧
        Agree e n s t := by
  have htagged : ∀ s, Reaches (step e) anyStep (initial e) s → Tagged e s := by
    intro s hs
    exact hs.invariant (Tagged e) (tagged_initial e) fun _ _ _ ht _ h => tagged_step ht h
  refine ⟨looksUp_foldl_access, ?_, ?_, ?_⟩
  · intro s hs p n create
    have haccessed := hs.invariant (fun s => ∀ p, Accessed (s.server p).lockvarList)
      (fun p => ⟨[], rfl⟩) fun _ _ _ hi _ h => accessed_step hi h
    exact (haccessed p).looksUp n create
  · intro s a s' n hs h ha p m hm
    exact ((agree_step (htagged s hs) ha h).server p).entry m hm
  · intro as s n h
    refine exec_filter (fun _ _ _ ht h => tagged_step ht h) ?_ ?_ as (tagged_initial e)
      (tagged_initial e) (Agree.refl e n _) h
    · intro s a s' t ht hr ha hstep
      have hlock : a.lock e = some n := by simpa using ha
      exact (agree_step ht hlock hstep).trans hr
    · intro s a s' t ht _ hr ha hstep
      exact simulate_step ht hr (by simpa using ha) hstep

/-- One node, on which two calls acquire the locks 1 and 2. -/
def twoLocks : Env Unit Unit Unit Bool where
  mac _ := 7
  resolve _ _ := ()
  localIpAddresses _ := []
  host _ := ()
  names _ := []
  process _ := ()
  number x := if x then 2 else 1

/-- Both calls have their lock. -/
def bothEnter : List (Action Unit Bool) :=
  [.initCall (), .initServe (), .initReturn (), .acquireCall false, .acquireCall true,
    .acquireArrive false, .acquireArrive true, .acquireEnter false, .acquireEnter true]

theorem locks_independent_bothEnter : ∃ s t, exec (step twoLocks) (initial twoLocks) bothEnter =
      some s ∧ exec (step twoLocks) (initial twoLocks)
        (bothEnter.filter fun a => a.lock twoLocks ≠ some 1) = some t ∧ Agree twoLocks 1 s t := by
  have hrun : (exec (step twoLocks) (initial twoLocks) bothEnter).isSome = true := by decide
  obtain ⟨s, hs⟩ := Option.isSome_iff_exists.mp hrun
  obtain ⟨-, -, -, herase⟩ := locks_independent (S := ℤ) (ι := ℕ) twoLocks
  obtain ⟨t, ht, hagree⟩ := herase bothEnter s 1 hs
  exact ⟨s, t, hs, ht, hagree⟩

end DistributedSystem.LockProtocol
