import Mathlib.Data.Prod.Lex
import Mathlib.Tactic

/-!
# The lock manager server

The state of one lock manager process and its four service routines, from
`psu_dist_lock_mgr_server.c`. Sequence numbers have an arbitrary type `S`, so
that the same routines are read over the integers and over 32-bit words. The
entries of `deffered` are mutexes, each of which belongs to one parked handler
thread of `request_1_svc`; they are represented by an identifier of that thread.

The single C statements that several threads can interleave are functions on a
`LockVar` of their own, and the service routines are composed from them.
-/
namespace DistributedSystem.LockManager

variable {S ι A : Type}

/-- The `MAX` macro of glib. -/
def MAX [LT S] [DecidableLT S] (a b : S) : S := if a > b then a else b

theorem MAX_eq_max [LinearOrder S] (a b : S) : MAX a b = max a b := by
  rw [MAX, max_comm, max_def]
  rcases lt_trichotomy a b with h | rfl | h
  · simp [h.not_gt, h.not_ge]
  · simp
  · simp [h, h.le]

/-- The argument of a REQUEST call. -/
structure RequestPack (S : Type) where
  lockNumber : ℤ
  seqno : S
  mac : ℕ
  deriving DecidableEq, Repr

/-- Ricart-Agrawala variables of one lock. `lock` is a default mutex, so that
whether it is locked is all its state, and any thread may unlock it. -/
structure LockVar (S ι : Type) where
  lock : Bool
  lockNumber : ℤ
  myseqno : S
  highestseqno : S
  requestingCs : Bool
  deffered : List ι
  deriving DecidableEq, Repr

namespace LockVar

/-- The entry that `find_lockvar` allocates. -/
def new [Zero S] (n : ℤ) : LockVar S ι where
  lock := false
  lockNumber := n
  myseqno := 0
  highestseqno := 0
  requestingCs := false
  deffered := []

/-- Line 123. -/
def lockMutex (v : LockVar S ι) : LockVar S ι := { v with lock := true }

/-- Line 125. -/
def setRequesting (v : LockVar S ι) : LockVar S ι := { v with requestingCs := true }

/-- Line 126. -/
def chooseSeqno [Add S] [One S] (v : LockVar S ι) : LockVar S ι :=
  { v with myseqno := v.highestseqno + 1 }

/-- The write of line 170, where `read` is the value of `highestseqno` that was read. -/
def writeHighest [LT S] [DecidableLT S] (seqno read : S) (v : LockVar S ι) : LockVar S ι :=
  { v with highestseqno := MAX seqno read }

/-- The test of lines 172 to 174 on a node whose address is `mac`. -/
def defers [LT S] [DecidableLT S] [DecidableEq S] (mac : ℕ) (pack : RequestPack S)
    (v : LockVar S ι) : Bool :=
  v.requestingCs && (decide (pack.seqno > v.myseqno) ||
    (decide (pack.seqno = v.myseqno) && decide (pack.mac > mac)))

/-- Line 180. -/
def park (h : ι) (v : LockVar S ι) : LockVar S ι := { v with deffered := v.deffered ++ [h] }

/-- Lines 156 and 157. -/
def renewDeffered (v : LockVar S ι) : LockVar S ι := { v with deffered := [] }

/-- Line 159. -/
def unlockMutex (v : LockVar S ι) : LockVar S ι := { v with lock := false }

end LockVar

/-- The order on the pairs of a sequence number and an address in which the
handlers compare requests: lexicographic, smaller first. -/
abbrev Priority := ℤ ×ₗ ℕ

def RequestPack.priority (pack : RequestPack ℤ) : Priority := toLex (pack.seqno, pack.mac)

/-- What the node itself would have to put into a REQUEST. -/
def LockVar.priority (mac : ℕ) (v : LockVar ℤ ι) : Priority := toLex (v.myseqno, mac)

/-- Over the integers, the test of lines 172 to 174 compares priorities. -/
theorem LockVar.defers_iff (mac : ℕ) (pack : RequestPack ℤ) (v : LockVar ℤ ι) :
    v.defers mac pack = true ↔
      v.requestingCs = true ∧ v.priority mac < pack.priority := by
  simp only [LockVar.defers, LockVar.priority, RequestPack.priority, Prod.Lex.toLex_lt_toLex,
    Bool.and_eq_true, Bool.or_eq_true, decide_eq_true_eq, gt_iff_lt]
  constructor
  · rintro ⟨hr, h | ⟨h, hm⟩⟩
    · exact ⟨hr, .inl h⟩
    · exact ⟨hr, .inr ⟨h.symm, hm⟩⟩
  · rintro ⟨hr, h | ⟨h, hm⟩⟩
    · exact ⟨hr, .inl h⟩
    · exact ⟨hr, .inr ⟨h.symm, hm⟩⟩

/-- `find_lockvar`: the position of the entry, and the list after the call. The
position is `none` for the NULL that is returned when nothing is created. -/
def findLockvar [Zero S] (n : ℤ) (create : Bool) (l : List (LockVar S ι)) :
    Option ℕ × List (LockVar S ι) :=
  match l.findIdx? (fun v => v.lockNumber = n) with
  | some i => (some i, l)
  | none => if create then (some l.length, l ++ [LockVar.new n]) else (none, l)

/-- The global variables of one lock manager process. Addresses of other nodes
are host names of type `A`. -/
structure Server (S ι A : Type) where
  nodes : List A
  mac : ℕ
  lockvarList : List (LockVar S ι)

/-- `initialize_global_variable`, on a host with hardware address `mac`. -/
def initializeGlobalVariable (mac : ℕ) : Server S ι A where
  nodes := []
  mac := mac
  lockvarList := []

namespace Server

/-- Run statements on the entry of lock `n` that `find_lockvar` creates if need be. -/
def modifyLockvar [Zero S] (n : ℤ) (f : LockVar S ι → LockVar S ι) (srv : Server S ι A) :
    Server S ι A :=
  let found := findLockvar n true srv.lockvarList
  { srv with lockvarList := found.2.modify (found.1.getD 0) f }

/-- The contents of the entry of lock `n`; before it is created, those that it
will be created with. -/
def lockvar [Zero S] (srv : Server S ι A) (n : ℤ) : LockVar S ι :=
  (srv.lockvarList.find? (fun v => v.lockNumber = n)).getD (LockVar.new n)

@[simp] theorem modifyLockvar_nodes [Zero S] (n : ℤ) (f : LockVar S ι → LockVar S ι)
    (srv : Server S ι A) : (srv.modifyLockvar n f).nodes = srv.nodes := rfl

@[simp] theorem modifyLockvar_mac [Zero S] (n : ℤ) (f : LockVar S ι → LockVar S ι)
    (srv : Server S ι A) : (srv.modifyLockvar n f).mac = srv.mac := rfl

/-- Statements on the entry at the position that a look-up of `n` finds act on
what a later look-up of `n` finds, and on no other look-up. -/
lemma find?_modify {n m : ℤ} {f : LockVar S ι → LockVar S ι}
    (hf : ∀ v, (f v).lockNumber = v.lockNumber) {l : List (LockVar S ι)} {i : ℕ}
    (hi : l.findIdx? (fun v => v.lockNumber = n) = some i) :
    (l.modify i f).find? (fun v => v.lockNumber = m) =
      (l.find? (fun v => v.lockNumber = m)).map (if m = n then f else id) := by
  induction l generalizing i with
  | nil => simp at hi
  | cons v l ih =>
    by_cases hv : v.lockNumber = n
    · obtain rfl : i = 0 := by simpa [List.findIdx?_cons, hv] using hi.symm
      by_cases hm : m = n
      · simp [hf, hv, hm]
      · simp [hf, hv, hm, Ne.symm hm]
    · rw [List.findIdx?_cons, if_neg (by simpa using hv)] at hi
      obtain ⟨j, hj, rfl⟩ := Option.map_eq_some_iff.mp hi
      rw [List.modify_succ_cons, List.find?_cons, List.find?_cons]
      by_cases hm : v.lockNumber = m
      · have hmn : m ≠ n := fun h => hv (hm.trans h)
        simp [hm, hmn]
      · simpa [hm] using ih hj

/-- A creating look-up returns the position of an entry of `n`, the first one,
and leaves the contents of every entry as they are read by `lockvar`. -/
lemma findLockvar_create [Zero S] (n : ℤ) (l : List (LockVar S ι)) :
    ∃ i, (findLockvar n true l).1 = some i ∧
      (findLockvar n true l).2.findIdx? (fun v => v.lockNumber = n) = some i ∧
      (∃ v, (findLockvar n true l).2.find? (fun v => v.lockNumber = n) = some v) ∧
      ∀ m, ((findLockvar n true l).2.find? (fun v => v.lockNumber = m)).getD (LockVar.new m) =
        (l.find? (fun v => v.lockNumber = m)).getD (LockVar.new m) := by
  unfold findLockvar
  cases hi : l.findIdx? (fun v => v.lockNumber = n) with
  | some i =>
    refine ⟨i, rfl, hi, ?_, fun _ => rfl⟩
    obtain ⟨hlt, hp, -⟩ := List.findIdx?_eq_some_iff_getElem.mp hi
    exact Option.isSome_iff_exists.mp (List.find?_isSome.mpr ⟨_, List.getElem_mem hlt, hp⟩)
  | none =>
    have hnone : l.find? (fun v => v.lockNumber = n) = none := by
      simpa [List.findIdx?_eq_none_iff] using hi
    refine ⟨l.length, rfl, ?_, ⟨LockVar.new n, ?_⟩, fun m => ?_⟩
    · simp [List.findIdx?_append, hi, LockVar.new]
    · simp [List.find?_append, hnone, LockVar.new]
    · by_cases hm : n = m
      · subst hm
        simp [List.find?_append, hnone, LockVar.new]
      · simp [List.find?_append, LockVar.new, hm]

/-- The statements run on the entry of lock `n` change that entry as a function
of its contents, whether it had to be created or not, and no other entry. -/
theorem lockvar_modifyLockvar [Zero S] (n m : ℤ) (f : LockVar S ι → LockVar S ι)
    (hf : ∀ v, (f v).lockNumber = v.lockNumber) (srv : Server S ι A) :
    (srv.modifyLockvar n f).lockvar m =
      if m = n then f (srv.lockvar n) else srv.lockvar m := by
  obtain ⟨i, hpos, hi, ⟨v, hv⟩, hview⟩ := findLockvar_create n srv.lockvarList
  simp only [lockvar, modifyLockvar, hpos, Option.getD_some, ← hview, find?_modify hf hi]
  split_ifs with hm
  · simp [hm, hv]
  · simp

end Server

/-! ## Service routines -/

/-- `init_lock_mgr_1_svc` on the names that `strtok` splits the argument into:
those that are no local address are appended to `nodes`. -/
def initLockMgr1Svc [DecidableEq A] (localIpAddresses names : List A) (srv : Server S ι A) :
    Server S ι A :=
  { srv with nodes := srv.nodes ++ names.filter fun pch => pch ∉ localIpAddresses }

/-- Line 120 of `acquire_lock_1_svc`. -/
def acquireFind [Zero S] (n : ℤ) (srv : Server S ι A) : Server S ι A :=
  { srv with lockvarList := (findLockvar n true srv.lockvarList).2 }

/-- Lines 123 to 126 of `acquire_lock_1_svc`: a thread that finds the mutex
locked cannot go on. -/
def acquireEnter [Zero S] [Add S] [One S] (n : ℤ) (srv : Server S ι A) :
    Option (Server S ι A) :=
  if (srv.lockvar n).lock then none
  else some (srv.modifyLockvar n fun v => v.lockMutex.setRequesting.chooseSeqno)

/-- Lines 129 to 132 of `acquire_lock_1_svc`, in one turn of its loop. -/
def acquirePack [Zero S] (n : ℤ) (srv : Server S ι A) : RequestPack S where
  lockNumber := n
  seqno := (srv.lockvar n).myseqno
  mac := srv.mac

/-- `release_lock_1_svc`: the handlers whose mutexes it unlocks, and the server
after it. There is no outcome when `assert(lockvar != NULL)` fails. -/
def releaseLock1Svc [Zero S] (n : ℤ) (srv : Server S ι A) : Option (List ι × Server S ι A) :=
  (findLockvar n false srv.lockvarList).1.map fun _ =>
    ((srv.lockvar n).deffered, srv.modifyLockvar n fun v => v.renewDeffered.unlockMutex)

/-- `request_1_svc` up to its decision, run by the handler thread `h`: whether
the reply is deferred, and the server after it. -/
def request1Svc [Zero S] [LT S] [DecidableLT S] [DecidableEq S] (h : ι)
    (pack : RequestPack S) (srv : Server S ι A) : Bool × Server S ι A :=
  let n := pack.lockNumber
  let srv' := srv.modifyLockvar n fun v => v.writeHighest pack.seqno v.highestseqno
  if (srv'.lockvar n).defers srv'.mac pack then (true, srv'.modifyLockvar n (LockVar.park h))
  else (false, srv')

@[simp] theorem acquireFind_nodes [Zero S] (n : ℤ) (srv : Server S ι A) :
    (acquireFind n srv).nodes = srv.nodes := rfl

@[simp] theorem acquireFind_mac [Zero S] (n : ℤ) (srv : Server S ι A) :
    (acquireFind n srv).mac = srv.mac := rfl

@[simp] theorem lockvar_acquireFind [Zero S] (n m : ℤ) (srv : Server S ι A) :
    (acquireFind n srv).lockvar m = srv.lockvar m :=
  (Server.findLockvar_create n srv.lockvarList).choose_spec.2.2.2 m

/-- Entering succeeds exactly on a free mutex; only the entry of `n` changes. -/
theorem acquireEnter_eq_some [Zero S] [Add S] [One S] {n : ℤ} {srv srv' : Server S ι A}
    (h : acquireEnter n srv = some srv') :
    (srv.lockvar n).lock = false ∧ srv'.nodes = srv.nodes ∧ srv'.mac = srv.mac ∧
      ∀ m, srv'.lockvar m =
        if m = n then (srv.lockvar n).lockMutex.setRequesting.chooseSeqno else srv.lockvar m := by
  unfold acquireEnter at h
  split_ifs at h with hl
  obtain rfl := Option.some.inj h
  refine ⟨by simpa using hl, rfl, rfl, fun m => ?_⟩
  rw [Server.lockvar_modifyLockvar]
  exact fun _ => rfl

/-- A release hands back all deferred handlers, empties the entry's array and
frees its mutex; only the entry of `n` changes. -/
theorem releaseLock1Svc_eq_some [Zero S] {n : ℤ} {srv srv' : Server S ι A} {woken : List ι}
    (h : releaseLock1Svc n srv = some (woken, srv')) :
    woken = (srv.lockvar n).deffered ∧ srv'.nodes = srv.nodes ∧ srv'.mac = srv.mac ∧
      ∀ m, srv'.lockvar m =
        if m = n then (srv.lockvar n).renewDeffered.unlockMutex else srv.lockvar m := by
  obtain ⟨i, -, hi⟩ := Option.map_eq_some_iff.mp h
  obtain ⟨rfl, rfl⟩ := Prod.mk.inj hi
  refine ⟨rfl, rfl, rfl, fun m => ?_⟩
  rw [Server.lockvar_modifyLockvar]
  exact fun _ => rfl

section Request
variable [Zero S] [LT S] [DecidableLT S] [DecidableEq S]

/-- The decision does not depend on the bump of `highestseqno` just before it. -/
theorem request1Svc_eq (h : ι) (pack : RequestPack S) (srv : Server S ι A) :
    request1Svc h pack srv =
      let n := pack.lockNumber
      let srv' := srv.modifyLockvar n fun v => v.writeHighest pack.seqno v.highestseqno
      if (srv.lockvar n).defers srv.mac pack then (true, srv'.modifyLockvar n (LockVar.park h))
      else (false, srv') := by
  have hl := Server.lockvar_modifyLockvar pack.lockNumber pack.lockNumber
    (fun v => v.writeHighest pack.seqno v.highestseqno) (fun _ => rfl) srv
  simp only [request1Svc, hl, if_true]
  rfl

theorem request1Svc_fst (h : ι) (pack : RequestPack S) (srv : Server S ι A) :
    (request1Svc h pack srv).1 = (srv.lockvar pack.lockNumber).defers srv.mac pack := by
  rw [request1Svc_eq]
  cases hd : (srv.lockvar pack.lockNumber).defers srv.mac pack <;> simp [hd]

@[simp] theorem request1Svc_nodes (h : ι) (pack : RequestPack S) (srv : Server S ι A) :
    (request1Svc h pack srv).2.nodes = srv.nodes := by
  rw [request1Svc_eq]
  cases hd : (srv.lockvar pack.lockNumber).defers srv.mac pack <;> simp [hd]

@[simp] theorem request1Svc_mac (h : ι) (pack : RequestPack S) (srv : Server S ι A) :
    (request1Svc h pack srv).2.mac = srv.mac := by
  rw [request1Svc_eq]
  cases hd : (srv.lockvar pack.lockNumber).defers srv.mac pack <;> simp [hd]

/-- The handler raises `highestseqno`, and appends its mutex if it defers. -/
theorem lockvar_request1Svc (h : ι) (pack : RequestPack S) (srv : Server S ι A) (m : ℤ) :
    (request1Svc h pack srv).2.lockvar m =
      if m = pack.lockNumber then
        let v := srv.lockvar pack.lockNumber
        let v' := v.writeHighest pack.seqno v.highestseqno
        if v.defers srv.mac pack then v'.park h else v'
      else srv.lockvar m := by
  have hl := fun k => Server.lockvar_modifyLockvar pack.lockNumber k
    (fun v => v.writeHighest pack.seqno v.highestseqno) (fun _ => rfl) srv
  have hp := fun k (srv' : Server S ι A) => Server.lockvar_modifyLockvar pack.lockNumber k
    (LockVar.park h) (fun _ => rfl) srv'
  rw [request1Svc_eq]
  by_cases hd : (srv.lockvar pack.lockNumber).defers srv.mac pack
  · by_cases hm : m = pack.lockNumber <;> simp [hd, hp, hl, hm]
  · by_cases hm : m = pack.lockNumber <;> simp [hd, hl, hm]

end Request

end DistributedSystem.LockManager
