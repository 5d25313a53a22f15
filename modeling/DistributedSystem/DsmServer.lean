import DistributedSystem.LinkedList
import DistributedSystem.Rpc
import Mathlib.Data.UInt

/-!
# The distributed memory server

One server of the distributed memory system, from `psu_dsm_server.c`, `util.c` and
the generated headers: its directory, its table of attached pages, the System V
segments of its host, and the handlers of its seven remote procedures as programs
that make remote calls.

Variables that the code reads without having set them, and bytes that it reads
behind the end of a variable, have arbitrary values: every server has a sequence of
such values, of which each use takes the next one.
-/
namespace DistributedSystem.Dsm
open LinkedList Rpc

/-! ## Data -/

def pageSize : ℕ := 4096
def nameLen : ℕ := 32
def ipLen : ℕ := 16
def maxServ : ℕ := 40

/-- The C string in an array of bytes: what stands before the first zero byte. -/
def cstr (bytes : List UInt8) : List UInt8 := bytes.takeWhile (· ≠ 0)

/-- `strncpy` into an array of `n` bytes: the rest of the array is filled with zeros. -/
def strncpy (n : ℕ) (src : List UInt8) : Vector UInt8 n :=
  Vector.ofFn fun i => (cstr src)[i.val]?.getD 0

/-- Whether `strncmp` over two arrays of `n` bytes is 0. -/
def strncmpEq {n : ℕ} (a b : Vector UInt8 n) : Bool := cstr a.toList = cstr b.toList

abbrev Ip := Vector UInt8 ipLen
abbrev Name := Vector UInt8 nameLen

/-- The contents of a page of memory. -/
abbrev Bytes := Fin pageSize → UInt8

/-- `mode_t`. -/
inductive Mode where
  | NA | RO | RW
  deriving DecidableEq, Repr

/-- The number that stands for a mode. -/
def Mode.val : Mode → UInt32
  | .NA => 0
  | .RO => 1
  | .RW => 2

/-- `pageid_t`. -/
structure PageId where
  name : Name
  size : UInt32
  deriving DecidableEq

/-- `page_t`. -/
structure Page where
  size : UInt32
  addr : Bytes

/-- `request_t`, whose field `from` is called `sender` here. -/
structure Request where
  pageid : PageId
  mode : Mode
  sender : Ip
  deriving DecidableEq

/-- `dir_entry_t`, without the lock that nothing uses. -/
structure DirEntry where
  page : PageId
  pbits : Vector Mode maxServ
  mode : Mode

/-- `dsm_entry_t`, whose field `where` is called `location` here. -/
structure DsmEntry where
  page : PageId
  addr : ℕ
  location : Ip

/-- The protection of a mapping, as `mprotect` sets it. -/
inductive Prot where
  | none | read | write | readWrite
  deriving DecidableEq, Repr

/-- The segment with key `key` is attached at the address `base`. -/
structure Mapping where
  base : ℕ
  key : UInt32
  prot : Prot
  deriving DecidableEq

/-- Values that a use of uninitialised memory may find: an unset `mode_t`, of which
`NA` stands for every value that is neither `RO` nor `RW`, unset fields of an entry,
a `from` that was never written, the bytes behind a `pageid_t`, and the bytes behind
the result of PAGE_FIND. -/
structure Undef where
  mode : Mode
  addr : ℕ
  next : Option ℕ
  sender : Ip
  page : PageId
  behind : List UInt8
  bytes : Bytes

/-- A server process and the segments of its host. `result` is the static variable of
`psu_dsm_page_request_1_svc`. -/
structure Server where
  localHost : Ip
  nserver : ℕ
  server : Vector Ip maxServ
  dir : Option ℕ
  dirHeap : List (Cell DirEntry)
  dsm : Option ℕ
  dsmHeap : List (Cell DsmEntry)
  attached : List Mapping
  segments : UInt32 → Option Bytes
  result : Page
  undef : ℕ → Undef

/-- The state in which `init` and the loader leave a server on a host with the address
`localHost`, with a table of `nserver` servers. -/
def init (localHost : Ip) (nserver : ℕ) (server : Vector Ip maxServ)
    (segments : UInt32 → Option Bytes) (undef : ℕ → Undef) : Server where
  localHost := localHost
  nserver := nserver
  server := server
  dir := none
  dirHeap := []
  dsm := none
  dsmHeap := []
  attached := []
  segments := segments
  result := ⟨0, fun _ => 0⟩
  undef := undef

/-- The remote procedures with their arguments. -/
inductive Call where
  | pageFind (pageid : PageId)
  | pageLocate (pageid : PageId)
  | pageCreat (pageid : PageId)
  | pageUpdate (request : Request)
  | pageRequest (request : Request)
  | pageFetch (request : Request)
  | pageAck (pageid : PageId)

inductive Reply where
  | int (result : ℤ)
  | host (ip : Ip)
  | page (page : Page)
  | void

abbrev Handler := Prog Ip Server Call Reply

namespace Server

/-- Take the next indeterminate values. -/
def unset (s : Server) : Undef × Server := (s.undef 0, { s with undef := fun i => s.undef (i + 1) })

/-! ## Memory of the host -/

/-- `shmget` with `IPC_CREAT`: a segment that does not exist yet is created with zeros. -/
def shmget (key : UInt32) (s : Server) : Server :=
  { s with segments := fun k => if k = key then some ((s.segments key).getD fun _ => 0)
      else s.segments k }

/-- `shmat` without flags, at an address of the system's choice. -/
def shmat (key : UInt32) (s : Server) : ℕ × Server :=
  let base := pageSize * (s.attached.length + 1)
  (base, { s with attached := s.attached ++ [⟨base, key, .readWrite⟩] })

/-- `mprotect` of the page at `addr`, which fails without effect if nothing is mapped there. -/
def mprotect (addr : ℕ) (prot : Prot) (s : Server) : Server :=
  { s with attached := s.attached.map fun m =>
      if m.base = addr then { m with prot := prot } else m }

/-- The segment that is attached at `addr`. -/
def mapped (addr : ℕ) (s : Server) : Option Mapping := s.attached.find? fun m => m.base = addr

/-- Copy a page of bytes to `addr`. There is no result if nothing is mapped there or it
may not be written. -/
def memcpyTo (addr : ℕ) (bytes : Bytes) (s : Server) : Option Server :=
  (s.mapped addr).bind fun m =>
    if m.prot = .write ∨ m.prot = .readWrite then
      some { s with segments := fun k => if k = m.key then some bytes else s.segments k }
    else Option.none

/-- Copy a page of bytes from `addr`. -/
def memcpyFrom (addr : ℕ) (s : Server) : Option Bytes :=
  (s.mapped addr).bind fun m => if m.prot = .none then Option.none else s.segments m.key

end Server

/-! ## `util.c` -/

/-- `hash`, with its result in an `unsigned long`. -/
def hash (str : List UInt8) : UInt64 :=
  (cstr str).foldl (fun hash c => ((hash <<< 5) + hash) + c.toUInt64) 5381

/-- The four bytes of an `unsigned int` in memory. -/
def littleEndian (w : UInt32) : List UInt8 :=
  [w.toUInt8, (w >>> 8).toUInt8, (w >>> 16).toUInt8, (w >>> 24).toUInt8]

/-- The bytes from the start of a `pageid_t` on, with `behind` after its end. -/
def PageId.bytes (pageid : PageId) (behind : List UInt8) : List UInt8 :=
  pageid.name.toList ++ littleEndian pageid.size ++ behind

/-- The first `PAGE_SIZE` bytes of a `page_t` in memory. -/
def Page.bytes (page : Page) : Bytes := fun i =>
  match (littleEndian page.size)[i.val]? with
  | some b => b
  | none => page.addr ⟨i.val - 4, Nat.lt_of_le_of_lt (Nat.sub_le _ _) i.isLt⟩

/-- The `PAGE_SIZE` bytes from the result of PAGE_FIND on, which is an `int`. -/
def intBytes (result : UInt32) (behind : Bytes) : Bytes := fun i =>
  ((littleEndian result)[i.val]?).getD (behind i)

/-- `search_dir` on the directory of the server. -/
def searchDir (page : PageId) (s : Server) : Option (Option ℕ) :=
  search s.dirHeap (fun e => strncmpEq e.page.name page.name) s.dir

/-- `insert_dir`, which is given the value of `dir`. -/
def insertDir (entry : DirEntry) (s : Server) : Option Server :=
  let copy := { entry with page.name := strncpy nameLen entry.page.name.toList }
  (append s.dirHeap copy none s.dir).map fun heap => { s with dirHeap := heap }

/-- `search_dsm` on the table of the server. -/
def searchDsm (page : PageId) (s : Server) : Option (Option ℕ) :=
  search s.dsmHeap (fun e => strncmpEq e.page.name page.name) s.dsm

/-- `insert_dsm`, which is given the value of `dsm` and sets neither the address of the
new entry nor its next pointer. -/
def insertDsm (page : PageId) (location : Ip) (s : Server) : Option Server :=
  let (u, s) := s.unset
  let entry : DsmEntry := {
    page := { page with name := strncpy nameLen page.name.toList }
    addr := u.addr
    location := strncpy ipLen location.toList }
  (append s.dsmHeap entry u.next s.dsm).map fun heap => { s with dsmHeap := heap }

/-- `get_server_id`. -/
def getServerId (host : Ip) (s : Server) : ℤ :=
  match s.server.toList.findIdx? (strncmpEq · host) with
  | some i => i
  | none => -1

/-- Assignment to `pbits[i]`. The word before `pbits` is the size of the page, and an
index that is out of range in another way does not occur. -/
def DirEntry.setPbits (i : ℤ) (mode : Mode) (entry : DirEntry) : DirEntry :=
  if i = -1 then { entry with page.size := mode.val }
  else { entry with pbits := entry.pbits.setIfInBounds i.toNat mode }

/-! ## Handlers -/

/-- Go on with the result of an operation that may follow an invalid pointer or run for
ever, in which case nothing more is heard of the process. -/
def orExit {α : Type} (s : Server) (r : Option α) (k : α → Handler) : Handler :=
  match r with
  | none => .exit s
  | some a => k a

/-- `psu_dsm_page_find_1_svc`. -/
def psuDsmPageFind1Svc (argp : PageId) (s : Server) : Handler :=
  orExit s (searchDir argp s) fun
    | none => .ret s (.int 0)
    | some _ => .ret s (.int 1)

/-- Lines 50 to 76 of `psu_dsm_page_locate_1_svc`, for the servers that are left. -/
def locateRemote (argp : PageId) : List Ip → Server → Handler
  | [], s => .ret s (.host (strncpy ipLen []))
  | ip :: ips, s =>
    if strncmpEq ip s.localHost then locateRemote argp ips s
    else .call s ip (.pageFind argp) fun s ans =>
      match ans with
      | .reply (.int 1) => .ret s (.host (strncpy ipLen ip.toList))
      | .reply _ => locateRemote argp ips s
      | _ => .exit s

/-- `psu_dsm_page_locate_1_svc`. -/
def psuDsmPageLocate1Svc (argp : PageId) (s : Server) : Handler :=
  orExit s (searchDir argp s) fun
    -- line 44 names the local server when the page is not in its directory
    | none => .ret s (.host (strncpy ipLen s.localHost.toList))
    | some _ => locateRemote argp (s.server.toList.take s.nserver) s

/-- The key of a page, computed from its `pageid_t` in memory. -/
def pageKey (pageid : PageId) (u : Undef) : UInt32 := (hash (pageid.bytes u.behind)).toUInt32

/-- Lines 118 to 136 and 180 to 198 of `psu_dsm_page_creat_1_svc`: attach the segment,
fill it with `bytes` and enter it into the table. -/
def creatAttach (pageid : PageId) (bytes : Bytes) (location : Ip) (s : Server) : Handler :=
  let (u, s) := s.unset
  let key := pageKey pageid u
  let (addr, s) := (s.shmget key).shmat key
  let s := s.mprotect addr .write
  orExit s (s.memcpyTo addr bytes) fun s =>
    orExit s (insertDsm pageid location s) fun s => .ret s (.int 1)

/-- Lines 207 to 236 of `psu_dsm_page_creat_1_svc`: create the page on this server. -/
def creatLocal (pageid : PageId) (s : Server) : Handler :=
  let newEntry : DirEntry := { page := pageid, pbits := Vector.replicate maxServ .NA, mode := .RW }
  let idx := getServerId s.localHost s
  orExit s (insertDir (newEntry.setPbits idx .RW) s) fun s =>
    let (u, s) := s.unset
    let key := pageKey pageid u
    let (addr, s) := (s.shmget key).shmat key
    orExit s (insertDsm pageid s.localHost s) fun s => .ret (s.mprotect addr .write) (.int 1)

/-- Lines 141 to 202 of `psu_dsm_page_creat_1_svc`, for the servers that are left. The
page that the home sends is not used, and so a failure of that call is not noticed. -/
def creatRemote (pageid : PageId) : List Ip → Server → Handler
  | [], s => creatLocal pageid s
  | ip :: ips, s =>
    if strncmpEq ip s.localHost then creatRemote pageid ips s
    else .call s ip (.pageFind pageid) fun s ans =>
      match ans with
      | .reply (.int 1) =>
        let (u, s) := s.unset
        .call s ip (.pageRequest { pageid := pageid, mode := .NA, sender := u.sender }) fun s ans =>
          match ans with
          | .unreachable => .exit s
          | _ =>
            let (u, s) := s.unset
            -- line 194 copies from the answer of PAGE_FIND
            creatAttach pageid (intBytes 1 u.bytes) ip s
      | .reply _ => creatRemote pageid ips s
      | _ => .exit s

/-- `psu_dsm_page_creat_1_svc`. -/
def psuDsmPageCreat1Svc (argp : PageId) (s : Server) : Handler :=
  orExit s (searchDir argp s) fun
    | some _ =>
      let (u, s) := s.unset
      .call s s.localHost (.pageRequest { pageid := argp, mode := .RW, sender := u.sender })
        fun s ans =>
          match ans with
          | .reply (.page page) => creatAttach argp page.bytes s.localHost s
          | .unreachable => .exit s
          | _ =>
            let (u, s) := s.unset
            .exit (s.shmget (pageKey argp u))
    | none => creatRemote argp (s.server.toList.take s.nserver) s

/-- `psu_dsm_page_update_1_svc`. -/
def psuDsmPageUpdate1Svc (argp : Request) (s : Server) : Handler :=
  orExit s (searchDsm argp.pageid s) fun
    | none => .exit s
    | some p => orExit s s.dsmHeap[p]? fun c =>
      let s := if argp.mode = .RO then s.mprotect c.entry.addr .read else s
      let s := if argp.mode = .RW then s.mprotect c.entry.addr .none else s
      .ret s (.int 0)

/-- Whether server number `i` has the bit that the loops of the page request look for. -/
def holds (p : ℕ) (i : ℕ) (s : Server) : Bool :=
  match s.dirHeap[p]? with
  | some c => c.entry.pbits[i]? = some .RO
  | none => false

/-- Lines 319 to 321 and 359 to 361, and the end of `psu_dsm_page_request_1_svc`. -/
def requestDone (argp : Request) (p : ℕ) (mode : Mode) (s : Server) : Handler :=
  let iserv := getServerId argp.sender s
  let s := { s with dirHeap := modifyEntry s.dirHeap p (DirEntry.setPbits iserv mode) }
  .ret s (.page s.result)

/-- Line 314, with the answer to the PAGE_FETCH of line 298: it follows the null pointer of a
failed call. -/
def readTake (argp : Request) (p : ℕ) (fetched : Answer Reply) (s : Server) : Handler :=
  match fetched with
  | .reply (.page page) => requestDone argp p .RO { s with result := page }
  | _ => .exit s

/-- Lines 293 to 315, from the answer to the PAGE_FETCH on. -/
def readFetched (argp : Request) (p : ℕ) (ip : Ip) (fetched : Answer Reply) (s : Server) :
    Handler :=
  match fetched with
  | .unreachable => .exit s
  | _ =>
    if (s.dirHeap[p]?.map fun c => c.entry.mode) = some .RW then
      .call s ip (.pageUpdate argp) fun s _ => readTake argp p fetched s
    else readTake argp p fetched s

/-- Lines 287 to 318: the first holder sends the page and is told to give up writing. -/
def requestRead (argp : Request) (p : ℕ) : List ℕ → Server → Handler
  | [], s => requestDone argp p .RO s
  | i :: is, s =>
    if holds p i s then
      orExit s s.server[i]? fun ip =>
        .call s ip (.pageFetch argp) fun s fetched => readFetched argp p ip fetched s
    else requestRead argp p is s

/-- The answer to the PAGE_UPDATE of line 349, after which the loop goes on with `rest`. For
the first holder the connection is there already when it is told. -/
def writeTold (rest : Server → Handler) (first : ℕ) (ans : Answer Reply) (s : Server) : Handler :=
  match ans, first with
  | .unreachable, _ + 1 => .exit s
  | _, _ => rest s

/-- Lines 346 to 352, from the answer to the PAGE_FETCH on. -/
def writeFetched (argp : Request) (rest : Server → Handler) (first : ℕ) (ip : Ip)
    (ans : Answer Reply) (s : Server) : Handler :=
  match ans with
  | .reply (.page page) =>
    .call { s with result := page } ip (.pageUpdate argp) fun s ans => writeTold rest first ans s
  | _ => .exit s

/-- Lines 327 to 358: the first holder sends the page and all holders are told to give
it up. -/
def requestWrite (argp : Request) (p : ℕ) : List ℕ → (first : ℕ) → Server → Handler
  | [], _, s => requestDone argp p .RW s
  | i :: is, first, s =>
    let rest := requestWrite argp p is (first + 1)
    if holds p i s then
      orExit s s.server[i]? fun ip =>
        if first = 0 then
          .call s ip (.pageFetch argp) fun s ans => writeFetched argp rest first ip ans s
        else .call s ip (.pageUpdate argp) fun s ans => writeTold rest first ans s
    else requestWrite argp p is first s

theorem requestRead_cons (argp : Request) (p i : ℕ) (is : List ℕ) (s : Server) :
    requestRead argp p (i :: is) s =
      if holds p i s then
        orExit s s.server[i]? fun ip =>
          .call s ip (.pageFetch argp) fun s fetched => readFetched argp p ip fetched s
      else requestRead argp p is s := rfl

theorem requestWrite_cons (argp : Request) (p i : ℕ) (is : List ℕ) (first : ℕ) (s : Server) :
    requestWrite argp p (i :: is) first s =
      if holds p i s then
        orExit s s.server[i]? fun ip =>
          if first = 0 then
            .call s ip (.pageFetch argp) fun s ans =>
              writeFetched argp (requestWrite argp p is (first + 1)) first ip ans s
          else .call s ip (.pageUpdate argp) fun s ans =>
            writeTold (requestWrite argp p is (first + 1)) first ans s
      else requestWrite argp p is first s := rfl

/-- `psu_dsm_page_request_1_svc`. Its variable `mode` is never set. -/
def psuDsmPageRequest1Svc (argp : Request) (s : Server) : Handler :=
  orExit s (searchDir argp.pageid s) fun
    | none => .exit s
    | some p =>
      let (u, s) := s.unset
      match u.mode with
      | .RO => requestRead argp p (List.range maxServ) s
      | .RW => requestWrite argp p (List.range maxServ) 0 s
      | .NA => .ret s (.page s.result)

/-- `psu_dsm_page_fetch_1_svc`. -/
def psuDsmPageFetch1Svc (argp : Request) (s : Server) : Handler :=
  orExit s (searchDsm argp.pageid s) fun
    | none => .exit s
    | some p => orExit s s.dsmHeap[p]? fun c =>
      orExit s (s.memcpyFrom c.entry.addr) fun bytes =>
        .ret s (.page { size := argp.pageid.size, addr := bytes })

/-- `psu_dsm_page_ack_1_svc`. -/
def psuDsmPageAck1Svc (_ : PageId) (s : Server) : Handler := .ret s .void

/-- `psu_dsm_1`, which calls the handlers inline. -/
def psuDsm1 : Call → Server → Handler
  | .pageFind argp => psuDsmPageFind1Svc argp
  | .pageLocate argp => psuDsmPageLocate1Svc argp
  | .pageCreat argp => psuDsmPageCreat1Svc argp
  | .pageUpdate argp => psuDsmPageUpdate1Svc argp
  | .pageRequest argp => psuDsmPageRequest1Svc argp
  | .pageFetch argp => psuDsmPageFetch1Svc argp
  | .pageAck argp => psuDsmPageAck1Svc argp

/-- The servers, where `resolve` says on which of them a host name is. -/
def service {N : Type} (resolve : Ip → Option N) : Service N Ip Server Call Reply where
  resolve := resolve
  handler := psuDsm1

end DistributedSystem.Dsm
