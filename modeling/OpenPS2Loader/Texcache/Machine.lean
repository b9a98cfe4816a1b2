import Mathlib.Algebra.Group.Int.Defs
import Mathlib.Data.Int.Notation
import OpenPS2Loader.Lib.DoublyLinked
import OpenPS2Loader.Lib.Transition

/-!
# The texture cache and the art worker

`texcache.c`: the menu draws its rows by `cacheGetTextureEx`, which returns a decoded texture or
claims a slot and queues a request, and a thread of lower priority takes the requests and loads
the pictures. Other calls throw the queue away, or tell the rows that new pictures may have
appeared.

A step is one call of the drawing thread, one of the worker's moves, one round of the loop of a
canceller, or one store of these two to a slot. The drawing thread has the highest priority of the
three and no step of its own blocks between looking at a slot and the section it ends in, so a call
of it is one step. A canceller detaches the queue in one section and frees the nodes afterwards, one
by one. The worker publishes its result by single stores, of which the one to `qr` comes last, and
`cacheClearItem` writes most fields twice: draws and invalidations fall between these stores.

Where the behaviour of C is undefined (a pointer to a request that was freed, an overflow of the
`int` counters) a step has no result. Requests carry the number of invalidations before they were
made, and slots and rows the number of the request their memo comes from; the code does not look
at these numbers.

## Main definitions

* `Texcache.Request`, `Slot`, `Row` — a `load_image_request_t`, a `cache_entry_t`, the ids of a row
* `Texcache.lookup` — what a row is to the cache: the paths through `cacheGetTextureEx` up to the
  claim
* `Texcache.cacheGetTextureEx` — a draw
* `Texcache.verdict`, `publish` — the two halves of `cacheLoadImage`
* `Texcache.Store`, `storeStep` — the stores to a slot, one by one
* `Texcache.step` — the threads, interleaved
-/

namespace OpenPS2Loader

namespace Texcache

/-! ### The data -/

/-- A `load_image_request_t` without its links. `gen` is the number of invalidations before it was
made. -/
structure Request where
  queueEpoch : UInt32
  cache : ℕ
  entry : ℕ
  list : ℕ
  cacheUID : UInt32
  epoch : UInt32
  failEpoch : UInt32
  focusEpoch : UInt32
  abortRequested : Bool
  sio2 : Bool
  value : List UInt8
  gen : ℕ
  deriving DecidableEq

/-- A `cache_entry_t`. An `int` that is only compared is kept by its bits. `gen` belongs to the
memo: it is that of the request that was answered. -/
structure Slot where
  /-- `texture.Mem != NULL` -/
  texture : Bool
  qr : Option ℕ
  lastUsed : ℤ
  uid : UInt32
  key : List UInt8
  failEpoch : UInt32
  gen : ℕ
  deriving DecidableEq

/-- A row of the menu as one cache sees it: what it is asked for, and the two ids it keeps. `gen`
belongs to the parked state. -/
structure Row where
  cache : ℕ
  list : ℕ
  value : List UInt8
  cacheId : ℤ
  uid : UInt32
  gen : ℕ
  deriving DecidableEq

/-- A store to a `cache_entry_t`. -/
inductive Store
  /-- `texture.Mem`, null or not -/
  | texture (mem : Bool)
  /-- `qr = NULL` -/
  | qr
  | lastUsed (value : ℤ)
  /-- `lastUsed = guiFrameId` -/
  | stamp
  /-- `UID = 0` -/
  | uid
  /-- the zeros of the key -/
  | key
  | failEpoch (epoch : UInt32) (gen : ℕ)
  deriving DecidableEq

/-- A slot after a store. -/
def Store.apply (frame : ℤ) (x : Slot) : Store → Slot
  | .texture mem => { x with texture := mem }
  | .qr => { x with qr := none }
  | .lastUsed value => { x with lastUsed := value }
  | .stamp => { x with lastUsed := frame }
  | .uid => { x with uid := 0 }
  | .key => { x with key := [] }
  | .failEpoch epoch gen => { x with failEpoch := epoch, gen := gen }

/-- The caches: how many slots each has, and its suffix. -/
structure Caches where
  count : ℕ → ℕ
  suffix : ℕ → String

/-- Where the worker is. -/
inductive Worker
  /-- asleep, or at `artPop` -/
  | idle
  /-- `artPop` gave it the request -/
  | taken (req : ℕ)
  /-- reading the device -/
  | loading (req : ℕ)
  /-- at its stores to the slot, or at the section of `artReleaseRequest` -/
  | releasing (req : ℕ)
  /-- behind that section -/
  | freeing (req : ℕ)
  deriving DecidableEq

/-- The threads that throw requests away: the one that draws, and the I/O worker. -/
inductive Thread
  | gui
  | io
  deriving DecidableEq

/-- Where a thread is that throws requests away. -/
inductive Canceller
  | idle
  /-- in `artFreeChain` -/
  | freeing (chain : Option ℕ)
  /-- in the first loop of `cacheAbortMmceImageLoadsTimed` -/
  | filtering (chain keepHead keepTail : Option ℕ)
  /-- in the second one -/
  | pushing (keepHead : Option ℕ)
  /-- at its stores to the slot of a request, or at the `free`, and where it goes on -/
  | dropping (req : ℕ) (next : Canceller)
  deriving DecidableEq

/-- The threads that store to slots, besides the one that draws in a call of its own. -/
inductive Writer
  | worker
  | canceller (t : Thread)
  deriving DecidableEq

/-- All of them. -/
def writers : List Writer := [.worker, .canceller .gui, .canceller .io]

end Texcache

open Texcache in
/-- The variables of `texcache.c`, the rows, and where the threads are. -/
structure Texcache where
  /-- the requests in memory, `gArtReqList` and `gArtReqEnd` -/
  queue : DList Request
  slots : ℕ × ℕ → Slot
  nextUID : ℕ → UInt32
  rows : ℕ → Row
  /-- `gArtCurrentReq` -/
  current : Option ℕ
  /-- `gArtQueueEpoch` -/
  queueEpoch : UInt32
  /-- `gArtEpoch` -/
  epoch : UInt32
  /-- `gArtFailEpoch` -/
  failEpoch : UInt32
  /-- `gArtFocusEpoch` -/
  focusEpoch : UInt32
  /-- `gArtFocusList`, `gArtFocusLen` and `gArtFocusHash` -/
  focus : Option ℕ × ℕ × UInt32
  /-- `gCacheLoadsCancelled` -/
  cancelled : Bool
  /-- `gArtNavActive` -/
  navActive : Bool
  /-- `guiFrameId` -/
  frame : ℤ
  worker : Worker
  canceller : Thread → Canceller
  /-- the slot a thread is at, and the stores to it that are still to come -/
  underway : Writer → (ℕ × ℕ) × List Store
  /-- a record: how many requests were made -/
  enqueued : ℕ
  /-- a record: how often `cacheInvalidateFailMemo` was called -/
  gen : ℕ

namespace Texcache

/-- The requests in memory, without their links. -/
def requests (s : Texcache) : ℕ → Option Request := DList.dataOf s.queue.cells

/-! ### The queue -/

/-- `artPush`. -/
def artPush (s : Texcache) (a : ℕ) : Option Texcache :=
  (s.queue.pushBack a fun r => { r with queueEpoch := s.queueEpoch }).map fun queue =>
    { s with queue := queue }

/-- `artPushFront`. -/
def artPushFront (s : Texcache) (a : ℕ) : Option Texcache :=
  (s.queue.pushFront a fun r => { r with queueEpoch := s.queueEpoch }).map fun queue =>
    { s with queue := queue }

/-- `artPromote`: neither the request the worker has, nor one of a detached chain, nor the first. -/
def artPromote (s : Texcache) (a : ℕ) : Option Texcache :=
  (s.queue.cells a).bind fun n =>
    if s.current ≠ some a ∧ n.data.queueEpoch = s.queueEpoch ∧ n.prev ≠ none then
      (s.queue.moveToFront a).map fun queue => { s with queue := queue }
    else some s

/-- `++gArtQueueEpoch`, which is never 0. -/
def nextEpoch (e : UInt32) : UInt32 := if e + 1 = 0 then 1 else e + 1

/-- `artDetachAll`: the queue is empty afterwards, and its nodes keep their links. -/
def artDetachAll (s : Texcache) : Texcache :=
  { s with
    queue := { s.queue with head := none, tail := none }
    queueEpoch := nextEpoch s.queueEpoch }

/-- A request is written through a pointer. -/
def setRequest (s : Texcache) (a : ℕ) (f : Request → Request) : Option Texcache :=
  (DList.modify s.queue.cells a fun n => { n with data := f n.data }).map fun cells =>
    { s with queue := { s.queue with cells := cells } }

/-- A slot is written. -/
def setSlot (s : Texcache) (e : ℕ × ℕ) (f : Slot → Slot) : Texcache :=
  { s with slots := Function.update s.slots e (f (s.slots e)) }

/-- The ids of a row are written. -/
def setRow (s : Texcache) (r : ℕ) (f : Row → Row) : Texcache :=
  { s with rows := Function.update s.rows r (f (s.rows r)) }

/-- A slot after `cacheClearItem`. -/
def clearedSlot : Slot := ⟨false, none, -1, 0, [], 0, 0⟩

/-- `free(req)`. -/
def freeRequest (s : Texcache) (a : ℕ) : Texcache :=
  { s with queue := { s.queue with cells := Function.update s.queue.cells a none } }

/-! ### Single stores -/

/-- A thread is about to make these stores. -/
def setUnderway (s : Texcache) (w : Writer) (e : ℕ × ℕ) (stores : List Store) : Texcache :=
  { s with underway := Function.update s.underway w (e, stores) }

/-- The stores of `cacheClearItem`. `memset` goes up through the record. -/
def clearStores : List Store :=
  [.texture false, .qr, .lastUsed 0, .uid, .key, .failEpoch 0 0,
    .texture false, .qr, .lastUsed (-1), .uid]

/-- The stores of `cacheLoadImage` when the picture was loaded. -/
def loadedStores : List Store := [.texture true, .stamp, .qr]

/-- The stores of `cacheLoadImage` when there is no file. -/
def parkedStores (epoch : UInt32) (gen : ℕ) : List Store :=
  [.lastUsed 0, .failEpoch epoch gen, .qr]

/-- One after the other, the stores of `cacheClearItem` leave nothing. -/
theorem foldl_clearStores (frame : ℤ) (x : Slot) :
    clearStores.foldl (Store.apply frame) x = clearedSlot :=
  rfl

/-- `cacheClearItem` of the worker or a canceller. -/
def cacheClearItem (s : Texcache) (w : Writer) (e : ℕ × ℕ) : Texcache :=
  s.setUnderway w e clearStores

/-- A thread has made the store `x` to slot `e`, and the others are still to come. -/
def written (s : Texcache) (w : Writer) (e : ℕ × ℕ) (x : Store) (stores : List Store) : Texcache :=
  (s.setSlot e fun entry => x.apply s.frame entry).setUnderway w e stores

/-- The next store of a thread. -/
def storeStep (s : Texcache) (w : Writer) : Option Texcache :=
  match s.underway w with
  | (_, []) => none
  | (e, x :: stores) => some (s.written w e x stores)

/-- What a thread does next, when its stores are made. -/
def whenStored (s : Texcache) (w : Writer) (next : Option Texcache) : Option Texcache :=
  if (s.underway w).2 = [] then next else none

/-! ### A draw -/

/-- `artFocusHashValue`. -/
def artFocusHashValue (value : List UInt8) : UInt32 :=
  value.foldl (fun h b => (h ^^^ b.toUInt32) * 16777619) 2166136261

/-- `artUpdateFocus`. -/
def artUpdateFocus (s : Texcache) (list : ℕ) (value : List UInt8) : Texcache :=
  let focus := (some list, value.length, artFocusHashValue value)
  if s.focus = focus then s
  else { s with focus := focus, focusEpoch := nextEpoch s.focusEpoch }

/-- What a row is to the cache. -/
inductive Lookup
  /-- parked as absent in this generation -/
  | known
  /-- slot `i` is being loaded for it -/
  | pending (i : ℕ)
  /-- slot `i` remembers that there is no picture -/
  | absent (i : ℕ)
  /-- slot `i` has the picture -/
  | ready (i : ℕ)
  /-- a slot has to be claimed -/
  | miss
  deriving DecidableEq

/-- The slot the ids of a row name, if they still name one. -/
def byId (caches : Caches) (s : Texcache) (row : Row) : Option Lookup :=
  if 0 ≤ row.cacheId ∧ row.cacheId < caches.count row.cache then
    let i := row.cacheId.toNat
    let entry := s.slots (row.cache, i)
    if entry.uid = row.uid then
      some (if entry.qr.isSome then .pending i
        else if entry.lastUsed = 0 then .absent i
        else .ready i)
    else none
  else none

/-- `sizeof(key)`. -/
def keySize : ℕ := 128

/-- The first slot that carries the value as its key: where the loop over the slots stops. -/
def keySlot (caches : Caches) (s : Texcache) (row : Row) : Option ℕ :=
  if 0 < row.value.length ∧ row.value.length < keySize then
    (List.range (caches.count row.cache)).find? fun i =>
      (s.slots (row.cache, i)).key ≠ [] ∧ (s.slots (row.cache, i)).key = row.value
  else none

/-- The reunion by value. -/
def byValue (caches : Caches) (s : Texcache) (row : Row) : Lookup :=
  match keySlot caches s row with
  | none => .miss
  | some i =>
    let entry := s.slots (row.cache, i)
    if entry.qr.isSome then .pending i
    else if entry.lastUsed = 0 then
      if entry.failEpoch = s.failEpoch then .absent i else .miss
    else if entry.texture then .ready i
    else .miss

/-- `cacheGetTextureEx` up to the claim. -/
def lookup (caches : Caches) (s : Texcache) (row : Row) : Lookup :=
  if row.cacheId = -2 then
    if row.uid = s.failEpoch then .known else byValue caches s row
  else if row.cacheId = -1 then byValue caches s row
  else (byId caches s row).getD (byValue caches s row)

/-- What a draw depends on besides the row: `isPriority`, the answer of `cacheRequestIsSIO2`,
`list->delay`, `guiInactiveFrames` and what `malloc` returns. -/
structure Draw where
  isPriority : Bool
  sio2 : Bool
  delay : ℤ
  inactiveFrames : ℤ
  alloc : Option ℕ
  deriving DecidableEq

/-- A request on the controller's bus while a direction is held. -/
def heldBack (s : Texcache) (sio2 : Bool) : Bool := sio2 && s.navActive

/-- The slot is the row's: it is stamped, and the row gets its ids. -/
def useSlot (s : Texcache) (r i : ℕ) : Texcache :=
  let e := ((s.rows r).cache, i)
  (s.setSlot e fun entry => { entry with lastUsed := s.frame }).setRow r fun row =>
    { row with cacheId := i, uid := (s.slots e).uid }

/-- The slot is being loaded for the row: the request belongs to the current selection from now
on. -/
def adopt (s : Texcache) (r i : ℕ) (isPriority : Bool) : Option Texcache :=
  (s.slots ((s.rows r).cache, i)).qr.bind fun a => (s.queue.cells a).bind fun n =>
    ((s.useSlot r i).setRequest a fun req => { req with focusEpoch := s.focusEpoch }).bind
      fun s => if isPriority && !s.heldBack n.data.sio2 then s.artPromote a else some s

/-- The row is parked as absent, in the current generation. -/
def park (s : Texcache) (r i : ℕ) : Texcache :=
  s.setRow r fun row =>
    { row with cacheId := -2, uid := s.failEpoch, gen := (s.slots (row.cache, i)).gen }

/-- `ART_MIN_SETTLE_FRAMES`. -/
def artMinSettleFrames : ℤ := 8

/-- The idle gate, for the controller's bus only. -/
def gated (d : Draw) : Bool := d.sio2 && decide (d.inactiveFrames < max d.delay artMinSettleFrames)

/-- A background cache of one slot: what it loads for another value is aborted. -/
def supersede (caches : Caches) (s : Texcache) (row : Row) : Option Texcache :=
  let only := s.slots (row.cache, 0)
  if caches.count row.cache = 1 ∧ caches.suffix row.cache = "BG" ∧ only.key ≠ [] ∧
      only.key ≠ row.value then
    match only.qr with
    | none => some s
    | some a => s.setRequest a fun req => { req with abortRequested := true }
  else some s

/-- The loop that looks for the slot that was not used for the longest time. -/
def oldest (slots : ℕ → Slot) (navHolds : Bool) : List ℕ → ℤ → Option ℕ → Option ℕ
  | [], _, found => found
  | i :: is, rtime, found =>
    if (slots i).qr.isSome then oldest slots navHolds is rtime found
    else if navHolds && decide (0 < (slots i).lastUsed) then oldest slots navHolds is rtime found
    else if (slots i).lastUsed < rtime then oldest slots navHolds is (slots i).lastUsed (some i)
    else oldest slots navHolds is rtime found

/-- The slot a draw would claim. -/
def oldestEntry (caches : Caches) (s : Texcache) (c : ℕ) (sio2 : Bool) : Option ℕ :=
  oldest (fun i => s.slots (c, i)) (s.heldBack sio2) (List.range (caches.count c)) s.frame none

/-- The key of a slot that is claimed for a value: nothing where it does not fit. -/
def keyOf (value : List UInt8) : List UInt8 := if value.length < keySize then value else []

/-- The request of a draw. -/
def newRequest (s : Texcache) (row : Row) (i : ℕ) (sio2 : Bool) : Request :=
  { queueEpoch := 0
    cache := row.cache
    entry := i
    list := row.list
    cacheUID := s.nextUID row.cache
    epoch := s.epoch
    failEpoch := s.failEpoch
    focusEpoch := s.focusEpoch
    abortRequested := false
    sio2 := sio2
    value := row.value
    gen := s.gen }

/-- A slot that is claimed for a row, by the request at `a`. -/
def claimedSlot (s : Texcache) (row : Row) (a : ℕ) : Slot :=
  { clearedSlot with
    qr := some a
    uid := s.nextUID row.cache
    key := keyOf row.value
    lastUsed := s.frame }

/-- The slot `i` is claimed for a row, by the request that `malloc` put at `a`. -/
def claim (s : Texcache) (r i a : ℕ) (sio2 : Bool) : Texcache :=
  let row := s.rows r
  { s with
    queue := { s.queue with
      cells := Function.update s.queue.cells a (some ⟨s.newRequest row i sio2, none, none⟩) }
    slots := Function.update s.slots (row.cache, i) (s.claimedSlot row a)
    rows := Function.update s.rows r { row with cacheId := i, uid := s.nextUID row.cache }
    nextUID := Function.update s.nextUID row.cache (s.nextUID row.cache + 1)
    enqueued := s.enqueued + 1 }

/-- `INT_MAX`: `nextUID++` is not defined there. -/
def intMax : UInt32 := 2147483647

/-- The slot is claimed and the request queued. `malloc` returns no address that is in use. -/
def enqueue (s : Texcache) (r i a : ℕ) (d : Draw) : Option Texcache :=
  if s.nextUID (s.rows r).cache = intMax ∨ (s.queue.cells a).isSome then none
  else if d.isPriority && !s.heldBack d.sio2 then (s.claim r i a d.sio2).artPushFront a
  else (s.claim r i a d.sio2).artPush a

/-- `cacheGetTextureEx` from the gate on. -/
def request (caches : Caches) (s : Texcache) (r : ℕ) (d : Draw) : Option Texcache :=
  let s := s.setRow r fun row => { row with cacheId := -1 }
  if gated d then some s
  else
    (supersede caches s (s.rows r)).bind fun s =>
      match oldestEntry caches s (s.rows r).cache d.sio2, d.alloc with
      | some i, some a => s.enqueue r i a d
      | _, _ => some s

/-- The selection a draw leaves behind. -/
def focused (s : Texcache) (row : Row) (isPriority : Bool) : Texcache :=
  if isPriority then s.artUpdateFocus row.list row.value else s

/-- `cacheGetTextureEx`, and the slot whose texture it returns. -/
def cacheGetTextureEx (caches : Caches) (s : Texcache) (r : ℕ) (d : Draw) :
    Option (Texcache × Option ℕ) :=
  if (s.rows r).value = [] then some (s, none)
  else
    let s := s.focused (s.rows r) d.isPriority
    match lookup caches s (s.rows r) with
    | .known => some (s, none)
    | .pending i => (s.adopt r i d.isPriority).map fun s => (s, none)
    | .absent i => some (s.park r i, none)
    | .ready i => some (s.useSlot r i, some i)
    | .miss => (request caches s r d).map fun s => (s, none)

/-- `cacheLookupTexture`, and the slot whose texture it returns. -/
def cacheLookupTexture (caches : Caches) (s : Texcache) (r : ℕ) : Texcache × Option ℕ :=
  let row := s.rows r
  if 0 ≤ row.cacheId ∧ row.cacheId < caches.count row.cache then
    let e := (row.cache, row.cacheId.toNat)
    let entry := s.slots e
    if entry.uid ≠ row.uid ∨ entry.qr ≠ none ∨ entry.lastUsed = 0 ∨ entry.texture = false then
      (s, none)
    else (s.setSlot e fun entry => { entry with lastUsed := s.frame }, some row.cacheId.toNat)
  else (s, none)

/-! ### The worker -/

/-- `artPop`. -/
def artPop (s : Texcache) : Option Texcache :=
  match s.queue.head with
  | none => some s
  | some a => (s.queue.cells a).bind fun n =>
    if s.heldBack n.data.sio2 then some s
    else (s.queue.popFront fun r => { r with queueEpoch := 0 }).map fun queue =>
      { s with
        queue := queue
        current := some a
        worker := .taken a }

/-- What `cacheLoadImage` does with a request before it reads the device. -/
inductive Verdict
  /-- `artReleaseRequest` only -/
  | release
  /-- `cacheClearItem` and `artReleaseRequest` -/
  | drop
  | load
  deriving DecidableEq

/-- `ART_CANCEL_STALE_FRAMES`. -/
def artCancelStaleFrames : ℤ := 20

/-- `cacheLoadImage` up to the load. `entry`, `cache` and `list` of a request are never null. -/
def verdict (s : Texcache) (req : Request) : Verdict :=
  let entry := s.slots (req.cache, req.entry)
  if s.cancelled then .release
  else if req.cacheUID ≠ entry.uid then .release
  else if req.focusEpoch ≠ s.focusEpoch then .drop
  else if artCancelStaleFrames < (s.frame - entry.lastUsed) % 2 ^ 32 then .drop
  else if req.epoch ≠ s.epoch then .drop
  else if req.abortRequested then .drop
  else .load

/-- The worker acts on the verdict. -/
def begin (s : Texcache) (a : ℕ) : Option Texcache :=
  (s.queue.cells a).map fun n =>
    match s.verdict n.data with
    | .release => { s with worker := .releasing a }
    | .drop =>
      { s.cacheClearItem .worker (n.data.cache, n.data.entry) with worker := .releasing a }
    | .load => { s with worker := .loading a }

/-- What the archive or `itemGetImage` returns. -/
inductive LoadResult
  | ok
  /-- `ERR_BAD_FILE` -/
  | badFile
  | otherError
  deriving DecidableEq

/-- `cacheLoadImage` behind the load: which stores it makes. -/
def publish (s : Texcache) (a : ℕ) (result : LoadResult) : Option Texcache :=
  (s.queue.cells a).map fun n =>
    let e := (n.data.cache, n.data.entry)
    match result with
    | .ok => { s.setUnderway .worker e loadedStores with worker := .releasing a }
    | .otherError => { s.cacheClearItem .worker e with worker := .releasing a }
    | .badFile =>
      if n.data.abortRequested then { s.cacheClearItem .worker e with worker := .releasing a }
      else
        { s.setUnderway .worker e (parkedStores n.data.failEpoch n.data.gen) with
          worker := .releasing a }

/-- The section of `artReleaseRequest`. -/
def release (s : Texcache) (a : ℕ) : Texcache :=
  { s with
    current := if s.current = some a then none else s.current
    worker := .freeing a }

/-- `artReleaseRequest` behind the section. It reads the request before it frees it. -/
def finish (s : Texcache) (a : ℕ) : Option Texcache :=
  (s.queue.cells a).map fun _ => { s.freeRequest a with worker := .idle }

/-! ### The cancellers -/

/-- The request the worker has is told to stop, if `p` holds of it. -/
def abortCurrent (s : Texcache) (p : Request → Bool) : Option Texcache :=
  match s.current with
  | none => some s
  | some a => s.setRequest a fun req => { req with abortRequested := req.abortRequested || p req }

/-- A thread goes on elsewhere. -/
def setCanceller (s : Texcache) (t : Thread) (c : Canceller) : Texcache :=
  { s with canceller := Function.update s.canceller t c }

/-- `cacheCancelPendingImageLoadsTimed` up to the loop of `artFreeChain`. -/
def cacheCancelPendingImageLoads (s : Texcache) (t : Thread) : Option Texcache :=
  (s.abortCurrent fun _ => true).map fun s =>
    s.artDetachAll.setCanceller t (.freeing s.queue.head)

/-- `cacheShutdownArtLoads` up to the loop of `artFreeChain`. -/
def cacheShutdownArtLoads (s : Texcache) (t : Thread) : Option Texcache :=
  cacheCancelPendingImageLoads { s with cancelled := true } t

/-- `cacheAbortMmceImageLoadsTimed` up to its first loop. -/
def cacheAbortMmceImageLoads (s : Texcache) (t : Thread) : Option Texcache :=
  (s.abortCurrent fun req => req.sio2).map fun s =>
    s.artDetachAll.setCanceller t (.filtering s.queue.head none none)

/-- One round of `artFreeChain` up to the `free`: the slot is cleared if it waits for the
request. -/
def dropRequest (s : Texcache) (t : Thread) (a : ℕ) (req : Request) (next : Canceller) : Texcache :=
  let e := (req.cache, req.entry)
  (if (s.slots e).qr = some a then s.cacheClearItem (.canceller t) e else s).setCanceller t
    (.dropping a next)

/-- A request is appended to those that are kept. -/
def keep (s : Texcache) (a : ℕ) (keepTail : Option ℕ) : Option Texcache :=
  (DList.modify s.queue.cells a fun n => { n with next := none }).bind fun cells =>
    match keepTail with
    | none => some { s with queue := { s.queue with cells := cells } }
    | some k => (DList.modify cells k fun n => { n with next := some a }).map fun cells =>
        { s with queue := { s.queue with cells := cells } }

/-- One round of the loop a canceller is in, or what is left of it when the slot is cleared. Behind
its loops, a canceller only waits. -/
def cancellerStep (s : Texcache) (t : Thread) : Option Texcache :=
  match s.canceller t with
  | .idle => none
  | .freeing none => some (s.setCanceller t .idle)
  | .freeing (some a) => (s.queue.cells a).map fun n => s.dropRequest t a n.data (.freeing n.next)
  | .filtering none keepHead _ => some (s.setCanceller t (.pushing keepHead))
  | .filtering (some a) keepHead keepTail => (s.queue.cells a).bind fun n =>
      if n.data.sio2 then some (s.dropRequest t a n.data (.filtering n.next keepHead keepTail))
      else
        (s.keep a keepTail).map fun s =>
          s.setCanceller t
            (.filtering n.next (if keepTail = none then some a else keepHead) (some a))
  | .pushing none => some (s.setCanceller t .idle)
  | .pushing (some a) => (s.queue.cells a).bind fun n =>
      (s.artPush a).map fun s => s.setCanceller t (.pushing n.next)
  | .dropping a next => some ((s.freeRequest a).setCanceller t next)

/-! ### The threads -/

/-- `cacheInvalidateFailMemo`. -/
def cacheInvalidateFailMemo (s : Texcache) : Texcache :=
  { s with failEpoch := nextEpoch s.failEpoch, gen := s.gen + 1 }

/-- What the threads do. -/
inductive Event
  /-- `cacheGetTextureEx` for row `r` -/
  | draw (r : ℕ) (d : Draw)
  /-- `cacheLookupTexture` for row `r` -/
  | look (r : ℕ)
  /-- row `r` is made anew by a list rebuild -/
  | renumber (r c l : ℕ) (value : List UInt8)
  | frame
  /-- `cacheTickArt` samples the held direction -/
  | tick (nav : Bool)
  | invalidate
  /-- `cacheDropQueuedArt` -/
  | dropQueued
  | pop
  | begin
  | loaded (result : LoadResult)
  | release
  | finish
  | cancel (t : Thread)
  | abort (t : Thread)
  | shutdown (t : Thread)
  | canceller (t : Thread)
  /-- the next store of a thread -/
  | store (w : Writer)
  deriving DecidableEq

/-- `INT_MAX`. -/
def frameMax : ℤ := 2147483647

/-- A call of one thread that throws requests away; it makes one at a time. -/
def whenIdle (s : Texcache) (t : Thread) (call : Option Texcache) : Option Texcache :=
  if s.canceller t = .idle then call else none

/-- A step of one thread. -/
def step (caches : Caches) (s : Texcache) : Event → Option Texcache
  | .draw r d => s.whenIdle .gui ((cacheGetTextureEx caches s r d).map Prod.fst)
  | .look r => s.whenIdle .gui (some (cacheLookupTexture caches s r).1)
  | .renumber r c l value =>
    some { s with rows := Function.update s.rows r ⟨c, l, value, -1, -1, 0⟩ }
  | .frame => if s.frame = frameMax then none else some { s with frame := s.frame + 1 }
  | .tick nav => some { s with navActive := nav }
  | .invalidate => some s.cacheInvalidateFailMemo
  | .dropQueued => some { s with epoch := s.epoch + 1 }
  | .pop => s.whenStored .worker (if s.worker = .idle then s.artPop else none)
  | .begin => s.whenStored .worker
    (match s.worker with
    | .taken a => s.begin a
    | _ => none)
  | .loaded result => s.whenStored .worker
    (match s.worker with
    | .loading a => s.publish a result
    | _ => none)
  | .release => s.whenStored .worker
    (match s.worker with
    | .releasing a => some (s.release a)
    | _ => none)
  | .finish => s.whenStored .worker
    (match s.worker with
    | .freeing a => s.finish a
    | _ => none)
  | .cancel t => s.whenIdle t (s.cacheCancelPendingImageLoads t)
  | .abort t => s.whenIdle t (s.cacheAbortMmceImageLoads t)
  | .shutdown t => s.whenIdle t (s.cacheShutdownArtLoads t)
  | .canceller t => s.whenStored (.canceller t) (s.cancellerStep t)
  | .store w => s.storeStep w

/-- After `cacheInit` and `cacheInitCache`, in the first frame that is drawn. -/
def init : Texcache :=
  { queue := DList.empty
    slots := fun _ => clearedSlot
    nextUID := fun _ => 1
    rows := fun _ => ⟨0, 0, [], -1, -1, 0⟩
    current := none
    queueEpoch := 2
    epoch := 0
    failEpoch := 1
    focusEpoch := 1
    focus := (none, 0, 0)
    cancelled := false
    navActive := false
    frame := 1
    worker := .idle
    canceller := fun _ => .idle
    underway := fun _ => ((0, 0), [])
    enqueued := 0
    gen := 0 }

end Texcache

end OpenPS2Loader
