import Mathlib.Data.Int.Notation
import OpenPS2Loader.Lib.LinkedList
import OpenPS2Loader.Lib.Transition

/-!
# The queue of I/O requests

`ioman.c`: requests are put at the end of a linked list, a worker thread takes them from its front,
and all requests of a type can be removed. Two semaphores guard the list: the worker holds
`gProcSemaId` from the moment it wakes up until the list is empty, and every change of the list is
made under `gEndSemaId`. A step is a section under `gEndSemaId`, or a move of the worker between
two of them.

The counters `gIoPending` are kept beside the list. `ioRemoveRequests` does not look at them.

## Main definitions

* `Ioman` — the state, with a record of what was put, processed and removed
* `Ioman.ioPutRequest`, `ioRemoveRequests`, `take`, `finish` — the sections
* `Ioman.step` — the threads, interleaved
* `Ioman.queued` — the requests in the list
-/

namespace OpenPS2Loader

/-- An `io_request_t`, without the link. -/
structure IoRequest where
  type : ℤ
  data : ℕ
  deriving DecidableEq, Repr

/-- Where the worker thread is. -/
inductive IoWorker
  /-- in `SleepThread`, or waiting for `gProcSemaId` -/
  | asleep
  /-- at the test of the inner loop, holding `gProcSemaId` -/
  | draining
  /-- in the handler of the request at an address, holding `gProcSemaId` -/
  | running (req : ℕ)
  deriving DecidableEq, Repr

/-- The variables of `ioman.c`. The last three fields are a record of what happened; requests are
told apart by their address. -/
structure Ioman where
  /-- `gReqList` and `gReqEnd` -/
  queue : LinkedList IoRequest
  /-- `gIoPending` -/
  pending : ℤ → ℕ
  /-- `isIOBlocked` -/
  blocked : Bool
  worker : IoWorker
  put : List (ℕ × IoRequest)
  processed : List (ℕ × IoRequest)
  removed : List (ℕ × IoRequest)

namespace Ioman

/-- `0 < type < IO_REQ_TYPE_COUNT`: the types that have a counter. -/
def counted (type : ℤ) : Bool := decide (0 < type ∧ type < 5)

/-- The return values of `ioPutRequest`. -/
inductive PutResult
  | ok
  | invalidHandler
  | ioBlocked
  | tooManyRequests
  deriving DecidableEq, Repr

/-- `ioInit`. -/
def ioInit : Ioman := ⟨LinkedList.empty, fun _ => 0, false, .asleep, [], [], []⟩

/-- `ioPutRequest`. `alloc` says whether there is memory for the request. -/
def ioPutRequest (handlers : ℤ → Bool) (s : Ioman) (type : ℤ) (data : ℕ) (alloc : Bool) :
    Option (Ioman × PutResult) :=
  if s.blocked then some (s, .ioBlocked)
  else if !handlers type then some (s, .invalidHandler)
  else if !alloc then some (s, .tooManyRequests)
  else
    (s.queue.pushBack ⟨type, data⟩).map fun queue =>
      ({ s with
        queue := queue
        pending := fun t => if counted type ∧ t = type then s.pending t + 1 else s.pending t
        put := s.put ++ [(s.queue.fresh, ⟨type, data⟩)] }, .ok)

/-- The test of the inner loop of `ioWorkerThread`, and `ioProcessRequest` on the first request. -/
def take (handlers : ℤ → Bool) (s : Ioman) : Option Ioman :=
  match s.queue.head with
  | none => some { s with worker := .asleep }
  | some a => (s.queue.cells a).map fun n =>
      { s with
        worker := .running a
        processed := if handlers n.data.type then s.processed ++ [(a, n.data)] else s.processed }

/-- The first request is unlinked: `gReqList = req->next`. -/
def unlinkHead (l : LinkedList IoRequest) (a : ℕ) (n : Node IoRequest) : LinkedList IoRequest :=
  ⟨Function.update l.cells a none, l.fresh, n.next, if n.next = none then none else l.tail⟩

/-- The section of `ioWorkerThread` behind the handler. -/
def finish (s : Ioman) (a : ℕ) : Option Ioman :=
  (s.queue.cells a).map fun n =>
    { s with
      queue := unlinkHead s.queue a n
      pending := fun t => if counted n.data.type ∧ t = n.data.type then s.pending t - 1
        else s.pending t
      worker := .draining }

/-- `if (last) last->next = next`. -/
def setNext (l : LinkedList IoRequest) (last next : Option ℕ) :
    Option (ℕ → Option (Node IoRequest)) :=
  match last with
  | none => some l.cells
  | some u => (l.cells u).map fun m => Function.update l.cells u (some ⟨m.data, next⟩)

/-- A request is taken out by the loop of `ioRemoveRequests`: `last` is the request before it. -/
def unlinkRequest (l : LinkedList IoRequest) (v : ℕ) (next last : Option ℕ) :
    Option (LinkedList IoRequest) :=
  ((setNext l last next).bind fun cells => LinkedList.free cells v).map fun cells =>
    ⟨cells, l.fresh, if l.head = some v then next else l.head,
      if l.tail = some v then last else l.tail⟩

/-- The loop of `ioRemoveRequests`, and the requests it frees. -/
def removeLoop (type : ℤ) : ℕ → LinkedList IoRequest → Option ℕ → Option ℕ →
    Option (LinkedList IoRequest × List (ℕ × IoRequest))
  | _, l, none, _ => some (l, [])
  | 0, _, some _, _ => none
  | fuel + 1, l, some v, last =>
    match l.cells v with
    | none => none
    | some n =>
      if n.data.type = type then
        (unlinkRequest l v n.next last).bind fun l =>
          (removeLoop type fuel l n.next last).map fun (l, gone) => (l, (v, n.data) :: gone)
      else removeLoop type fuel l n.next (some v)

/-- `ioRemoveRequests`. The list has no more requests than were ever allocated. -/
def ioRemoveRequests (s : Ioman) (type : ℤ) : Option (Ioman × ℕ) :=
  (removeLoop type s.queue.fresh s.queue s.queue.head none).map fun (queue, gone) =>
    ({ s with queue := queue, removed := s.removed ++ gone }, gone.length)

/-! ### The threads -/

/-- What the threads do. -/
inductive Event
  | put (type : ℤ) (data : ℕ) (alloc : Bool)
  | remove (type : ℤ)
  | block (b : Bool)
  /-- the worker wakes up and gets `gProcSemaId` -/
  | wake
  | take
  | finish
  deriving DecidableEq, Repr

/-- One step of one thread. `ioRemoveRequests` waits for `gProcSemaId`, which the worker has while
it is awake. -/
def step (handlers : ℤ → Bool) (s : Ioman) : Event → Option Ioman
  | .put type data alloc => (s.ioPutRequest handlers type data alloc).map Prod.fst
  | .remove type =>
    if s.worker = .asleep then (s.ioRemoveRequests type).map Prod.fst else none
  | .block b => some { s with blocked := b }
  | .wake => if s.worker = .asleep then some { s with worker := .draining } else none
  | .take => if s.worker = .draining then s.take handlers else none
  | .finish =>
    match s.worker with
    | .running a => s.finish a
    | _ => none

/-! ### What the list holds -/

/-- The nodes from `ptr` on. -/
def nodesFrom (cells : ℕ → Option (Node IoRequest)) : ℕ → Option ℕ → List (ℕ × IoRequest)
  | _, none => []
  | 0, some _ => []
  | fuel + 1, some a =>
    match cells a with
    | none => []
    | some n => (a, n.data) :: nodesFrom cells fuel n.next

/-- The requests in the list: those that wait, and the one that is being processed. -/
def queued (s : Ioman) : List (ℕ × IoRequest) := nodesFrom s.queue.cells s.queue.fresh s.queue.head

/-- The requests that wait. -/
def waiting (s : Ioman) : List (ℕ × IoRequest) :=
  match s.worker with
  | .running _ => s.queued.tail
  | _ => s.queued

/-- How many requests of a type there are in a list. -/
def countType (t : ℤ) (ns : List (ℕ × IoRequest)) : ℕ := ns.countP fun n => n.2.type = t

end Ioman

end OpenPS2Loader
