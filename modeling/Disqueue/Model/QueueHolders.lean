import Mathlib.Logic.Function.Basic
import Disqueue.Model.Queue

/-!
# Clients that hold items of a queue

Any number of clients use one queue as `queue.h` tells them to. A peeker calls
`queue_peek`, then `queue_item_lock` on the item it was given, reads it and
calls `queue_item_unlock`; a taker calls `queue_take`, reads the item and calls
`queue_item_free`. What a client does next depends on its `Phase`; an operation
that does not fit the client's phase, or that is on a queue that was deleted, is
not made. Items are also put, and waited for with a callback that reads the
item it is given. `fate` records what became of each item.
-/

namespace DQ.Model

/-- Where a client is between its calls. -/
inductive Phase
  | idle
  /-- `queue_peek` returned the item at `i`. -/
  | peeked (i : Nat)
  /-- `queue_item_lock` was called on it, and `queue_item_unlock` was not yet. -/
  | locked (i : Nat)
  /-- `queue_take` returned the item at `i`, and `queue_item_free` was not yet
  called on it. -/
  | taken (i : Nat)
deriving DecidableEq

/-- What became of the item at an address. -/
inductive Fate
  /-- There was none. -/
  | absent
  | stored
  /-- A client took it. -/
  | taken
  /-- Its taker freed it, or it was given to a callback, which returned. -/
  | freed
  /-- It was stored when its queue was deleted. -/
  | discarded
deriving DecidableEq

/-- A call of a client, or of the queue's owner (`delete`). -/
inductive HolderOp (ι : Type)
  | put (ok : Outcome) (key : Option CStr) (value : CStr)
  | wait (ok : Outcome) (key : Option CStr)
  | peek (c : ι) (key : Option CStr)
  | lock (c : ι)
  | read (c : ι)
  | unlock (c : ι)
  | take (c : ι) (key : Option CStr)
  | free (c : ι)
  | delete

/-- A queue and its clients. -/
structure QueueHolders (ι : Type) where
  /-- The queue, unless it was deleted. -/
  q : Option (Queue Unit)
  heap : Heap
  /-- The address of the next item. -/
  next : Nat
  phase : ι → Phase
  fate : Nat → Fate

namespace QueueHolders

variable {ι : Type}

/-- A new queue, before any client used it. -/
def new (addr : Nat) (uuid : Nat → UInt8) : QueueHolders ι :=
  { q := some (queueNew addr uuid), heap := .empty, next := 0, phase := fun _ => .idle,
    fate := fun _ => .absent }

/-- The callback: it reads the item, which the queue frees when it returns. -/
def reads (_ : Unit) (item : QueueItem) (m : Heap × (Nat → Fate)) : Heap × (Nat → Fate) :=
  (m.1.read item.id, Function.update m.2 item.id .freed)

variable [DecidableEq ι]

/-- The client `c` in another phase. -/
def setPhase (s : QueueHolders ι) (c : ι) (p : Phase) : QueueHolders ι :=
  { s with phase := Function.update s.phase c p }

/-- The item at `i` with another fate. -/
def setFate (s : QueueHolders ι) (i : Nat) (f : Fate) : QueueHolders ι :=
  { s with fate := Function.update s.fate i f }

/-- One call. -/
def step (s : QueueHolders ι) : HolderOp ι → QueueHolders ι
  | .put ok key value =>
    match s.q with
    | none => s
    | some q =>
      let (q, (heap, fate), r) := queuePut reads ok s.next key value q (s.heap, s.fate)
      let fate := if r = 0 then Function.update fate s.next .stored else fate
      { s with q := some q, heap, fate, next := s.next + 1 }
  | .wait ok key =>
    match s.q with
    | none => s
    | some q =>
      let (q, (heap, fate), _) := queueWait reads ok key () q (s.heap, s.fate)
      { s with q := some q, heap, fate }
  | .peek c key =>
    match s.q, s.phase c with
    | some q, .idle =>
      match queuePeek key q s.heap with
      | (some item, heap) => { s with heap }.setPhase c (.peeked item.id)
      | (none, heap) => { s with heap }
    | _, _ => s
  | .lock c =>
    match s.phase c with
    | .peeked i => { s with heap := queueItemLock s.heap i }.setPhase c (.locked i)
    | _ => s
  | .read c =>
    match s.phase c with
    | .locked i => { s with heap := s.heap.read i }
    | .taken i => { s with heap := s.heap.read i }
    | _ => s
  | .unlock c =>
    match s.phase c with
    | .locked i => { s with heap := queueItemUnlock s.heap i }.setPhase c .idle
    | _ => s
  | .take c key =>
    match s.q, s.phase c with
    | some q, .idle =>
      match queueTake key q s.heap with
      | (some item, q, heap) =>
        ({ s with q := some q, heap }.setPhase c (.taken item.id)).setFate item.id .taken
      | (none, q, heap) => { s with q := some q, heap }
    | _, _ => s
  | .free c =>
    match s.phase c with
    | .taken i =>
      ({ s with heap := queueItemFree s.heap i }.setPhase c .idle).setFate i .freed
    | _ => s
  | .delete =>
    match s.q with
    | none => s
    | some q =>
      { s with
        q := none
        heap := queueFree q s.heap
        fate := fun i => if i ∈ q.items.map (·.id) then .discarded else s.fate i }

end QueueHolders

end DQ.Model
