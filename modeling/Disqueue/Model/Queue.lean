import Mathlib.Logic.Function.Basic
import Disqueue.Framework.CStr
import Disqueue.Framework.SplitFirst
import Disqueue.Model.Call

/-!
# Queues (`queue.c`)

A queue item is designated by its address, a number that no two calls of
`calloc` share. What never changes of an item after it is built (`key`,
`value` and `owner`) is kept with its address (`QueueItem`); what changes
(`inserted`, `lockcount` and whether it was released) is in a `Heap`, so that
an item has one status however many holders it has. The heap records every
read and release of an item that was already released (`Heap.faults`).

The lists of `sys/queue.h` are lists; `TAILQ_FOREACH` up to the first match,
with the `TAILQ_REMOVE` that follows, is `splitFirst`. `size_t` counters are
integers, so that a decrement below zero is visible.
-/

namespace DQ.Model

/-- What changes of a `struct queue_item`, and how often it was released. -/
structure Cell where
  inserted : Bool := false
  lockcount : Int := 0
  released : Nat := 0
deriving DecidableEq

/-- The queue items in memory. -/
structure Heap where
  cell : Nat → Cell
  /-- The items read or released after they were released, last first. -/
  faults : List Nat

namespace Heap

/-- No item allocated. -/
def empty : Heap := ⟨fun _ => {}, []⟩

/-- Access to the item at `id`. -/
def read (h : Heap) (id : Nat) : Heap :=
  if (h.cell id).released = 0 then h else { h with faults := id :: h.faults }

/-- Access to several items, in order. -/
def readAll (h : Heap) (ids : List Nat) : Heap := ids.foldl read h

/-- `free(item)`. -/
def release (h : Heap) (id : Nat) : Heap :=
  let h := h.read id
  { h with
    cell := Function.update h.cell id { h.cell id with released := (h.cell id).released + 1 } }

/-- `calloc`: a new item at `id`. -/
def calloc (h : Heap) (id : Nat) : Heap := { h with cell := Function.update h.cell id {} }

/-- `item->inserted = b`. -/
def setInserted (h : Heap) (id : Nat) (b : Bool) : Heap :=
  let h := h.read id
  { h with cell := Function.update h.cell id { h.cell id with inserted := b } }

/-- `item->lockcount += n`. -/
def addLock (h : Heap) (id : Nat) (n : Int) : Heap :=
  let h := h.read id
  { h with
    cell := Function.update h.cell id { h.cell id with lockcount := (h.cell id).lockcount + n } }

end Heap

/-- `struct queue_item`: its address and what never changes. -/
structure QueueItem where
  id : Nat
  /-- The address of the queue it belongs to. -/
  owner : Nat
  key : Option CStr
  value : CStr
deriving DecidableEq

/-- `struct queue_callback`: the key waited on, and the callback with its
argument. -/
structure QueueCallback (α : Type) where
  key : Option CStr
  arg : α
deriving DecidableEq

/-- `struct queue`. -/
structure Queue (α : Type) where
  /-- The queue's address. -/
  addr : Nat
  uuid : Nat → UInt8
  keyedCount : Int
  keyedCallbackCount : Int
  itemCount : Int
  callbackCount : Int
  items : List QueueItem
  callbacks : List (QueueCallback α)

variable {α σ : Type}

/-- `queue_new`, once the memory and the id are there. -/
def queueNew (addr : Nat) (uuid : Nat → UInt8) : Queue α :=
  { addr, uuid, keyedCount := 0, keyedCallbackCount := 0, itemCount := 0, callbackCount := 0,
    items := [], callbacks := [] }

/-! ## Items -/

/-- `queue_item_free_`. The item's `TAILQ_REMOVE` while it is inserted is in
`queueFree`, the only caller that frees inserted items. -/
def queueItemFree_ (h : Heap) (id : Nat) : Heap := h.release id

/-- `queue_item_free`. -/
def queueItemFree (h : Heap) (id : Nat) : Heap :=
  let h := h.read id
  if (h.cell id).lockcount ≠ 0 then h else queueItemFree_ h id

/-- `queue_item_lock`. -/
def queueItemLock (h : Heap) (id : Nat) : Heap := h.addLock id 1

/-- `queue_item_unlock`. -/
def queueItemUnlock (h : Heap) (id : Nat) : Heap :=
  let h := h.addLock id (-1)
  if (h.cell id).lockcount = 0 ∧ (h.cell id).inserted = false then queueItemFree h id else h

/-- `queue_put`, up to its first label: the item, unless an allocation
fails. -/
def queuePutItem (ok : Outcome) (id owner : Nat) (key : Option CStr) (value : CStr) :
    Option QueueItem :=
  if !ok .item then none
  else if key.isSome && !ok .itemKey then none
  else if !ok .itemValue then none
  else some { id, owner, key, value }

/-! ## Callbacks -/

/-- `queue_callback_new_`: whether its allocations succeed. -/
def queueCallbackNew_ (ok : Outcome) (key : Option CStr) : Bool :=
  ok .callback && (key.isNone || ok .callbackKey)

/-- `queue_callback_free_`: `rest` is the list without the callback. -/
def queueCallbackFree_ (cb : QueueCallback α) (rest : List (QueueCallback α)) (q : Queue α) :
    Queue α :=
  let q := if cb.key.isSome then { q with keyedCallbackCount := q.keyedCallbackCount - 1 } else q
  { q with callbackCount := q.callbackCount - 1, callbacks := rest }

/-! ## Queues -/

namespace Queue

/-- The item at the tail of the list, and counted. -/
def insertItem (item : QueueItem) (q : Queue α) : Queue α :=
  { q with
    itemCount := q.itemCount + 1
    keyedCount := if item.key.isSome then q.keyedCount + 1 else q.keyedCount
    items := q.items ++ [item] }

/-- The item out of the list, which is then `rest`, and of the counts. -/
def removeItem (item : QueueItem) (rest : List QueueItem) (q : Queue α) : Queue α :=
  { q with
    items := rest
    itemCount := q.itemCount - 1
    keyedCount := if item.key.isSome then q.keyedCount - 1 else q.keyedCount }

/-- The callback at the tail of the list, and counted. -/
def insertCallback (cb : QueueCallback α) (q : Queue α) : Queue α :=
  { q with
    callbackCount := q.callbackCount + 1
    keyedCallbackCount := if cb.key.isSome then q.keyedCallbackCount + 1 else q.keyedCallbackCount
    callbacks := q.callbacks ++ [cb] }

end Queue

/-- `queue_free`: it frees the callbacks, then the items from the first on,
then the queue; the heap of items is what outlives it. -/
def queueFree (q : Queue α) (h : Heap) : Heap :=
  q.items.foldl (fun h item => queueItemFree_ h item.id) h

/-- The test of `queue_put` on a callback: it wants every item, or the item
has its key. -/
def callbackWants (key : Option CStr) (cb : QueueCallback α) : Bool :=
  match cb.key with
  | none => true
  | some k =>
    match key with
    | none => false
    | some key => strcaseEq k key

/-- The test of `queue_take` and `queue_peek` on an item. -/
def itemMatches (key : Option CStr) (item : QueueItem) : Bool :=
  match key with
  | none => true
  | some key =>
    match item.key with
    | none => false
    | some k => strcaseEq k key

/-- The callback that `queue_put` hands the item to, if any, with those before
and after it. -/
def queuePutCallback (key : Option CStr) (q : Queue α) :
    Option (List (QueueCallback α) × QueueCallback α × List (QueueCallback α)) :=
  if 0 < q.callbackCount then
    if (key.isNone && q.keyedCallbackCount != q.callbackCount) || key.isSome then
      splitFirst (callbackWants key) q.callbacks
    else none
  else none

/-- The item that `queue_take` and `queue_peek` find, with those before and
after it, and the heap after the items' keys were read. -/
def queueFind (key : Option CStr) (q : Queue α) (h : Heap) :
    Option (List QueueItem × QueueItem × List QueueItem) × Heap :=
  if q.itemCount = 0 then (none, h)
  else if key.isNone || (key.isSome && 0 < q.keyedCount) then
    match splitFirst (itemMatches key) q.items with
    | some (pre, item, post) =>
      (some (pre, item, post), h.readAll ((pre ++ [item]).map (·.id)))
    | none => (none, h.readAll (q.items.map (·.id)))
  else (none, h)

/-- `queue_take`. -/
def queueTake (key : Option CStr) (q : Queue α) (h : Heap) : Option QueueItem × Queue α × Heap :=
  match queueFind key q h with
  | (some (pre, item, post), h) =>
    (some item, q.removeItem item (pre ++ post), h.setInserted item.id false)
  | (none, h) => (none, q, h)

/-- `queue_peek`. -/
def queuePeek (key : Option CStr) (q : Queue α) (h : Heap) : Option QueueItem × Heap :=
  match queueFind key q h with
  | (some (_, item, _), h) => (some item, h)
  | (none, h) => (none, h)

section

-- What calling a callback with its argument does to the heap and to the state
-- outside the queue.
variable (call : α → QueueItem → Heap × σ → Heap × σ)

/-- `queue_put` with the item at `id`: -1 on failure, 0 if the item was stored
and 1 if it was handed to a callback. -/
def queuePut (ok : Outcome) (id : Nat) (key : Option CStr) (value : CStr) (q : Queue α)
    (m : Heap × σ) : Queue α × (Heap × σ) × Int :=
  match queuePutItem ok id q.addr key value with
  | none => (q, m, -1)
  | some item =>
    let m := (m.1.calloc id, m.2)
    match queuePutCallback key q with
    | some (pre, cb, post) =>
      let q := queueCallbackFree_ cb (pre ++ post) q
      let m := call cb.arg item m
      (q, (queueItemFree m.1 id, m.2), 1)
    | none => (q.insertItem item, (m.1.setInserted id true, m.2), 0)

/-- `queue_wait`: -1 on failure, 0 if the callback waits and 1 if it was
called. -/
def queueWait (ok : Outcome) (key : Option CStr) (arg : α) (q : Queue α) (m : Heap × σ) :
    Queue α × (Heap × σ) × Int :=
  match queueTake key q m.1 with
  | (some item, q, h) =>
    let m := call arg item (h, m.2)
    (q, (queueItemFree m.1 item.id, m.2), 1)
  | (none, q, h) =>
    if queueCallbackNew_ ok key then (q.insertCallback ⟨key, arg⟩, (h, m.2), 0)
    else (q, (h, m.2), -1)

end

end DQ.Model
