import Disqueue.Framework.Loop
import Disqueue.Framework.TailQueue
import Disqueue.Model.Queue

/-!
# Queues in memory (`queue.c`, `queue-internal.h`)

The functions of `queue.c` on the structures that it allocates, with the
pointers of its tail queues: a queue, an item and a callback are addresses, and
each has its members in a `Memory`. A loop over a list or until it is empty ends
within the bound or has no result. The functions under the same names in
`DQ.Model` have lists instead.

An address is not used for a second item or callback, and what was released
keeps its members: an item that is used after its release is found as it was,
and the use is only recorded, in the `faults` of the heap.
-/

namespace DQ.Model

/-- `struct queue_item`: what never changes of it. -/
structure ItemMembers where
  key : Option CStr
  value : CStr
  owner : Nat

/-- `struct queue_callback`. -/
structure CallbackMembers (α : Type) where
  key : Option CStr
  arg : α
  owner : Nat

/-- `struct queue`. -/
structure QueueMembers where
  uuid : Nat → UInt8
  keyedCount : Int
  keyedCallbackCount : Int
  itemCount : Int
  callbackCount : Int

structure Memory (α : Type) where
  heap : Heap
  item : Nat → ItemMembers
  callback : Nat → CallbackMembers α
  queue : Nat → QueueMembers
  /-- The queues that are allocated. -/
  live : Nat → Bool
  items : Links Nat Nat
  callbacks : Links Nat Nat

namespace Memory

variable {α σ : Type}

/-- The item at an address. -/
def itemAt (m : Memory α) (id : Nat) : QueueItem :=
  ⟨id, (m.item id).owner, (m.item id).key, (m.item id).value⟩

def callbackAt (m : Memory α) (id : Nat) : QueueCallback α :=
  ⟨(m.callback id).key, (m.callback id).arg⟩

def setQueue (q : Nat) (d : QueueMembers) (m : Memory α) : Memory α :=
  { m with queue := Function.update m.queue q d }

/-- `queue_new`, once the memory at `id` is there. -/
def queueNew (id : Nat) (uuid : Nat → UInt8) (m : Memory α) : Memory α :=
  { m.setQueue id ⟨uuid, 0, 0, 0, 0⟩ with
    live := Function.update m.live id true
    items := m.items.init id
    callbacks := m.callbacks.init id }

/-! ## Items -/

/-- `queue_item_free_`. -/
def queueItemFree_ (id : Nat) (m : Memory α) : Memory α :=
  let m :=
    if (m.heap.cell id).inserted then { m with items := m.items.remove (m.item id).owner id }
    else m
  { m with heap := m.heap.release id }

/-- `queue_item_free`. -/
def queueItemFree (id : Nat) (m : Memory α) : Memory α :=
  let m := { m with heap := m.heap.read id }
  if (m.heap.cell id).lockcount ≠ 0 then m else queueItemFree_ id m

/-- `queue_item_lock`. -/
def queueItemLock (id : Nat) (m : Memory α) : Memory α := { m with heap := m.heap.addLock id 1 }

/-- `queue_item_unlock`. -/
def queueItemUnlock (id : Nat) (m : Memory α) : Memory α :=
  let m := { m with heap := m.heap.addLock id (-1) }
  if (m.heap.cell id).lockcount = 0 ∧ (m.heap.cell id).inserted = false then queueItemFree id m
  else m

/-! ## Callbacks -/

/-- `queue_callback_free_`. -/
def queueCallbackFree_ (id : Nat) (m : Memory α) : Memory α :=
  let cb := m.callback id
  let d := m.queue cb.owner
  let d := if cb.key.isSome then { d with keyedCallbackCount := d.keyedCallbackCount - 1 } else d
  { m.setQueue cb.owner { d with callbackCount := d.callbackCount - 1 } with
    callbacks := m.callbacks.remove cb.owner id }

/-! ## Queues -/

/-- `queue_free`. -/
def queueFree (n q : Nat) (m : Memory α) : Option (Memory α) := do
  let m ← drain (fun m => m.callbacks.get (.first q)) (fun _ id m => some (queueCallbackFree_ id m))
    n m
  let m ← drain (fun m => m.items.get (.first q)) (fun _ id m => some (queueItemFree_ id m)) n m
  return { m with live := Function.update m.live q false }

/-- The item that `queue_take` and `queue_peek` find, and the memory after the
items' keys were read. -/
def queueFind (n : Nat) (key : Option CStr) (q : Nat) (m : Memory α) :
    Option (Option Nat × Memory α) :=
  if (m.queue q).itemCount = 0 then some (none, m)
  else if key.isNone || (key.isSome && 0 < (m.queue q).keyedCount) then
    (m.items.walk (fun id => itemMatches key (itemAt m id)) n (m.items.get (.first q))).map
      fun (seen, found) => (found, { m with heap := m.heap.readAll (seen ++ found.toList) })
  else some (none, m)

/-- `queue_take`. -/
def queueTake (n : Nat) (key : Option CStr) (q : Nat) (m : Memory α) :
    Option (Option Nat × Memory α) :=
  (queueFind n key q m).map fun
    | (some id, m) =>
      let d := m.queue q
      (some id,
        { m.setQueue q
            { d with
              itemCount := d.itemCount - 1
              keyedCount := if (m.item id).key.isSome then d.keyedCount - 1 else d.keyedCount } with
          items := m.items.remove q id
          heap := m.heap.setInserted id false })
    | (none, m) => (none, m)

/-- `queue_peek`. -/
def queuePeek (n : Nat) (key : Option CStr) (q : Nat) (m : Memory α) :
    Option (Option Nat × Memory α) :=
  queueFind n key q m

section

-- What calling a callback with its argument does to the heap and to the state
-- outside the queues.
variable (call : α → QueueItem → Heap × σ → Heap × σ)

/-- The call of a callback with the item. -/
def called (arg : α) (id : Nat) (m : Memory α × σ) : Memory α × σ :=
  let r := call arg (itemAt m.1 id) (m.1.heap, m.2)
  ({ m.1 with heap := r.1 }, r.2)

/-- The callback that `queue_put` hands the item to, if any. -/
def queuePutCallback (n : Nat) (key : Option CStr) (q : Nat) (m : Memory α) : Option (Option Nat) :=
  if 0 < (m.queue q).callbackCount then
    if (key.isNone && (m.queue q).keyedCallbackCount != (m.queue q).callbackCount) || key.isSome then
      (m.callbacks.walk (fun id => callbackWants key (callbackAt m id)) n
        (m.callbacks.get (.first q))).map (·.2)
    else some none
  else some none

/-- `queue_put`, with the item at `id`. -/
def queuePut (n : Nat) (ok : Outcome) (id : Nat) (key : Option CStr) (value : CStr) (q : Nat)
    (m : Memory α × σ) : Option ((Memory α × σ) × Int) :=
  match queuePutItem ok id q key value with
  | none => some (m, -1)
  | some item =>
    let mem :=
      { m.1 with
        heap := m.1.heap.calloc id
        item := Function.update m.1.item id ⟨item.key, item.value, item.owner⟩ }
    (queuePutCallback n key q mem).map fun
      | some cb =>
        let arg := (mem.callback cb).arg
        let m := called call arg id (queueCallbackFree_ cb mem, m.2)
        ((queueItemFree id m.1, m.2), 1)
      | none =>
        let d := mem.queue q
        (({ mem.setQueue q
              { d with
                itemCount := d.itemCount + 1
                keyedCount := if key.isSome then d.keyedCount + 1 else d.keyedCount } with
            heap := mem.heap.setInserted id true
            items := mem.items.insertTail q id }, m.2), 0)

/-- `queue_wait`, with the callback at `id`. -/
def queueWait (n : Nat) (ok : Outcome) (key : Option CStr) (arg : α) (id q : Nat)
    (m : Memory α × σ) : Option ((Memory α × σ) × Int) :=
  (queueTake n key q m.1).map fun
    | (some item, mem) =>
      let m := called call arg item (mem, m.2)
      ((queueItemFree item m.1, m.2), 1)
    | (none, mem) =>
      if queueCallbackNew_ ok key then
        let d := mem.queue q
        (({ mem.setQueue q
              { d with
                callbackCount := d.callbackCount + 1
                keyedCallbackCount :=
                  if key.isSome then d.keyedCallbackCount + 1 else d.keyedCallbackCount } with
            callback := Function.update mem.callback id ⟨key, arg, q⟩
            callbacks := mem.callbacks.insertTail q id }, m.2), 0)
      else ((mem, m.2), -1)

end

end Memory

end DQ.Model
