import Disqueue.Model.Queue

/-!
# A queue and its callers

Any sequence of calls of `queue_put`, `queue_take`, `queue_peek` and
`queue_wait` on one queue, with the outcomes of their allocations. The `n`-th
call names what it makes: the item it puts is at address `n`, and the callback
it registers has the argument it was given paired with `n`. The callbacks do
what `call` says to the heap and to the callers' state; that a callback was
called, with its argument and the item, is recorded.
-/

namespace DQ.Model

variable {β σ : Type}

/-- A call on a queue. -/
inductive QueueOp (β : Type)
  | put (ok : Outcome) (key : Option CStr) (value : CStr)
  | take (key : Option CStr)
  | peek (key : Option CStr)
  | wait (ok : Outcome) (key : Option CStr) (arg : β)

/-- What a call returned. -/
inductive QueueResult
  | code (r : Int)
  | item (i : Option QueueItem)
deriving DecidableEq

/-- The calls of callbacks: the argument and the item of each. -/
abbrev Handed (β : Type) := List ((β × Nat) × QueueItem)

/-- A queue, the heap, the callers' state, and what has happened. -/
structure QueueClient (β σ : Type) where
  q : Queue (β × Nat)
  heap : Heap
  user : σ
  /-- The number of calls made. -/
  calls : Nat
  results : List QueueResult
  handed : Handed β
  /-- The items put, and those that left, by a take or by a callback. -/
  entered : List QueueItem
  left : List QueueItem
  /-- The callbacks given to `queue_wait`, and the arguments of those called. -/
  asked : List (QueueCallback (β × Nat))
  served : List (β × Nat)

namespace QueueClient

/-- A new queue. -/
def new (addr : Nat) (uuid : Nat → UInt8) (heap : Heap) (user : σ) : QueueClient β σ :=
  { q := queueNew addr uuid, heap, user, calls := 0, results := [], handed := [], entered := [],
    left := [], asked := [], served := [] }

/-- A callback, and the record that it was called. -/
def recorded (call : β → QueueItem → Heap × σ → Heap × σ) (a : β × Nat) (item : QueueItem)
    (m : Heap × (σ × Handed β)) : Heap × (σ × Handed β) :=
  let (heap, user) := call a.1 item (m.1, m.2.1)
  (heap, (user, m.2.2 ++ [(a, item)]))

/-- One call. -/
def step (call : β → QueueItem → Heap × σ → Heap × σ) (c : QueueClient β σ) :
    QueueOp β → QueueClient β σ
  | .put ok key value =>
    let (q, (heap, (user, handed)), r) :=
      queuePut (recorded call) ok c.calls key value c.q (c.heap, (c.user, []))
    { q, heap, user
      calls := c.calls + 1
      results := c.results ++ [.code r]
      handed := c.handed ++ handed
      entered := if 0 ≤ r then c.entered ++ [⟨c.calls, c.q.addr, key, value⟩] else c.entered
      left := c.left ++ handed.map (·.2)
      asked := c.asked
      served := c.served ++ handed.map (·.1) }
  | .take key =>
    let (item, q, heap) := queueTake key c.q c.heap
    { c with
      q, heap
      calls := c.calls + 1
      results := c.results ++ [.item item]
      left := c.left ++ item.toList }
  | .peek key =>
    let (item, heap) := queuePeek key c.q c.heap
    { c with heap, calls := c.calls + 1, results := c.results ++ [.item item] }
  | .wait ok key arg =>
    let (q, (heap, (user, handed)), r) :=
      queueWait (recorded call) ok key (arg, c.calls) c.q (c.heap, (c.user, []))
    { q, heap, user
      calls := c.calls + 1
      results := c.results ++ [.code r]
      handed := c.handed ++ handed
      entered := c.entered
      left := c.left ++ handed.map (·.2)
      asked := if 0 ≤ r then c.asked ++ [⟨key, (arg, c.calls)⟩] else c.asked
      served := c.served ++ handed.map (·.1) }

end QueueClient

end DQ.Model
