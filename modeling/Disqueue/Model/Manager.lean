import Disqueue.Model.Protocol
import Disqueue.Model.Uuid

/-!
# The manager's queues and wants (`manager.c`)

A `struct manager_queue` and the queue it holds are made and freed together,
and are designated by one address. Looking a queue up gives it with the queues
before and after it in the registry (`Found`), so that a caller that changes
the queue puts the registry together again.
-/

namespace DQ.Model

/-- `struct manager_queue_want`. -/
structure Want where
  /-- The want's address. -/
  id : Nat
  identifier : CStr
  cancelled : Bool
  /-- The address of the queue waited on. -/
  queue : Nat
  /-- The connection. -/
  client : Nat
deriving DecidableEq

/-- `struct manager_queue`: the id in the registry, and the queue. The
argument of its callbacks is a want's address. -/
structure ManagerQueue where
  id : CStr
  q : Queue Nat

/-- A queue, with those before and after it in the registry. -/
structure Found where
  pre : List ManagerQueue
  mq : ManagerQueue
  post : List ManagerQueue

namespace Found

/-- The registry it was found in. -/
def registry (f : Found) : List ManagerQueue := f.pre ++ f.mq :: f.post

/-- The registry with the queue's lists and counters replaced. -/
def set (f : Found) (q : Queue Nat) : List ManagerQueue := f.pre ++ { f.mq with q } :: f.post

/-- `manager_queue_free`, for the registry. -/
def free (f : Found) : List ManagerQueue := f.pre ++ f.post

end Found

/-! ## Queues -/

/-- The scan of the registry in `manager_queue_get`. -/
def managerQueueFind (name : CStr) (queues : List ManagerQueue) : Option Found :=
  (splitFirst (fun m => strcaseEq m.id name) queues).map fun (pre, mq, post) => ⟨pre, mq, post⟩

/-- What `manager_queue_get` needs to make a queue: the outcomes of its
allocations, the address of what it makes, the random bytes and the contents
of its stack. -/
structure QueueSupply where
  ok : Outcome
  addr : Nat
  rand : Bytes
  stack : Bytes

/-- The supply of a call that makes no queue. -/
def QueueSupply.unused (ok : Outcome) (addr : Nat) : QueueSupply := ⟨ok, addr, fun _ => 0, fun _ => 0⟩

/-- The end of `manager_queue_get`: a new queue at the end of the registry,
with the id given or a random one. -/
def managerQueueNew (dm : DataModel) (e : QueueSupply) (uuid : Option Bytes)
    (queues : List ManagerQueue) : Option Found :=
  if !e.ok .managerQueue then none
  else if !e.ok .queue then none
  else
    match uuid with
    | some u => some ⟨queues, ⟨queueGetUuid dm u, queueNew e.addr u⟩, []⟩
    | none =>
      if !e.ok .randBytes then none
      else some ⟨queues, ⟨queueGetUuid dm (randomUuid e.rand), queueNew e.addr (randomUuid e.rand)⟩, []⟩

/-- `manager_queue_get`: the queue found or made. `QUEUE_UUID_STR_LEN` is
36. -/
def managerQueueGet (dm : DataModel) (e : QueueSupply) (name : Option CStr) (createNew : Bool)
    (queues : List ManagerQueue) : Option Found :=
  match name with
  | some name =>
    if name.length ≠ 36 then none
    else
      match managerQueueFind name queues with
      | some f => some f
      | none =>
        if !createNew then none
        else
          match parseUuid dm e.stack name with
          | none => none
          | some u => managerQueueNew dm e (some u) queues
  | none => if !createNew then none else managerQueueNew dm e none queues

/-! ## Wants -/

/-- `manager_queue_want_new`: the want, unless an allocation fails. -/
def managerQueueWantNew (ok : Outcome) (id : Nat) (identifier : CStr) (client queue : Nat) :
    Option Want :=
  if !ok .want then none
  else if !ok .wantIdentifier then none
  else some { id, identifier, cancelled := false, queue, client }

/-- `manager_queue_want_free`, for the want at `id`. -/
def managerQueueWantFree (id : Nat) (wants : List Want) : List Want :=
  wants.filter fun w => w.id != id

/-- `manager_queue_want_remove`. -/
def managerQueueWantRemove (queue : Nat) (wants : List Want) : List Want :=
  wants.map fun w => if w.queue = queue then { w with cancelled := true } else w

/-- `manager_queue_want_close`. -/
def managerQueueWantClose (client : Nat) (wants : List Want) : List Want :=
  wants.map fun w => if w.client = client then { w with cancelled := true } else w

end DQ.Model
