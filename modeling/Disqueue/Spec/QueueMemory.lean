import Disqueue.Framework.Machine
import Disqueue.Model.QueueMemory

/-!
# Queues as lists, and in memory

Calls of the functions of `queue.c`, in any order and on any number of queues,
are made on queues with lists (`storeStep`) and on a memory with tail queues
(`memoryStep`). A call on a queue that was freed is none: its pointer is no
longer used. A client frees an item only if it is in no queue.
-/

namespace DQ.Spec

open DQ.Model

inductive QueueStep (α : Type)
  | new (uuid : Nat → UInt8)
  | free (q : Nat)
  | put (q : Nat) (ok : Outcome) (key : Option CStr) (value : CStr)
  | take (q : Nat) (key : Option CStr)
  | peek (q : Nat) (key : Option CStr)
  | wait (q : Nat) (ok : Outcome) (key : Option CStr) (arg : α)
  | lock (item : Nat)
  | unlock (item : Nat)
  | freeItem (item : Nat)

/-- What a call returns. -/
inductive QueueReturn
  | none
  | queue (q : Nat)
  | item (i : Option QueueItem)
  | code (c : Int)
  /-- A loop of it does not end. -/
  | endless

variable {α σ : Type}

/-- Queues with lists, by their addresses, and what is outside them. -/
structure Store (α σ : Type) where
  queues : Nat → Option (Queue α)
  heap : Heap
  env : σ
  /-- The next address. -/
  next : Nat

/-- A memory, and what is outside it. -/
structure MemoryStore (α σ : Type) where
  mem : Memory α
  env : σ
  next : Nat

/-- No queue. -/
def Store.empty (heap : Heap) (env : σ) : Store α σ := ⟨fun _ => none, heap, env, 0⟩

def Store.setQueue (q : Nat) (x : Option (Queue α)) (s : Store α σ) : Store α σ :=
  { s with queues := Function.update s.queues q x }

section
-- What calling a callback with its argument does.
variable (call : α → QueueItem → Heap × σ → Heap × σ)

/-- A callback leaves items in the queues that they are in. -/
def Calm : Prop :=
  ∀ arg i m id, ((call arg i m).1.cell id).inserted = (m.1.cell id).inserted

/-- One call. -/
def Store.op (s : Store α σ) : QueueStep α → Store α σ × QueueReturn
  | .new uuid => (s.setQueue s.next (some (queueNew s.next uuid)), .queue s.next)
  | .free q =>
    match s.queues q with
    | none => (s, .none)
    | some x => ({ s.setQueue q none with heap := queueFree x s.heap }, .none)
  | .put q ok key value =>
    match s.queues q with
    | none => (s, .none)
    | some x =>
      let (x, m, code) := queuePut call ok s.next key value x (s.heap, s.env)
      ({ s.setQueue q (some x) with heap := m.1, env := m.2 }, .code code)
  | .take q key =>
    match s.queues q with
    | none => (s, .none)
    | some x =>
      let (item, x, heap) := queueTake key x s.heap
      ({ s.setQueue q (some x) with heap }, .item item)
  | .peek q key =>
    match s.queues q with
    | none => (s, .none)
    | some x =>
      let (item, heap) := queuePeek key x s.heap
      ({ s with heap }, .item item)
  | .wait q ok key arg =>
    match s.queues q with
    | none => (s, .none)
    | some x =>
      let (x, m, code) := queueWait call ok key arg x (s.heap, s.env)
      ({ s.setQueue q (some x) with heap := m.1, env := m.2 }, .code code)
  | .lock item => ({ s with heap := queueItemLock s.heap item }, .none)
  | .unlock item => ({ s with heap := queueItemUnlock s.heap item }, .none)
  | .freeItem item =>
    if (s.heap.cell item).inserted then (s, .none)
    else ({ s with heap := queueItemFree s.heap item }, .none)

/-- One call, with a bound on its loops. -/
def MemoryStore.op (n : Nat) (s : MemoryStore α σ) : QueueStep α → MemoryStore α σ × QueueReturn
  | .new uuid => ({ s with mem := s.mem.queueNew s.next uuid }, .queue s.next)
  | .free q =>
    if s.mem.live q then
      match s.mem.queueFree n q with
      | none => (s, .endless)
      | some mem => ({ s with mem }, .none)
    else (s, .none)
  | .put q ok key value =>
    if s.mem.live q then
      match Memory.queuePut call n ok s.next key value q (s.mem, s.env) with
      | none => (s, .endless)
      | some ((mem, env), code) => ({ s with mem, env }, .code code)
    else (s, .none)
  | .take q key =>
    if s.mem.live q then
      match s.mem.queueTake n key q with
      | none => (s, .endless)
      | some (id, mem) => ({ s with mem }, .item (id.map mem.itemAt))
    else (s, .none)
  | .peek q key =>
    if s.mem.live q then
      match s.mem.queuePeek n key q with
      | none => (s, .endless)
      | some (id, mem) => ({ s with mem }, .item (id.map mem.itemAt))
    else (s, .none)
  | .wait q ok key arg =>
    if s.mem.live q then
      match Memory.queueWait call n ok key arg s.next q (s.mem, s.env) with
      | none => (s, .endless)
      | some ((mem, env), code) => ({ s with mem, env }, .code code)
    else (s, .none)
  | .lock item => ({ s with mem := s.mem.queueItemLock item }, .none)
  | .unlock item => ({ s with mem := s.mem.queueItemUnlock item }, .none)
  | .freeItem item =>
    if (s.mem.heap.cell item).inserted then (s, .none)
    else ({ s with mem := s.mem.queueItemFree item }, .none)

/-- Calls on queues with lists, with what each returns, the items and what is
outside after it. -/
def storeStep : Machine (Store α σ) (QueueStep α) (QueueReturn × Heap × σ) := fun s op =>
  let r := s.op call op
  ({ r.1 with next := s.next + 1 }, [(r.2, r.1.heap, r.1.env)])

/-- Calls on a memory. A loop is given one more iteration than there were
calls. -/
def memoryStep : Machine (MemoryStore α σ) (QueueStep α) (QueueReturn × Heap × σ) := fun s op =>
  let r := s.op call (s.next + 1) op
  ({ r.1 with next := s.next + 1 }, [(r.2, r.1.mem.heap, r.1.env)])

end

end DQ.Spec
