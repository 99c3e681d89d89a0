import Disqueue.Spec.Conditions
import Disqueue.Spec.Replies
import Disqueue.Spec.WsEnd

/-!
# Wants and the callbacks of queues

A client that waits is a want in the manager's list and a callback in a queue,
whose argument is the want (`Paired`): both until the want is given an item,
its queue is freed or its connection ends (`WantsPaired`). `PairsKept` is the
condition on a call by the event loop that it ends nothing that is waited on.
-/

namespace DQ.Spec

open DQ.Model

/-- The arguments of the registered callbacks, with the addresses of their
queues. -/
def waiters (s : Server) : List (Nat × Nat) :=
  s.queues.flatMap fun m => m.q.callbacks.map fun cb => (m.q.addr, cb.arg)

/-- The close or the error callback of the connection has been called. -/
def ended (c : Nat) (n : Net) : Bool := n.log.any (reportsEnd c)

/-- No want is of the connection. -/
def NoWant (c : Nat) (wants : List Want) : Prop := ∀ w ∈ wants, w.client ≠ c

/-- Wants and callbacks correspond. -/
structure Paired (s : Server) : Prop where
  /-- A want is the argument of one callback, in the queue that it names. -/
  want : ∀ w ∈ s.net.wants, (waiters s).filter (·.2 == w.id) = [(w.queue, w.id)] ∧
    ∃ m ∈ s.queues, m.q.addr = w.queue
  callback : ∀ p ∈ waiters s, ∃ w ∈ s.net.wants, w.id = p.2
  ended : ∀ c, ended c s.net = true → NoWant c s.net.wants

/-- The connection ends if a message is sent on it. -/
def endsBySend (e : Wslay) (x : Connection) : Bool := x.alive && x.active && failsToSend e

section
variable (dm : DataModel)

/-- The queue that a request frees. -/
def freedQueue (r : Request) (s : Server) : Option Found :=
  if asksDelete r || (asksNew r && !r.ok .name) then requested dm r true s else none

/-- In every state of the run wants and callbacks correspond, and after a
request that frees a queue none is left of that queue. -/
structure WantsPaired (is : List Input) : Prop where
  paired : ∀ js, js <+: is → Paired (run (Server.step dm) .startup js)
  freed : ∀ js r ks f, js ++ .http r :: ks <+: is →
    freedQueue dm r (run (Server.step dm) .startup js) = some f →
    (∀ w ∈ (run (Server.step dm) .startup (js ++ .http r :: ks)).net.wants,
      w.queue ≠ f.mq.q.addr) ∧
    ∀ p ∈ waiters (run (Server.step dm) .startup (js ++ .http r :: ks)), p.1 ≠ f.mq.q.addr

/-- The want that a put gives its item to. -/
def putWant (r : Request) (s : Server) : Option Want :=
  match putReached dm r s with
  | some (f, item) =>
    (queuePutCallback item.key f.mq.q).bind fun (_, cb, _) =>
      s.net.wants.find? (·.id == cb.arg)
  | none => none

/-- A message leaves a want that waits. -/
def messageWaits (c : Nat) (s : Server) (m : Message) : Bool :=
  isData m &&
    match wantReached dm m c s with
    | some (_, f, key) =>
      (queueTake key f.mq.q s.heap).1.isNone && queueCallbackNew_ m.env.ok key
    | none => false

/-- A message that leaves a want is received while the connection is active,
and one whose answer ends the connection finds it without a want. -/
def MessageKeeps (c : Nat) (s : Server) (m : Message) : Prop :=
  if messageWaits dm c s m then (s.net.conn c).active = true
  else isData m = true → endsBySend m.env.wslay (s.net.conn c) = true → NoWant c s.net.wants

/-- A queue that is freed has no callback, and a connection whose end is
reported has no want, but the one that is given the item whose message ends
it. -/
def PairsKept (s : Server) : Input → Prop
  | .http r =>
    (∀ f ∈ freedQueue dm r s, f.mq.q.callbacks = []) ∧
      (r.path = .put → ∀ w ∈ putWant dm r s,
        endsBySend r.answer.wslay (s.net.conn w.client) = true →
          ∀ w' ∈ s.net.wants, w'.client = w.client → w'.id = w.id)
  | .opened => True
  | .read c msgs recv e =>
    ReadMeets dm (MessageKeeps dm) c msgs s ∧
      ((recv < 0 ∨ e.sendFails = true) →
        (s.net.conn c).alive = true → (s.net.conn c).closing = false → NoWant c s.net.wants ∧
          Meets (evwsWslayOnMsgCallback_ dm c) (fun s m => messageWaits dm c s m = false) s msgs)
  | .drained c =>
    (s.net.conn c).alive = true → (s.net.conn c).closing = true → NoWant c s.net.wants
  | .event c eof error e =>
    (s.net.conn c).alive = true → reports e (s.net.conn c) eof error = true →
      NoWant c s.net.wants

end

end DQ.Spec
