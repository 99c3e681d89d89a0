import Disqueue.Model.Server
import Disqueue.Spec.Queue

/-!
# What a log says about items and wants

The requests and messages that came in a run (`arrivals`), and the items carried
and the wants answered in the log of what the server did; what it means that
every delivery answers one request with one item (`DeliveredOnce`), and that an
item is in exactly one place (`places`).

A request or message has the number that the server gives it. A queue is told
apart by its address, also from one that was made under the same id
(`TellsQueues`).
-/

namespace DQ.Spec

open DQ.Model

/-- The item carried by a success message of a want or a success reply of a
take. -/
def carriedId : Event → Option Nat
  | .message _ ⟨true, _, some (.answer _ _ i)⟩ _ => some i.id
  | .reply _ .take _ ⟨true, _, some (.item i)⟩ => some i.id
  | _ => none

/-- The want that a success message answers. -/
def answeredId : Event → Option Nat
  | .message _ ⟨true, _, some (.answer w _ _)⟩ _ => some w
  | _ => none

/-! ## What came -/

/-- A request, or a message on a connection, with the server as it was then. -/
inductive Arrival
  | request (s : Server) (r : Request)
  | message (s : Server) (c : Nat) (m : Message)

def Arrival.server : Arrival → Server
  | .request s _ => s
  | .message s _ _ => s

/-- The number that the server gives it. -/
def Arrival.number (a : Arrival) : Nat := a.server.next

section
variable (dm : DataModel)

/-- The messages of a read on the connection `c`. -/
def messageArrivals (c : Nat) : Server → List Message → List Arrival
  | _, [] => []
  | s, m :: ms => .message s c m :: messageArrivals c (evwsWslayOnMsgCallback_ dm c s m) ms

/-- What comes with an input. Nothing is read from a connection that is gone or
closing. -/
def arrivalsOf (s : Server) : Input → List Arrival
  | .http r => [.request s r]
  | .read c msgs _ _ =>
    if (s.net.conn c).alive && !(s.net.conn c).closing then messageArrivals dm c s msgs else []
  | _ => []

/-- What comes in a run. -/
def arrivals : Server → List Input → List Arrival
  | _, [] => []
  | s, i :: is => arrivalsOf dm s i ++ arrivals (s.step dm i) is

end

/-- The queue with the name, ignoring case. -/
def addressOf (name : CStr) (s : Server) : Option Nat :=
  (s.queues.find? fun m => strcaseEq m.id name).map (·.q.addr)

/-- The ids and addresses of the queues. -/
def namedQueues (s : Server) : List (CStr × Nat) := s.queues.map fun m => (m.id, m.q.addr)

/-- An address is of one queue: of one id, and registered all the time between. -/
structure TellsQueues (came : List Arrival) : Prop where
  differ : ∀ a ∈ came, ((namedQueues a.server).map (·.2)).Nodup
  same : ∀ a b, [a, b].Sublist came → ∀ k ∈ namedQueues a.server, ∀ k' ∈ namedQueues b.server,
    k.2 = k'.2 → k = k'
  lasts : ∀ a b c, [a, b, c].Sublist came → ∀ k ∈ namedQueues a.server,
    k ∈ namedQueues c.server → k ∈ namedQueues b.server

/-- The parameter with the name. -/
def parameter (r : Request) (name : String) : Option CStr :=
  (r.params.find? fun p => strcaseEq p.1 name.toList).map (·.2)

section
variable (came : List Arrival) (before : List Event)

/-- The message `w` came on the connection `c` before the end of the events. It
asks with the identifier for an item with the key, of the queue at `q`. -/
def WantCame (c w : Nat) (identifier : CStr) (q : Nat) (key : Option CStr) : Prop :=
  ∃ s m name, .message s c m ∈ came ∧ s.next = w ∧ s.net.log <+: before ∧
    (m.opcode = 1 ∨ m.opcode = 2) ∧ m.text = some ⟨some identifier, some name, key⟩ ∧
    addressOf name s = some q

/-- The request that puts the item into the queue at `q` came before the end of
the events. -/
def PutCame (i : QueueItem) (q : Nat) : Prop :=
  ∃ s r name, .request s r ∈ came ∧ s.next = i.id ∧ s.net.log <+: before ∧ r.path = .put ∧
    parameter r "name" = some name ∧ addressOf name s = some q ∧
    parameter r "value" = some i.value ∧ parameter r "key" = i.key

/-- A message on `c` with the body answers a want message that came on `c`, with
its identifier, and carries an item that was put into the queue it is for and
that its key wants. -/
def AnswersWant (c : Nat) (b : Body) : Prop :=
  ∃ w identifier i q key, b.payload = some (.answer w identifier i) ∧
    WantCame came before c w identifier q key ∧ PutCame came before i q ∧
    keyWants key i.key = true

/-- A reply with the body to the request `rid` answers a take, and carries an
item that was put into its queue and that its key wants. -/
def AnswersTake (rid : Nat) (b : Body) : Prop :=
  ∃ s r name i q, .request s r ∈ came ∧ s.next = rid ∧ r.path = .take ∧
    b.payload = some (.item i) ∧ parameter r "name" = some name ∧ addressOf name s = some q ∧
    PutCame came before i q ∧ keyWants (parameter r "key") i.key = true

end

/-- Every success message answers a want message with an item, and every success
reply of a take carries one, both of which came before; no want message is
answered twice and no item is carried twice. -/
structure DeliveredOnce (came : List Arrival) (log : List Event) : Prop where
  /-- What came is told apart by its number. -/
  numbers : (came.map Arrival.number).Nodup
  queues : TellsQueues came
  /-- The replies to takes are those to the requests with that path. -/
  replies : ∀ rid e code b, .reply rid e code b ∈ log →
    ∃ s r, .request s r ∈ came ∧ s.next = rid ∧ (e = .take ↔ r.path = .take)
  messages : ∀ pre post c b sent, log = pre ++ .message c b sent :: post → b.success = true →
    AnswersWant came pre c b
  takes : ∀ pre post rid code b, log = pre ++ .reply rid .take code b :: post →
    b.success = true → AnswersTake came pre rid b
  answers : (log.filterMap answeredId).Nodup
  items : (log.filterMap carriedId).Nodup

/-! ## Where items are -/

/-- Where an item that has left its queue is: in a success message that was
sent on an active connection, in a success reply of a take, or discarded with
its queue. -/
def placeId : Event → Option Nat
  | .message _ ⟨true, _, some (.answer _ _ i)⟩ true => some i.id
  | .reply _ .take _ ⟨true, _, some (.item i)⟩ => some i.id
  | .discard i => some i.id
  | _ => none

/-- How many times an item is stored. -/
def storedCount (id : Nat) (s : Server) : Nat :=
  (s.queues.flatMap fun m => m.q.items.map (·.id)).count id

/-- In how many places an item is. -/
def places (id : Nat) (s : Server) : Nat :=
  storedCount id s + (s.net.log.filterMap placeId).count id

/-- Every item whose put got a success reply is in exactly one place. -/
def NoneLost (s : Server) : Prop :=
  ∀ rid code b, Event.reply rid .put code b ∈ s.net.log → b.success = true → places rid s = 1

end DQ.Spec
