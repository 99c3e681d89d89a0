import Disqueue.Framework.Machine
import Disqueue.Framework.Rendezvous
import Disqueue.Model.Server
import Disqueue.Model.Wire
import Disqueue.Spec.Queue

/-!
# What the server is for

The server as its users see it. It has rooms, in the order they were made, each
a name and a rendezvous of entries (a value with an optional key) and waiters
(a client, the identifier it gave and an optional key); and links to clients.
There are no addresses, counters, locks, wants or cancellations. A step takes a
`ServiceCall`, which is an `Input` of the server with its parameters read, and gives
what is sent. `callOf` reads the parameters of an input.

An entry given to a waiter whose link is no longer active is lost: the message
is not sent, and nothing tells the client that put it. The ids of the queues that
requests make are the server's own (`newId`).
-/

namespace DQ.Spec

open DQ.Model

structure Entry where
  key : Option CStr
  value : CStr

structure Waiter where
  client : Nat
  identifier : CStr
  key : Option CStr

/-- A queue, by its name. -/
structure Room where
  name : CStr
  line : Rendezvous Entry Waiter

/-- A link to a client. One that is not active takes no message, and one that
is closing gives none. -/
structure Link where
  active : Bool
  closing : Bool

structure Service where
  rooms : List Room
  link : Nat → Option Link
  /-- The number of the next request, message or link. -/
  next : Nat

/-- Whether a filter wants an entry. -/
def entryWants (f : Option CStr) (x : Entry) : Bool := keyWants f x.key

def Entry.json (x : Entry) : Json := entryJson x.key x.value

/-- What becomes of a link when something is sent on it: the link and what was
sent are lost, or it was sent and the link is closing, or it was sent. -/
inductive LinkFate
  | lost | closing | kept
deriving DecidableEq

/-- A request. A queue that a request makes gets the id `made`, if it can be
made. -/
inductive Ask
  | list
  | create (name made : Option CStr)
  | info (name : Option CStr)
  | delete (name made : Option CStr)
  | take (name key : Option CStr)
  | peek (name key : Option CStr)
  | put (name key value : Option CStr) (fate : LinkFate)
  | unsupported

/-- A message on a link, with the want in it, if it can be read. -/
inductive Note
  | control
  | data (want : Option WantRequest) (fate : LinkFate)

inductive ServiceCall
  | ask (a : Ask)
  | opened
  /-- Messages, and what becomes of the link after them. -/
  | notes (c : Nat) (ns : List Note) (fate : LinkFate)
  | drained (c : Nat)
  | ended (c : Nat)

namespace Service

/-- No room, no link. -/
def empty : Service := ⟨[], fun _ => none, 0⟩

def setLink (c : Nat) (l : Option Link) (t : Service) : Service :=
  { t with link := Function.update t.link c l }

/-- A message to a client. -/
def send (c : Nat) (fate : LinkFate) (json : Json) (t : Service) : Service × List Sent :=
  match t.link c with
  | some l =>
    if l.active then
      match fate with
      | .lost => (t.setLink c (some { l with active := false }), [])
      | .closing => (t.setLink c (some { l with closing := true }), [.message c json])
      | .kept => (t, [.message c json])
    else (t, [])
  | none => (t, [])

/-- A room, with those before and after it. -/
structure Place where
  pre : List Room
  room : Room
  post : List Room

/-- The rooms with the room's entries and waiters replaced. -/
def Place.set (p : Place) (line : Rendezvous Entry Waiter) : List Room :=
  p.pre ++ { p.room with line } :: p.post

/-- The rooms without the room. -/
def Place.free (p : Place) : List Room := p.pre ++ p.post

/-- The room with the name, or a new one if `makes` says that one may be made,
and with which id. -/
def lookup (name : Option CStr) (makes : Option (Option CStr)) (rooms : List Room) :
    Except (Nat × Failure) Place :=
  if name.any (·.length != 36) then .error (400, .invalidQueueId)
  else
    match name.bind fun n => splitFirst (fun room : Room => strcaseEq room.name n) rooms with
    | some (pre, room, post) => .ok ⟨pre, room, post⟩
    | none =>
      match makes with
      | none => .error (404, .noQueue)
      | some none => .error (500, .createQueue)
      | some (some id) => .ok ⟨rooms, ⟨id, ⟨[], []⟩⟩, []⟩

/-- The reply to a request that fails. -/
def refuse (code : Nat) (f : Failure) : List Sent := [.reply code (failureJson f)]

/-- The reply to a request that succeeds. -/
def grant (payload : Option Json) : List Sent := [.reply 200 (successJson payload)]

/-- One request. -/
def ask (t : Service) : Ask → Service × List Sent
  | .list => (t, grant (some (namesJson (t.rooms.map (·.name)))))
  | .create name made =>
    match lookup name (some made) t.rooms with
    | .error (code, f) => (t, refuse code f)
    | .ok p => ({ t with rooms := p.set p.room.line }, grant (some (.string p.room.name)))
  | .info name =>
    match lookup name none t.rooms with
    | .error (code, f) => (t, refuse code f)
    | .ok p => (t, grant (some (infoJson p.room.name)))
  | .delete name made =>
    match lookup name (some made) t.rooms with
    | .error (code, f) => (t, refuse code f)
    | .ok p => ({ t with rooms := p.free }, grant none)
  | .take name key =>
    match lookup name none t.rooms with
    | .error (code, f) => (t, refuse code f)
    | .ok p =>
      match p.room.line.take entryWants key with
      | (_, none) => (t, refuse 404 .noItemToTake)
      | (line, some x) => ({ t with rooms := p.set line }, grant (some x.json))
  | .peek name key =>
    match lookup name none t.rooms with
    | .error (code, f) => (t, refuse code f)
    | .ok p =>
      match p.room.line.peek entryWants key with
      | none => (t, refuse 404 .noItemToPeek)
      | some x => (t, grant (some x.json))
  | .put name key value fate =>
    match lookup name none t.rooms with
    | .error (code, f) => (t, refuse code f)
    | .ok p =>
      match value with
      | none => (t, refuse 400 .missingValue)
      | some value =>
        match p.room.line.put entryWants Waiter.key ⟨key, value⟩ with
        | (line, none) => ({ t with rooms := p.set line }, grant none)
        | (line, some w) =>
          let (t, sent) :=
            send w.client fate (successJson (some (answerJson w.identifier (entryJson key value))))
              { t with rooms := p.set line }
          (t, sent ++ grant none)
  | .unsupported => (t, refuse 405 .methodNotSupported)

/-- The failure of a want message, or the identifier, the room and the key. -/
def wanted (want : Option WantRequest) (rooms : List Room) :
    Except Failure (CStr × Place × Option CStr) :=
  match want with
  | none => .error .readMessage
  | some w =>
    match w.identifier with
    | none => .error .noIdentifier
    | some identifier =>
      match w.queue with
      | none => .error .noQueueFound
      | some name =>
        match lookup (some name) none rooms with
        | .error _ => .error .noQueueFound
        | .ok p => .ok (identifier, p, w.key)

/-- One message of the client `c`. -/
def note (c : Nat) (t : Service) : Note → Service × List Sent
  | .control => (t, [])
  | .data want fate =>
    match wanted want t.rooms with
    | .error f => send c fate (failureJson f) t
    | .ok (identifier, p, key) =>
      match p.room.line.wait entryWants Waiter.key ⟨c, identifier, key⟩ with
      | (line, none) => ({ t with rooms := p.set line }, [])
      | (line, some x) =>
        send c fate (successJson (some (answerJson identifier x.json)))
          { t with rooms := p.set line }

/-- One message of the client `c`, which is given a number. -/
def noteStep (c : Nat) : Machine Service Note Sent := fun t n =>
  ({ (t.note c n).1 with next := t.next + 1 }, (t.note c n).2)

/-- What becomes of the link to `c` at the end of a read. -/
def endRead (c : Nat) (fate : LinkFate) (t : Service) : Service :=
  match t.link c with
  | some l =>
    match fate with
    | .lost => t.setLink c (some { l with active := false })
    | .closing => t.setLink c (some { l with closing := true })
    | .kept => t
  | none => t

/-- One call. -/
def step : Machine Service ServiceCall Sent := fun t call =>
  match call with
  | .ask a => ({ (t.ask a).1 with next := t.next + 1 }, (t.ask a).2)
  | .opened => ({ t.setLink t.next (some ⟨true, false⟩) with next := t.next + 1 }, [])
  | .notes c ns fate =>
    if (t.link c).any fun l => !l.closing then
      (((noteStep c).run t ns).endRead c fate, ((noteStep c).answers t ns).flatten)
    else (t, [])
  | .drained c =>
    match t.link c with
    | some l => (if l.closing then t.setLink c (some { l with active := false }) else t, [])
    | none => (t, [])
  | .ended c => (t.setLink c none, [])

end Service

/-! ## The inputs of the server -/

/-- What becomes of a connection on which a message is sent. -/
def sendFate (e : Wslay) : LinkFate :=
  if e.queueMsg < 0 || e.sendFails then .lost else if e.closeSent then .closing else .kept

/-- What becomes of a connection after a read. -/
def readFate (recv : Int) (e : Wslay) : LinkFate :=
  if recv < 0 || e.sendFails then .lost else if e.closeSent then .closing else .kept

section
variable (dm : DataModel)

/-- The id of the queue that a request makes: the server's own, of the name as
its parser reads it and its printer writes it, or of its random bytes. -/
def newId (r : Request) : Option CStr :=
  match evhttpFindHeader r.params nameKey with
  | some n => (parseUuid dm r.stack n).map (queueGetUuid dm)
  | none => some (queueGetUuid dm (randomUuid r.rand))

def askOf (r : Request) : Ask :=
  let name := evhttpFindHeader r.params nameKey
  let key := evhttpFindHeader r.params keyKey
  match r.path, r.method with
  | .queues, .get => .list
  | .queues, .post => .create name (newId dm r)
  | .queue, .post => .info name
  | .queue, .delete => .delete name (newId dm r)
  | .take, _ => .take name key
  | .peek, _ => .peek name key
  | .put, _ => .put name key (evhttpFindHeader r.params valueKey) (sendFate r.answer.wslay)
  | _, _ => .unsupported

def noteOf (m : Message) : Note :=
  if m.opcode / 8 % 2 = 1 then .control
  else if m.opcode = 1 ∨ m.opcode = 2 then .data m.text (sendFate m.env.wslay)
  else .control

def callOf : Input → ServiceCall
  | .http r => .ask (askOf dm r)
  | .opened => .opened
  | .read c msgs recv e => .notes c (msgs.map noteOf) (readFate recv e)
  | .drained c => .drained c
  | .event c _ _ _ => .ended c

/-- The server, with what it sends. -/
def server : Machine Server Input Sent := fun s i =>
  (s.step dm i, ((s.step dm i).net.log.drop s.net.log.length).filterMap sentOf)

end

/-- No allocation and no call of json-c or libevent's buffers fails during the
call by the event loop. Nothing is said about what wslay returns. -/
def NothingFails : Input → Prop
  | .http r => (∀ c, r.ok c = true) ∧ ∀ c, r.answer.ok c = true
  | .read _ msgs _ _ => ∀ m ∈ msgs, ∀ c, m.env.ok c = true
  | _ => True

end DQ.Spec
