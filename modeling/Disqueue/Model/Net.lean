import Disqueue.Model.Manager

/-!
# Connections, wants and what has happened

The state outside the queues: the manager's wants, the WebSocket connections,
and a log of what the server did, in order. The log is not part of the
program. It records the replies and messages, the callbacks of connections,
the items put and the wants accepted, and every use of a connection or want
that was freed.
-/

namespace DQ.Model

/-- What matters of a `struct evws_connection`. -/
structure Connection where
  /-- It was made, and `evws_connection_free` has not freed it. -/
  alive : Bool := false
  active : Bool := false
  /-- Its bufferevent's read callback was removed, and its write callback is
  `evws_close_`. -/
  closing : Bool := false
deriving DecidableEq

/-- The HTTP handlers. `method` stands for a path asked with a method it does
not have, and `authenticated` for one asked without valid credentials. -/
inductive Endpoint
  | list | new | info | delete | take | peek | put | method | authenticated
deriving DecidableEq

/-- Uses of the parameters of a request. -/
inductive ParamsUse
  | read | clear
deriving DecidableEq

inductive Event
  /-- `queue_put` has made the item. -/
  | put (i : QueueItem)
  /-- A want message was received and its want made, with the key it names. -/
  | want (w : Want) (key : Option CStr)
  /-- A message was queued on an active connection, and whether sending it did
  not fail. -/
  | message (c : Nat) (b : Body) (sent : Bool)
  /-- The reply to a request, by the request's number. -/
  | reply (rid : Nat) (e : Endpoint) (code : Nat) (b : Body)
  | params (rid : Nat) (use : ParamsUse)
  /-- An item was freed with its queue. -/
  | discard (i : QueueItem)
  /-- The data, close and error callbacks of a connection were called. -/
  | data (c : Nat)
  | closed (c : Nat)
  | errored (c : Nat)
  /-- A freed connection or want was used. -/
  | freedConnection (c : Nat)
  | freedWant (w : Nat)
deriving DecidableEq

structure Net where
  wants : List Want
  conn : Nat → Connection
  log : List Event

namespace Net

/-- No want, no connection. -/
def empty : Net := ⟨[], fun _ => {}, []⟩

def emit (e : Event) (n : Net) : Net := { n with log := n.log ++ [e] }

def setConn (c : Nat) (x : Connection) (n : Net) : Net :=
  { n with conn := Function.update n.conn c x }

end Net

end DQ.Model
