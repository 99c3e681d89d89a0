import Disqueue.Model.ConnectionHttp

/-!
# The server

The event loop calls one callback at a time: that of an HTTP request, of a
WebSocket connection's upgrade, or of an event on a connection's bufferevent.
`Server.step` is one such call; what libevent, wslay, json-c and the allocator
answer during it is part of the input. An input that libevent does not give in
the present state (an event on a connection that was freed, data on one whose
read callback was removed) does nothing.
-/

namespace DQ.Model

/-- A call by the event loop. -/
inductive Input
  | http (r : Request)
  /-- The upgrade of a connection, which gets the next number. -/
  | opened
  /-- Data on a connection: the messages `wslay_event_recv` delivers, and what
  it returns. -/
  | read (c : Nat) (msgs : List Message) (recv : Int) (e : Wslay)
  /-- The output of a connection was written. -/
  | drained (c : Nat)
  /-- An event on a connection, with or without the flags of its end and of an
  error. -/
  | event (c : Nat) (eof error : Bool) (e : Wslay)

namespace Server

/-- One call by the event loop. -/
def step (dm : DataModel) (s : Server) : Input → Server
  | .http r => { connectionHttpCallback dm r s with next := s.next + 1 }
  | .opened =>
    { s with
      net := s.net.setConn s.next { alive := true, active := true }
      next := s.next + 1 }
  | .read c msgs recv e =>
    if (s.net.conn c).alive && !(s.net.conn c).closing then
      evwsConnectionReadCb_ dm e c msgs recv s
    else s
  | .drained c =>
    if (s.net.conn c).alive && (s.net.conn c).closing then { s with net := evwsClose_ c s.net }
    else s
  | .event c eof error e =>
    if (s.net.conn c).alive then { s with net := evwsConnectionEventCb_ e c eof error s.net }
    else s

end Server

end DQ.Model
