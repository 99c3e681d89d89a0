import Disqueue.Model.Net

/-!
# WebSocket connections (`ws.c`)

The close and error callbacks are those `manager_add_server` sets:
`manager_queue_want_close`. What wslay returns is an input (`Wslay`); it holds
the answers to the calls made for one message or one event. Sending on a
connection that was freed is recorded and does nothing else.
-/

namespace DQ.Model

/-- What wslay returns. -/
structure Wslay where
  /-- `wslay_event_queue_msg` and `wslay_event_queue_close`. -/
  queueMsg : Int
  queueClose : Int
  /-- `wslay_event_want_write` and `wslay_event_send`. -/
  wantWrite : Bool
  send : Int
  /-- `wslay_event_get_close_sent`. -/
  closeSent : Bool
deriving DecidableEq

/-- Whether the data queued cannot be sent. -/
def Wslay.sendFails (e : Wslay) : Bool := e.wantWrite && e.send < 0

/-- `connection_ws_callback_close`. -/
def connectionWsCallbackClose (c : Nat) (n : Net) : Net :=
  { n with wants := managerQueueWantClose c n.wants }.emit (.closed c)

/-- `connection_ws_callback_error`. -/
def connectionWsCallbackError (c : Nat) (n : Net) : Net :=
  { n with wants := managerQueueWantClose c n.wants }.emit (.errored c)

/-- `evws_close_`. -/
def evwsClose_ (c : Nat) (n : Net) : Net :=
  connectionWsCallbackClose c (n.setConn c { n.conn c with active := false })

/-- `evws_connection_write_`. -/
def evwsConnectionWrite_ (e : Wslay) (c : Nat) (n : Net) : Net :=
  if e.sendFails then evwsClose_ c n
  else if e.closeSent then n.setConn c { n.conn c with closing := true }
  else n

/-- `evws_connection_send_`. -/
def evwsConnectionSend_ (e : Wslay) (c : Nat) (b : Body) (n : Net) : Net :=
  if !(n.conn c).alive then n.emit (.freedConnection c)
  else if !(n.conn c).active then n
  else if e.queueMsg < 0 then evwsClose_ c n
  else evwsConnectionWrite_ e c (n.emit (.message c b !e.sendFails))

/-- `evws_connection_send_close_`. -/
def evwsConnectionSendClose_ (e : Wslay) (c : Nat) (n : Net) : Net :=
  if !(n.conn c).active then n
  else if e.queueClose < 0 then evwsClose_ c n
  else evwsConnectionWrite_ e c n

/-- `evws_connection_free`. -/
def evwsConnectionFree (e : Wslay) (c : Nat) (n : Net) : Net :=
  let n := if (n.conn c).active then evwsConnectionSendClose_ e c n else n
  n.setConn c { n.conn c with alive := false, active := false }

/-- `evws_connection_event_cb_`, for an event with or without the flags
`BEV_EVENT_EOF` and `BEV_EVENT_ERROR`. -/
def evwsConnectionEventCb_ (e : Wslay) (c : Nat) (eof error : Bool) (n : Net) : Net :=
  evwsConnectionFree e c
    (if eof then (if (n.conn c).active then connectionWsCallbackClose c n else n)
    else if error then connectionWsCallbackError c n
    else n)

end DQ.Model
