import Disqueue.Framework.Run
import Disqueue.Model.Ws

/-!
# A WebSocket connection and its user (`ws.c`)

What happens to one connection between `evws_connection_new_` and the end of
`evws_connection_free`: the events of its bufferevent, and sends, which the
data callback makes for a message or which are made between two events. What
wslay returns is an input. As in `Server.step`, an input that libevent does not
give in the present state does nothing, and nothing happens to a connection
that was freed.
-/

namespace DQ.Model

/-- A message that wslay passes on, and the sends that the data callback makes
when it is given the message. -/
structure WsMessage where
  opcode : Nat
  ok : Outcome
  sends : List (Wslay × Body)

inductive WsInput
  /-- Data: the messages that `wslay_event_recv` passes on, and what it
  returns. -/
  | read (msgs : List WsMessage) (recv : Int) (e : Wslay)
  | send (e : Wslay) (b : Body)
  /-- The output was written. -/
  | drained
  /-- An event, with or without the flags of the end and of an error. A timeout
  has neither, and nor has the call of `evws_connection_free` by `evws_free`. -/
  | event (eof error : Bool) (e : Wslay)

namespace WsConnection

/-- `evws_connection_new_`. -/
def new (c : Nat) : Net := Net.empty.setConn c { alive := true, active := true }

/-- `evws_wslay_on_msg_callback_`. -/
def onMsg (c : Nat) (n : Net) (m : WsMessage) : Net :=
  -- `wslay_is_ctrl_frame`
  if m.opcode / 8 % 2 = 1 then n
  else if m.opcode = 1 ∨ m.opcode = 2 then
    if m.ok .message && m.ok .messageBuffer && m.ok .messageAdd then
      m.sends.foldl (fun n s => evwsConnectionSend_ s.1 c s.2 n) (n.emit (.data c))
    else n
  else n

/-- The end of `evws_connection_read_cb_`, when `wslay_event_recv` returned
`recv`. -/
def readEnd (c : Nat) (recv : Int) (e : Wslay) (n : Net) : Net :=
  if recv < 0 then evwsClose_ c n else evwsConnectionWrite_ e c n

/-- One event or send. -/
def step (c : Nat) (n : Net) : WsInput → Net
  | .read msgs recv e =>
    if (n.conn c).alive && !(n.conn c).closing then readEnd c recv e (run (onMsg c) n msgs) else n
  | .send e b => if (n.conn c).alive then evwsConnectionSend_ e c b n else n
  | .drained => if (n.conn c).alive && (n.conn c).closing then evwsClose_ c n else n
  | .event eof error e =>
    if (n.conn c).alive then evwsConnectionEventCb_ e c eof error n else n

end WsConnection

end DQ.Model
