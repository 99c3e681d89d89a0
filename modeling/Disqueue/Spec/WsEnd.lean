import Disqueue.Model.WsConnection

/-!
# The end of a WebSocket connection

The close and error callbacks tell the user of a connection that it has ended.
-/

namespace DQ.Spec

open DQ.Model

/-- The close or the error callback of `c` was called. -/
def reportsEnd (c : Nat) : Event → Bool
  | .closed d => d == c
  | .errored d => d == c
  | _ => false

/-- The end is reported once, and no data comes after the report. -/
structure EndReported (c : Nat) (n : Net) : Prop where
  once : n.log.countP (reportsEnd c) ≤ 1
  freed : (n.conn c).alive = false → n.log.countP (reportsEnd c) = 1
  last : n.log.Pairwise fun a b => reportsEnd c a = true → b ≠ .data c

/-- The message is passed to the data callback. -/
def passed (m : WsMessage) : Bool :=
  m.opcode / 8 % 2 != 1 && (m.opcode == 1 || m.opcode == 2) &&
    (m.ok .message && m.ok .messageBuffer && m.ok .messageAdd)

/-- A message cannot be sent. -/
def failsToSend (e : Wslay) : Bool := e.queueMsg < 0 || e.sendFails

/-- The close message cannot be sent. -/
def failsToClose (e : Wslay) : Bool := e.queueClose < 0 || e.sendFails

/-- The messages of a read come while the connection is active, and so does the
end of the read if it `ends` the connection. A send that fails makes the
connection inactive. -/
def ReadWhileActive (ends : Bool) : Bool → List WsMessage → Prop
  | active, [] => ends = true → active = true
  | active, m :: ms =>
    (passed m = true → active = true) ∧
      ReadWhileActive ends (active && !(passed m && m.sends.any fun s => failsToSend s.1)) ms

/-- The inputs that report the end at most once, and once if they free the
connection. -/
def EndsOnce (c : Nat) (n : Net) : WsInput → Prop
  | .read msgs recv e =>
    (n.conn c).alive = true → (n.conn c).closing = false →
      ReadWhileActive (recv < 0 || e.sendFails) (n.conn c).active msgs
  | .send _ _ => True
  | .drained => (n.conn c).alive = true → (n.conn c).closing = true → (n.conn c).active = true
  | .event eof error e =>
    (n.conn c).alive = true →
      if eof then (n.conn c).active = true → failsToClose e = false
      else if error then (n.conn c).active = true ∧ failsToClose e = false
      else (n.conn c).active = true → failsToClose e = true

end DQ.Spec
