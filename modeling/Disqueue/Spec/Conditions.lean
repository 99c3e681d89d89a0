import Disqueue.Framework.Run
import Disqueue.Spec.Handing

/-!
# Conditions on runs

Conditions on a call by the event loop and the state before it: no item is
matched with a want (`MatchesNothing`); every item that leaves its queue for a
want or a take is carried by a message or a reply (`CarriesItems`); a freed
connection's wants are cancelled (`ReportsEnd`).
-/

namespace DQ.Spec

open DQ.Model

variable (dm : DataModel)

/-- Every message of a read meets a condition, in the state it is delivered
in. -/
def ReadMeets (C : Nat → Server → Message → Prop) (c : Nat) (msgs : List Message) (s : Server) :
    Prop :=
  (s.net.conn c).alive = true → (s.net.conn c).closing = false →
    Meets (evwsWslayOnMsgCallback_ dm c) (C c) s msgs

/-- No put finds a waiting want that wants its item, and no want message finds
a stored item that it wants. -/
def MatchesNothing (s : Server) : Input → Prop
  | .http r => r.path = .put → putGives dm r s = none
  | .read c msgs _ _ => ReadMeets dm (fun c s m => messageGives dm c s m = none) c msgs s
  | _ => True

/-- A want that is given an item answers: it was not cancelled, its connection
is active, and its answer is encoded and sent. A take that finds an item
encodes it. -/
def CarriesItems (s : Server) : Input → Prop
  | .http r =>
    (r.path = .put → putGives dm r s ≠ some false) ∧
      (r.path = .take → takeGives dm r s ≠ some false)
  | .read c msgs _ _ => ReadMeets dm (fun c s m => messageGives dm c s m ≠ some false) c msgs s
  | _ => True

/-- Whether the end of a connection is reported by an event: it is the peer's
end and the connection is active, or it is an error, or the connection is
active and the close message cannot be sent. -/
def reports (e : Wslay) (x : Connection) (eof error : Bool) : Bool :=
  if eof then x.active else error || (x.active && (e.queueClose < 0 || e.sendFails))

/-- An event that frees a connection is reported, or the connection has no
want that is not cancelled. -/
def ReportsEnd (s : Server) : Input → Prop
  | .event c eof error e =>
    (s.net.conn c).alive = true →
      reports e (s.net.conn c) eof error = true ∨
        ∀ w ∈ s.net.wants, w.client = c → w.cancelled = true
  | _ => True

end DQ.Spec
