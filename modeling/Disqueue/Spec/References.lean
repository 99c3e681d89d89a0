import Disqueue.Model.Refs

/-!
# References that balance

Every json-c object that is made for a reply should be freed once
(`Objects.ReleasedOnce`). `Balances` is the condition under which it is: no
message of a failure is made whose object then cannot be, and no payload is made
that then cannot be sent.
-/

namespace DQ.Spec

open DQ.Model
open DQ.Model.Refs (Building)

/-- The message of a failure becomes a member of its object, if it is made. -/
def KeepsMessage (ok : Outcome) : Prop :=
  ok (.failure .message) = true → ok (.failure .status) = true ∧
    ok (.failure .container) = true ∧ ok (.failure .addMessage) = true

/-- A success can be made, with a payload or without. -/
def wraps (ok : Outcome) (payload : Bool) : Bool :=
  ok (.success .status) && ok (.success .container) && ok (.success .addMessage) &&
    ok (.success .addSuccess) && (!payload || ok (.success .addPayload))

/-- Whether a reply is a success with a payload, if what it needs is made; it is
a failure otherwise. -/
def payloadOf (b : Building) : Option Bool :=
  match b.reply with
  | .error => none
  | .list queues => if b.ok .list && (listForeach b.ok 0 queues).isSome then some true else none
  | .name => if b.ok .name then some true else none
  | .info => if b.ok .name && b.ok .info && b.ok .addName then some true else none
  | .item item => if protocolEncodeItem b.ok item then some true else none
  | .done => some false
  | .answer item =>
    if b.ok .response && b.ok .identifier && b.ok .addIdentifier && protocolEncodeItem b.ok item &&
      b.ok .addItem then some true else none

/-- A failure keeps its message; a success can be made, or has no payload and the
failure in its place keeps its message. -/
def Balances (b : Building) : Prop :=
  match payloadOf b with
  | none => KeepsMessage b.ok
  | some payload => wraps b.ok payload = true ∨ payload = false ∧ KeepsMessage b.ok

end DQ.Spec
