import Disqueue.Framework.Run
import Disqueue.Model.Python

/-!
# Python clients that do not influence each other

What is observed of an object is what would be observed if the calls on the
other objects were left out (`Isolated`).
-/

namespace DQ.Spec

open DQ.Model.Python

variable {ω η : Type} [DecidableEq ω]

/-- After any number of the calls, what each object sent, ran and returned is
what it does with its own calls alone. -/
def Isolated (account : ω → Account) (calls : List (ω × Method ω η)) : Prop :=
  ∀ o js, js <+: numbered calls →
    (run (step account) (State.empty : State ω η) js).out o =
      (run (step account) (State.empty : State ω η) (js.filter fun c => c.client = o)).out o

/-- The call meets nothing of another object: the client that `queue` finds is
the object's own, the handlers that `notify_open` finds were registered on the
object, and the want that `notify_message` takes was sent by it. -/
def MeetsOwn (account : ω → Account) (s : State ω η) (c : Call ω η) : Prop :=
  match c.method with
  | .queueHandler _ _ _ => True
  | .queue queueId _ =>
    ∀ client, s.cachedClients queueId = some client → client = ownClient account c.client queueId
  | .notifyOpen => ∀ p ∈ waitingItems s.waitingHandlers, p.2.client = c.client
  | .notifyMessage none => True
  | .notifyMessage (some (id, _)) => s.waitingIdentifiers id = none ∨ id.client = c.client
  | .runAndReschedule _ _ => True

end DQ.Spec
