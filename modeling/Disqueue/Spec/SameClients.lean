import Disqueue.Model.ClientCalls
import Disqueue.Model.TypeScript
import Disqueue.Spec.Address

/-!
# Clients that speak alike

Besides the server that they connect to, both libraries should send the key that
a handler was registered with (`WantCarries`), and a call should return exactly
if the reply says that it succeeded, and otherwise raise the library's exception
(`Answers`).
-/

namespace DQ.Spec

open DQ.Model

/-! ## Wants -/

/-- The want that each library sends for a handler has its queue and its key. -/
def WantCarries {ω η : Type} [DecidableEq ω] (id : Python.Identifier ω) (s : Python.State ω η)
    (s' : TypeScript.State η) (queueId : String) (key : Option String) (handler : η) : Prop :=
  (Python.resendWant id ⟨queueId, key, handler⟩ s).out id.client =
      s.out id.client ++ [.sent ⟨queueId, id, key⟩] ∧
    (TypeScript.resendWant (queueId, key, handler) s').out =
      s'.out ++ [.sent ⟨queueId, s'.next, key⟩]

/-! ## Calls -/

/-- A call of the libraries. -/
inductive ClientCall
  | put (key : Option String) (value : String)
  | take (key : Option String)
  | peek (key : Option String)
  | delete
  | info
  | create (name : Option String)
  | list
deriving DecidableEq

section
variable {m : Type → Type} [Monad m] (url queueId : String) (auth : Option (String × String))
  (send : ClientRequest → m (Option Json))

/-- The call, in the Python library. -/
def pythonCall : ClientCall → ExceptT Raised m (Option Json)
  | .put key value => Python.QueueClient.put send ⟨url, queueId, auth⟩ key value
  | .take key => Python.QueueClient.take send ⟨url, queueId, auth⟩ key
  | .peek key => Python.QueueClient.peek send ⟨url, queueId, auth⟩ key
  | .delete => Python.QueueClient.delete send ⟨url, queueId, auth⟩
  | .info => Python.QueueClient.info send ⟨url, queueId, auth⟩
  | .create name => Python.queueCreate send url name auth
  | .list => Python.queueList send url auth

/-- The call, in the TypeScript library. -/
def typeScriptCall : ClientCall → ExceptT Raised m (Option Json)
  | .put key value => TypeScript.QueueClient.put send ⟨url, queueId, auth⟩ key value
  | .take key => TypeScript.QueueClient.take send ⟨url, queueId, auth⟩ key
  | .peek key => TypeScript.QueueClient.peek send ⟨url, queueId, auth⟩ key
  | .delete => TypeScript.QueueClient.delete send ⟨url, queueId, auth⟩
  | .info => TypeScript.QueueClient.info send ⟨url, queueId, auth⟩
  | .create name => TypeScript.queueCreate send url name auth
  | .list => TypeScript.queueList send url auth

end

/-- The exception is a `QueueException`. -/
def IsQueueException : Raised → Prop
  | .other => False
  | _ => True

/-- The reply's `success` is true. -/
def Succeeded (reply : Option Json) : Prop :=
  ∃ members, reply = some (.object members) ∧ members.lookup successKey = some (.bool true)

/-- The call returns if the reply says that it succeeded, and otherwise raises a
`QueueException`. -/
structure Answers (reply : Option Json) (r : Except Raised (Option Json)) : Prop where
  returns : Succeeded reply → ∃ payload, r = .ok payload
  raises : ¬ Succeeded reply → ∃ e, r = .error e ∧ IsQueueException e

/-- The reply is no JSON, or an object whose `success`, if it has one, is true,
or is false as a condition, and if the call is `put`, there is no message
then. -/
def ReplyFits (call : ClientCall) : Option Json → Prop
  | none => True
  | some (.object members) =>
    ∀ success, members.lookup successKey = some success →
      success = .bool true ∨ TypeScript.truthy success = false ∧
        ((∃ key value, call = .put key value) → members.lookup messageKey = none)
  | some _ => False

end DQ.Spec
