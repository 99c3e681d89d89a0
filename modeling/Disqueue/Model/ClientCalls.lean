import Disqueue.Model.Config
import Disqueue.Model.Python

/-!
# The calls of the client libraries (`client.py`, `client.ts`)

A call sends a request, and reads the reply with `parse` (`protocol.py`,
`protocol.ts`). Sending is an effect in a monad `m`, so that a call can be given
a reply (in `Id`) or the server, whose state a request changes. What is not JSON
has no value (`none`), and an object has one member for each key. Python's
parser also takes the constants `NaN` and `Infinity`, which are not JSON and
which the server does not send.
-/

namespace DQ.Model

/-- A request, with its parameters in order. -/
structure ClientRequest where
  url : String
  path : String
  method : String
  params : List (String × String)
  auth : Option (String × String)
deriving DecidableEq

/-- The exceptions of a call. All but the last are of the class
`QueueException`. -/
inductive Raised
  /-- `Invalid protocol data`. -/
  | invalidData
  /-- `Protocol missing key`. -/
  | missingKey (key : CStr)
  /-- The message of the reply, if it has one. -/
  | failed (message : Option Json)
  /-- An exception of another class, whose message TypeScript's `_request` takes
  over. -/
  | caught
  | other

/-- `ProtocolMessage`, with the truth of its `success`. -/
structure ProtocolMessage where
  success : Bool
  message : Option Json
  payload : Option Json

/-- `raise_on_error`, `raiseOnError`. -/
def ProtocolMessage.raiseOnError (m : ProtocolMessage) : Except Raised Unit :=
  if m.success then .ok () else .error (.failed m.message)

/-- The property `payload`. -/
def ProtocolMessage.getPayload (m : ProtocolMessage) : Except Raised (Option Json) :=
  if m.success then .ok m.payload else .error (.failed none)

def successKey : CStr := "success".toList
def messageKey : CStr := "message".toList
def payloadKey : CStr := "payload".toList

/-- The number that the digits of a text are. -/
def digitsNumber (text : CStr) : Nat := Nat.ofDigitChars 10 (text.filter Char.isDigit) 0

/-- The number is rounded to zero. The smallest positive double is `2 ^ -1074`,
and half of it is rounded down. -/
def isZero (text : CStr) : Bool :=
  let mantissa := text.takeWhile fun c => c != 'e' && c != 'E'
  let exponent := (text.dropWhile fun c => c != 'e' && c != 'E').tail
  let decimals := (mantissa.dropWhile (· != '.')).tail.length
  let scaled := digitsNumber mantissa * Nat.pow 2 1075
  let power := digitsNumber exponent
  if exponent.head? = some '-' then scaled ≤ Nat.pow 10 (decimals + power)
  else scaled * Nat.pow 10 power ≤ Nat.pow 10 decimals

/-! ## Python -/

namespace Python

/-- `if value`. -/
def truthy : Json → Bool
  | .null => false
  | .bool b => b
  | .number text => !isZero text
  | .string s => s != []
  | .array elems => !elems.isEmpty
  | .object members => !members.isEmpty

/-- `parse`. The members of something else than an object cannot be looked up. -/
def parse : Option Json → Except Raised ProtocolMessage
  | none => .error .invalidData
  | some (.object members) =>
    match members.lookup successKey with
    | none => .error (.missingKey successKey)
    | some success =>
      if truthy success then
        .ok ⟨true, none, some ((members.lookup payloadKey).getD (.object []))⟩
      else
        match members.lookup messageKey with
        | none => .error (.missingKey messageKey)
        | some message => .ok ⟨false, some message, none⟩
  | some _ => .error .other

/-- `_with_key`. -/
def withKey (params : List (String × String)) (key : Option String) : List (String × String) :=
  params ++ (key.map fun k => ("key", k)).toList

section
-- Sending a request, and the value of its reply.
variable {m : Type → Type} [Monad m] (send : ClientRequest → m (Option Json))

/-- `QueueClient._request`. -/
def QueueClient.request (c : QueueClient) (path method : String) (params : List (String × String)) :
    ExceptT Raised m ProtocolMessage := do
  parse (← send ⟨c.url, path, method, params ++ [("name", c.queueId)], c.auth⟩)

/-- `put`. The message is not looked at. -/
def QueueClient.put (c : QueueClient) (key : Option String) (value : String) :
    ExceptT Raised m (Option Json) := do
  let _ ← c.request send "/put" "POST" (withKey [("value", value)] key)
  return none

def QueueClient.take (c : QueueClient) (key : Option String) : ExceptT Raised m (Option Json) := do
  let message ← c.request send "/take" "POST" (withKey [] key)
  message.raiseOnError
  message.getPayload

def QueueClient.peek (c : QueueClient) (key : Option String) : ExceptT Raised m (Option Json) := do
  let message ← c.request send "/peek" "POST" (withKey [] key)
  message.raiseOnError
  message.getPayload

def QueueClient.delete (c : QueueClient) : ExceptT Raised m (Option Json) := do
  let message ← c.request send "/queue" "DELETE" []
  message.raiseOnError
  return none

def QueueClient.info (c : QueueClient) : ExceptT Raised m (Option Json) := do
  let message ← c.request send "/queue" "POST" []
  message.raiseOnError
  message.getPayload

/-- `queue_create`. An empty name is not sent. -/
def queueCreate (url : String) (name : Option String) (auth : Option (String × String)) :
    ExceptT Raised m (Option Json) := do
  let params := ((name.filter (· ≠ "")).map fun n => ("name", n)).toList
  let message ← parse (← send ⟨url, "/queues", "POST", params, auth⟩)
  message.raiseOnError
  message.getPayload

/-- `queue_list`. -/
def queueList (url : String) (auth : Option (String × String)) :
    ExceptT Raised m (Option Json) := do
  let message ← parse (← send ⟨url, "/queues", "GET", [], auth⟩)
  message.raiseOnError
  message.getPayload

end

end Python

/-! ## TypeScript -/

namespace TypeScript

/-- `if (value)`. -/
def truthy : Json → Bool
  | .null => false
  | .bool b => b
  | .number text => !isZero text
  | .string s => s != []
  | .array _ => true
  | .object _ => true

/-- `parse`. Members that are not there are undefined; those of null cannot be
looked up. -/
def parse : Option Json → Except Raised ProtocolMessage
  | none => .error .invalidData
  | some .null => .error .other
  | some (.object members) =>
    if (members.lookup successKey).any truthy then .ok ⟨true, none, members.lookup payloadKey⟩
    else .ok ⟨false, members.lookup messageKey, none⟩
  | some _ => .ok ⟨false, none, none⟩

/-- `QueueClient`. -/
structure QueueClient where
  url : String
  queueId : String
  auth : Option (String × String)

/-- `_with_key`. -/
def withKey (params : List (String × String)) (key : Option String) : List (String × String) :=
  (key.map fun k => ("key", k)).toList ++ params

/-- The `catch` of `_request`, which throws a `QueueException` for every error. -/
def catchError : Except Raised ProtocolMessage → Except Raised ProtocolMessage
  | .error .other => .error .caught
  | r => r

section
variable {m : Type → Type} [Monad m] (send : ClientRequest → m (Option Json))

/-- `_request`. The body is left out of a request with the method GET. -/
def request (url path method : String) (params : List (String × String))
    (auth : Option (String × String)) : ExceptT Raised m ProtocolMessage := do
  catchError (parse (← send ⟨url, path, method, if method = "GET" then [] else params, auth⟩))

/-- `QueueClient._request`. -/
def QueueClient.request (c : QueueClient) (path : String) (params : List (String × String))
    (method : String) : ExceptT Raised m ProtocolMessage :=
  TypeScript.request send c.url path method (params ++ [("name", c.queueId)]) c.auth

def QueueClient.put (c : QueueClient) (key : Option String) (value : String) :
    ExceptT Raised m (Option Json) := do
  let message ← c.request send "/put" (withKey [("value", value)] key) "POST"
  message.raiseOnError
  return none

def QueueClient.take (c : QueueClient) (key : Option String) : ExceptT Raised m (Option Json) := do
  let message ← c.request send "/take" (withKey [] key) "POST"
  message.raiseOnError
  message.getPayload

def QueueClient.peek (c : QueueClient) (key : Option String) : ExceptT Raised m (Option Json) := do
  let message ← c.request send "/peek" (withKey [] key) "POST"
  message.raiseOnError
  message.getPayload

def QueueClient.delete (c : QueueClient) : ExceptT Raised m (Option Json) := do
  let message ← c.request send "/queue" [] "DELETE"
  message.raiseOnError
  return none

def QueueClient.info (c : QueueClient) : ExceptT Raised m (Option Json) := do
  let message ← c.request send "/queue" [] "POST"
  message.raiseOnError
  message.getPayload

/-- `queueCreate`. -/
def queueCreate (url : String) (name : Option String) (auth : Option (String × String)) :
    ExceptT Raised m (Option Json) := do
  let message ← request send url "/queues" "POST" (name.map fun n => ("name", n)).toList auth
  message.raiseOnError
  message.getPayload

/-- `queueList`. -/
def queueList (url : String) (auth : Option (String × String)) :
    ExceptT Raised m (Option Json) := do
  let message ← request send url "/queues" "GET" [] auth
  message.raiseOnError
  message.getPayload

end

end TypeScript

end DQ.Model
