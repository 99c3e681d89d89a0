import Disqueue.Model.ClientCalls
import Disqueue.Model.ConnectionHttp

/-!
# The JSON of replies and messages (`protocol.c`)

The object that a `Body` stands for, with its members in the order in which
they are added. The addresses of items and wants are not in it.
-/

namespace DQ.Model

def idKey : CStr := "id".toList
def itemKey : CStr := "item".toList

/-- `protocol_encode_item`. -/
def entryJson (key : Option CStr) (value : CStr) : Json :=
  .object [(keyKey, (key.map .string).getD .null), (valueKey, .string value)]

/-- The object that `connection_queue_callback_wait_` answers with. -/
def answerJson (identifier : CStr) (item : Json) : Json :=
  .object [(idKey, .string identifier), (itemKey, item)]

/-- The array of `connection_http_callback_list_`. -/
def namesJson (names : List CStr) : Json := .array (names.map .string)

/-- The object of `connection_http_callback_info_`. -/
def infoJson (name : CStr) : Json := .object [(nameKey, .string name)]

def Payload.json : Payload → Json
  | .item i => entryJson i.key i.value
  | .answer _ identifier i => answerJson identifier (entryJson i.key i.value)
  | .name n => .string n
  | .names l => namesJson l
  | .info n => infoJson n

/-- `protocol_create_base`. -/
def baseJson (success : Bool) (message : Option CStr) (payload : Option Json) : Json :=
  .object ([(messageKey, (message.map .string).getD .null), (successKey, .bool success)] ++
    (payload.map fun p => (payloadKey, p)).toList)

/-- `protocol_create_success`. -/
def successJson (payload : Option Json) : Json := baseJson true none payload

/-- `protocol_create_failure`. -/
def failureJson (message : Failure) : Json := baseJson false (some message.text.toList) none

/-- `protocol_failure_fallback`. -/
def fallbackJson : Json :=
  .object [(successKey, .bool false), (messageKey, .string Failure.cannotDescribe.text.toList)]

def Body.json (b : Body) : Json :=
  if b = protocolFailureFallback then fallbackJson
  else baseJson b.success (b.message.map (·.text.toList)) (b.payload.map Payload.json)

/-- What is sent to the outside: a reply to the request that is being answered,
or a message on a connection. -/
inductive Sent
  | reply (code : Nat) (json : Json)
  | message (c : Nat) (json : Json)

/-- A message on a connection. -/
def Sent.isMessage : Sent → Bool
  | .message .. => true
  | .reply .. => false

/-- What an event sends. A message that wslay fails to send is not sent. -/
def sentOf : Event → Option Sent
  | .reply _ _ code b => some (.reply code b.json)
  | .message c b true => some (.message c b.json)
  | _ => none

end DQ.Model
