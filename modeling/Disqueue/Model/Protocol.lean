import Disqueue.Model.Queue

/-!
# Replies and messages (`protocol.c`)

Every reply and message is a JSON object with a `success` member, the
`message` of a failure and the `payload` of a success. A payload that encodes
an item keeps the item it encodes, and one that answers a want keeps the want,
so that the text is a function of it.
-/

namespace DQ.Model

/-- The messages of failures. -/
inductive Failure
  | methodNotSupported | invalidQueueId | createQueue | noQueue | readBody
  | noItemToTake | noItemToPeek | missingValue | putItem | encodeItem
  | createList | listQueues | encodeName | encodeInfo | encodePayload
  | readMessage | noIdentifier | noQueueFound | createWant | waitForWant
  | createResponse | addIdentifier | addItem
  | authenticationRequired | authenticationFailed
  | cannotDescribe
deriving DecidableEq

/-- The text of a failure's message. -/
def Failure.text : Failure → String
  | .methodNotSupported => "method not supported"
  | .invalidQueueId => "invalid queue id"
  | .createQueue => "failed to create new queue"
  | .noQueue => "queue does not exist"
  | .readBody => "failed to read post body"
  | .noItemToTake => "no item to take"
  | .noItemToPeek => "no item to peek"
  | .missingValue => "missing parameter 'value'"
  | .putItem => "failed to put item"
  | .encodeItem => "failed to encode item"
  | .createList => "failed to create list"
  | .listQueues => "failed to list queues"
  | .encodeName => "failed to encode queue name"
  | .encodeInfo => "failed to encode queue info"
  | .encodePayload => "failed to encode payload"
  | .readMessage => "failed to read message"
  | .noIdentifier => "no identifier"
  | .noQueueFound => "queue not found"
  | .createWant => "failed to create want"
  | .waitForWant => "failed to wait for want"
  | .createResponse => "failed to create response"
  | .addIdentifier => "failed to add identifier"
  | .addItem => "failed to add item"
  | .authenticationRequired => "authentication required"
  | .authenticationFailed => "authentication failed"
  | .cannotDescribe => "cannot describe error"

/-- What a success carries. -/
inductive Payload
  /-- `{"key": .., "value": ..}`. -/
  | item (i : QueueItem)
  /-- `{"id": identifier, "item": {"key": .., "value": ..}}`, for the want at
  the address `want`. -/
  | answer (want : Nat) (identifier : CStr) (i : QueueItem)
  /-- A queue's id. -/
  | name (n : CStr)
  /-- An array of queues' ids. -/
  | names (l : List CStr)
  /-- `{"name": n}`. -/
  | info (n : CStr)
deriving DecidableEq

/-- A reply's or message's object. -/
structure Body where
  success : Bool
  message : Option Failure
  payload : Option Payload
deriving DecidableEq

/-- `protocol_create_base`. -/
def protocolCreateBase (ok : BaseCall → Bool) (success : Bool) (message : Option Failure)
    (payload : Option Payload) : Option Body :=
  if message.isSome && !ok .message then none
  else if !ok .status then none
  else if !ok .container then none
  else if !ok .addMessage then none
  else if !ok .addSuccess then none
  else if payload.isSome && !ok .addPayload then none
  else some { success, message, payload }

/-- `protocol_create_success`. -/
def protocolCreateSuccess (ok : Outcome) (payload : Option Payload) : Option Body :=
  protocolCreateBase (fun c => ok (.success c)) true none payload

/-- `protocol_create_failure`. -/
def protocolCreateFailure (ok : Outcome) (message : Failure) : Option Body :=
  protocolCreateBase (fun c => ok (.failure c)) false (some message) none

/-- `protocol_failure_fallback`. -/
def protocolFailureFallback : Body := ⟨false, some .cannotDescribe, none⟩

/-- `protocol_encode_item`: whether the encoding succeeds. -/
def protocolEncodeItem (ok : Outcome) (item : QueueItem) : Bool :=
  ok (.encode .base) && (item.key.isNone || ok (.encode .key)) && ok (.encode .addKey) &&
    ok (.encode .value) && ok (.encode .addValue)

/-- The text that is sent for an object: the fallback's where there is no
object, or no text of it. -/
def bodyText (ok : Outcome) (object : Option Body) : Option Body :=
  if ok .text then object else none

/-- The payload or, if its object cannot be made, a failure. -/
def payloadBody (ok : Outcome) (payload : Option Payload) : Option Body :=
  match protocolCreateSuccess ok payload with
  | some b => some b
  | none => protocolCreateFailure ok .encodePayload

end DQ.Model
