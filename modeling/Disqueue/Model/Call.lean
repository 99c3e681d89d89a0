/-!
# The calls that can fail

Allocations, libevent's buffer functions, RAND_bytes and the constructors of
json-c can fail, and the source tests most of them. Each such call is named
here, and a request or a message carries an `Outcome`: which of the calls made
on its behalf succeed. No request makes a call of one name twice, so an
outcome is one pattern of failures.
-/

namespace DQ.Model

/-- The calls of `protocol_create_base`. -/
inductive BaseCall
  | message | status | container | addMessage | addSuccess | addPayload
deriving DecidableEq

/-- The calls of `protocol_encode_item`. -/
inductive EncodeCall
  | base | key | addKey | value | addValue
deriving DecidableEq

/-- A call that can fail, named by what it makes. -/
inductive Call
  /-- `queue_put`: the item, and the copies of its key and value. -/
  | item | itemKey | itemValue
  /-- `queue_callback_new_`. -/
  | callback | callbackKey
  /-- `manager_queue_get` and `queue_new`. -/
  | managerQueue | queue | randBytes
  /-- `manager_queue_want_new`. -/
  | want | wantIdentifier
  /-- `connection_http_read_` and `connection_ws_read_`. -/
  | body | copyout | parse
  /-- `evws_message_new_`. -/
  | message | messageBuffer | messageAdd
  | encode (c : EncodeCall)
  /-- `protocol_create_success` and `protocol_create_failure`. -/
  | success (c : BaseCall)
  | failure (c : BaseCall)
  /-- `json_object_to_json_string_length`. -/
  | text
  /-- `connection_http_callback_new_` and `connection_http_callback_info_`. -/
  | name | info | addName
  /-- `connection_http_callback_list_`: the array, and its `i`-th element. -/
  | list | listName (i : Nat) | listAdd (i : Nat)
  /-- `connection_queue_callback_wait_`. -/
  | response | identifier | addIdentifier | addItem
deriving DecidableEq

/-- Which calls succeed. -/
abbrev Outcome := Call → Bool

/-- Every call succeeds. -/
def allOk : Outcome := fun _ => true

end DQ.Model
