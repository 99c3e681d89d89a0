import Disqueue.Framework.Run
import Disqueue.Model.Ws

/-!
# Want messages and their answers (`connection-ws.c`)

A want message is a JSON object with the members `identifier`, `queue` and
`key`. `connection_ws_callback_wait` makes a want of it and waits on the
queue; `connection_queue_callback_wait_` answers the want with an item.
-/

namespace DQ.Model

/-- The outcomes of the calls made to send one message. -/
structure Sending where
  ok : Outcome
  wslay : Wslay

/-- The members of a want message, as `json_get_string` gives them. -/
structure WantRequest where
  identifier : Option CStr
  queue : Option CStr
  key : Option CStr
deriving DecidableEq

/-- A message that wslay delivers. `text` is its JSON value, if it has one. -/
structure Message where
  opcode : Nat
  text : Option WantRequest
  env : Sending

/-- The manager's state, and the number of the next request, message or
connection. What a request or message allocates has its number for address. -/
structure Server where
  queues : List ManagerQueue
  heap : Heap
  net : Net
  next : Nat

namespace Server

/-- The state after `manager_startup`. -/
def startup : Server := ⟨[], .empty, .empty, 0⟩

def emit (e : Event) (s : Server) : Server := { s with net := s.net.emit e }

end Server

/-- `connection_ws_json_`. -/
def connectionWsJson_ (e : Sending) (c : Nat) (object : Option Body) (n : Net) : Net :=
  evwsConnectionSend_ e.wslay c ((bodyText e.ok object).getD protocolFailureFallback) n

/-- `connection_ws_error_`. -/
def connectionWsError_ (e : Sending) (c : Nat) (message : Failure) (n : Net) : Net :=
  connectionWsJson_ e c (protocolCreateFailure e.ok message) n

/-- `connection_ws_payload_`. -/
def connectionWsPayload_ (e : Sending) (c : Nat) (payload : Payload) (n : Net) : Net :=
  connectionWsJson_ e c (payloadBody e.ok (some payload)) n

/-- `connection_queue_callback_wait_`. -/
def connectionQueueCallbackWait_ (e : Sending) (want : Nat) (item : QueueItem)
    (m : Heap × Net) : Heap × Net :=
  match m.2.wants.find? (·.id == want) with
  | none => (m.1, m.2.emit (.freedWant want))
  | some w =>
    let (h, n) :=
      if w.cancelled then m
      else if !e.ok .response then (m.1, connectionWsError_ e w.client .createResponse m.2)
      else if !e.ok .identifier || !e.ok .addIdentifier then
        (m.1, connectionWsError_ e w.client .addIdentifier m.2)
      else if !protocolEncodeItem e.ok item || !e.ok .addItem then
        (m.1.read item.id, connectionWsError_ e w.client .addItem m.2)
      else
        (m.1.read item.id, connectionWsPayload_ e w.client (.answer w.id w.identifier item) m.2)
    let n := { n with wants := managerQueueWantFree want n.wants }
    (queueItemFree h item.id, n)

/-- `connection_ws_read_`. -/
def connectionWsRead_ (m : Message) : Option WantRequest :=
  if m.env.ok .body && m.env.ok .copyout then m.text else none

/-- `connection_ws_callback_wait`, for a message received on `c`. A missing
`queue` is not tested for: the test tests `identifier` again, and
`manager_queue_get` refuses it. -/
def connectionWsCallbackWait (dm : DataModel) (m : Message) (c : Nat) (s : Server) : Server :=
  let error (f : Failure) (s : Server) : Server :=
    { s with net := connectionWsError_ m.env c f s.net }
  match connectionWsRead_ m with
  | none => error .readMessage s
  | some request =>
    match request.identifier with
    | none => error .noIdentifier s
    | some identifier =>
      match managerQueueGet dm (.unused m.env.ok s.next) request.queue false s.queues with
      | none => error .noQueueFound s
      | some f =>
        match managerQueueWantNew m.env.ok s.next identifier c f.mq.q.addr with
        | none => error .createWant s
        | some want =>
          let n := { s.net with wants := s.net.wants ++ [want] }.emit (.want want request.key)
          match queueWait (connectionQueueCallbackWait_ m.env) m.env.ok request.key want.id f.mq.q
            (s.heap, n) with
          | (q, (heap, n), r) =>
            let s := { s with queues := f.set q, heap, net := n }
            if r < 0 then
              error .waitForWant { s with net.wants := managerQueueWantFree want.id s.net.wants }
            else s

/-- `evws_wslay_on_msg_callback_`. -/
def evwsWslayOnMsgCallback_ (dm : DataModel) (c : Nat) (s : Server) (m : Message) : Server :=
  let s' :=
    -- `wslay_is_ctrl_frame`
    if m.opcode / 8 % 2 = 1 then s
    else if m.opcode = 1 ∨ m.opcode = 2 then
      if m.env.ok .message && m.env.ok .messageBuffer && m.env.ok .messageAdd then
        connectionWsCallbackWait dm m c (s.emit (.data c))
      else s
    else s
  { s' with next := s.next + 1 }

/-- `evws_connection_read_cb_`: `wslay_event_recv` delivers `msgs` and returns
`recv`. -/
def evwsConnectionReadCb_ (dm : DataModel) (e : Wslay) (c : Nat) (msgs : List Message)
    (recv : Int) (s : Server) : Server :=
  let s := run (evwsWslayOnMsgCallback_ dm c) s msgs
  { s with net := if recv < 0 then evwsClose_ c s.net else evwsConnectionWrite_ e c s.net }

end DQ.Model
