import Disqueue.Model.ConnectionWs

/-!
# HTTP requests (`connection-http.c`)

The handlers of the five paths. Each reads the body's parameters, looks its
queue up (`connectionHttpQueue_`, the condition every handler of a queue starts
with), does its work and replies once.
-/

namespace DQ.Model

inductive Path
  | queues | queue | take | peek | put
deriving DecidableEq

inductive Method
  | get | post | delete | other
deriving DecidableEq

/-- A request, with the parameters that `evhttp_parse_query_str` finds in its
body. -/
structure Request where
  path : Path
  method : Method
  params : List (CStr × CStr)
  ok : Outcome
  /-- Random bytes, and the contents of `manager_queue_get`'s stack. -/
  rand : Bytes
  stack : Bytes
  /-- The outcomes of sending a message, if an item put answers a want. -/
  answer : Sending

/-- `evhttp_find_header`. -/
def evhttpFindHeader (params : List (CStr × CStr)) (name : CStr) : Option CStr :=
  (params.find? fun p => strcaseEq p.1 name).map (·.2)

def nameKey : CStr := ['n', 'a', 'm', 'e']
def keyKey : CStr := ['k', 'e', 'y']
def valueKey : CStr := ['v', 'a', 'l', 'u', 'e']

section
variable (dm : DataModel) (r : Request)

/-- `evhttp_find_header(&params, name)`, recorded. -/
def findParam (name : CStr) (s : Server) : Option CStr × Server :=
  (evhttpFindHeader r.params name, s.emit (.params s.next .read))

/-- `connection_http_json_`; `params` is whether there are parameters to
clear. -/
def connectionHttpJson_ (e : Endpoint) (params : Bool) (code : Nat) (object : Option Body)
    (s : Server) : Server :=
  let (code, body) :=
    match bodyText r.ok object with
    | some b => (code, b)
    | none => (500, protocolFailureFallback)
  let s := s.emit (.reply s.next e code body)
  if params then s.emit (.params s.next .clear) else s

/-- `connection_http_error_`. -/
def connectionHttpError_ (e : Endpoint) (params : Bool) (code : Nat) (message : Failure)
    (s : Server) : Server :=
  connectionHttpJson_ r e params (if code = 0 then 500 else code)
    (protocolCreateFailure r.ok message) s

/-- `connection_http_payload_`. -/
def connectionHttpPayload_ (e : Endpoint) (payload : Option Payload) (s : Server) : Server :=
  match protocolCreateSuccess r.ok payload with
  | none => connectionHttpError_ r e true 0 .encodePayload s
  | some object => connectionHttpJson_ r e true 200 (some object) s

/-- `connection_http_read_`. -/
def connectionHttpRead_ (e : Endpoint) (s : Server) : Server × Bool :=
  if r.ok .body && r.ok .copyout && r.ok .parse then (s, true)
  else (connectionHttpError_ r e true 0 .readBody s, false)

/-- What `manager_queue_get` may use. -/
def Request.supply (addr : Nat) : QueueSupply := ⟨r.ok, addr, r.rand, r.stack⟩

/-- `connection_http_validate_`. -/
def connectionHttpValidate_ (e : Endpoint) (createNew : Bool) (s : Server) :
    Server × Option Found :=
  let (name, s) := findParam r nameKey s
  if name.any (·.length != 36) then
    (connectionHttpError_ r e true 400 .invalidQueueId s, none)
  else
    match managerQueueGet dm (r.supply s.next) name createNew s.queues with
    | none =>
      if createNew then (connectionHttpError_ r e true 0 .createQueue s, none)
      else (connectionHttpError_ r e true 404 .noQueue s, none)
    | some f => ({ s with queues := f.registry }, some f)

/-- The condition that every handler of a queue starts with. -/
def connectionHttpQueue_ (e : Endpoint) (createNew : Bool) (s : Server) : Server × Option Found :=
  match connectionHttpRead_ r e s with
  | (s, true) => connectionHttpValidate_ dm r e createNew s
  | (s, false) => (s, none)

/-- `manager_queue_free`: the items are freed with the queue. -/
def managerQueueFree (f : Found) (s : Server) : Server :=
  { s with
    queues := f.free
    heap := queueFree f.mq.q s.heap
    net := { s.net with log := s.net.log ++ f.mq.q.items.map .discard } }

/-- The loop of `manager_queue_foreach` with `list_foreach_callback`: the
ids. -/
def listForeach (ok : Outcome) : Nat → List ManagerQueue → Option (List CStr)
  | _, [] => some []
  | i, m :: ms =>
    if ok (.listName i) && ok (.listAdd i) then (listForeach ok (i + 1) ms).map (m.id :: ·)
    else none

/-- `connection_http_callback_list_`. -/
def connectionHttpCallbackList_ (s : Server) : Server :=
  match connectionHttpRead_ r .list s with
  | (s, false) => s
  | (s, true) =>
    if !r.ok .list then connectionHttpError_ r .list true 0 .createList s
    else
      match listForeach r.ok 0 s.queues with
      | none => connectionHttpError_ r .list true 0 .listQueues s
      | some ids => connectionHttpPayload_ r .list (some (.names ids)) s

/-- `connection_http_callback_new_`. -/
def connectionHttpCallbackNew_ (s : Server) : Server :=
  match connectionHttpQueue_ dm r .new true s with
  | (s, none) => s
  | (s, some f) =>
    if !r.ok .name then
      connectionHttpError_ r .new true 0 .encodeName (managerQueueFree f s)
    else connectionHttpPayload_ r .new (some (.name f.mq.id)) s

/-- `connection_http_callback_info_`. -/
def connectionHttpCallbackInfo_ (s : Server) : Server :=
  match connectionHttpQueue_ dm r .info false s with
  | (s, none) => s
  | (s, some f) =>
    if !r.ok .name || !r.ok .info || !r.ok .addName then
      connectionHttpError_ r .info true 0 .encodeInfo s
    else connectionHttpPayload_ r .info (some (.info f.mq.id)) s

/-- `connection_http_callback_delete_`. -/
def connectionHttpCallbackDelete_ (s : Server) : Server :=
  match connectionHttpQueue_ dm r .delete true s with
  | (s, none) => s
  | (s, some f) =>
    let s := { s with net.wants := managerQueueWantRemove f.mq.q.addr s.net.wants }
    connectionHttpPayload_ r .delete none (managerQueueFree f s)

/-- `connection_http_callback_take`. -/
def connectionHttpCallbackTake (s : Server) : Server :=
  match connectionHttpQueue_ dm r .take false s with
  | (s, none) => s
  | (s, some f) =>
    let (key, s) := findParam r keyKey s
    match queueTake key f.mq.q s.heap with
    | (none, q, heap) =>
      connectionHttpError_ r .take true 404 .noItemToTake { s with queues := f.set q, heap }
    | (some item, q, heap) =>
      let s := { s with queues := f.set q, heap := heap.read item.id }
      let s :=
        if !protocolEncodeItem r.ok item then
          connectionHttpError_ r .take true 0 .encodeItem s
        else connectionHttpPayload_ r .take (some (.item item)) s
      { s with heap := queueItemFree s.heap item.id }

/-- `connection_http_callback_peek`. -/
def connectionHttpCallbackPeek (s : Server) : Server :=
  match connectionHttpQueue_ dm r .peek false s with
  | (s, none) => s
  | (s, some f) =>
    let (key, s) := findParam r keyKey s
    match queuePeek key f.mq.q s.heap with
    | (none, heap) => connectionHttpError_ r .peek true 404 .noItemToPeek { s with heap }
    | (some item, heap) =>
      let s := { s with heap := (queueItemLock heap item.id).read item.id }
      let s :=
        if !protocolEncodeItem r.ok item then
          connectionHttpError_ r .peek true 0 .encodeItem s
        else connectionHttpPayload_ r .peek (some (.item item)) s
      { s with heap := queueItemUnlock s.heap item.id }

/-- `connection_http_callback_put`. The item that `queue_put` makes is
recorded before the call. -/
def connectionHttpCallbackPut (s : Server) : Server :=
  match connectionHttpQueue_ dm r .put false s with
  | (s, none) => s
  | (s, some f) =>
    let (key, s) := findParam r keyKey s
    let (value, s) := findParam r valueKey s
    match value with
    | none => connectionHttpError_ r .put true 400 .missingValue s
    | some value =>
      let n :=
        match queuePutItem r.ok s.next f.mq.q.addr key value with
        | some item => s.net.emit (.put item)
        | none => s.net
      match queuePut (connectionQueueCallbackWait_ r.answer) r.ok s.next key value f.mq.q
        (s.heap, n) with
      | (q, (heap, net), code) =>
        let s := { s with queues := f.set q, heap, net }
        if code < 0 then connectionHttpError_ r .put true 0 .putItem s
        else connectionHttpPayload_ r .put none s

/-- `connection_http_callback_queues`. -/
def connectionHttpCallbackQueues (s : Server) : Server :=
  match r.method with
  | .get => connectionHttpCallbackList_ r s
  | .post => connectionHttpCallbackNew_ dm r s
  | _ => connectionHttpError_ r .method false 405 .methodNotSupported s

/-- `connection_http_callback_queue`. -/
def connectionHttpCallbackQueue (s : Server) : Server :=
  match r.method with
  | .post => connectionHttpCallbackInfo_ dm r s
  | .delete => connectionHttpCallbackDelete_ dm r s
  | _ => connectionHttpError_ r .method false 405 .methodNotSupported s

/-- The handler of the request's path. -/
def connectionHttpCallback (s : Server) : Server :=
  match r.path with
  | .queues => connectionHttpCallbackQueues dm r s
  | .queue => connectionHttpCallbackQueue dm r s
  | .take => connectionHttpCallbackTake dm r s
  | .peek => connectionHttpCallbackPeek dm r s
  | .put => connectionHttpCallbackPut dm r s

end

end DQ.Model
