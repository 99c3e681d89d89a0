import Disqueue.Framework.Counted
import Disqueue.Model.Program

/-!
# The references to json-c objects

The functions that build replies and messages again, with the json-c objects
that they make: each takes and gives the objects, and a `struct json_object *`
is an address or null (`Ref`). What the objects hold is in `Body` and `Payload`;
here only references count. The HTTP and the WebSocket functions that send an
object use its references alike.

`Building` is the part of a handler from its first json-c call on, with the
outcomes of its calls, and `buildings` gives those of each input to the program.
-/

namespace DQ.Model.Refs

/-- A `struct json_object *`. -/
abbrev Ref := Option Nat

/-- `json_object_new_string` and the like. -/
def jsonObjectNew (ok : Bool) (j : Objects) : Ref × Objects :=
  if ok then (some j.next, j.new) else (none, j)

/-- `json_object_put`, which does nothing for a null pointer. -/
def jsonObjectPut (object : Ref) (j : Objects) : Objects :=
  match object with
  | none => j
  | some object => j.release object

/-- `json_object_object_add_ex` and `json_object_array_add`: whether the object
was added. A null pointer is added as null. -/
def jsonObjectAdd (ok : Bool) (container : Nat) (object : Ref) (j : Objects) : Bool × Objects :=
  (ok, if ok then object.elim j (j.add container) else j)

/-! ## Protocol -/

/-- The end of `protocol_create_base` after its label `cleanup`. -/
def protocolCreateBaseCleanup (msg payload status container : Ref) (j : Objects) : Ref × Objects :=
  let j := if msg.isSome then jsonObjectPut payload j else j
  let j := jsonObjectPut payload j
  let j := jsonObjectPut status j
  let j := jsonObjectPut container j
  (none, j)

/-- `protocol_create_base`, from the new container on. -/
def protocolCreateContainer (ok : BaseCall → Bool) (msg payload : Ref) (status : Nat)
    (j : Objects) : Ref × Objects :=
  match jsonObjectNew (ok .container) j with
  | (none, j) => protocolCreateBaseCleanup msg payload (some status) none j
  | (some container, j) =>
    match jsonObjectAdd (ok .addMessage) container msg j with
    | (false, j) => protocolCreateBaseCleanup msg payload (some status) (some container) j
    | (true, j) =>
      match jsonObjectAdd (ok .addSuccess) container (some status) j with
      | (false, j) => protocolCreateBaseCleanup none payload (some status) (some container) j
      | (true, j) =>
        match payload with
        | none => (some container, j)
        | some payload =>
          match jsonObjectAdd (ok .addPayload) container (some payload) j with
          | (false, j) => protocolCreateBaseCleanup none (some payload) none (some container) j
          | (true, j) => (some container, j)

/-- `protocol_create_base`, from the new status on. -/
def protocolCreateStatus (ok : BaseCall → Bool) (msg payload : Ref) (j : Objects) : Ref × Objects :=
  match jsonObjectNew (ok .status) j with
  | (none, j) => protocolCreateBaseCleanup msg payload none none j
  | (some status, j) => protocolCreateContainer ok msg payload status j

/-- `protocol_create_base`; `message` is whether there is a message. -/
def protocolCreateBase (ok : BaseCall → Bool) (message : Bool) (payload : Ref) (j : Objects) :
    Ref × Objects :=
  if message then
    match jsonObjectNew (ok .message) j with
    | (none, j) => protocolCreateBaseCleanup none payload none none j
    | (some msg, j) => protocolCreateStatus ok (some msg) payload j
  else protocolCreateStatus ok none payload j

section
variable (ok : Outcome)

/-- `protocol_create_success`. -/
def protocolCreateSuccess (payload : Ref) (j : Objects) : Ref × Objects :=
  protocolCreateBase (fun c => ok (.success c)) false payload j

/-- `protocol_create_failure`. -/
def protocolCreateFailure (j : Objects) : Ref × Objects :=
  protocolCreateBase (fun c => ok (.failure c)) true none j

/-- The end of `protocol_encode_item` after its label `error`. -/
def protocolEncodeItemError (base value key : Ref) (j : Objects) : Ref × Objects :=
  let j := jsonObjectPut base j
  let j := jsonObjectPut value j
  let j := jsonObjectPut key j
  (none, j)

/-- `protocol_encode_item`, once there is the key or it is null. -/
def protocolEncodeMembers (base : Nat) (key : Ref) (j : Objects) : Ref × Objects :=
  match jsonObjectAdd (ok (.encode .addKey)) base key j with
  | (false, j) => protocolEncodeItemError (some base) none key j
  | (true, j) =>
    match jsonObjectNew (ok (.encode .value)) j with
    | (none, j) => protocolEncodeItemError (some base) none none j
    | (some value, j) =>
      match jsonObjectAdd (ok (.encode .addValue)) base (some value) j with
      | (false, j) => protocolEncodeItemError (some base) (some value) none j
      | (true, j) => (some base, j)

/-- `protocol_encode_item`. -/
def protocolEncodeItem (item : QueueItem) (j : Objects) : Ref × Objects :=
  match jsonObjectNew (ok (.encode .base)) j with
  | (none, j) => protocolEncodeItemError none none none j
  | (some base, j) =>
    match item.key with
    | none => protocolEncodeMembers ok base none j
    | some _ =>
      match jsonObjectNew (ok (.encode .key)) j with
      | (none, j) => protocolEncodeItemError (some base) none none j
      | (some key, j) => protocolEncodeMembers ok base (some key) j

/-! ## Sending -/

/-- `connection_http_json_` and `connection_ws_json_`. -/
def sendJson (object : Ref) (j : Objects) : Objects := jsonObjectPut object j

/-- `connection_http_error_` and `connection_ws_error_`. -/
def sendError (j : Objects) : Objects :=
  let (object, j) := protocolCreateFailure ok j
  sendJson object j

/-- `connection_http_payload_` and `connection_ws_payload_`. -/
def sendPayload (payload : Ref) (j : Objects) : Objects :=
  match protocolCreateSuccess ok payload j with
  | (none, j) => sendError ok (jsonObjectPut payload j)
  | (some object, j) => sendJson (some object) j

def connectionHttpError_ (j : Objects) : Objects := sendError ok j
def connectionHttpPayload_ (payload : Ref) (j : Objects) : Objects := sendPayload ok payload j
def connectionWsError_ (j : Objects) : Objects := sendError ok j
def connectionWsPayload_ (payload : Ref) (j : Objects) : Objects := sendPayload ok payload j

/-! ## Handlers -/

/-- The loop of `manager_queue_foreach` with `list_foreach_callback`. -/
def listForeach (list : Nat) : Nat → List ManagerQueue → Objects → Bool × Objects
  | _, [], j => (true, j)
  | i, _ :: queues, j =>
    match jsonObjectNew (ok (.listName i)) j with
    | (none, j) => (false, j)
    | (some str, j) =>
      match jsonObjectAdd (ok (.listAdd i)) list (some str) j with
      | (false, j) => (false, jsonObjectPut (some str) j)
      | (true, j) => listForeach list (i + 1) queues j

/-- `connection_http_callback_list_`, once the request was read. -/
def connectionHttpCallbackList_ (queues : List ManagerQueue) (j : Objects) : Objects :=
  match jsonObjectNew (ok .list) j with
  | (none, j) => connectionHttpError_ ok j
  | (some list, j) =>
    match listForeach ok list 0 queues j with
    | (false, j) => connectionHttpError_ ok (jsonObjectPut (some list) j)
    | (true, j) => connectionHttpPayload_ ok (some list) j

/-- `connection_http_callback_new_`, once there is the queue. -/
def connectionHttpCallbackNew_ (j : Objects) : Objects :=
  match jsonObjectNew (ok .name) j with
  | (none, j) => connectionHttpError_ ok j
  | (some name, j) => connectionHttpPayload_ ok (some name) j

/-- The end of `connection_http_callback_info_` after its label `cleanup`. -/
def connectionHttpCallbackInfoCleanup (info detail : Ref) (j : Objects) : Objects :=
  connectionHttpError_ ok (jsonObjectPut detail (jsonObjectPut info j))

/-- `connection_http_callback_info_`, once there is the queue. -/
def connectionHttpCallbackInfo_ (j : Objects) : Objects :=
  match jsonObjectNew (ok .name) j with
  | (none, j) => connectionHttpCallbackInfoCleanup ok none none j
  | (some detail, j) =>
    match jsonObjectNew (ok .info) j with
    | (none, j) => connectionHttpCallbackInfoCleanup ok none (some detail) j
    | (some info, j) =>
      match jsonObjectAdd (ok .addName) info (some detail) j with
      | (false, j) => connectionHttpCallbackInfoCleanup ok (some info) (some detail) j
      | (true, j) => connectionHttpPayload_ ok (some info) j

/-- `connection_http_callback_take` and `connection_http_callback_peek`, once
there is the item. -/
def encodeItem (item : QueueItem) (j : Objects) : Objects :=
  match protocolEncodeItem ok item j with
  | (none, j) => connectionHttpError_ ok j
  | (some object, j) => connectionHttpPayload_ ok (some object) j

/-- The end of `connection_queue_callback_wait_` after its label `cleanup`. -/
def connectionQueueCallbackWaitCleanup (response detail : Ref) (j : Objects) : Objects :=
  jsonObjectPut detail (jsonObjectPut response j)

/-- `connection_queue_callback_wait_`, once the response is to have the item. -/
def answerItem (item : QueueItem) (response : Nat) (j : Objects) : Objects :=
  match protocolEncodeItem ok item j with
  | (none, j) => connectionQueueCallbackWaitCleanup (some response) none (connectionWsError_ ok j)
  | (some detail, j) =>
    match jsonObjectAdd (ok .addItem) response (some detail) j with
    | (false, j) =>
      connectionQueueCallbackWaitCleanup (some response) (some detail) (connectionWsError_ ok j)
    | (true, j) =>
      connectionQueueCallbackWaitCleanup none none (connectionWsPayload_ ok (some response) j)

/-- `connection_queue_callback_wait_`, for a want that was not cancelled. -/
def connectionQueueCallbackWait_ (item : QueueItem) (j : Objects) : Objects :=
  match jsonObjectNew (ok .response) j with
  | (none, j) => connectionQueueCallbackWaitCleanup none none (connectionWsError_ ok j)
  | (some response, j) =>
    match jsonObjectNew (ok .identifier) j with
    | (none, j) => connectionQueueCallbackWaitCleanup (some response) none (connectionWsError_ ok j)
    | (some detail, j) =>
      match jsonObjectAdd (ok .addIdentifier) response (some detail) j with
      | (false, j) =>
        connectionQueueCallbackWaitCleanup (some response) (some detail) (connectionWsError_ ok j)
      | (true, j) => answerItem ok item response j

end

/-! ## What is built -/

/-- What a handler builds from its first json-c call on. -/
inductive Reply
  /-- A failure. -/
  | error
  /-- The ids of the queues. -/
  | list (queues : List ManagerQueue)
  /-- The id of a queue, alone or in an object. -/
  | name
  | info
  | item (item : QueueItem)
  /-- A success without a payload. -/
  | done
  /-- The answer to a want. -/
  | answer (item : QueueItem)

/-- A reply, with the outcomes of the calls made for it. -/
structure Building where
  ok : Outcome
  reply : Reply

/-- The objects after a reply was built and sent. -/
def Building.build (j : Objects) (b : Building) : Objects :=
  match b.reply with
  | .error => sendError b.ok j
  | .list queues => connectionHttpCallbackList_ b.ok queues j
  | .name => connectionHttpCallbackNew_ b.ok j
  | .info => connectionHttpCallbackInfo_ b.ok j
  | .item item => encodeItem b.ok item j
  | .done => connectionHttpPayload_ b.ok none j
  | .answer item => connectionQueueCallbackWait_ b.ok item j

/-- What `connection_queue_callback_wait_` builds for a want. -/
def waitBuildings (e : Sending) (want : Nat) (item : QueueItem) (wants : List Want) :
    List Building :=
  match wants.find? (·.id == want) with
  | none => []
  | some w => if w.cancelled then [] else [⟨e.ok, .answer item⟩]

section
variable (dm : DataModel)

/-- What a handler of a queue builds, and `rest` once there is the queue. -/
def queueBuildings (r : Request) (e : Endpoint) (createNew : Bool)
    (rest : Server → Found → List Building) (s : Server) : List Building :=
  match connectionHttpQueue_ dm r e createNew s with
  | (_, none) => [⟨r.ok, .error⟩]
  | (s, some f) => rest s f

/-- What `connection_http_callback_put` builds, once there is the queue. -/
def putBuildings (r : Request) (s : Server) (f : Found) : List Building :=
  match evhttpFindHeader r.params valueKey with
  | none => [⟨r.ok, .error⟩]
  | some value =>
    let key := evhttpFindHeader r.params keyKey
    match queuePutItem r.ok s.next f.mq.q.addr key value with
    | none => [⟨r.ok, .error⟩]
    | some item =>
      match queuePutCallback key f.mq.q with
      | some (_, cb, _) => waitBuildings r.answer cb.arg item s.net.wants ++ [⟨r.ok, .done⟩]
      | none => [⟨r.ok, .done⟩]

/-- What the handler of a request builds. -/
def httpBuildings (r : Request) (s : Server) : List Building :=
  match r.path, r.method with
  | .queues, .get =>
    match connectionHttpRead_ r .list s with
    | (_, false) => [⟨r.ok, .error⟩]
    | (s, true) => [⟨r.ok, .list s.queues⟩]
  | .queues, .post => queueBuildings dm r .new true (fun _ _ => [⟨r.ok, .name⟩]) s
  | .queue, .post => queueBuildings dm r .info false (fun _ _ => [⟨r.ok, .info⟩]) s
  | .queue, .delete => queueBuildings dm r .delete true (fun _ _ => [⟨r.ok, .done⟩]) s
  | .queues, _ | .queue, _ => [⟨r.ok, .error⟩]
  | .take, _ =>
    queueBuildings dm r .take false (fun s f =>
      match (queueTake (evhttpFindHeader r.params keyKey) f.mq.q s.heap).1 with
      | none => [⟨r.ok, .error⟩]
      | some item => [⟨r.ok, .item item⟩]) s
  | .peek, _ =>
    queueBuildings dm r .peek false (fun s f =>
      match (queuePeek (evhttpFindHeader r.params keyKey) f.mq.q s.heap).1 with
      | none => [⟨r.ok, .error⟩]
      | some item => [⟨r.ok, .item item⟩]) s
  | .put, _ => queueBuildings dm r .put false (putBuildings r) s

/-- What `connection_ws_callback_wait` builds. -/
def wantBuildings (m : Message) (c : Nat) (s : Server) : List Building :=
  match connectionWsRead_ m with
  | none => [⟨m.env.ok, .error⟩]
  | some request =>
    match request.identifier with
    | none => [⟨m.env.ok, .error⟩]
    | some identifier =>
      match managerQueueGet dm (.unused m.env.ok s.next) request.queue false s.queues with
      | none => [⟨m.env.ok, .error⟩]
      | some f =>
        match managerQueueWantNew m.env.ok s.next identifier c f.mq.q.addr with
        | none => [⟨m.env.ok, .error⟩]
        | some want =>
          match (queueTake request.key f.mq.q s.heap).1 with
          | some item => waitBuildings m.env want.id item (s.net.wants ++ [want])
          | none => if queueCallbackNew_ m.env.ok request.key then [] else [⟨m.env.ok, .error⟩]

/-- What a message builds. -/
def messageBuildings (c : Nat) (s : Server) (m : Message) : List Building :=
  if m.opcode / 8 % 2 = 1 then []
  else if m.opcode = 1 ∨ m.opcode = 2 then
    if m.env.ok .message && m.env.ok .messageBuffer && m.env.ok .messageAdd then
      wantBuildings dm m c s
    else []
  else []

/-- What the messages read at once build. -/
def readBuildings (c : Nat) : Server → List Message → List Building
  | _, [] => []
  | s, m :: ms => messageBuildings dm c s m ++ readBuildings c (evwsWslayOnMsgCallback_ dm c s m) ms

variable (bioRead : CStr → List Char)

/-- `evws_upgrade_http_cb_` calls the upgrade callback. -/
def reachesUpgradecb (r : Asked) : Bool :=
  match evhttpFindHeader r.headers upgradeHeader, evhttpFindHeader r.headers connectionHeader with
  | some upgrade, some connection =>
    r.upgrade .upgradeHeader && r.upgrade .connectionHeader &&
      headerContains upgrade websocketToken && headerContains connection upgradeHeader &&
      r.request.method == .get && !reqVersionBefore r.version (1, 1) &&
      (evhttpFindHeader r.headers versionHeader).any (atoi dm · == 13) &&
      (evhttpFindHeader r.headers keyHeader).isSome
  | _, _ => false

/-- What a request for a path builds. `connection_http_authenticated` and
`connection_ws_authenticated` build a failure if they refuse it. -/
def pathBuildings (g : Guard) (a : Option Nat) (path : ServerPath) (r : Asked) (p : Program) :
    List Building :=
  match path.handler, g, a with
  | some path, .open, _ => httpBuildings dm { r.request with path } p.server
  | some path, .authenticated _ realm, some a =>
    match connectionWsAuthenticated bioRead a realm r p with
    | (p, true) => httpBuildings dm { r.request with path } p.server
    | (_, false) => [⟨r.request.ok, .error⟩]
  | none, .authenticated _ realm, some a =>
    if reachesUpgradecb dm r && !(connectionWsAuthenticated bioRead a realm r p).2 then
      [⟨r.request.ok, .error⟩]
    else []
  | _, _, _ => []

/-- What a step of the program builds. -/
def buildings (p : Program) (i : ProgramInput) : List Building :=
  if !p.running then []
  else
    match i with
    | .ask r =>
      match p.servers[r.server]? with
      | none => []
      | some v =>
        match r.path.bind fun path => (v.manager.guard path).map fun g => (path, g) with
        | none => []
        | some (path, g) => pathBuildings dm bioRead g v.auth path r p
    | .read c msgs _ _ =>
      if (p.server.net.conn c).alive && !(p.server.net.conn c).closing then
        readBuildings dm c p.server msgs
      else []
    | _ => []

/-- The objects after a step of the program. -/
def objectsAfter (p : Program) (i : ProgramInput) (j : Objects) : Objects :=
  (buildings dm bioRead p i).foldl Building.build j

end

end DQ.Model.Refs
