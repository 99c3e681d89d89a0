import Disqueue.Model.Form
import Disqueue.Spec.SameClients
import Disqueue.Spec.Service

/-!
# Calls of the libraries on the service

A call of either library sends requests, which the server handles
(`sendRequest`). Seen by its caller, it is an operation of the service with a
value or a failure (`Service.call`, `returned`): no text, JSON or code of a reply
is left in it. A session is calls of both libraries and whatever else happens to
the server, in any order: on the server (`serverSession`), whose state is what
the libraries' requests make of it, and on the service (`serviceSession`).
-/

namespace DQ.Spec

open DQ.Model

/-- The call, in either library. -/
def libraryCall {m : Type → Type} [Monad m] (url queueId : String) (auth : Option (String × String))
    (lib : Library) (send : ClientRequest → m (Option Json)) (call : ClientCall) :
    ExceptT Raised m (Option Json) :=
  match lib with
  | .python => pythonCall url queueId auth send call
  | .typeScript => typeScriptCall url queueId auth send call

/-! ## What a call is to the service -/

/-- What a call gives. -/
inductive Value
  | nothing
  | entry (x : Entry)
  | text (s : CStr)
  | texts (l : List CStr)
  | info (name : CStr)

/-- The value as the caller gets it. -/
def Value.json (decode : CStr → CStr) : Value → Option Json
  | .nothing => none
  | .entry x =>
    some (.object [(keyKey, (x.key.map fun k => .string (decode k)).getD .null),
      (valueKey, .string (decode x.value))])
  | .text s => some (.string (decode s))
  | .texts l => some (.array (l.map fun s => .string (decode s)))
  | .info name => some (.object [(nameKey, .string (decode name))])

/-- The value that a request is answered with, or its failure. -/
def Service.call (t : Service) : Ask → Except Failure Value
  | .list => .ok (.texts (t.rooms.map (·.name)))
  | .create name made =>
    match lookup name (some made) t.rooms with
    | .error (_, f) => .error f
    | .ok p => .ok (.text p.room.name)
  | .info name =>
    match lookup name none t.rooms with
    | .error (_, f) => .error f
    | .ok p => .ok (.info p.room.name)
  | .delete name made =>
    match lookup name (some made) t.rooms with
    | .error (_, f) => .error f
    | .ok _ => .ok .nothing
  | .take name key =>
    match lookup name none t.rooms with
    | .error (_, f) => .error f
    | .ok p =>
      match (p.room.line.take entryWants key).2 with
      | none => .error .noItemToTake
      | some x => .ok (.entry x)
  | .peek name key =>
    match lookup name none t.rooms with
    | .error (_, f) => .error f
    | .ok p =>
      match p.room.line.peek entryWants key with
      | none => .error .noItemToPeek
      | some x => .ok (.entry x)
  | .put name _ value _ =>
    match lookup name none t.rooms with
    | .error (_, f) => .error f
    | .ok _ => if value.isSome then .ok .nothing else .error .missingValue
  | .unsupported => .error .methodNotSupported

/-- What the caller gets: the value, or an exception with the failure's text.
Python's `put` does not look at the reply. -/
def returned (decode : CStr → CStr) (lib : Library) (call : ClientCall) :
    Except Failure Value → Except Raised (Option Json)
  | .ok v => .ok (v.json decode)
  | .error f =>
    match lib, call with
    | .python, .put .. => .ok none
    | _, _ => .error (.failed (some (.string f.text.toList)))

section
variable (dm : DataModel)

/-- The id of the queue that a request makes under a name, as in `newId`. -/
def idFor (env : Env) : Option CStr → Option CStr
  | some n => (parseUuid dm env.stack n).map (queueGetUuid dm)
  | none => some (queueGetUuid dm (randomUuid env.rand))

/-- The name that `queue_create` or `queueCreate` sends. -/
def createName (lib : Library) (name : Option String) : Option String :=
  match lib with
  | .python => name.filter (· ≠ "")
  | .typeScript => name

/-- The request of a call, to the service. -/
def askFor (lib : Library) (env : Env) (queueId : String) : ClientCall → Ask
  | .put key value =>
    .put (some (received queueId)) (key.map received) (some (received value))
      (sendFate env.answer.wslay)
  | .take key => .take (some (received queueId)) (key.map received)
  | .peek key => .peek (some (received queueId)) (key.map received)
  | .delete => .delete (some (received queueId)) (idFor dm env (some (received queueId)))
  | .info => .info (some (received queueId))
  | .create name =>
    .create ((createName lib name).map received) (idFor dm env ((createName lib name).map received))
  | .list => .list

/-! ## Sessions -/

/-- A call of a library on a queue, or something else that happens. -/
inductive Act
  | call (lib : Library) (queueId : String) (call : ClientCall) (env : Env)
  | event (i : Input)

/-- What is seen of an act: what a call returns or raises, messages, and replies
to requests that no library made. -/
inductive Seen
  | result (r : Except Raised (Option Json))
  | sent (o : Sent)

/-- The messages that a request causes. -/
def messagesOf (out : List Sent) : List Seen := (out.filter Sent.isMessage).map .sent

section
variable (h : HttpLayer) (url : String) (auth : Option (String × String))

/-- Sending a request to the server: its state is what handling the request makes
of it, and what it sends is added to what it sent. Nothing is parsed of the reply
to a path without a handler. -/
def sendRequest (lib : Library) (env : Env) (c : ClientRequest) :
    StateM (Server × List Sent) (Option Json) := fun (s, out) =>
  match h.request lib env c with
  | none => (none, s, out)
  | some r => (h.reply (server dm s (.http r)).2, (server dm s (.http r)).1,
      out ++ (server dm s (.http r)).2)

/-- A session on the server. -/
def serverSession : Machine Server Act Seen := fun s act =>
  match act with
  | .call lib queueId call env =>
    let (result, s, out) :=
      (libraryCall url queueId auth lib (sendRequest dm h lib env) call).run.run (s, [])
    (s, messagesOf out ++ [.result result])
  | .event i => ((server dm s i).1, (server dm s i).2.map .sent)

/-- A session on the service. -/
def serviceSession : Machine Service Act Seen := fun t act =>
  match act with
  | .call lib queueId call env =>
    let ask := askFor dm lib env queueId call
    ((Service.step t (.ask ask)).1,
      messagesOf (Service.step t (.ask ask)).2 ++
        [.result (returned h.decode lib call (t.call ask))])
  | .event i => ((Service.step t (callOf dm i)).1, (Service.step t (callOf dm i)).2.map .sent)

end

end

/-- Nothing fails during the act. -/
def ActHolds : Act → Prop
  | .call _ _ _ env => (∀ c, env.ok c = true) ∧ ∀ c, env.answer.ok c = true
  | .event i => NothingFails i

end DQ.Spec
