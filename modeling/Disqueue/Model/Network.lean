import Disqueue.Framework.Machine
import Disqueue.Model.Form
import Disqueue.Model.Server
import Disqueue.Model.TypeScript

/-!
# The server and clients that wait (`disqueue.py`, `disqueue.ts`)

Objects of the class `Disqueue`, each in a program of its own, which is written
with either library, and the server to which they are connected. What an object
sends is on its way (`Peer.up`) until the server reads it, in order, and what the
server sends is on its way (`Peer.down`) until the object is notified of it. In
between anything else happens to the server: requests, and other connections.

The server is a machine that is given the calls of the event loop, and gives the
next connection its number. The text of an identifier is different from that of
every other (`Names`), which is what `uuid4` and `_createIdentifier` are for.
-/

namespace DQ.Model

/-! ## Messages -/

/-- The text of its bytes in UTF-8. -/
def ofUtf8 (s : CStr) : Option String :=
  (String.fromUTF8? (s.map fun c => UInt8.ofNat c.toNat).toByteArray).filter fun text =>
    chars (utf8 text) = s

/-- The texts of identifiers. -/
structure Names (ι : Type) where
  text : ι → String
  read : String → Option ι
  read_text : ∀ i, read (text i) = some i
  text_read : ∀ s, ∀ i ∈ read s, text i = s
  /-- No text has a NUL. -/
  plain : ∀ i, Char.ofNat 0 ∉ (text i).toList

/-- The object that `resend_want` and `resendWant` make a message of. -/
structure WantText where
  queue : String
  identifier : String
  key : Option String
deriving DecidableEq

/-- What `json_get_string` gives. -/
def WantText.request (m : WantText) : WantRequest :=
  ⟨some (received m.identifier), some (received m.queue), m.key.map received⟩

def jsonMember (key : CStr) : Json → Option Json
  | .object members => members.lookup key
  | _ => none

def stringText : Json → Option String
  | .string s => ofUtf8 s
  | _ => none

/-- The members `key` and `value`. -/
def itemTexts (item : Json) : Option (Option String × String) :=
  match jsonMember keyKey item, (jsonMember valueKey item).bind stringText with
  | some .null, some value => some (none, value)
  | some key, some value => (stringText key).map fun k => (some k, value)
  | none, _ => none
  | _, none => none

/-- The payload of a successful message: the identifier, and the item. -/
def payloadTexts (message : Json) : Option (String × Option String × String) :=
  match jsonMember successKey message, jsonMember payloadKey message with
  | some (.bool true), some payload =>
    match (jsonMember idKey payload).bind stringText,
      (jsonMember itemKey payload).bind itemTexts with
    | some id, some item => some (id, item)
    | _, _ => none
  | _, _ => none

/-! ## Clients -/

/-- How identifiers are written in either library. -/
structure Writing where
  python : Names (Python.Identifier Unit)
  typeScript : Names Nat

/-- An object, in a program of its own. With Python's is the number of the next
call. -/
inductive Client (η : Type)
  | python (s : Python.State Unit η × Nat)
  | typeScript (s : TypeScript.State η)

/-- A handler that is registered before the object connects. -/
structure Registration (η : Type) where
  queue : String
  key : Option String
  handler : η

/-- What an object does. -/
inductive Heard (η : Type)
  | want (m : WantText)
  | ran (handler : η) (key : Option String) (value : String)

/-- A message comes, or a handler that was called returns or raises an exception.
The `k`-th task is run in Python. -/
inductive ClientInput
  | message (json : Json)
  | handled (k : Nat) (returns : Bool)

namespace Client

variable {η : Type} (names : Writing)

/-- A method is called. -/
def pythonCall (s : Python.State Unit η × Nat) (m : Python.Method Unit η) :
    Python.State Unit η × Nat :=
  (Python.step (fun _ => ⟨"", none⟩) s.1 ⟨(), m, s.2⟩, s.2 + 1)

def pythonHandler (r : Registration η) : Python.Method Unit η :=
  .queueHandler r.queue r.key r.handler

def typeScriptHandler (r : Registration η) : TypeScript.Input η :=
  .queueHandler r.queue r.key r.handler

/-- The handlers are registered, and the connection opens. -/
def connected (handlers : List (Registration η)) : Library → Client η
  | .python =>
    .python ((handlers.map pythonHandler ++ [Python.Method.notifyOpen]).foldl pythonCall
      (.empty, 0))
  | .typeScript =>
    .typeScript ((handlers.map typeScriptHandler ++ [TypeScript.Input.notifyOpen]).foldl
      TypeScript.step .new)

def pythonHeard : Python.Output Unit η → Option (Heard η)
  | .sent m => some (.want ⟨m.queue, names.python.text m.identifier, m.key⟩)
  | .ran handler key value => some (.ran handler key value)
  | .returned _ => none

def typeScriptHeard : TypeScript.Output η → Heard η
  | .sent m => .want ⟨m.queue, names.typeScript.text m.identifier, m.key⟩
  | .ran handler key value => .ran handler key value

/-- What an object did so far. -/
def heard : Client η → List (Heard η)
  | .python s => (s.1.out ()).filterMap (pythonHeard names)
  | .typeScript s => s.out.map (typeScriptHeard names)

/-- The identifier of a payload that has one. -/
def identified {ι : Type} (names : Names ι) (message : Json) :
    Option (ι × Option String × String) :=
  (payloadTexts message).bind fun p => (names.read p.1).map fun id => (id, p.2)

def after : Client η → ClientInput → Client η
  | .python s, .message json =>
    .python (pythonCall s (.notifyMessage
      ((identified names.python json).map fun p => (p.1, some p.2))))
  | .python s, .handled k returns => .python (pythonCall s (.runAndReschedule k returns))
  | .typeScript s, .message json =>
    match identified names.typeScript json with
    | none => .typeScript s
    | some (id, key, value) => .typeScript (TypeScript.step s (.notifyMessage id key value))
  | .typeScript s, .handled _ returns => .typeScript (TypeScript.step s (.handled returns))

/-- No handler keeps the program from reading messages. -/
def ready : Client η → Bool
  | .python _ => true
  | .typeScript s => s.running.isNone

def step : Machine (Client η) ClientInput (Heard η) := fun x i =>
  (x.after names i, ((x.after names i).heard names).drop (x.heard names).length)

end Client

/-! ## The network -/

/-- An object, the number of its connection, and what is on its way between the
object and the server. -/
structure Peer (η : Type) where
  conn : Nat
  client : Client η
  up : List WantText
  down : List Json

structure Network (σ η : Type) where
  server : σ
  peers : List (Peer η)

/-- What happens. An object is named by its place in the order in which they
connected. -/
inductive NetworkInput (η : Type)
  /-- A call by the event loop that no object is the reason for. -/
  | call (i : Input)
  | connect (lib : Library) (handlers : List (Registration η))
  /-- The server reads the messages of an object, as many as there are `envs`. -/
  | read (k : Nat) (envs : List Sending) (recv : Int) (e : Wslay)
  /-- An object is notified of the next message. -/
  | notify (k : Nat)
  | handled (k j : Nat) (returns : Bool)

inductive NetworkOutput (η : Type)
  | sent (o : Sent)
  | ran (k : Nat) (handler : η) (key : Option String) (value : String)

namespace Network

variable {σ η : Type}

def wantText : Heard η → Option WantText
  | .want m => some m
  | .ran .. => none

def handlerRan (k : Nat) : Heard η → Option (NetworkOutput η)
  | .want _ => none
  | .ran handler key value => some (.ran k handler key value)

/-- The messages on a connection. -/
def messagesTo (conn : Nat) (out : List Sent) : List Json :=
  out.filterMap fun
    | .message c json => if c = conn then some json else none
    | .reply .. => none

/-- What the server sends is on its way. -/
def deliver (out : List Sent) (peers : List (Peer η)) : List (Peer η) :=
  peers.map fun p => { p with down := p.down ++ messagesTo p.conn out }

/-- The connection of an object, on which nobody else sends. -/
def isRead (i : Input) (peers : List (Peer η)) : Bool :=
  match i with
  | .read c .. => peers.any (·.conn = c)
  | _ => false

/-- What the server reads on a connection. -/
def readMessages (up : List WantText) (envs : List Sending) : List Message :=
  List.zipWith (fun m env => ⟨1, some m.request, env⟩) up envs

section
variable (server : Machine σ Input Sent) (number : σ → Nat) (names : Writing)

/-- The event loop calls the server. -/
def serve (i : Input) (net : Network σ η) : Network σ η × List (NetworkOutput η) :=
  ({ net with server := (server net.server i).1
              peers := deliver (server net.server i).2 net.peers },
    (server net.server i).2.map .sent)

/-- An object goes on. -/
def goOn (k : Nat) (p : Peer η) (i : ClientInput) (net : Network σ η) :
    Network σ η × List (NetworkOutput η) :=
  let (client, heard) := p.client.step names i
  ({ net with peers := net.peers.set k { p with client, up := p.up ++ heard.filterMap wantText } },
    heard.filterMap (handlerRan k))

def step : Machine (Network σ η) (NetworkInput η) (NetworkOutput η) := fun net a =>
  match a with
  | .call i => if isRead i net.peers then (net, []) else serve server i net
  | .connect lib handlers =>
    let client : Client η := .connected handlers lib
    let (net', out) := serve server .opened net
    ({ net' with peers := net'.peers ++
        [⟨number net.server, client, (client.heard names).filterMap wantText, []⟩] }, out)
  | .read k envs recv e =>
    match net.peers[k]? with
    | none => (net, [])
    | some p =>
      serve server (.read p.conn (readMessages p.up envs) recv e)
        { net with peers := net.peers.set k { p with up := p.up.drop envs.length } }
  | .notify k =>
    match net.peers[k]? with
    | none => (net, [])
    | some p =>
      match p.client.ready, p.down with
      | true, json :: down => goOn names k { p with down } (.message json) net
      | _, _ => (net, [])
  | .handled k j returns =>
    match net.peers[k]? with
    | none => (net, [])
    | some p => goOn names k p (.handled j returns) net

end

end Network

end DQ.Model
