import Mathlib.Logic.Function.Basic

/-!
# The Python client (`disqueue.py`)

Objects of the class `Disqueue` and the calls of their methods, one at a time,
in any order. `waiting_handlers`, `waiting_identifiers` and `cached_clients` are
attributes of the class: every object has the same dictionaries. `url` and
`auth` are attributes of the object (`Account`). A dictionary that is only
looked up is a function; the one that `notify_open` goes through is a list, in
the order of insertion.

`uuid4` makes identifiers that are equal to no other: an identifier is named by
the object and the call that made it, and by its number among those of the
call. With each handler the object is recorded on which it was registered,
which the program does not know.
-/

namespace DQ.Model.Python

/-- What an object is created with. -/
structure Account where
  url : String
  auth : Option (String × String)
deriving DecidableEq

/-- `QueueClient` (`client.py`). -/
structure QueueClient where
  url : String
  queueId : String
  auth : Option (String × String)
deriving DecidableEq

variable {ω η : Type}

/-- An identifier made by `_create_identifier`. -/
structure Identifier (ω : Type) where
  client : ω
  call : Nat
  index : Nat
deriving DecidableEq

/-- A want message. -/
structure WantMessage (ω : Type) where
  queue : String
  identifier : Identifier ω
  key : Option String
deriving DecidableEq

/-- An element of `waiting_handlers`: the key and the handler, and the object
on which it was registered. -/
structure WaitingItem (ω η : Type) where
  client : ω
  key : Option String
  handler : η
deriving DecidableEq

/-- A value of `waiting_identifiers`. -/
structure RescheduleItem (η : Type) where
  queueId : String
  key : Option String
  handler : η
deriving DecidableEq

/-- A call of `run_and_reschedule` that is to be made: what the closure holds.
The payload has an item, or getting it raises an exception. -/
structure HandlerTask (η : Type) where
  want : RescheduleItem η
  item : Option (Option String × String)
deriving DecidableEq

/-- What a user of an object observes. -/
inductive Output (ω η : Type)
  | sent (message : WantMessage ω)
  | ran (handler : η) (key : Option String) (value : String)
  /-- What `queue` returned, or that it raised an exception. -/
  | returned (client : Option QueueClient)
deriving DecidableEq

/-- The dictionaries of the class, and for each object the tasks that its event
loop will run and what was observed. -/
structure State (ω η : Type) where
  waitingHandlers : List (String × List (WaitingItem ω η))
  waitingIdentifiers : Identifier ω → Option (RescheduleItem η)
  cachedClients : String → Option QueueClient
  tasks : ω → List (HandlerTask η)
  out : ω → List (Output ω η)

/-- A method that is called, or a task that is run. -/
inductive Method (ω η : Type)
  | queueHandler (queueId : String) (key : Option String) (handler : η)
  /-- `info` says whether `client.info()` returns. -/
  | queue (queueId : String) (info : Bool)
  | notifyOpen
  /-- The payload of a successful message with a member `id`, if it is one. -/
  | notifyMessage (payload : Option (Identifier ω × Option (Option String × String)))
  /-- The `k`-th task, and whether the handler returns. -/
  | runAndReschedule (k : Nat) (returns : Bool)

/-- A call, by its object, method and number. -/
structure Call (ω η : Type) where
  client : ω
  method : Method ω η
  number : Nat

/-- The class, before any call. -/
def State.empty : State ω η := ⟨[], fun _ => none, fun _ => none, fun _ => [], fun _ => []⟩

variable [DecidableEq ω]

def State.emit (o : ω) (x : Output ω η) (s : State ω η) : State ω η :=
  { s with out := Function.update s.out o (s.out o ++ [x]) }

/-- `_append_or_create`, on the items of the dictionary. -/
def appendOrCreate (hashkey : String) (handler : WaitingItem ω η) :
    List (String × List (WaitingItem ω η)) → List (String × List (WaitingItem ω η))
  | [] => [(hashkey, [handler])]
  | (queueId, handlers) :: rest =>
    if queueId = hashkey then (queueId, handlers ++ [handler]) :: rest
    else (queueId, handlers) :: appendOrCreate hashkey handler rest

/-- `resend_want`, with the new identifier. An empty key is not sent. -/
def resendWant (newId : Identifier ω) (want : RescheduleItem η) (s : State ω η) : State ω η :=
  { s with waitingIdentifiers := Function.update s.waitingIdentifiers newId (some want) }.emit
    newId.client (.sent ⟨want.queueId, newId, want.key.filter (· ≠ "")⟩)

/-- The items of `waiting_handlers`, in the order in which `notify_open` goes
through them. -/
def waitingItems (handlers : List (String × List (WaitingItem ω η))) :
    List (String × WaitingItem ω η) :=
  handlers.flatMap fun p => p.2.map fun item => (p.1, item)

/-- `notify_open`. -/
def notifyOpen (o : ω) (number : Nat) (s : State ω η) : State ω η :=
  { (waitingItems s.waitingHandlers).zipIdx.foldl (fun s p =>
      resendWant ⟨o, number, p.2⟩ ⟨p.1.1, p.1.2.key, p.1.2.handler⟩ s) s with
    waitingHandlers := [] }

/-- `notify_message`: it takes the want out and makes the task. -/
def notifyMessage (o : ω) (payload : Option (Identifier ω × Option (Option String × String)))
    (s : State ω η) : State ω η :=
  match payload with
  | none => s
  | some (id, item) =>
    match s.waitingIdentifiers id with
    | none => s
    | some want =>
      { s with
        waitingIdentifiers := Function.update s.waitingIdentifiers id none
        tasks := Function.update s.tasks o (s.tasks o ++ [⟨want, item⟩]) }

/-- `run_and_reschedule`. -/
def runAndReschedule (o : ω) (number k : Nat) (returns : Bool) (s : State ω η) : State ω η :=
  match (s.tasks o)[k]? with
  | none => s
  | some task =>
    let s := { s with tasks := Function.update s.tasks o ((s.tasks o).eraseIdx k) }
    match task.item with
    | none => s
    | some (key, value) =>
      let s := s.emit o (.ran task.want.handler key value)
      if returns then resendWant ⟨o, number, 0⟩ task.want s else s

section
variable (account : ω → Account)

/-- `QueueClient(self.url, queue_id, self.auth)`. -/
def ownClient (o : ω) (queueId : String) : QueueClient :=
  ⟨(account o).url, queueId, (account o).auth⟩

/-- `queue`. -/
def queue (o : ω) (queueId : String) (info : Bool) (s : State ω η) : State ω η :=
  match s.cachedClients queueId with
  | some client => s.emit o (.returned (some client))
  | none =>
    let client := ownClient account o queueId
    if info then
      { s with cachedClients := Function.update s.cachedClients queueId (some client) }.emit o
        (.returned (some client))
    else s.emit o (.returned none)

/-- One call. -/
def step (s : State ω η) (c : Call ω η) : State ω η :=
  match c.method with
  | .queueHandler queueId key handler =>
    { s with
      waitingHandlers := appendOrCreate queueId ⟨c.client, key, handler⟩ s.waitingHandlers }
  | .queue queueId info => queue account c.client queueId info s
  | .notifyOpen => notifyOpen c.client c.number s
  | .notifyMessage payload => notifyMessage c.client payload s
  | .runAndReschedule k returns => runAndReschedule c.client c.number k returns s

end

/-- The calls of an interleaving, numbered. -/
def numbered (calls : List (ω × Method ω η)) : List (Call ω η) :=
  calls.zipIdx.map fun p => ⟨p.1.1, p.1.2, p.2⟩

end DQ.Model.Python
