import Disqueue.Spec.Session

/-!
# A queue as its callers see it

To the callers of the libraries, a queue that nobody waits on is a list of keys
and values (`textQueue`). A session is seen from such a queue as calls on it,
and moves of others that do not use it (`Move`): they may read it or try to make
it again, but not put into it, take or delete it, or wait on it.
-/

namespace DQ.Spec

open DQ.Model

/-- A key and a value. -/
abbrev Texts := Option String × String

/-- A call on the queue. -/
inductive QueueCall
  | put (key : Option String) (value : String)
  | take (key : Option String)
  | peek (key : Option String)

def QueueCall.call : QueueCall → ClientCall
  | .put key value => .put key value
  | .take key => .take key
  | .peek key => .peek key

/-- The texts of a call. -/
def QueueCall.texts : QueueCall → List String
  | .put key value => key.toList ++ [value]
  | .take key => key.toList
  | .peek key => key.toList

/-- What the server stores. -/
def Texts.entry (p : Texts) : Entry := ⟨p.1.map received, received p.2⟩

/-- What `take` and `peek` return. -/
def Texts.json (p : Texts) : Json :=
  .object [(keyKey, (p.1.map fun k => .string k.toList).getD .null),
    (valueKey, .string p.2.toList)]

/-- Whether a call with a key gets the value. -/
def fits (key : Option String) (p : Texts) : Bool :=
  keyWants (key.map received) (p.1.map received)

/-- What a call without a value raises. -/
def missing (f : Failure) : Except Raised (Option Json) :=
  .error (.failed (some (.string f.text.toList)))

/-- The queue: a value is put at the end, and the earliest one that fits is
taken. -/
def textQueue : Machine (List Texts) QueueCall (Except Raised (Option Json)) := fun l c =>
  match c with
  | .put key value => (l ++ [(key, value)], [.ok none])
  | .take key =>
    match l.find? (fits key) with
    | none => (l, [missing .noItemToTake])
    | some p => (l.eraseP (fits key), [.ok (some p.json)])
  | .peek key =>
    match l.find? (fits key) with
    | none => (l, [missing .noItemToPeek])
    | some p => (l, [.ok (some p.json)])

/-! ## Sessions -/

/-- Whether a request changes what is in the queue with the name, if there is
one. -/
def Ask.uses (n : CStr) : Ask → Bool
  | .take name _ => name.any (strcaseEq · n)
  | .put name _ _ _ => name.any (strcaseEq · n)
  | .delete name _ => name.any (strcaseEq · n)
  | _ => false

def Note.uses (n : CStr) : Note → Bool
  | .data (some want) _ => want.queue.any (strcaseEq · n)
  | _ => false

def ServiceCall.uses (n : CStr) : ServiceCall → Bool
  | .ask a => a.uses n
  | .notes _ ns _ => ns.any (Note.uses n)
  | _ => false

/-- What the service is called with. -/
def Act.toCall (dm : DataModel) : Act → ServiceCall
  | .call lib queueId c env => .ask (askFor dm lib env queueId c)
  | .event i => callOf dm i

/-- A call on the queue, or something else. -/
inductive Move
  | queue (lib : Library) (call : QueueCall) (env : Env)
  | other (act : Act)

def Move.act (queueId : String) : Move → Act
  | .queue lib call env => .call lib queueId call.call env
  | .other act => act

def Move.queueCall : Move → Option QueueCall
  | .queue _ call _ => some call
  | .other _ => none

/-- What was answered to the calls on the queue. -/
def queueAnswers (moves : List Move) (answers : List (List Seen)) : List (List Seen) :=
  (moves.zip answers).filterMap fun p => p.1.queueCall.map fun _ => p.2

/-- No NUL is in the texts of a call, and what is not a call on the queue does
not use it. -/
def MoveHolds (dm : DataModel) (queueId : String) : Move → Prop
  | .queue _ call _ => ∀ s ∈ call.texts, Char.ofNat 0 ∉ s.toList
  | .other act => (act.toCall dm).uses (received queueId) = false

/-- The queue holds the values, and nobody waits on it. -/
def Holds (queueId : String) (l : List Texts) (t : Service) : Prop :=
  ∃ p, Service.lookup (some (received queueId)) none t.rooms = .ok p ∧
    p.room.line = ⟨l.map Texts.entry, []⟩

end DQ.Spec
