import Disqueue.Spec.Registry
import Disqueue.Spec.Scanned

/-!
# What replies say about the state

The replies that a request gets (`repliesTo`), and what they should say: a
request that names no id is refused with 400 and one that names no queue with
404 (`RejectsNames`), and a request whose reply is a failure changes nothing
(`FailsUnchanged`). `NamesUuid` and `UndoesFailure` are the conditions under
which they do.
-/

namespace DQ.Spec

open DQ.Model

/-- The code and the body of a reply. -/
def replyOf : Event → Option (Nat × Body)
  | .reply _ _ code b => some (code, b)
  | _ => none

/-- The queues with their items and waiters, and the wants, are the same. -/
structure Unchanged (s s' : Server) : Prop where
  queues : s'.queues = s.queues
  wants : s'.net.wants = s.net.wants

/-- A request for an endpoint that reads a name. -/
def readsName (r : Request) : Bool :=
  match r.path, r.method with
  | .queues, .post | .queue, .post | .queue, .delete => true
  | .queues, _ | .queue, _ => false
  | .take, _ | .peek, _ | .put, _ => true

/-- A request to delete a queue. -/
def asksDelete (r : Request) : Bool := decide (r.path = .queue ∧ r.method = .delete)

/-- A request for a new queue. -/
def asksNew (r : Request) : Bool := decide (r.path = .queues ∧ r.method = .post)

/-- The request names a registered queue. -/
def namesRegistered (r : Request) (s : Server) : Bool :=
  (evhttpFindHeader r.params nameKey).any fun n => registered n s

section
variable (dm : DataModel)

/-- The replies to a request, by their codes and bodies. -/
def repliesTo (r : Request) (s : Server) : List (Nat × Body) :=
  (added dm s (.http r)).filterMap replyOf

/-- The request is refused with the code, and changes nothing. -/
def Refused (code : Nat) (r : Request) (s : Server) : Prop :=
  (repliesTo dm r s).map (·.1) = [code] ∧ Unchanged s (s.step dm (.http r))

/-- A name that is no id's text is refused with 400, and the name of no queue
with 404 by all endpoints but the one that makes it. -/
structure RejectsNames (r : Request) (s : Server) : Prop where
  malformed : ∀ n ∈ evhttpFindHeader r.params nameKey, ¬ IsUuid n → Refused dm 400 r s
  unknown : ∀ n ∈ evhttpFindHeader r.params nameKey, IsUuid n → registered n s = false →
    asksNew r = false → Refused dm 404 r s

/-- A failure's reply means that nothing has changed. -/
def FailsUnchanged (r : Request) (s : Server) : Prop :=
  ∀ p ∈ repliesTo dm r s, p.2.success = false → Unchanged s (s.step dm (.http r))

/-- A name of 36 characters is an id's text, and that of a queue if the
request is to delete one. -/
def NamesUuid (r : Request) (s : Server) : Prop :=
  ∀ n ∈ evhttpFindHeader r.params nameKey, n.length = 36 →
    IsUuid n ∧ (asksDelete r = true → registered n s = true)

/-- What a request does before it replies is not lost by a reply that cannot
be encoded: the name of a queue that was registered, the name of a new one
after it was made, the answer to a deletion, the item taken and the answer to
a put. -/
def UndoesFailure (r : Request) (s : Server) : Prop :=
  (asksNew r = true → ∀ f ∈ requested dm r true s,
    if namesRegistered r s then r.ok .name = true
    else r.ok .name = true → encodesPayload r.ok (some (.name f.mq.id)) = true) ∧
  (asksDelete r = true → (requested dm r true s).isSome → namesRegistered r s = true →
    encodesPayload r.ok none = true) ∧
  (r.path = .take → takeGives dm r s ≠ some false) ∧
  (r.path = .put → (putReached dm r s).isSome → encodesPayload r.ok none = true)

end

end DQ.Spec
