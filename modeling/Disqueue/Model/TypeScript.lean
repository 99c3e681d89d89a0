import Mathlib.Logic.Function.Basic
import Disqueue.Framework.Grouped

/-!
# The TypeScript client (`disqueue.ts`)

An object of the class `Disqueue`: its handlers, the wants that it sent, and the
handler that runs. A handler is called by `notifyMessage`, so that no message is
handled before it returns or throws.

`waitingHandlers` is a plain object, whose own properties are a list here, in
the order of their creation. `waitingIdentifiers` is only looked up, at
identifiers that `_createIdentifier` made; these are equal to no other, and are
numbered.
-/

namespace DQ.Model.TypeScript

variable {α η : Type}

/-- A want message. A key that is undefined is left out of the text. -/
structure WantMessage where
  queue : String
  identifier : Nat
  key : Option String
deriving DecidableEq

/-- The type of that name: queue, key and handler. -/
abbrev QueueRescheduleItem (η : Type) := String × Option String × η

/-- What a user of an object observes. -/
inductive Output (η : Type)
  | sent (message : WantMessage)
  | ran (handler : η) (key : Option String) (value : String)
deriving DecidableEq

structure State (η : Type) where
  waitingHandlers : List (String × List (Option String × η))
  waitingIdentifiers : Nat → Option (QueueRescheduleItem η)
  /-- The number of the next identifier. -/
  next : Nat
  /-- What `runAndReschedule` is to put back when its handler returns. -/
  running : Option (QueueRescheduleItem η)
  out : List (Output η)

/-- What happens to an object. -/
inductive Input (η : Type)
  | queueHandler (queueId : String) (queueKey : Option String) (func : η)
  | notifyOpen
  /-- A successful message, with the members of its payload. -/
  | notifyMessage (id : Nat) (key : Option String) (value : String)
  /-- The handler that runs returns or throws. -/
  | handled (returns : Bool)

/-- A new object. -/
def State.new : State η := ⟨[], fun _ => none, 0, none, []⟩

/-! ## Plain objects -/

/-- The number of a property name that is an array index. -/
def arrayIndex (name : String) : Option Nat :=
  name.toNat?.filter fun n => toString n = name ∧ n < 4294967295

/-- `Object.entries`: the array indices by number, then the other names by age. -/
def objectEntries (own : List (String × α)) : List (String × α) :=
  ((own.filter fun p => (arrayIndex p.1).isSome).mergeSort fun p q =>
    (arrayIndex p.1).getD 0 ≤ (arrayIndex q.1).getD 0) ++
  own.filter fun p => !(arrayIndex p.1).isSome

/-! ## The methods -/

/-- `queueHandler`, on the own properties. Assigning the property `__proto__`
makes the array the prototype of the object, and the pair is pushed to that. -/
def queueHandler (queueId : String) (queueKey : Option String) (func : η)
    (own : List (String × List (Option String × η))) : List (String × List (Option String × η)) :=
  if queueId = "__proto__" then own else pushGroup queueId (queueKey, func) own

/-- `resendWant`. -/
def resendWant (want : QueueRescheduleItem η) (s : State η) : State η :=
  { s with
    waitingIdentifiers := Function.update s.waitingIdentifiers s.next (some want)
    next := s.next + 1
    out := s.out ++ [.sent ⟨want.1, s.next, want.2.1⟩] }

/-- `notifyOpen`. -/
def notifyOpen (s : State η) : State η :=
  { (ungroup (objectEntries s.waitingHandlers)).foldl (fun s want => resendWant want s) s with
    waitingHandlers := [] }

/-- `notifyMessage`, up to the call of the handler. An identifier that is not
there throws when it is destructured. -/
def notifyMessage (id : Nat) (key : Option String) (value : String) (s : State η) : State η :=
  match s.running, s.waitingIdentifiers id with
  | none, some want =>
    { s with
      waitingIdentifiers := Function.update s.waitingIdentifiers id none
      running := some want
      out := s.out ++ [.ran want.2.2 key value] }
  | _, _ => s

/-- `runAndReschedule`, from the return of the handler on. -/
def handled (returns : Bool) (s : State η) : State η :=
  match s.running with
  | none => s
  | some want =>
    let s := { s with running := none }
    if returns then resendWant want s else s

def step (s : State η) : Input η → State η
  | .queueHandler queueId queueKey func =>
    { s with waitingHandlers := queueHandler queueId queueKey func s.waitingHandlers }
  | .notifyOpen => notifyOpen s
  | .notifyMessage id key value => notifyMessage id key value s
  | .handled returns => handled returns s

end DQ.Model.TypeScript
