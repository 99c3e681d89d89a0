import Disqueue.Framework.Desk
import Disqueue.Framework.Run
import Disqueue.Model.Python
import Disqueue.Model.TypeScript

/-!
# Clients that keep their handlers

After a connection opened, each handler that was registered either runs, or
there is one want for its queue and key that was sent, and whose identifier is
recorded, so that it was not answered yet (`Subscribed`).
-/

namespace DQ.Spec

/-- What happens after a connection opened: an item is delivered for an
identifier, and a handler that runs returns or raises an exception. -/
inductive Later (ι κ : Type)
  | delivered (id : ι) (key : Option String) (value : String)
  | handled (k : κ) (returns : Bool)

variable {ω η : Type}

/-! ## The Python client -/

namespace Python

open DQ.Model.Python

def wantSent : Output ω η → Option (WantMessage ω)
  | .sent message => some message
  | _ => none

/-- The want is for the queue and the key. -/
def asksFor (m : WantMessage ω) (want : RescheduleItem η) : Bool :=
  m.queue = want.queueId ∧ m.key = want.key

/-- The wants that an object sent, and the handlers that run on its event loop. -/
def desk (o : ω) (s : State ω η) : Desk (WantMessage ω) (Identifier ω) (RescheduleItem η) :=
  ⟨(s.out o).filterMap wantSent, s.waitingIdentifiers, (s.tasks o).map (·.want)⟩

def Subscribed (o : ω) (registered : List (RescheduleItem η)) (s : State ω η) : Prop :=
  (desk o s).Keeps WantMessage.identifier asksFor registered

variable [DecidableEq ω] (account : ω → Account) (o : ω)

/-- A call on the object, numbered. -/
def callStep (s : State ω η × Nat) (m : Method ω η) : State ω η × Nat :=
  (step account s.1 ⟨o, m, s.2⟩, s.2 + 1)

/-- The handlers are registered in order, and the connection opens. -/
def opened (registered : List (RescheduleItem η)) : State ω η × Nat :=
  run (callStep account o) (State.empty, 0)
    (registered.map (fun r => .queueHandler r.queueId r.key r.handler) ++ [.notifyOpen])

def laterStep (s : State ω η × Nat) : Later (Identifier ω) Nat → State ω η × Nat
  | .delivered id key value => callStep account o s (.notifyMessage (some (id, some (key, value))))
  | .handled k returns => callStep account o s (.runAndReschedule k returns)

/-- No handler that runs raises an exception. -/
def HandlerReturns (s : State ω η × Nat) : Later (Identifier ω) Nat → Prop
  | .delivered _ _ _ => True
  | .handled k returns => returns = true ∨ (s.1.tasks o)[k]? = none

end Python

/-! ## The TypeScript client -/

namespace TypeScript

open DQ.Model.TypeScript

def wantSent : Output η → Option WantMessage
  | .sent message => some message
  | _ => none

/-- The want is for the queue and the key. -/
def asksFor (m : WantMessage) (want : QueueRescheduleItem η) : Bool :=
  m.queue = want.1 ∧ m.key = want.2.1

/-- The wants that were sent, and the handler that runs. -/
def desk (s : State η) : Desk WantMessage Nat (QueueRescheduleItem η) :=
  ⟨s.out.filterMap wantSent, s.waitingIdentifiers, s.running.toList⟩

def Subscribed (registered : List (QueueRescheduleItem η)) (s : State η) : Prop :=
  (desk s).Keeps WantMessage.identifier asksFor registered

/-- The handlers are registered in order, and the connection opens. -/
def opened (registered : List (QueueRescheduleItem η)) : State η :=
  run step State.new (registered.map (fun r => .queueHandler r.1 r.2.1 r.2.2) ++ [.notifyOpen])

def laterStep (s : State η) : Later Nat Unit → State η
  | .delivered id key value => step s (.notifyMessage id key value)
  | .handled _ returns => step s (.handled returns)

/-- The handler that runs does not throw. -/
def HandlerReturns (s : State η) : Later Nat Unit → Prop
  | .delivered _ _ _ => True
  | .handled _ returns => returns = true ∨ s.running = none

end TypeScript

end DQ.Spec
