import Disqueue.Model.Network
import Disqueue.Spec.TextQueue

/-!
# What a client that waits is

A `Taker` has a subscription for each identifier that was not answered yet, those
that were answered and whose handlers are to be called with an item, and those
whose handlers were called and did not return. The relations say what a message
(`Notified`) and the end of a handler (`Ended`) may do to it. It asks again for a
subscription under an identifier that is not recorded, and as it did before.
-/

namespace DQ.Spec

open DQ.Model

/-- A queue, the key with which it is asked for and a handler. -/
structure Subscription (η : Type) where
  queue : String
  key : Option String
  handler : η

/-- The message that asks for a subscription. -/
def Subscription.ask {η : Type} (w : Subscription η) (id : String) : WantText :=
  ⟨w.queue, id, w.key⟩

structure Taker (η : Type) where
  record : String → Option (Subscription η)
  pending : List (Subscription η × Texts)
  running : List (Subscription η)

namespace Taker

variable {η : Type}

/-- The subscription that was asked for under the identifier is taken out. -/
def takeOut (id : String) (t : Taker η) : Taker η :=
  { t with record := Function.update t.record id none }

/-- What a message does: nothing, or the handler waits, or it is called. -/
inductive Notified (t : Taker η) : Option (String × Texts) → Taker η → List (Heard η) → Prop
  | ignored {payload} (h : ∀ p ∈ payload, t.record p.1 = none) : Notified t payload t []
  | waits {id item w} (h : t.record id = some w) :
    Notified t (some (id, item)) { t.takeOut id with pending := t.pending ++ [(w, item)] } []
  | called {id key value w} (h : t.record id = some w) :
    Notified t (some (id, key, value)) { t.takeOut id with running := t.running ++ [w] }
      [.ran w.handler key value]

/-- The subscription is asked for again. -/
inductive Again (w : Subscription η) (t : Taker η) : Bool → Taker η → List (Heard η) → Prop
  | lost : Again w t false t []
  | asked {id} (hnew : t.record id = none) (hplain : Char.ofNat 0 ∉ id.toList) :
    Again w t true { t with record := Function.update t.record id (some w) } [.want (w.ask id)]

/-- What the end of a handler does, which returned or not: nothing, or a handler
that waited is called and the subscription is asked for again, or that was called
before. -/
inductive Ended (t : Taker η) (returns : Bool) : Taker η → List (Heard η) → Prop
  | idle : Ended t returns t []
  | waited {pre w key value post t' out} (h : t.pending = pre ++ (w, key, value) :: post)
    (hagain : Again w { t with pending := pre ++ post } returns t' out) :
    Ended t returns t' (.ran w.handler key value :: out)
  | called {pre w post t' out} (h : t.running = pre ++ w :: post)
    (hagain : Again w { t with running := pre ++ post } returns t' out) : Ended t returns t' out

end Taker

/-! ## The libraries' objects -/

section
variable {η : Type} (names : Writing)

/-- An empty key is not sent. -/
def pythonSubscription (w : Python.RescheduleItem η) : Subscription η :=
  ⟨w.queueId, w.key.filter (· ≠ ""), w.handler⟩

def typeScriptSubscription (w : TypeScript.QueueRescheduleItem η) : Subscription η :=
  ⟨w.1, w.2.1, w.2.2⟩

/-- What is recorded for the text of an identifier. -/
def recordOf {ι α : Type} (names : Names ι) (record : ι → Option α) (id : String) : Option α :=
  (names.read id).bind record

def pythonPending (task : Python.HandlerTask η) : Option (Subscription η × Texts) :=
  task.item.map fun item => (pythonSubscription task.want, item)

/-- An object as a taker. -/
def takerOf : Client η → Taker η
  | .python s =>
    ⟨recordOf names.python fun i => (s.1.waitingIdentifiers i).map pythonSubscription,
      (s.1.tasks ()).filterMap pythonPending, []⟩
  | .typeScript s =>
    ⟨recordOf names.typeScript fun i => (s.waitingIdentifiers i).map typeScriptSubscription,
      [], s.running.toList.map typeScriptSubscription⟩

/-- What an object asks for when it connects. Nothing is registered for the name
`__proto__` of a plain object. -/
def subscriptions (handlers : List (Registration η)) : Library → List (Subscription η)
  | .python => handlers.map fun r => pythonSubscription ⟨r.queue, r.key, r.handler⟩
  | .typeScript =>
    (handlers.filter (·.queue ≠ "__proto__")).map fun r =>
      typeScriptSubscription (r.queue, r.key, r.handler)

end

end DQ.Spec
