import Disqueue.Spec.Taker

/-!
# What a network does with items

An item is put when a put succeeds, and taken when a take returns it. It is
handled when a handler is called with it, and then it is an item of the queue for
which the handler was registered. Names are compared without case, so an item is
named by the queue's name in lower case.
-/

namespace DQ.Spec

open DQ.Model

/-- An entry, with the name of its queue. -/
abbrev Item := CStr × Entry

def isGranted (out : List Sent) : Bool :=
  out.any fun
    | .reply code _ => code = 200
    | .message .. => false

/-- The item that a call puts. -/
def putBy : ServiceCall → List Sent → List Item
  | .ask (.put (some n) key (some value) _), out =>
    if isGranted out then [(fold n, ⟨key, value⟩)] else []
  | _, _ => []

/-- The entry in a payload. -/
def entryOf (payload : Json) : Option Entry :=
  match jsonMember keyKey payload, jsonMember valueKey payload with
  | some .null, some (.string value) => some ⟨none, value⟩
  | some (.string key), some (.string value) => some ⟨some key, value⟩
  | _, _ => none

/-- The items that a call returns. -/
def takenBy : ServiceCall → List Sent → List Item
  | .ask (.take (some n) _), out =>
    out.filterMap fun
      | .reply _ json => ((jsonMember payloadKey json).bind entryOf).map fun x => (fold n, x)
      | .message .. => none
  | _, _ => []

/-- The entry with the texts. -/
def textsEntry (p : Texts) : Entry :=
  ⟨p.1.map fun k => chars (utf8 k), chars (utf8 p.2)⟩

section
variable {η : Type} (dm : DataModel)

def sentBy : NetworkOutput η → Option Sent
  | .sent o => some o
  | .ran .. => none

def itemsPut (a : NetworkInput η) (out : List (NetworkOutput η)) : List Item :=
  match a with
  | .call i => putBy (callOf dm i) (out.filterMap sentBy)
  | _ => []

def itemsTaken (a : NetworkInput η) (out : List (NetworkOutput η)) : List Item :=
  match a with
  | .call i => takenBy (callOf dm i) (out.filterMap sentBy)
  | _ => []

/-- The items that handlers are called with, which know their queue. -/
def itemsHandled (queueOf : η → String) (out : List (NetworkOutput η)) : List Item :=
  out.filterMap fun
    | .sent _ => none
    | .ran _ handler key value => some (fold (received (queueOf handler)), textsEntry (key, value))

/-- Of all inputs and what was answered to them. -/
def total {α : Type} (f : NetworkInput η → List (NetworkOutput η) → List α)
    (inputs : List (NetworkInput η)) (outs : List (List (NetworkOutput η))) : List α :=
  (inputs.zip outs).flatMap fun p => f p.1 p.2

/-- Each handler knows for which queue and key it is registered, and the
allocations of the server succeed. -/
def NetworkHolds (queueOf : η → String) (keyOf : η → Option String) : NetworkInput η → Prop
  | .call i => NothingFails i
  | .connect _ handlers =>
    ∀ r ∈ handlers, queueOf r.handler = r.queue ∧ keyOf r.handler = r.key
  | .read _ envs _ _ => ∀ env ∈ envs, ∀ c, env.ok c = true
  | .notify _ => True
  | .handled .. => True

/-- A handler is called with an item that it is for. A handler with an empty key
may be for every item. -/
def HandlesMeant (keyOf : η → Option String) : NetworkOutput η → Prop
  | .sent _ => True
  | .ran _ handler key value =>
    keyOf handler = some "" ∨
      entryWants ((keyOf handler).map received) (textsEntry (key, value)) = true

/-- What happens in a run of the server and its clients, from its start. -/
def answersOf (names : Writing) (inputs : List (NetworkInput η)) :
    List (List (NetworkOutput η)) :=
  (Network.step (server dm) Server.next names).answers ⟨.startup, []⟩ inputs

/-- The service, called as the server is. -/
def serviceCalls : Machine Service Input Sent := fun t i => Service.step t (callOf dm i)

end

end DQ.Spec
