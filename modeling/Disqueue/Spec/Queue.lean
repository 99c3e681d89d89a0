import Disqueue.Framework.Rendezvous
import Disqueue.Model.QueueClient

/-!
# What a queue is for

The reference queue: a rendezvous of items and waiters with optional keys. A
waiter or a request without a key wants every item; one with a key wants the
items whose key is equal to it, ignoring case. There are no counters, and no
search is skipped.
-/

namespace DQ.Spec

open DQ.Model

/-- Whether a filter, an optional key, wants an item with the key `k`. -/
def keyWants (f k : Option CStr) : Bool :=
  match f, k with
  | none, _ => true
  | some f, some k => strcaseEq f k
  | some _, none => false

/-- Whether a filter wants an item. -/
def wants (f : Option CStr) (item : QueueItem) : Bool := keyWants f item.key

/-- The reference queue's items and waiters. -/
abbrev RefQueue (α : Type) := Rendezvous QueueItem (QueueCallback α)

/-- The reference queue, with the results of the calls and the waiters served
with their items. -/
structure RefClient (β : Type) where
  r : RefQueue (β × Nat)
  calls : Nat
  results : List QueueResult
  handed : Handed β

namespace RefClient

/-- A new reference queue. -/
def new {β : Type} : RefClient β := ⟨⟨[], []⟩, 0, [], []⟩

/-- One call, on the queue at `addr`. A put needs memory for the item, its
value and its key, if it has one; a wait that finds nothing needs memory for the
waiter and its key, if it has one. A call that lacks it returns -1 and does
nothing. -/
def step {β : Type} (addr : Nat) (c : RefClient β) : QueueOp β → RefClient β
  | .put ok key value =>
    if ok .item && (key.isNone || ok .itemKey) && ok .itemValue then
      match c.r.put wants QueueCallback.key ⟨c.calls, addr, key, value⟩ with
      | (r, some w) =>
        ⟨r, c.calls + 1, c.results ++ [.code 1],
          c.handed ++ [(w.arg, ⟨c.calls, addr, key, value⟩)]⟩
      | (r, none) => ⟨r, c.calls + 1, c.results ++ [.code 0], c.handed⟩
    else ⟨c.r, c.calls + 1, c.results ++ [.code (-1)], c.handed⟩
  | .take key =>
    let (r, item) := c.r.take wants key
    ⟨r, c.calls + 1, c.results ++ [.item item], c.handed⟩
  | .peek key => ⟨c.r, c.calls + 1, c.results ++ [.item (c.r.peek wants key)], c.handed⟩
  | .wait ok key arg =>
    match c.r.take wants key with
    | (r, some item) =>
      ⟨r, c.calls + 1, c.results ++ [.code 1], c.handed ++ [((arg, c.calls), item)]⟩
    | (r, none) =>
      if ok .callback && (key.isNone || ok .callbackKey) then
        ⟨{ r with waiters := r.waiters ++ [⟨key, (arg, c.calls)⟩] }, c.calls + 1,
          c.results ++ [.code 0], c.handed⟩
      else ⟨r, c.calls + 1, c.results ++ [.code (-1)], c.handed⟩

end RefClient

end DQ.Spec
