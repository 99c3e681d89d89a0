import Disqueue.Model.QueueHolders

/-!
# When the items that clients hold are valid

What `queue.h` and `queue-internal.h` promise the clients that peek and take:
a locked item is not deleted, a taken item is available until it is freed, and
an item is gone when nobody holds it any more.
-/

namespace DQ.Spec

open DQ.Model

variable {ι : Type}

/-- Every item that a client may read is there, and an item that was freed is
released once, when no lock on it is left. -/
structure HoldersValid (s : QueueHolders ι) : Prop where
  locked : ∀ c i, s.phase c = .locked i → (s.heap.cell i).released = 0
  taken : ∀ c i, s.phase c = .taken i → (s.heap.cell i).released = 0
  freed : ∀ i, s.fate i = .freed → (∀ c, s.phase c ≠ .locked i) → (s.heap.cell i).released = 1

/-- The calls that keep items valid: a lock on an item that was not released
since it was peeked at, an unlock that is not the last one on an item whose
taker did not free it yet, and a deletion while no client holds a lock on an
item that is stored. -/
def KeepsValid (s : QueueHolders ι) : HolderOp ι → Prop
  | .lock c =>
    match s.phase c with
    | .peeked i => (s.heap.cell i).released = 0
    | _ => True
  | .unlock c =>
    match s.phase c with
    | .locked i => s.fate i = .taken → (s.heap.cell i).lockcount ≠ 1
    | _ => True
  | .delete =>
    match s.q with
    | some q => ∀ item ∈ q.items, ∀ c, s.phase c ≠ .locked item.id
    | none => True
  | _ => True

end DQ.Spec
