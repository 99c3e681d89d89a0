import Disqueue.Model.Queue

/-!
# What the queue functions can do

`queue_put` fails, stores its item or gives it to a callback
(`queuePut_cases`), and `queue_wait` is given an item, leaves its callback or
fails (`queueWait_cases`). What each does to the queue and what is called is
read off these, whatever the heap is.
-/

namespace DQ.Proof.Queue

open DQ.Model

variable {α σ : Type} {q : Queue α} {key : Option CStr}

@[simp] theorem queueCallbackFree_addr (cb : QueueCallback α) (rest : List (QueueCallback α))
    (q : Queue α) : (queueCallbackFree_ cb rest q).addr = q.addr := by
  unfold queueCallbackFree_
  split <;> rfl

@[simp] theorem queueCallbackFree_items (cb : QueueCallback α) (rest : List (QueueCallback α))
    (q : Queue α) : (queueCallbackFree_ cb rest q).items = q.items := by
  unfold queueCallbackFree_
  split <;> rfl

@[simp] theorem queueCallbackFree_callbacks (cb : QueueCallback α)
    (rest : List (QueueCallback α)) (q : Queue α) :
    (queueCallbackFree_ cb rest q).callbacks = rest := rfl

/-- The callback found is one of the queue's. -/
theorem queuePutCallback_some {pre post : List (QueueCallback α)} {cb : QueueCallback α}
    (h : queuePutCallback key q = some (pre, cb, post)) : q.callbacks = pre ++ cb :: post := by
  unfold queuePutCallback at h
  split at h <;> [skip; cases h]
  split at h <;> [skip; cases h]
  exact (splitFirst_eq_some.mp h).1

theorem queuePut_failed (call : α → QueueItem → Heap × σ → Heap × σ) {ok : Outcome} {id : Nat}
    {value : CStr} (hi : queuePutItem ok id q.addr key value = none) (m : Heap × σ) :
    queuePut call ok id key value q m = (q, m, -1) := by
  simp only [queuePut, hi]

/-- A put that makes its item stores it, or gives it to the callback found. -/
theorem queuePut_cases (call : α → QueueItem → Heap × σ → Heap × σ) {ok : Outcome} {id : Nat}
    {value : CStr} {item : QueueItem} (hi : queuePutItem ok id q.addr key value = some item)
    (m : Heap × σ) :
    (queuePutCallback key q = none ∧ queuePut call ok id key value q m =
      (q.insertItem item, ((m.1.calloc id).setInserted id true, m.2), 0)) ∨
    ∃ pre cb post, queuePutCallback key q = some (pre, cb, post) ∧
      queuePut call ok id key value q m = (queueCallbackFree_ cb (pre ++ post) q,
        (queueItemFree (call cb.arg item (m.1.calloc id, m.2)).1 id,
          (call cb.arg item (m.1.calloc id, m.2)).2), 1) := by
  unfold queuePut
  rw [hi]
  cases queuePutCallback key q with
  | none => exact .inl ⟨rfl, rfl⟩
  | some t =>
    obtain ⟨pre, cb, post⟩ := t
    exact .inr ⟨pre, cb, post, rfl, rfl⟩

/-- A take gives nothing and leaves the queue, or takes an item out. -/
theorem queueTake_cases (key : Option CStr) (q : Queue α) (h : Heap) :
    (∃ h', queueTake key q h = (none, q, h')) ∨
      ∃ i rest h', queueTake key q h = (some i, q.removeItem i rest, h') := by
  unfold queueTake
  rcases queueFind key q h with ⟨_ | ⟨pre, i, post⟩, h'⟩
  · exact .inl ⟨h', rfl⟩
  · exact .inr ⟨i, pre ++ post, _, rfl⟩

/-- A wait gives its callback the item it takes, or else leaves the callback,
or fails. -/
theorem queueWait_cases (call : α → QueueItem → Heap × σ → Heap × σ) (ok : Outcome)
    (key : Option CStr) (arg : α) (q : Queue α) (m : Heap × σ) :
    (∃ i rest h, (queueTake key q m.1).1 = some i ∧ queueWait call ok key arg q m =
      (q.removeItem i rest, (queueItemFree (call arg i (h, m.2)).1 i.id,
        (call arg i (h, m.2)).2), 1)) ∨
    (∃ h, (queueTake key q m.1).1 = none ∧ queueCallbackNew_ ok key = true ∧
      queueWait call ok key arg q m = (q.insertCallback ⟨key, arg⟩, (h, m.2), 0)) ∨
    ∃ h, (queueTake key q m.1).1 = none ∧ queueCallbackNew_ ok key = false ∧
      queueWait call ok key arg q m = (q, (h, m.2), -1) := by
  unfold queueWait
  rcases queueTake_cases key q m.1 with ⟨h, ht⟩ | ⟨i, rest, h, ht⟩
  · rw [ht]
    cases queueCallbackNew_ ok key with
    | true => exact .inr (.inl ⟨h, rfl, rfl, rfl⟩)
    | false => exact .inr (.inr ⟨h, rfl, rfl, rfl⟩)
  · rw [ht]
    exact .inl ⟨i, rest, h, rfl, rfl⟩

end DQ.Proof.Queue
