import Disqueue.Proof.Queue.Cases
import Disqueue.Spec.Queue

/-!
# The counters of a queue

`Counted` says that the four counters of a queue are the counts of its lists.
With it the early exits of the searches change nothing: `queue_put` finds the
first callback that wants the item (`queuePutCallback_eq`), and `queue_take`
and `queue_peek` find the first item that matches (`queueFind_eq`). Every
function keeps it.
-/

namespace DQ.Proof.Queue

open DQ.Model DQ.Spec

variable {α σ : Type} {q : Queue α}

/-- The counters are the counts of the lists. -/
structure Counted (q : Queue α) : Prop where
  item : q.itemCount = q.items.length
  keyed : q.keyedCount = q.items.countP (·.key.isSome)
  callback : q.callbackCount = q.callbacks.length
  keyedCallback : q.keyedCallbackCount = q.callbacks.countP (·.key.isSome)

theorem counted_new (addr : Nat) (uuid : Nat → UInt8) : Counted (queueNew addr uuid : Queue α) :=
  ⟨rfl, rfl, rfl, rfl⟩

theorem callbackWants_eq (key : Option CStr) (cb : QueueCallback α) :
    callbackWants key cb = keyWants cb.key key := by
  obtain ⟨_ | k, a⟩ := cb <;> cases key <;> rfl

theorem itemMatches_eq (key : Option CStr) (item : QueueItem) :
    itemMatches key item = wants key item := by
  obtain ⟨i, o, _ | k, v⟩ := item
  · cases key <;> rfl
  · cases key with
    | none => rfl
    | some f => exact strcaseEq_comm k f

/-! ## The searches -/

/-- The search of `queue_put` is skipped only when it would find nothing. -/
theorem queuePutCallback_eq (hc : Counted q) (key : Option CStr) :
    queuePutCallback key q = splitFirst (callbackWants key) q.callbacks := by
  unfold queuePutCallback
  split
  · split
    · rfl
    · rename_i h
      -- no key, and all callbacks have one
      simp only [Bool.or_eq_true, Bool.and_eq_true, bne_iff_ne, ne_eq, not_or, not_and,
        Decidable.not_not, Bool.not_eq_true, Option.isSome_eq_false_iff, Option.isNone_iff_eq_none]
        at h
      obtain ⟨hk, rfl⟩ := h
      have hall := hk rfl
      rw [hc.keyedCallback, hc.callback, Int.natCast_inj, List.countP_eq_length] at hall
      refine (splitFirst_eq_none.mpr fun cb hcb => ?_).symm
      obtain ⟨k, hk⟩ := Option.isSome_iff_exists.mp (hall cb hcb)
      simp [callbackWants, hk]
  · rename_i h
    rw [hc.callback] at h
    have : q.callbacks = [] := List.length_eq_zero_iff.mp (by omega)
    rw [this]
    rfl

/-- The search of `queue_take` and `queue_peek` is skipped only when it would
find nothing. -/
theorem queueFind_eq (hc : Counted q) (key : Option CStr) (h : Heap) :
    (queueFind key q h).1 = splitFirst (itemMatches key) q.items := by
  unfold queueFind
  split
  · rename_i h0
    rw [hc.item] at h0
    have : q.items = [] := List.length_eq_zero_iff.mp (by omega)
    rw [this]
    rfl
  · split
    · split <;> (rename_i hs; rw [hs])
    · rename_i hk
      -- a key, and no item has one
      cases key with
      | none => simp at hk
      | some key =>
        simp only [Option.isNone_some, Option.isSome_some, Bool.true_and, Bool.false_or,
          decide_eq_true_eq, hc.keyed] at hk
        have hno := List.countP_eq_zero.mp (show q.items.countP (·.key.isSome) = 0 by omega)
        refine (splitFirst_eq_none.mpr fun item hi => ?_).symm
        have := hno item hi
        rw [Bool.not_eq_true, Option.isSome_eq_false_iff, Option.isNone_iff_eq_none] at this
        simp [itemMatches, this]

theorem queueFind_some (hc : Counted q) {key : Option CStr} {h : Heap} {pre post : List QueueItem}
    {item : QueueItem} (hs : splitFirst (itemMatches key) q.items = some (pre, item, post)) :
    ∃ h', queueFind key q h = (some (pre, item, post), h') :=
  ⟨_, Prod.ext ((queueFind_eq hc key h).trans hs) rfl⟩

theorem queueFind_none (hc : Counted q) {key : Option CStr} {h : Heap}
    (hs : splitFirst (itemMatches key) q.items = none) :
    ∃ h', queueFind key q h = (none, h') :=
  ⟨_, Prod.ext ((queueFind_eq hc key h).trans hs) rfl⟩

/-! ## What each function does to the queue -/

/-- `queue_take` removes the first item that matches. -/
theorem queueTake_some (hc : Counted q) {key : Option CStr} (h : Heap) {pre post : List QueueItem}
    {item : QueueItem} (hs : splitFirst (itemMatches key) q.items = some (pre, item, post)) :
    ∃ h', queueTake key q h = (some item, q.removeItem item (pre ++ post), h') := by
  obtain ⟨h', he⟩ := queueFind_some hc (h := h) hs
  exact ⟨_, by simp only [queueTake, he]; rfl⟩

theorem queueTake_none (hc : Counted q) {key : Option CStr} (h : Heap)
    (hs : splitFirst (itemMatches key) q.items = none) :
    ∃ h', queueTake key q h = (none, q, h') := by
  obtain ⟨h', he⟩ := queueFind_none hc (h := h) hs
  exact ⟨h', by simp only [queueTake, he]⟩

/-- Counting without one element. -/
theorem countP_split {τ : Type} (p : τ → Bool) (pre post : List τ) (x : τ) :
    ((pre ++ x :: post).countP p : Int) = (pre ++ post).countP p + if p x then 1 else 0 := by
  simp only [List.countP_append, List.countP_cons]
  split <;> push_cast <;> omega

theorem Counted.removeItem (hc : Counted q) {pre post : List QueueItem} {item : QueueItem}
    (hl : q.items = pre ++ item :: post) : Counted (q.removeItem item (pre ++ post)) := by
  have h1 := hc.item
  have h2 := hc.keyed
  rw [hl, countP_split] at h2
  simp only [hl, List.length_append, List.length_cons] at h1
  refine ⟨?_, ?_, hc.callback, hc.keyedCallback⟩
  · simp only [Queue.removeItem, List.length_append]
    omega
  · simp only [Queue.removeItem]
    split <;> rename_i hk <;> simp only [hk, if_true, if_false, Bool.false_eq_true] at h2 <;> omega

theorem Counted.callbackFree (hc : Counted q) {pre post : List (QueueCallback α)}
    {cb : QueueCallback α} (hl : q.callbacks = pre ++ cb :: post) :
    Counted (queueCallbackFree_ cb (pre ++ post) q) := by
  have h1 := hc.callback
  have h2 := hc.keyedCallback
  rw [hl, countP_split] at h2
  simp only [hl, List.length_append, List.length_cons] at h1
  unfold queueCallbackFree_
  split <;> rename_i hk <;> simp only [hk, if_true, if_false, Bool.false_eq_true] at h2
  · exact ⟨hc.item, hc.keyed, by simp only [List.length_append]; omega, by dsimp only; omega⟩
  · exact ⟨hc.item, hc.keyed, by simp only [List.length_append]; omega, by dsimp only; omega⟩

theorem Counted.insertItem (hc : Counted q) (item : QueueItem) : Counted (q.insertItem item) := by
  have h1 := hc.item
  have h2 := hc.keyed
  refine ⟨?_, ?_, hc.callback, hc.keyedCallback⟩
  · simp only [Queue.insertItem, List.length_append, List.length_singleton]
    omega
  · simp only [Queue.insertItem, List.countP_append, List.countP_singleton]
    split <;> omega

theorem Counted.insertCallback (hc : Counted q) (cb : QueueCallback α) :
    Counted (q.insertCallback cb) := by
  have h1 := hc.callback
  have h2 := hc.keyedCallback
  refine ⟨hc.item, hc.keyed, ?_, ?_⟩
  · simp only [Queue.insertCallback, List.length_append, List.length_singleton]
    omega
  · simp only [Queue.insertCallback, List.countP_append, List.countP_singleton]
    split <;> omega

end DQ.Proof.Queue
