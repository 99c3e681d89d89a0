import Disqueue.Model.Queue

/-!
# What the queue functions do to the heap

On items that were not released, reading changes nothing, and each function
sets the cell of one item (`Heap.set`). A second release is recorded twice:
`queue_item_free` reads the item before it frees it (`queueItemFree_twice`).
-/

namespace DQ.Proof.Server

open DQ.Model

/-- The heap with another cell at `id`. -/
def setCell (h : Heap) (id : Nat) (c : Cell) : Heap :=
  { h with cell := Function.update h.cell id c }

@[simp] theorem setCell_self (h : Heap) (id : Nat) (c : Cell) : (setCell h id c).cell id = c :=
  Function.update_self ..

@[simp] theorem setCell_of_ne (h : Heap) {id id' : Nat} (hn : id' ≠ id) (c : Cell) :
    (setCell h id c).cell id' = h.cell id' :=
  Function.update_of_ne hn ..

@[simp] theorem setCell_faults (h : Heap) (id : Nat) (c : Cell) :
    (setCell h id c).faults = h.faults := rfl

@[simp] theorem setCell_setCell (h : Heap) (id : Nat) (c c' : Cell) :
    setCell (setCell h id c) id c' = setCell h id c' := by
  simp [setCell]

theorem setCell_cell (h : Heap) (id : Nat) : setCell h id (h.cell id) = h := by
  simp [setCell]

variable {h : Heap} {id : Nat}

theorem read_live (hl : (h.cell id).released = 0) : h.read id = h := by
  simp only [Heap.read, hl, if_true]

theorem readAll_live {ids : List Nat} (hl : ∀ id ∈ ids, (h.cell id).released = 0) :
    h.readAll ids = h := by
  induction ids with
  | nil => rfl
  | cons i ids ih =>
    obtain ⟨h1, h2⟩ := List.forall_mem_cons.mp hl
    simpa only [Heap.readAll, List.foldl_cons, read_live h1] using ih h2

theorem calloc_eq (h : Heap) (id : Nat) : h.calloc id = setCell h id {} := rfl

theorem setInserted_live (hl : (h.cell id).released = 0) (b : Bool) :
    h.setInserted id b = setCell h id { h.cell id with inserted := b } := by
  simp only [Heap.setInserted, read_live hl, setCell]

/-- The release of an item that nobody holds. -/
theorem queueItemFree_once {b : Bool} (hc : h.cell id = ⟨b, 0, 0⟩) :
    queueItemFree h id = setCell h id ⟨b, 0, 1⟩ := by
  have hl : (h.cell id).released = 0 := by rw [hc]
  simp only [queueItemFree, queueItemFree_, Heap.release, read_live hl, hc, ne_eq,
    not_true_eq_false, if_false, setCell]

/-- The release of an item that was released. -/
theorem queueItemFree_twice {b : Bool} (hc : h.cell id = ⟨b, 0, 1⟩) :
    queueItemFree h id =
      { setCell h id ⟨b, 0, 2⟩ with faults := id :: id :: h.faults } := by
  simp only [queueItemFree, queueItemFree_, Heap.release, Heap.read, hc, ne_eq,
    not_true_eq_false, if_false, setCell, Nat.succ_ne_zero]

/-- Both releases of an item that is handed to a callback. -/
theorem queueItemFree_handed {b : Bool} (hc : h.cell id = ⟨b, 0, 0⟩) :
    queueItemFree (queueItemFree h id) id =
      { setCell h id ⟨b, 0, 2⟩ with faults := id :: id :: h.faults } := by
  rw [queueItemFree_once hc, queueItemFree_twice (setCell_self ..), setCell_setCell]
  rfl

/-- A peek locks a stored item, reads it and unlocks it: nothing changes. -/
theorem queueItemLock_unlock (hc : h.cell id = ⟨true, 0, 0⟩) :
    queueItemUnlock ((queueItemLock h id).read id) id = h := by
  have hl : (h.cell id).released = 0 := by rw [hc]
  have h1 : queueItemLock h id = setCell h id ⟨true, 1, 0⟩ := by
    simp only [queueItemLock, Heap.addLock, read_live hl, hc, setCell, Int.zero_add]
  have h2 : ((setCell h id ⟨true, 1, 0⟩).cell id).released = 0 := by rw [setCell_self]
  have h3 : (setCell h id ⟨true, 1, 0⟩).addLock id (-1) = h := by
    conv_rhs => rw [← setCell_cell h id, hc]
    simp only [Heap.addLock, read_live h2, setCell_self]
    exact setCell_setCell ..
  simp only [h1, read_live h2, queueItemUnlock, h3, hc, Bool.true_eq_false, and_false, if_false]

/-- `queue_free` releases each item of the queue once. -/
theorem queueFree_items {α : Type} (q : Queue α) (hn : (q.items.map (·.id)).Nodup)
    (hc : ∀ i ∈ q.items, h.cell i.id = ⟨true, 0, 0⟩) :
    (queueFree q h).faults = h.faults ∧
      ∀ id, (queueFree q h).cell id = if id ∈ q.items.map (·.id) then ⟨true, 0, 1⟩ else h.cell id := by
  unfold queueFree
  generalize q.items = items at hn hc
  induction items generalizing h with
  | nil => exact ⟨rfl, fun id => by simp⟩
  | cons i items ih =>
    obtain ⟨hi, hn⟩ := List.nodup_cons.mp hn
    obtain ⟨h1, h2⟩ := List.forall_mem_cons.mp hc
    have hl : (h.cell i.id).released = 0 := by rw [h1]
    have he : queueItemFree_ h i.id = setCell h i.id ⟨true, 0, 1⟩ := by
      simp only [queueItemFree_, Heap.release, read_live hl, h1, setCell]
    have hne : ∀ j ∈ items, j.id ≠ i.id := fun j hj e =>
      hi (List.mem_map.mpr ⟨j, hj, e⟩)
    obtain ⟨hf, hcell⟩ := ih (h := setCell h i.id ⟨true, 0, 1⟩) hn fun j hj => by
      rw [setCell_of_ne h (hne j hj)]
      exact h2 j hj
    rw [List.foldl_cons, he]
    refine ⟨hf, fun id => ?_⟩
    rw [hcell id]
    by_cases hid : id = i.id
    · subst hid
      simp [hi]
    · simp [hid]

end DQ.Proof.Server
