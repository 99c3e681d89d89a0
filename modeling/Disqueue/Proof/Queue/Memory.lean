import Disqueue.Spec.QueueMemory

/-!
# The queues that a memory shows

A memory shows the queues of a store (`Stored`) if the tail queue at each is that
of its items, with their members, and that of its callbacks, at addresses of
their own. A change at one queue leaves the others (`Stored.update`), and so does
a new item or callback (`stored_newItem`, `stored_newCallback`).
-/

namespace DQ.Proof.Queue

open DQ.Model DQ.Spec

variable {α : Type}

/-- The addresses of the items. -/
def itemIds (x : Model.Queue α) : List Nat := x.items.map (·.id)

def membersOf (x : Model.Queue α) : QueueMembers :=
  ⟨x.uuid, x.keyedCount, x.keyedCallbackCount, x.itemCount, x.callbackCount⟩

/-- An item in the queue at `q`. -/
structure StoredItem (next : Nat) (m : Memory α) (q : Nat) (i : QueueItem) : Prop where
  eq : m.itemAt i.id = i
  owner : i.owner = q
  inserted : (m.heap.cell i.id).inserted = true
  lt : i.id < next

/-- A callback of the queue at `q`. -/
structure StoredCallback (next : Nat) (m : Memory α) (q id : Nat) (cb : QueueCallback α) : Prop where
  eq : m.callback id = ⟨cb.key, cb.arg, q⟩
  lt : id < next

/-- The queue at `q`, with its callbacks at `ids`. -/
structure StoredQueue (next : Nat) (m : Memory α) (q : Nat) (ids : List Nat)
    (x : Model.Queue α) : Prop where
  addr : x.addr = q
  lt : q < next
  members : m.queue q = membersOf x
  item : ∀ i ∈ x.items, StoredItem next m q i
  callback : List.Forall₂ (StoredCallback next m q) ids x.callbacks

/-- All queues. -/
structure Stored (Q : Nat → Option (Model.Queue α)) (next : Nat) (m : Memory α)
    (cbs : Nat → Option (List Nat)) : Prop where
  live : ∀ q, m.live q = (Q q).isSome
  items : m.items.Holds fun q => (Q q).map itemIds
  callbacks : m.callbacks.Holds cbs
  domain : ∀ q, (cbs q).isSome = (Q q).isSome
  queue : ∀ q x ids, Q q = some x → cbs q = some ids → StoredQueue next m q ids x

variable {Q : Nat → Option (Model.Queue α)} {next q : Nat} {m m' : Memory α}
  {cbs : Nat → Option (List Nat)} {x x' : Model.Queue α} {ids ids' : List Nat}

/-! ## What is left -/

/-- The members of items and callbacks, and of all queues but one. -/
structure Edit (q : Nat) (m m' : Memory α) : Prop where
  live : m'.live = m.live
  item : m'.item = m.item
  callback : m'.callback = m.callback
  queue : ∀ k, k ≠ q → m'.queue k = m.queue k

/-- A queue whose members, items and callbacks are left. -/
theorem StoredQueue.frame (h : StoredQueue next m q ids x) {next' : Nat} (hn : next ≤ next')
    (hq : m'.queue q = m.queue q)
    (hitem : ∀ i ∈ x.items, m'.item i.id = m.item i.id ∧
      (m'.heap.cell i.id).inserted = (m.heap.cell i.id).inserted)
    (hcb : ∀ id < next, m'.callback id = m.callback id) : StoredQueue next' m' q ids x where
  addr := h.addr
  lt := Nat.lt_of_lt_of_le h.lt hn
  members := hq.trans h.members
  item i hi := by
    obtain ⟨hat, howner, hins, hlt⟩ := h.item i hi
    obtain ⟨hm, hcell⟩ := hitem i hi
    exact ⟨(by unfold Memory.itemAt; rw [hm]; exact hat), howner, hcell.trans hins,
      Nat.lt_of_lt_of_le hlt hn⟩
  callback := h.callback.imp fun id cb hcbs =>
    ⟨(hcb id hcbs.lt).trans hcbs.eq, Nat.lt_of_lt_of_le hcbs.lt hn⟩

theorem Stored.addresses (h : Stored Q next m cbs) (hx : Q q = some x) : ∃ ids, cbs q = some ids :=
  Option.isSome_iff_exists.mp ((h.domain q).trans (hx ▸ rfl))

theorem Stored.held (h : Stored Q next m cbs) (hx : Q q = some x) : m.items.Held q (itemIds x) :=
  h.items.held q _ (by rw [hx]; rfl)

/-- The lists of items when one queue changes. -/
theorem update_items (Q : Nat → Option (Model.Queue α)) (q : Nat) (x : Option (Model.Queue α)) :
    (fun k => (Function.update Q q x k).map itemIds) =
      Function.update (fun k => (Q k).map itemIds) q (x.map itemIds) :=
  Function.comp_update (Option.map itemIds) Q q x

/-- A change at one queue. -/
theorem Stored.update (h : Stored Q next m cbs) (hx : Q q = some x) (he : Edit q m m')
    (hitems : m'.items.Holds (Function.update (fun k => (Q k).map itemIds) q (some (itemIds x'))))
    (hcbs : m'.callbacks.Holds (Function.update cbs q (some ids')))
    (hq : StoredQueue next m' q ids' x')
    (hins : ∀ k y, k ≠ q → Q k = some y → ∀ i ∈ y.items,
      (m'.heap.cell i.id).inserted = (m.heap.cell i.id).inserted) :
    Stored (Function.update Q q (some x')) next m' (Function.update cbs q (some ids')) where
  live k := by
    rw [he.live, h.live k]
    by_cases hk : k = q
    · rw [hk, hx, Function.update_self]
      rfl
    · rw [Function.update_of_ne hk]
  items := by
    rw [update_items]
    exact hitems
  callbacks := hcbs
  domain k := by
    by_cases hk : k = q
    · rw [hk, Function.update_self, Function.update_self]
      rfl
    · rw [Function.update_of_ne hk, Function.update_of_ne hk]
      exact h.domain k
  queue k y jds hy hj := by
    by_cases hk : k = q
    · subst hk
      rw [Function.update_self] at hy hj
      cases hy
      cases hj
      exact hq
    · rw [Function.update_of_ne hk] at hy hj
      exact (h.queue k y jds hy hj).frame (Nat.le_refl _) (he.queue k hk)
        (fun i hi => ⟨by rw [he.item], hins k y hk hy i hi⟩) fun _ _ => by rw [he.callback]

/-- A heap in which the same items are in queues. -/
theorem Stored.heap (h : Stored Q next m cbs) {heap : Heap}
    (hh : ∀ id, (heap.cell id).inserted = (m.heap.cell id).inserted) :
    Stored Q next { m with heap } cbs where
  live := h.live
  items := h.items
  callbacks := h.callbacks
  domain := h.domain
  queue k y jds hy hj := (h.queue k y jds hy hj).frame (Nat.le_refl _) rfl
    (fun i _ => ⟨rfl, hh i.id⟩) fun _ _ => rfl

/-- A new item, at the next address. -/
theorem stored_newItem (h : Stored Q next m cbs) (d : ItemMembers) :
    Stored Q (next + 1)
      { m with heap := m.heap.calloc next, item := Function.update m.item next d } cbs where
  live := h.live
  items := h.items
  callbacks := h.callbacks
  domain := h.domain
  queue k y jds hy hj := by
    have hs := h.queue k y jds hy hj
    refine hs.frame (Nat.le_succ _) rfl (fun i hi => ?_) fun _ _ => rfl
    have hne : i.id ≠ next := Nat.ne_of_lt (hs.item i hi).lt
    exact ⟨Function.update_of_ne hne .., congrArg Cell.inserted (Function.update_of_ne hne ..)⟩

/-- A new callback, at the next address. -/
theorem stored_newCallback (h : Stored Q next m cbs) (d : CallbackMembers α) :
    Stored Q (next + 1) { m with callback := Function.update m.callback next d } cbs where
  live := h.live
  items := h.items
  callbacks := h.callbacks
  domain := h.domain
  queue k y jds hy hj := by
    have hs := h.queue k y jds hy hj
    exact hs.frame (Nat.le_succ _) rfl (fun i _ => ⟨rfl, rfl⟩) fun id hid =>
      Function.update_of_ne (Nat.ne_of_lt hid) ..

/-- More addresses are used. -/
theorem Stored.succ (h : Stored Q next m cbs) : Stored Q (next + 1) m cbs where
  live := h.live
  items := h.items
  callbacks := h.callbacks
  domain := h.domain
  queue k y jds hy hj := (h.queue k y jds hy hj).frame (Nat.le_succ _) rfl
    (fun _ _ => ⟨rfl, rfl⟩) fun _ _ => rfl

/-- An item in no queue is in no list. -/
theorem Stored.not_mem (h : Stored Q next m cbs) {id : Nat}
    (hid : (m.heap.cell id).inserted = false) :
    ∀ k l, (Q k).map itemIds = some l → id ∉ l := by
  intro k l hl hmem
  obtain ⟨y, hy, rfl⟩ := Option.map_eq_some_iff.mp hl
  obtain ⟨i, hi, rfl⟩ := List.mem_map.mp hmem
  obtain ⟨jds, hj⟩ := h.addresses hy
  have hins := ((h.queue k y jds hy hj).item i hi).inserted
  rw [hid] at hins
  cases hins

/-- Lists of addresses have no more elements than there are addresses. -/
theorem length_le_next {l : List Nat} (hn : l.Nodup) (h : ∀ id ∈ l, id < next) :
    l.length ≤ next := by
  have hsub : l ⊆ List.range next := fun id hid => List.mem_range.mpr (h id hid)
  have hle := hn.length_le_of_subset hsub
  rwa [List.length_range] at hle

end DQ.Proof.Queue
