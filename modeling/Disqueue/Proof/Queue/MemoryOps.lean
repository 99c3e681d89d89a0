import Disqueue.Proof.Queue.Holders
import Disqueue.Proof.Queue.Memory

/-!
# Calls on a memory

What each function of `queue.c` does to a memory is what it does to the queues
that the memory shows, with the same result. Every loop of it ends.
-/

namespace DQ.Proof.Queue

open DQ.Model DQ.Spec

variable {α σ : Type} {Q : Nat → Option (Model.Queue α)} {next n q : Nat} {m : Memory α}
  {cbs : Nat → Option (List Nat)} {x : Model.Queue α} {ids : List Nat}

/-! ## Items -/

/-- An item in no queue is freed from the heap only. -/
theorem queueItemFree_memory {id : Nat} (hid : (m.heap.cell id).inserted = false) :
    m.queueItemFree id = { m with heap := queueItemFree m.heap id } := by
  have hread : ((m.heap.read id).cell id).inserted = false := by
    unfold Heap.read
    split <;> exact hid
  unfold Memory.queueItemFree Model.queueItemFree Memory.queueItemFree_ Model.queueItemFree_
  dsimp only
  rw [hread]
  split <;> rfl

theorem readAll_cell (h : Heap) (l : List Nat) : (h.readAll l).cell = h.cell := by
  unfold Heap.readAll
  induction l generalizing h with
  | nil => rfl
  | cons id l ih => exact (ih (h.read id)).trans (funext fun k => read_cell h id k)

theorem release_inserted (h : Heap) (id k : Nat) :
    ((h.release id).cell k).inserted = (h.cell k).inserted := by
  unfold Heap.release
  dsimp only
  by_cases hk : k = id
  · rw [hk, Function.update_self, read_cell]
  · rw [Function.update_of_ne hk, read_cell]

theorem addLock_inserted (h : Heap) (id : Nat) (c : Int) (k : Nat) :
    ((h.addLock id c).cell k).inserted = (h.cell k).inserted := by
  unfold Heap.addLock
  dsimp only
  by_cases hk : k = id
  · rw [hk, Function.update_self, read_cell]
  · rw [Function.update_of_ne hk, read_cell]

theorem itemFree_inserted (h : Heap) (id k : Nat) :
    ((queueItemFree h id).cell k).inserted = (h.cell k).inserted := by
  unfold queueItemFree queueItemFree_
  dsimp only
  split
  · exact congrArg Cell.inserted (read_cell h id k)
  · rw [release_inserted, read_cell]

/-- An item in no queue is freed. -/
theorem stored_itemFree (h : Stored Q next m cbs) {id : Nat}
    (hid : (m.heap.cell id).inserted = false) :
    Stored Q next (m.queueItemFree id) cbs ∧
      (m.queueItemFree id).heap = queueItemFree m.heap id := by
  rw [queueItemFree_memory hid]
  exact ⟨h.heap fun k => itemFree_inserted m.heap id k, rfl⟩

theorem stored_unlock (h : Stored Q next m cbs) (id : Nat) :
    Stored Q next (m.queueItemUnlock id) cbs ∧
      (m.queueItemUnlock id).heap = queueItemUnlock m.heap id := by
  have hlock : Stored Q next { m with heap := m.heap.addLock id (-1) } cbs :=
    h.heap fun k => addLock_inserted m.heap id (-1) k
  unfold Memory.queueItemUnlock queueItemUnlock
  dsimp only
  split
  · rename_i hc
    exact stored_itemFree hlock hc.2
  · exact ⟨hlock, rfl⟩

/-! ## Looking for an item -/

theorem held_lt (h : Stored Q next m cbs) (hx : Q q = some x) : ∀ id ∈ itemIds x, id < next := by
  intro id hid
  obtain ⟨i, hi, rfl⟩ := List.mem_map.mp hid
  obtain ⟨jds, hj⟩ := h.addresses hx
  exact ((h.queue q x jds hx hj).item i hi).lt

/-- The loop over the items. -/
theorem find_memory (h : Stored Q next m cbs) (hx : Q q = some x) (hn : next < n)
    (key : Option CStr) :
    m.queueFind n key q = some ((queueFind key x m.heap).1.map (·.2.1.id),
      { m with heap := (queueFind key x m.heap).2 }) := by
  obtain ⟨jds, hj⟩ := h.addresses hx
  have hs := h.queue q x jds hx hj
  have hheld := h.held hx
  have hlen : (itemIds x).length < n :=
    Nat.lt_of_le_of_lt (length_le_next hheld.nodup (held_lt h hx)) hn
  have hwalk := Links.walk_eq (fun id => itemMatches key (m.itemAt id)) hheld.seg hheld.ended hlen
  have hsplit : splitFirst (fun id => itemMatches key (m.itemAt id)) (itemIds x) =
      (splitFirst (itemMatches key) x.items).map
        fun t => (t.1.map (·.id), t.2.1.id, t.2.2.map (·.id)) := by
    rw [itemIds, splitFirst_map]
    refine congrArg _ (splitFirst_congr fun i hi => ?_)
    exact congrArg (itemMatches key) (hs.item i hi).eq
  rw [hsplit] at hwalk
  unfold Memory.queueFind queueFind
  rw [hs.members]
  show (if x.itemCount = 0 then _ else if _ then _ else _) = _
  split
  · rfl
  show (if (key.isNone || (key.isSome && decide (0 < x.keyedCount))) = true then _ else _) = _
  split
  · rw [hwalk]
    cases splitFirst (itemMatches key) x.items with
    | none => simp [itemIds]
    | some t => simp
  · rfl

theorem queueFind_items (key : Option CStr) (x : Model.Queue α) (h : Heap) :
    (∀ pre item post, (queueFind key x h).1 = some (pre, item, post) →
        x.items = pre ++ item :: post) ∧
      (queueFind key x h).2.cell = h.cell := by
  unfold queueFind
  split
  · exact ⟨nofun, rfl⟩
  split
  · cases hs : splitFirst (itemMatches key) x.items with
    | none => exact ⟨nofun, readAll_cell h _⟩
    | some t =>
      refine ⟨fun pre item post heq => ?_, readAll_cell h _⟩
      cases heq
      exact (splitFirst_eq_some.mp hs).1
  · exact ⟨nofun, rfl⟩

/-- Nothing at a queue changes. -/
theorem update_self_eq {β : Type} {f : Nat → Option β} {b : β} (h : f q = some b) :
    Function.update f q (some b) = f := h ▸ Function.update_eq_self q f

theorem setInserted_cell (h : Heap) (id k : Nat) (b : Bool) :
    ((h.setInserted id b).cell k).inserted = if k = id then b else (h.cell k).inserted := by
  unfold Heap.setInserted
  dsimp only
  by_cases hk : k = id
  · rw [hk, Function.update_self, if_pos rfl]
  · rw [Function.update_of_ne hk, read_cell, if_neg hk]

/-- `queue_take` of an item: it is out of its queue. -/
theorem stored_take (h : Stored Q next m cbs) (hx : Q q = some x) (hn : next < n)
    (key : Option CStr) {item : Option QueueItem} {x' : Model.Queue α} {heap : Heap}
    (ht : queueTake key x m.heap = (item, x', heap)) :
    ∃ m', m.queueTake n key q = some (item.map (·.id), m') ∧ m'.heap = heap ∧
      Stored (Function.update Q q (some x')) next m' cbs ∧
      ∀ i ∈ item, m'.itemAt i.id = i ∧ (heap.cell i.id).inserted = false := by
  obtain ⟨jds, hj⟩ := h.addresses hx
  have hs := h.queue q x jds hx hj
  obtain ⟨hitems, hcell⟩ := queueFind_items key x m.heap
  unfold Memory.queueTake
  rw [find_memory h hx hn]
  unfold queueTake at ht
  rcases hf : queueFind key x m.heap with ⟨_ | ⟨pre, i, post⟩, heap'⟩ <;>
    rw [hf] at ht hitems hcell <;> dsimp only at ht hcell <;> cases ht
  · refine ⟨{ m with heap }, rfl, rfl, ?_, nofun⟩
    rw [update_self_eq hx]
    exact h.heap fun id => by rw [hcell]
  · have hl := hitems pre i post rfl
    have hmem : i ∈ x.items := hl ▸ List.mem_append_right _ List.mem_cons_self
    have hi := hs.item i hmem
    have hkey : (m.item i.id).key = i.key := congrArg QueueItem.key hi.eq
    have hids : itemIds x = pre.map (·.id) ++ i.id :: post.map (·.id) := by
      rw [itemIds, hl, List.map_append, List.map_cons]
    have hnodup := (h.held hx).nodup
    rw [hids] at hnodup
    have hne : ∀ j ∈ pre ++ post, j.id ≠ i.id := by
      intro j hj heq
      have hmid := (List.nodup_middle.mp hnodup)
      rw [← List.map_append] at hmid
      exact (List.nodup_cons.mp hmid).1 (heq ▸ List.mem_map_of_mem hj)
    have hother : ∀ k y, k ≠ q → Q k = some y → ∀ j ∈ y.items, j.id ≠ i.id := by
      intro k y hk hy j hj heq
      exact hk (h.items.disjoint k (itemIds y) q (itemIds x) i.id (by rw [hy]; rfl) (by rw [hx]; rfl)
        (heq ▸ List.mem_map_of_mem hj) (List.mem_map_of_mem hmem))
    refine ⟨_, rfl, rfl, ?_, ?_⟩
    · rw [← update_self_eq hj]
      refine h.update hx ⟨rfl, rfl, rfl, fun k hk => Function.update_of_ne hk ..⟩ ?_ ?_ ?_ ?_
      · have hrem := Links.holds_remove h.items (show (Q q).map itemIds = _ by rw [hx, ← hids]; rfl)
        rwa [← List.map_append] at hrem
      · rw [update_self_eq hj]
        exact h.callbacks
      · refine ⟨hs.addr, hs.lt, ?_, fun j hj => ?_,
          hs.callback.imp fun _ _ hc => ⟨hc.eq, hc.lt⟩⟩
        · show Function.update m.queue q _ q = _
          rw [Function.update_self, hs.members, hkey]
          rfl
        · obtain ⟨heq, howner, hins, hlt⟩ := hs.item j (by
            rw [hl]
            rcases List.mem_append.mp hj with hj | hj <;> simp [hj])
          refine ⟨heq, howner, ?_, hlt⟩
          show ((heap'.setInserted i.id false).cell j.id).inserted = true
          rw [setInserted_cell, if_neg (hne j hj), hcell]
          exact hins
      · intro k y hk hy j hj
        show ((heap'.setInserted i.id false).cell j.id).inserted = _
        rw [setInserted_cell, if_neg (hother k y hk hy j hj), hcell]
    · intro j hj
      cases hj
      refine ⟨hi.eq, ?_⟩
      rw [setInserted_cell, if_pos rfl]

theorem stored_peek (h : Stored Q next m cbs) (hx : Q q = some x) (hn : next < n)
    (key : Option CStr) {item : Option QueueItem} {heap : Heap}
    (ht : queuePeek key x m.heap = (item, heap)) :
    m.queuePeek n key q = some (item.map (·.id), { m with heap }) ∧
      Stored Q next { m with heap } cbs ∧ ∀ i ∈ item, m.itemAt i.id = i := by
  obtain ⟨jds, hj⟩ := h.addresses hx
  have hs := h.queue q x jds hx hj
  obtain ⟨hitems, hcell⟩ := queueFind_items key x m.heap
  have hheap : Stored Q next { m with heap := (queueFind key x m.heap).2 } cbs :=
    h.heap fun id => by rw [hcell]
  unfold Memory.queuePeek
  rw [find_memory h hx hn]
  unfold queuePeek at ht
  rcases hf : queueFind key x m.heap with ⟨_ | ⟨pre, i, post⟩, heap'⟩ <;>
    rw [hf] at ht hitems hheap <;> dsimp only at ht <;> cases ht
  · exact ⟨rfl, hheap, nofun⟩
  · refine ⟨rfl, hheap, fun j hj => ?_⟩
    cases hj
    exact (hs.item i (hitems pre i post rfl ▸ List.mem_append_right _ List.mem_cons_self)).eq

/-! ## Callbacks -/

theorem callbacks_lt {callbacks : List (QueueCallback α)}
    (h : List.Forall₂ (StoredCallback next m q) ids callbacks) : ∀ id ∈ ids, id < next := by
  induction h with
  | nil => nofun
  | cons hc _ ih =>
    intro id hid
    rcases List.mem_cons.mp hid with rfl | hid
    · exact hc.lt
    · exact ih id hid

/-- The loop over the callbacks. -/
theorem stored_putCallback (h : Stored Q next m cbs) (hx : Q q = some x) (hj : cbs q = some ids)
    (hn : next < n) (key : Option CStr) :
    (queuePutCallback key x = none ∧ m.queuePutCallback n key q = some none) ∨
      ∃ pre cb post ipre id ipost, queuePutCallback key x = some (pre, cb, post) ∧
        m.queuePutCallback n key q = some (some id) ∧ ids = ipre ++ id :: ipost ∧
        List.Forall₂ (StoredCallback next m q) ipre pre ∧ StoredCallback next m q id cb ∧
        List.Forall₂ (StoredCallback next m q) ipost post := by
  have hs := h.queue q x ids hx hj
  have hheld := h.callbacks.held q ids hj
  have hwalk := Links.walk_eq (fun id => callbackWants key (m.callbackAt id)) hheld.seg hheld.ended
    (Nat.lt_of_le_of_lt (length_le_next hheld.nodup (callbacks_lt hs.callback)) hn)
  have hwants : ∀ id cb, StoredCallback next m q id cb →
      callbackWants key (m.callbackAt id) = callbackWants key cb := by
    intro id cb hcb
    unfold Memory.callbackAt
    rw [hcb.eq]
  have hmem : m.queuePutCallback n key q =
      if 0 < x.callbackCount then
        if (key.isNone && x.keyedCallbackCount != x.callbackCount) || key.isSome then
          (m.callbacks.walk (fun id => callbackWants key (m.callbackAt id)) n
            (m.callbacks.get (.first q))).map (·.2)
        else some none
      else some none := by
    unfold Memory.queuePutCallback
    rw [hs.members]
    rfl
  rw [hmem, hwalk]
  unfold queuePutCallback
  by_cases hsome : 0 < x.callbackCount
  · simp only [if_pos hsome]
    by_cases hfit : ((key.isNone && x.keyedCallbackCount != x.callbackCount) || key.isSome) = true
    · simp only [if_pos hfit]
      rcases splitFirst_rel hs.callback hwants with
        ⟨hl, hr⟩ | ⟨ipre, id, ipost, pre, cb, post, hl, hr, hpre, hcb, hpost⟩
      · rw [hl]
        exact .inl ⟨hr, rfl⟩
      · rw [hl]
        exact .inr ⟨pre, cb, post, ipre, id, ipost, hr, rfl, (splitFirst_eq_some.mp hl).1, hpre, hcb,
          hpost⟩
    · simp only [if_neg hfit]
      exact .inl ⟨trivial, trivial⟩
  · simp only [if_neg hsome]
    exact .inl ⟨trivial, trivial⟩

/-- `queue_callback_free_`: the callback is out of its queue. -/
theorem stored_callbackFree (h : Stored Q next m cbs) (hx : Q q = some x) {ipre ipost : List Nat}
    {id : Nat} {pre post : List (QueueCallback α)} {cb : QueueCallback α}
    (hj : cbs q = some (ipre ++ id :: ipost))
    (hpre : List.Forall₂ (StoredCallback next m q) ipre pre) (hcb : StoredCallback next m q id cb)
    (hpost : List.Forall₂ (StoredCallback next m q) ipost post) :
    Stored (Function.update Q q (some (queueCallbackFree_ cb (pre ++ post) x))) next
      (m.queueCallbackFree_ id) (Function.update cbs q (some (ipre ++ ipost))) := by
  have hs := h.queue q x _ hx hj
  have hitems : itemIds (queueCallbackFree_ cb (pre ++ post) x) = itemIds x := by
    unfold queueCallbackFree_
    cases cb.key <;> rfl
  have hfree : m.queueCallbackFree_ id =
      { m.setQueue q (membersOf (queueCallbackFree_ cb (pre ++ post) x)) with
        callbacks := m.callbacks.remove q id } := by
    unfold Memory.queueCallbackFree_ queueCallbackFree_
    rw [hcb.eq]
    dsimp only
    rw [hs.members]
    cases cb.key <;> rfl
  rw [hfree]
  refine h.update hx ⟨rfl, rfl, rfl, fun k hk => Function.update_of_ne hk ..⟩ ?_
    (Links.holds_remove h.callbacks hj) ?_ fun _ _ _ _ _ _ => rfl
  · rw [hitems, update_self_eq (show (Q q).map itemIds = _ by rw [hx]; rfl)]
    exact h.items
  · have hrest := List.rel_append hpre hpost
    refine ⟨?_, hs.lt, Function.update_self .., fun i hi => ?_, ?_⟩
    · unfold queueCallbackFree_
      cases cb.key <;> exact hs.addr
    · have hi' : i ∈ x.items := by
        unfold queueCallbackFree_ at hi
        cases hk : cb.key <;> rw [hk] at hi <;> exact hi
      obtain ⟨heq, howner, hins, hlt⟩ := hs.item i hi'
      exact ⟨heq, howner, hins, hlt⟩
    · unfold queueCallbackFree_
      cases cb.key <;> exact hrest.imp fun _ _ hc => ⟨hc.eq, hc.lt⟩

/-! ## Putting and waiting -/

/-- An item at the end of its queue. -/
theorem stored_insertItem (h : Stored Q next m cbs) (hx : Q q = some x) {i : QueueItem}
    (hat : m.itemAt i.id = i) (howner : i.owner = q) (hlt : i.id < next)
    (hout : (m.heap.cell i.id).inserted = false) :
    Stored (Function.update Q q (some (x.insertItem i))) next
      { m.setQueue q (membersOf (x.insertItem i)) with
        heap := m.heap.setInserted i.id true
        items := m.items.insertTail q i.id } cbs := by
  obtain ⟨jds, hj⟩ := h.addresses hx
  have hs := h.queue q x jds hx hj
  have hfresh := h.not_mem hout
  have hinserted : ∀ k y, Q k = some y → ∀ j ∈ y.items,
      ((m.heap.setInserted i.id true).cell j.id).inserted = (m.heap.cell j.id).inserted := by
    intro k y hy j hj
    refine (setInserted_cell ..).trans (if_neg fun heq => ?_)
    exact hfresh k (itemIds y) (by rw [hy]; rfl) (heq ▸ List.mem_map_of_mem hj)
  have hids : itemIds (x.insertItem i) = itemIds x ++ [i.id] := List.map_append
  rw [← update_self_eq hj]
  refine h.update hx ⟨rfl, rfl, rfl, fun k hk => Function.update_of_ne hk ..⟩ ?_ ?_ ?_
    fun k y _ hy => hinserted k y hy
  · rw [hids]
    exact Links.holds_insertTail h.items (show (Q q).map itemIds = some (itemIds x) by rw [hx]; rfl)
      hfresh
  · rw [update_self_eq hj]
    exact h.callbacks
  · refine ⟨hs.addr, hs.lt, Function.update_self .., fun j hj => ?_,
      hs.callback.imp fun _ _ hc => ⟨hc.eq, hc.lt⟩⟩
    rcases List.mem_append.mp hj with hj | hj
    · obtain ⟨heq, hown, hins, hjlt⟩ := hs.item j hj
      exact ⟨heq, hown, (hinserted q x hx j hj).trans hins, hjlt⟩
    · rw [List.mem_singleton.mp hj]
      exact ⟨hat, howner, (setInserted_cell ..).trans (if_pos rfl), hlt⟩

/-- A callback at the end of its queue. -/
theorem stored_insertCallback (h : Stored Q next m cbs) (hx : Q q = some x) {id : Nat}
    {cb : QueueCallback α} (hcb : StoredCallback next m q id cb) (hj : cbs q = some ids)
    (hout : ∀ k l, cbs k = some l → id ∉ l) :
    Stored (Function.update Q q (some (x.insertCallback cb))) next
      { m.setQueue q (membersOf (x.insertCallback cb)) with
        callbacks := m.callbacks.insertTail q id } (Function.update cbs q (some (ids ++ [id]))) := by
  have hs := h.queue q x ids hx hj
  refine h.update hx ⟨rfl, rfl, rfl, fun k hk => Function.update_of_ne hk ..⟩ ?_
    (Links.holds_insertTail h.callbacks hj hout) ?_ fun _ _ _ _ _ _ => rfl
  · rw [show itemIds (x.insertCallback cb) = itemIds x from rfl,
      update_self_eq (show (Q q).map itemIds = _ by rw [hx]; rfl)]
    exact h.items
  · refine ⟨hs.addr, hs.lt, Function.update_self .., fun i hi => ?_, ?_⟩
    · obtain ⟨heq, howner, hins, hlt⟩ := hs.item i hi
      exact ⟨heq, howner, hins, hlt⟩
    · exact List.rel_append (hs.callback.imp fun _ _ hc => ⟨hc.eq, hc.lt⟩)
        (.cons ⟨hcb.eq, hcb.lt⟩ .nil)

section
variable {call : α → QueueItem → Heap × σ → Heap × σ}

/-- A callback is called with an item that is in no queue, which is then
freed. -/
theorem stored_called (hcalm : Calm call) (h : Stored Q next m cbs) {i : QueueItem} (hat : m.itemAt i.id = i)
    (hout : (m.heap.cell i.id).inserted = false) (arg : α) (env : σ) :
    ∃ m', (Memory.called call arg i.id (m, env)).1.queueItemFree i.id = m' ∧
      (Memory.called call arg i.id (m, env)).2 = (call arg i (m.heap, env)).2 ∧
      m'.heap = queueItemFree (call arg i (m.heap, env)).1 i.id ∧ Stored Q next m' cbs := by
  have hcalled : Memory.called call arg i.id (m, env) =
      ({ m with heap := (call arg i (m.heap, env)).1 }, (call arg i (m.heap, env)).2) := by
    unfold Memory.called
    rw [hat]
  have hs : Stored Q next { m with heap := (call arg i (m.heap, env)).1 } cbs :=
    h.heap fun id => hcalm arg i (m.heap, env) id
  have hgone : ((call arg i (m.heap, env)).1.cell i.id).inserted = false :=
    (hcalm arg i (m.heap, env) i.id).trans hout
  obtain ⟨hfree, hheap⟩ := stored_itemFree hs hgone
  rw [hcalled]
  exact ⟨_, rfl, rfl, hheap, hfree⟩

end

end DQ.Proof.Queue
