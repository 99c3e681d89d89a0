import Disqueue.Proof.Queue.Order

/-!
# What a queue guarantees to its callers

For every sequence of calls on a new queue, whatever the keys, the outcomes of
the allocations and the callbacks: the queue does what the reference queue
does (`queue_refines_reference`), nobody waits for an item that is stored
(`no_lost_wakeup`), and like items and like waiters are served in order
(`queue_fifo`).
-/

namespace DQ.Proof.Queue

open DQ.Model DQ.Spec

variable {β σ : Type}

/-- No counter is below zero. -/
def NoUnderflow {α : Type} (q : Queue α) : Prop :=
  0 ≤ q.itemCount ∧ 0 ≤ q.keyedCount ∧ 0 ≤ q.callbackCount ∧ 0 ≤ q.keyedCallbackCount

theorem Counted.noUnderflow {α : Type} {q : Queue α} (h : Counted q) : NoUnderflow q := by
  obtain ⟨h1, h2, h3, h4⟩ := h
  unfold NoUnderflow
  omega

/-- A call that returns -1 leaves the queue as it was. -/
theorem step_failed {c : QueueClient β σ} {r : RefQueue (β × Nat)} (hs : Shows c.q r)
    (call : β → QueueItem → Heap × σ → Heap × σ) (op : QueueOp β)
    (hr : (c.step call op).results = c.results ++ [.code (-1)]) : (c.step call op).q = c.q := by
  cases op with
  | put ok key value =>
    simp only [QueueClient.step] at hr ⊢
    cases hi : queuePutItem ok c.calls c.q.addr key value with
    | none => rw [queuePut_failed _ hi]
    | some item =>
      rcases hp : r.put wants QueueCallback.key item with ⟨r', _ | w⟩
      · obtain ⟨q', he, -⟩ :=
          queuePut_stored (QueueClient.recorded call) hs hi (c.heap, (c.user, [])) hp
        simp [he] at hr
      · obtain ⟨q', he, -⟩ :=
          queuePut_handed (QueueClient.recorded call) hs hi (c.heap, (c.user, [])) hp
        simp [he] at hr
  | take key => simp [QueueClient.step] at hr
  | peek key => rfl
  | wait ok key arg =>
    simp only [QueueClient.step] at hr ⊢
    rcases ht : r.take wants key with ⟨r', _ | item⟩
    · obtain ⟨-, h', -, hw⟩ := queueWait_waits (QueueClient.recorded call) hs ok key
        (arg, c.calls) (c.heap, (c.user, [])) ht
      split at hw
      · simp [hw.1] at hr
      · rw [hw]
    · obtain ⟨q', h', -, he, -⟩ := queueWait_served (QueueClient.recorded call) hs ok key
        (arg, c.calls) (c.heap, (c.user, [])) ht
      simp [he] at hr

/-- The queue with its counters and skipped searches does what the reference
queue does, its counters are the counts of its lists, and a call that returns
-1 leaves it as it was. -/
theorem queue_refines_reference (call : β → QueueItem → Heap × σ → Heap × σ) (addr : Nat)
    (uuid : Nat → UInt8) (heap : Heap) (user : σ) (ops : List (QueueOp β)) :
    let c := run (QueueClient.step call) (.new addr uuid heap user) ops
    let rf := run (RefClient.step addr) .new ops
    (c.results = rf.results ∧ c.handed = rf.handed ∧ c.q.items = rf.r.items ∧
        c.q.callbacks = rf.r.waiters) ∧
      (Counted c.q ∧ NoUnderflow c.q) ∧
      ∀ op, (c.step call op).results = c.results ++ [.code (-1)] → (c.step call op).q = c.q := by
  intro c rf
  have h := sim_run call addr uuid heap user ops
  exact ⟨⟨h.results, h.handed, h.shows'.items, h.shows'.waiters⟩,
    ⟨h.shows'.counted, h.shows'.counted.noUnderflow⟩, fun op => step_failed h.shows' call op⟩

/-- No stored item matches a registered callback. -/
def NoLostWakeup {α : Type} (q : Queue α) : Prop :=
  ∀ item ∈ q.items, ∀ cb ∈ q.callbacks,
    ∃ k, cb.key = some k ∧ ∀ k', item.key = some k' → strcaseEq k' k = false

theorem no_lost_wakeup (call : β → QueueItem → Heap × σ → Heap × σ) (addr : Nat)
    (uuid : Nat → UInt8) (heap : Heap) (user : σ) (ops : List (QueueOp β)) :
    NoLostWakeup (run (QueueClient.step call) (.new addr uuid heap user) ops).q := by
  obtain ⟨h, ht⟩ := tracks_run call addr uuid heap user ops
  intro item hi cb hc
  rw [ht.shows'.items] at hi
  rw [ht.shows'.waiters] at hc
  have hw : wants cb.key item = false := ht.fifo.settled cb hc item hi
  unfold wants keyWants at hw
  split at hw
  · cases hw
  · rename_i f k hf hk
    refine ⟨f, hf, fun k' hk' => ?_⟩
    obtain rfl : k = k' := Option.some.inj (hk.symm.trans hk')
    rw [strcaseEq_comm]
    exact hw
  · rename_i f hf hk
    exact ⟨f, hf, fun k' hk' => by simp [hk] at hk'⟩

/-- Of two items with like keys, the one put first leaves first. -/
def ItemsInOrder (c : QueueClient β σ) : Prop :=
  ∀ x y, [x, y].Sublist c.entered → SameKey x.key y.key →
    ∀ pre post, c.left = pre ++ y :: post → x ∈ pre

/-- Of two callbacks with like keys, the one registered first is called
first. -/
def WaitersInOrder (c : QueueClient β σ) : Prop :=
  ∀ v w, [v, w].Sublist c.asked → SameKey v.key w.key →
    ∀ pre post, c.served = pre ++ w.arg :: post → v.arg ∈ pre

theorem Tracks.items_inOrder {c : QueueClient β σ} {h : QueueHistory β} (ht : Tracks c h) :
    ItemsInOrder c := by
  intro x y hxy hk pre post hl
  rw [ht.entered] at hxy
  exact ht.fifo.items.ordered x y hxy (fun f => hk.wants f) pre post (ht.left ▸ hl)

/-- The calls tell the callbacks apart, so the one called is the one that
asked. -/
theorem Tracks.waiters_inOrder {c : QueueClient β σ} {h : QueueHistory β} (ht : Tracks c h)
    (hinj : ∀ v ∈ c.asked, ∀ w ∈ c.asked, v.arg = w.arg → v = w) : WaitersInOrder c := by
  intro v w hvw hk pre post hl
  rw [ht.served] at hl
  obtain ⟨pre', l, hg, rfl, hl'⟩ := List.map_eq_append_iff.mp hl
  obtain ⟨w', post', rfl, hw', -⟩ := List.map_eq_cons_iff.mp hl'
  have hwa : w' ∈ c.asked := by
    rw [ht.asked]
    exact ht.fifo.waiters.gone_joined w' (by simp [hg])
  obtain rfl : w' = w := hinj w' hwa w (hvw.subset (by simp)) hw'
  rw [ht.asked] at hvw
  have hf : History.SameFilter wants QueueCallback.key v w' := by
    funext item
    exact hk.filter item.key
  exact List.mem_map_of_mem (ht.fifo.waiters.ordered v w' hvw hf pre' post' hg)

/-- The callbacks given to `queue_wait` have different arguments: the number
of the call is part of it. -/
theorem asked_inj (call : β → QueueItem → Heap × σ → Heap × σ) (addr : Nat)
    (uuid : Nat → UInt8) (heap : Heap) (user : σ) (ops : List (QueueOp β)) :
    let c := run (QueueClient.step call) (.new addr uuid heap user) ops
    ∀ v ∈ c.asked, ∀ w ∈ c.asked, v.arg = w.arg → v = w := by
  let I : QueueClient β σ → Prop := fun c =>
    (∀ v ∈ c.asked, v.arg.2 < c.calls) ∧ ∀ v ∈ c.asked, ∀ w ∈ c.asked, v.arg = w.arg → v = w
  have hstep : ∀ c op, I c → I (QueueClient.step call c op) := by
    rintro c op ⟨hlt, hinj⟩
    cases op with
    | put ok key value => exact ⟨lt_succ_of_forall hlt, hinj⟩
    | take key => exact ⟨lt_succ_of_forall hlt, hinj⟩
    | peek key => exact ⟨lt_succ_of_forall hlt, hinj⟩
    | wait ok key arg =>
      simp only [QueueClient.step, I]
      split
      · refine ⟨lt_succ_of_concat hlt rfl, fun v hv w hw e => ?_⟩
        simp only [List.mem_append, List.mem_singleton] at hv hw
        rcases hv with hv | rfl <;> rcases hw with hw | rfl
        · exact hinj v hv w hw e
        · exact absurd (congrArg Prod.snd e) (hlt v hv).ne
        · exact absurd (congrArg Prod.snd e).symm (hlt w hw).ne
        · rfl
      · exact ⟨lt_succ_of_forall hlt, hinj⟩
  exact (run_inv hstep (s := .new addr uuid heap user) ⟨by simp [QueueClient.new],
    by simp [QueueClient.new]⟩ ops).2

/-- Like items and like waiters are served in the order they came. -/
theorem queue_fifo (call : β → QueueItem → Heap × σ → Heap × σ) (addr : Nat)
    (uuid : Nat → UInt8) (heap : Heap) (user : σ) (ops : List (QueueOp β)) :
    let c := run (QueueClient.step call) (.new addr uuid heap user) ops
    ItemsInOrder c ∧ WaitersInOrder c := by
  intro c
  obtain ⟨h, ht⟩ := tracks_run call addr uuid heap user ops
  exact ⟨ht.items_inOrder, ht.waiters_inOrder (asked_inj call addr uuid heap user ops)⟩

end DQ.Proof.Queue
