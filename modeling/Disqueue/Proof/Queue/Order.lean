import Disqueue.Proof.Queue.Refine

/-!
# Wakeups and order in a queue

`Tracks c h`: the history `h` of a rendezvous is that of the client `c`, item
for item and waiter for waiter. Every call keeps it (`Tracks.step`), so what a
history keeps (`History.Fifo`) holds of every sequence of calls: nobody waits
for a stored item, and like items and like waiters leave in order.
-/

namespace DQ.Proof.Queue

open DQ.Model DQ.Spec

variable {β σ : Type}

/-- The history of a queue of a client. -/
abbrev QueueHistory (β : Type) := History QueueItem (QueueCallback (β × Nat))

/-- `h` is the history of the client's queue, and in order. -/
structure Tracks (c : QueueClient β σ) (h : QueueHistory β) : Prop where
  shows' : Shows c.q h.now
  entered : c.entered = h.items.joined
  left : c.left = h.items.gone
  asked : c.asked = h.waiters.joined
  served : c.served = h.waiters.gone.map (·.arg)
  entered_lt : ∀ i ∈ c.entered, i.id < c.calls
  asked_lt : ∀ w ∈ c.asked, w.arg.2 < c.calls
  fifo : h.Fifo wants QueueCallback.key

theorem tracks_new (addr : Nat) (uuid : Nat → UInt8) (heap : Heap) (user : σ) :
    Tracks (QueueClient.new addr uuid heap user : QueueClient β σ) ⟨⟨[], [], []⟩, ⟨[], [], []⟩⟩ :=
  ⟨shows_new addr uuid, rfl, rfl, rfl, rfl, by simp [QueueClient.new], by simp [QueueClient.new],
    History.fifo_empty⟩

variable {call : β → QueueItem → Heap × σ → Heap × σ} {c : QueueClient β σ} {h : QueueHistory β}

/-- What the `n`-th call makes is named by `n`. -/
theorem lt_succ_of_concat {τ : Type} {f : τ → Nat} {l : List τ} {n : Nat} {x : τ}
    (hl : ∀ y ∈ l, f y < n) (hx : f x = n) : ∀ y ∈ l ++ [x], f y < n + 1 := by
  intro y hy
  rcases List.mem_append.mp hy with hy | hy
  · exact Nat.lt_succ_of_lt (hl y hy)
  · rw [List.mem_singleton.mp hy, hx]
    exact Nat.lt_succ_self n

theorem lt_succ_of_forall {τ : Type} {f : τ → Nat} {l : List τ} {n : Nat}
    (hl : ∀ y ∈ l, f y < n) : ∀ y ∈ l, f y < n + 1 := fun y hy => Nat.lt_succ_of_lt (hl y hy)

theorem Tracks.put (ht : Tracks c h) (ok : Outcome) (key : Option CStr) (value : CStr) :
    ∃ h', Tracks (c.step call (.put ok key value)) h' := by
  obtain ⟨hs, he, hl, ha, hv, hi, hw, hf⟩ := ht
  simp only [QueueClient.step]
  cases hp : queuePutItem ok c.calls c.q.addr key value with
  | none =>
    rw [queuePut_failed _ hp]
    exact ⟨h, hs, he, by simp [hl], ha, by simp [hv], lt_succ_of_forall hi, lt_succ_of_forall hw, hf⟩
  | some item =>
    obtain rfl := queuePutItem_eq hp
    have hnew : (⟨c.calls, c.q.addr, key, value⟩ : QueueItem) ∉ h.items.joined := fun hm =>
      Nat.lt_irrefl _ (hi _ (he ▸ hm))
    have hf' := hf.put hnew
    refine ⟨h.put wants QueueCallback.key ⟨c.calls, c.q.addr, key, value⟩, ?_⟩
    unfold History.put at hf' ⊢
    rcases hr : h.now.put wants QueueCallback.key ⟨c.calls, c.q.addr, key, value⟩ with ⟨r', _ | w⟩
    · obtain ⟨q', hq, hs', -⟩ :=
        queuePut_stored (QueueClient.recorded call) hs hp (c.heap, (c.user, [])) hr
      rw [hr] at hf'
      rw [hq]
      exact ⟨hs', by simp [he], by simp [hl], ha, by simp [hv], lt_succ_of_concat hi rfl,
        lt_succ_of_forall hw, hf'⟩
    · obtain ⟨q', hq, hs', -⟩ :=
        queuePut_handed (QueueClient.recorded call) hs hp (c.heap, (c.user, [])) hr
      rw [hr] at hf'
      rw [hq]
      exact ⟨hs', by simp [he], by simp [hl, recorded_snd], ha, by simp [hv, recorded_snd],
        lt_succ_of_concat hi rfl, lt_succ_of_forall hw, hf'⟩

theorem Tracks.take (ht : Tracks c h) (key : Option CStr) :
    ∃ h', Tracks (c.step call (.take key)) h' := by
  obtain ⟨hs, he, hl, ha, hv, hi, hw, hf⟩ := ht
  obtain ⟨q', heap', hq, hs', -, hn⟩ := queueTake_shows hs key c.heap
  simp only [QueueClient.step, hq]
  have hf' := hf.take key
  refine ⟨h.take wants key, ?_⟩
  unfold History.take at hf' ⊢
  have hwt : (h.now.take wants key).1.waiters = h.now.waiters := h.now.take_waiters key
  rcases hr : h.now.take wants key with ⟨r', _ | x⟩ <;> rw [hr] at hf' hs' hn hwt
  · obtain ⟨-, rfl⟩ := hn rfl
    exact ⟨hs', he, by simp [hl], ha, hv, lt_succ_of_forall hi, lt_succ_of_forall hw, hf'⟩
  · exact ⟨⟨hs'.items, hs'.waiters.trans hwt, hs'.counted⟩, he, by simp [hl], ha, hv,
      lt_succ_of_forall hi, lt_succ_of_forall hw, hf'⟩

theorem Tracks.wait (ht : Tracks c h) (ok : Outcome) (key : Option CStr) (arg : β) :
    ∃ h', Tracks (c.step call (.wait ok key arg)) h' := by
  obtain ⟨hs, he, hl, ha, hv, hi, hw, hf⟩ := ht
  simp only [QueueClient.step]
  have hnew : (⟨key, (arg, c.calls)⟩ : QueueCallback (β × Nat)) ∉ h.waiters.joined := fun hm =>
    Nat.lt_irrefl _ (hw _ (ha ▸ hm))
  have hf' := hf.wait hnew
  rcases hr : h.now.take wants key with ⟨r', _ | x⟩
  · obtain ⟨rfl, h', -, hq⟩ := queueWait_waits (QueueClient.recorded call) hs ok key
      (arg, c.calls) (c.heap, (c.user, [])) hr
    split at hq
    · rw [hq.1]
      refine ⟨h.wait wants QueueCallback.key ⟨key, (arg, c.calls)⟩, ?_⟩
      simp only [History.wait, Rendezvous.wait, hr] at hf' ⊢
      exact ⟨hq.2, he, by simp [hl], by simp [ha], by simp [hv], lt_succ_of_forall hi,
        lt_succ_of_concat hw rfl, hf'⟩
    · rw [hq]
      exact ⟨h, hs, he, by simp [hl], ha, by simp [hv], lt_succ_of_forall hi,
        lt_succ_of_forall hw, hf⟩
  · obtain ⟨q', h', -, hq, hs', -⟩ := queueWait_served (QueueClient.recorded call) hs ok key
      (arg, c.calls) (c.heap, (c.user, [])) hr
    rw [hq]
    refine ⟨h.wait wants QueueCallback.key ⟨key, (arg, c.calls)⟩, ?_⟩
    simp only [History.wait, Rendezvous.wait, hr] at hf' ⊢
    exact ⟨hs', he, by simp [hl, recorded_snd], by simp [ha], by simp [hv, recorded_snd],
      lt_succ_of_forall hi, lt_succ_of_concat hw rfl, hf'⟩

/-- Every call keeps the history. -/
theorem Tracks.step (ht : Tracks c h) (op : QueueOp β) : ∃ h', Tracks (c.step call op) h' := by
  cases op with
  | put ok key value => exact ht.put ok key value
  | take key => exact ht.take key
  | peek key =>
    obtain ⟨hs, he, hl, ha, hv, hi, hw, hf⟩ := ht
    exact ⟨h, hs, he, hl, ha, hv, lt_succ_of_forall hi, lt_succ_of_forall hw, hf⟩
  | wait ok key arg => exact ht.wait ok key arg

/-- Any sequence of calls on a new queue has a history. -/
theorem tracks_run (call : β → QueueItem → Heap × σ → Heap × σ) (addr : Nat) (uuid : Nat → UInt8)
    (heap : Heap) (user : σ) (ops : List (QueueOp β)) :
    ∃ h, Tracks (run (QueueClient.step call) (.new addr uuid heap user) ops) h :=
  run_inv (I := fun c => ∃ h, Tracks c h) (fun _ op ⟨_, ht⟩ => ht.step op)
    ⟨_, tracks_new addr uuid heap user⟩ ops

/-! ## Like keys -/

/-- Both have no key, or equal keys ignoring case. -/
def SameKey (a b : Option CStr) : Prop :=
  match a, b with
  | none, none => True
  | some a, some b => strcaseEq a b = true
  | _, _ => False

theorem SameKey.wants {a b : Option CStr} (h : SameKey a b) (f : Option CStr) :
    keyWants f a = keyWants f b := by
  match f, a, b, h with
  | none, _, _, _ => rfl
  | some _, none, none, _ => rfl
  | some f, some a, some b, h => exact strcaseEq_congr h f

theorem SameKey.filter {a b : Option CStr} (h : SameKey a b) (k : Option CStr) :
    keyWants a k = keyWants b k := by
  match a, b, k, h with
  | none, none, _, _ => rfl
  | some _, some _, none, _ => rfl
  | some a, some b, some k, h =>
    show strcaseEq a k = strcaseEq b k
    rw [strcaseEq_comm a, strcaseEq_comm b]
    exact strcaseEq_congr h k

end DQ.Proof.Queue
