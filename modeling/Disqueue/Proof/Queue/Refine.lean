import Disqueue.Framework.Run
import Disqueue.Proof.Queue.Counters

/-!
# The queue refines the reference queue

`Shows q r`: the queue `q` holds the items and the waiters of the rendezvous
`r`, and its counters count them. Each function of the queue does what the
rendezvous' operation does and keeps the relation (`queuePut_handed`,
`queuePut_stored`, `queueTake_shows`, `queuePeek_shows`, `queueWait_shows`),
and so does each call of a client (`Sim.step`) and any sequence of calls
(`sim_run`).
-/

namespace DQ.Proof.Queue

open DQ.Model DQ.Spec

variable {α β σ : Type} {q : Queue α} {r : RefQueue α}

/-- The queue holds the items and waiters of `r`, and counts them. -/
structure Shows (q : Queue α) (r : RefQueue α) : Prop where
  items : q.items = r.items
  waiters : q.callbacks = r.waiters
  counted : Counted q

theorem shows_new (addr : Nat) (uuid : Nat → UInt8) :
    Shows (queueNew addr uuid : Queue α) ⟨[], []⟩ := ⟨rfl, rfl, counted_new addr uuid⟩

theorem itemMatches_wants (key : Option CStr) : itemMatches key = wants key :=
  funext (itemMatches_eq key)

theorem callbackWants_wants (item : QueueItem) :
    (callbackWants item.key : QueueCallback α → Bool) = fun w => wants w.key item :=
  funext (callbackWants_eq item.key)

/-- The item that `queue_put` makes. -/
theorem queuePutItem_eq {ok : Outcome} {id owner : Nat} {key : Option CStr} {value : CStr}
    {item : QueueItem} (h : queuePutItem ok id owner key value = some item) :
    item = ⟨id, owner, key, value⟩ := by
  unfold queuePutItem at h
  split at h <;> [cases h; skip]
  split at h <;> [cases h; skip]
  split at h <;> [cases h; skip]
  exact (Option.some.inj h).symm

/-- `queue_put` makes its item where there is memory for the item, its key and
its value. -/
theorem queuePutItem_ite (ok : Outcome) (id owner : Nat) (key : Option CStr) (value : CStr) :
    queuePutItem ok id owner key value =
      if ok .item && (key.isNone || ok .itemKey) && ok .itemValue then
        some ⟨id, owner, key, value⟩
      else none := by
  unfold queuePutItem
  cases ok .item <;> cases key <;> cases ok .itemKey <;> cases ok .itemValue <;> rfl

section
variable (call : α → QueueItem → Heap × σ → Heap × σ)

/-- An item the reference hands to `w` is handed to `w`. -/
theorem queuePut_handed (hs : Shows q r) {ok : Outcome} {id : Nat} {key : Option CStr}
    {value : CStr} {item : QueueItem} (hi : queuePutItem ok id q.addr key value = some item)
    (m : Heap × σ) {r' : RefQueue α} {w : QueueCallback α}
    (hr : r.put wants QueueCallback.key item = (r', some w)) :
    ∃ q', queuePut call ok id key value q m =
        (q', (queueItemFree (call w.arg item (m.1.calloc id, m.2)).1 id,
          (call w.arg item (m.1.calloc id, m.2)).2), 1) ∧
      Shows q' r' ∧ q'.addr = q.addr := by
  obtain rfl := queuePutItem_eq hi
  unfold Rendezvous.put at hr
  split at hr <;> [skip; cases hr]
  rename_i pre w' post hsp
  obtain ⟨rfl, rfl⟩ : _ ∧ w' = w := by simpa using hr
  rw [← callbackWants_wants, ← hs.waiters] at hsp
  obtain ⟨hl, -, -⟩ := splitFirst_eq_some.mp hsp
  refine ⟨queueCallbackFree_ w' (pre ++ post) q, ?_, ⟨?_, ?_, hs.counted.callbackFree hl⟩, ?_⟩
  · simp only [queuePut, hi, queuePutCallback_eq hs.counted, hsp]
  · rw [queueCallbackFree_items]
    exact hs.items
  · rfl
  · exact queueCallbackFree_addr ..

/-- An item the reference stores is stored. -/
theorem queuePut_stored (hs : Shows q r) {ok : Outcome} {id : Nat} {key : Option CStr}
    {value : CStr} {item : QueueItem} (hi : queuePutItem ok id q.addr key value = some item)
    (m : Heap × σ) {r' : RefQueue α} (hr : r.put wants QueueCallback.key item = (r', none)) :
    ∃ q', queuePut call ok id key value q m = (q', ((m.1.calloc id).setInserted id true, m.2), 0) ∧
      Shows q' r' ∧ q'.addr = q.addr := by
  obtain rfl := queuePutItem_eq hi
  unfold Rendezvous.put at hr
  split at hr <;> [cases hr; skip]
  rename_i hsp
  obtain rfl := (Prod.mk.inj hr).1
  rw [← callbackWants_wants, ← hs.waiters] at hsp
  refine ⟨q.insertItem ⟨id, q.addr, key, value⟩, ?_, ⟨?_, hs.waiters, hs.counted.insertItem _⟩, rfl⟩
  · simp only [queuePut, hi, queuePutCallback_eq hs.counted, hsp]
  · simp only [Queue.insertItem, hs.items]

/-- `queue_take` takes what the reference takes. -/
theorem queueTake_shows (hs : Shows q r) (key : Option CStr) (h : Heap) :
    ∃ q' h', queueTake key q h = ((r.take wants key).2, q', h') ∧
      Shows q' (r.take wants key).1 ∧ q'.addr = q.addr ∧
      ((r.take wants key).2 = none → q' = q ∧ (r.take wants key).1 = r) := by
  unfold Rendezvous.take
  split
  · rename_i pre item post hsp
    rw [← itemMatches_wants, ← hs.items] at hsp
    obtain ⟨h', he⟩ := queueTake_some hs.counted h hsp
    exact ⟨_, h', he, ⟨rfl, hs.waiters, hs.counted.removeItem (splitFirst_eq_some.mp hsp).1⟩,
      rfl, nofun⟩
  · rename_i hsp
    rw [← itemMatches_wants, ← hs.items] at hsp
    obtain ⟨h', he⟩ := queueTake_none hs.counted h hsp
    exact ⟨q, h', he, hs, rfl, fun _ => ⟨rfl, rfl⟩⟩

/-- `queue_peek` shows what the reference shows. -/
theorem queuePeek_shows (hs : Shows q r) (key : Option CStr) (h : Heap) :
    (queuePeek key q h).1 = r.peek wants key := by
  have hf : (queuePeek key q h).1 = (queueFind key q h).1.map (·.2.1) := by
    unfold queuePeek
    split <;> (rename_i he; rw [he]; rfl)
  rw [hf, queueFind_eq hs.counted, splitFirst_find, hs.items, itemMatches_wants, Rendezvous.peek]

/-- A wait that the reference serves with an item is served with it. -/
theorem queueWait_served (hs : Shows q r) (ok : Outcome) (key : Option CStr) (arg : α)
    (m : Heap × σ) {r' : RefQueue α} {item : QueueItem}
    (hr : r.take wants key = (r', some item)) :
    ∃ q' h', queueTake key q m.1 = (some item, q', h') ∧
      queueWait call ok key arg q m =
        (q', (queueItemFree (call arg item (h', m.2)).1 item.id, (call arg item (h', m.2)).2), 1) ∧
      Shows q' r' ∧ q'.addr = q.addr := by
  obtain ⟨q', h', he, hs', ha, -⟩ := queueTake_shows hs key m.1
  rw [hr] at he hs'
  exact ⟨q', h', he, by simp only [queueWait, he], hs', ha⟩

/-- A wait that finds nothing waits, unless its allocations fail. -/
theorem queueWait_waits (hs : Shows q r) (ok : Outcome) (key : Option CStr) (arg : α)
    (m : Heap × σ) {r' : RefQueue α} (hr : r.take wants key = (r', none)) :
    r' = r ∧ ∃ h', queueTake key q m.1 = (none, q, h') ∧
      if queueCallbackNew_ ok key then
        queueWait call ok key arg q m = (q.insertCallback ⟨key, arg⟩, (h', m.2), 0) ∧
          Shows (q.insertCallback ⟨key, arg⟩) { r with waiters := r.waiters ++ [⟨key, arg⟩] }
      else queueWait call ok key arg q m = (q, (h', m.2), -1) := by
  obtain ⟨q₁, h', he, hs', -, hn⟩ := queueTake_shows hs key m.1
  rw [hr] at he hs' hn
  obtain ⟨rfl, rfl⟩ := hn rfl
  refine ⟨rfl, h', he, ?_⟩
  split
  · rename_i hok
    refine ⟨by simp only [queueWait, he, hok, if_true], ⟨hs.items, ?_, ?_⟩⟩
    · simp only [Queue.insertCallback, hs.waiters]
    · exact hs.counted.insertCallback ⟨key, arg⟩
  · rename_i hok
    simp only [queueWait, he, hok, Bool.false_eq_true, if_false]

end

/-! ## Clients -/

/-- The client's queue shows the reference's, and both have returned and
handed over the same. -/
structure Sim (addr : Nat) (c : QueueClient β σ) (rf : RefClient β) : Prop where
  addr : c.q.addr = addr
  shows' : Shows c.q rf.r
  calls : c.calls = rf.calls
  results : c.results = rf.results
  handed : c.handed = rf.handed

variable {call : β → QueueItem → Heap × σ → Heap × σ} {addr : Nat} {c : QueueClient β σ}
  {rf : RefClient β}

/-- What a callback records. -/
theorem recorded_snd (a : β × Nat) (item : QueueItem) (m : Heap × (σ × Handed β)) :
    (QueueClient.recorded call a item m).2.2 = m.2.2 ++ [(a, item)] := rfl

/-- A call does to the queue what it does to the reference queue. -/
theorem Sim.step (h : Sim addr c rf) (op : QueueOp β) :
    Sim addr (c.step call op) (rf.step addr op) := by
  obtain ⟨rfl, hs, hc, hr, hh⟩ := h
  cases op with
  | put ok key value =>
    have hi := queuePutItem_ite ok c.calls c.q.addr key value
    simp only [QueueClient.step, RefClient.step, ← hc]
    split at hi
    case isFalse hno =>
      rw [queuePut_failed _ hi, if_neg hno]
      exact ⟨rfl, hs, by simp, by simp [hr], by simp [hh]⟩
    case isTrue hyes =>
      rw [if_pos hyes]
      rcases hp : rf.r.put wants QueueCallback.key ⟨c.calls, c.q.addr, key, value⟩ with ⟨r', _ | w⟩
      · obtain ⟨q', he, hs', ha⟩ :=
          queuePut_stored (QueueClient.recorded call) hs hi (c.heap, (c.user, [])) hp
        rw [he]
        simp only [hp]
        exact ⟨ha, hs', by simp, by simp [hr], by simp [hh]⟩
      · obtain ⟨q', he, hs', ha⟩ :=
          queuePut_handed (QueueClient.recorded call) hs hi (c.heap, (c.user, [])) hp
        rw [he]
        simp only [hp]
        exact ⟨ha, hs', by simp, by simp [hr], by simp [hh, recorded_snd]⟩
  | take key =>
    obtain ⟨q', h', he, hs', ha, -⟩ := queueTake_shows hs key c.heap
    simp only [QueueClient.step, RefClient.step, he]
    exact ⟨ha, hs', by simp [hc], by simp [hr], hh⟩
  | peek key =>
    have := queuePeek_shows hs key c.heap
    simp only [QueueClient.step, RefClient.step]
    exact ⟨rfl, hs, by simp [hc], by simp [hr, this], hh⟩
  | wait ok key arg =>
    simp only [QueueClient.step, RefClient.step, ← hc]
    rcases ht : rf.r.take wants key with ⟨r', _ | item⟩
    · obtain ⟨rfl, h', -, hw⟩ := queueWait_waits (QueueClient.recorded call) hs ok key
        (arg, c.calls) (c.heap, (c.user, [])) ht
      -- the two allocations of a waiter are those of `queue_callback_new_`
      unfold queueCallbackNew_ at hw
      split at hw
      · rename_i hok
        rw [hw.1]
        simp only [hok, if_true]
        exact ⟨rfl, hw.2, by simp, by simp [hr], by simp [hh]⟩
      · rename_i hok
        rw [hw]
        simp only [hok, Bool.false_eq_true, if_false]
        exact ⟨rfl, hs, by simp, by simp [hr], by simp [hh]⟩
    · obtain ⟨q', h', -, he, hs', ha⟩ := queueWait_served (QueueClient.recorded call) hs ok key
        (arg, c.calls) (c.heap, (c.user, [])) ht
      rw [he]
      exact ⟨ha, hs', by simp, by simp [hr], by simp [hh, recorded_snd]⟩

/-- Any sequence of calls on a new queue does what it does on a new reference
queue. -/
theorem sim_run (call : β → QueueItem → Heap × σ → Heap × σ) (addr : Nat) (uuid : Nat → UInt8)
    (heap : Heap) (user : σ) (ops : List (QueueOp β)) :
    Sim addr (run (QueueClient.step call) (.new addr uuid heap user) ops)
      (run (RefClient.step addr) .new ops) := by
  have h0 : Sim addr (QueueClient.new addr uuid heap user : QueueClient β σ) .new :=
    ⟨rfl, shows_new addr uuid, rfl, rfl, rfl⟩
  induction ops using List.reverseRecOn with
  | nil => exact h0
  | append_singleton ops op ih =>
    rw [run_append, run_append]
    exact ih.step op

end DQ.Proof.Queue
