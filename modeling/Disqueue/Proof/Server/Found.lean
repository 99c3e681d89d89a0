import Disqueue.Proof.Queue.Counters
import Disqueue.Proof.Server.Inv
import Disqueue.Spec.Handing

/-!
# Queues in the registry

The items and callbacks of a registry are those of a queue found in it and
those of the others (`storedIn_found`). On a queue whose counters are right
and whose items are live, taking and peeking do to the heap what they do to
the one item they find (`queueTake_live`, `queuePeek_live`).
-/

namespace DQ.Proof.Server

open DQ.Model DQ.Spec DQ.Proof.Queue

/-- The stored items of a registry. -/
def storedIn (qs : List ManagerQueue) : List (Nat × QueueItem) :=
  qs.flatMap fun m => m.q.items.map fun i => (m.q.addr, i)

/-- The callbacks of a registry. -/
def waitingIn (qs : List ManagerQueue) : List (Nat × QueueCallback Nat) :=
  qs.flatMap fun m => m.q.callbacks.map fun cb => (m.q.addr, cb)

theorem stored_eq (s : Server) : stored s = storedIn s.queues := rfl

theorem waiting_eq (s : Server) : waiting s = waitingIn s.queues := rfl

/-- Every queue's counters are right. -/
def AllCounted (qs : List ManagerQueue) : Prop := ∀ m ∈ qs, Counted m.q

section
variable (f : Found) (q : Queue Nat)

/-- The items of a queue, with its address. -/
def itemsAt (q : Queue Nat) : List (Nat × QueueItem) := q.items.map fun i => (q.addr, i)

def callbacksAt (q : Queue Nat) : List (Nat × QueueCallback Nat) :=
  q.callbacks.map fun cb => (q.addr, cb)

theorem storedIn_set : (storedIn (f.set q)).Perm (itemsAt q ++ storedIn f.free) := by
  simp only [storedIn, Found.set, Found.free, List.flatMap_append, List.flatMap_cons, itemsAt]
  exact List.perm_append_comm_assoc _ _ _

theorem waitingIn_set : (waitingIn (f.set q)).Perm (callbacksAt q ++ waitingIn f.free) := by
  simp only [waitingIn, Found.set, Found.free, List.flatMap_append, List.flatMap_cons, callbacksAt]
  exact List.perm_append_comm_assoc _ _ _

theorem storedIn_found : (storedIn f.registry).Perm (itemsAt f.mq.q ++ storedIn f.free) :=
  storedIn_set f f.mq.q

theorem waitingIn_found : (waitingIn f.registry).Perm (callbacksAt f.mq.q ++ waitingIn f.free) :=
  waitingIn_set f f.mq.q

variable {f q}

theorem allCounted_set (h : AllCounted f.registry) (hq : Counted q) : AllCounted (f.set q) := by
  intro m hm
  simp only [Found.set, List.mem_append, List.mem_cons] at hm
  rcases hm with hm | rfl | hm
  · exact h m (by simp [Found.registry, hm])
  · exact hq
  · exact h m (by simp [Found.registry, hm])

theorem allCounted_free (h : AllCounted f.registry) : AllCounted f.free := by
  intro m hm
  simp only [Found.free, List.mem_append] at hm
  exact h m (by rcases hm with hm | hm <;> simp [Found.registry, hm])

theorem allCounted_found (h : AllCounted f.registry) : Counted f.mq.q :=
  h f.mq (by simp [Found.registry])

end

/-! ## Looking queues up -/

variable {dm : DataModel} {e : QueueSupply} {name : Option CStr} {qs : List ManagerQueue}
  {f : Found}

theorem managerQueueFind_registry {n : CStr} (h : managerQueueFind n qs = some f) :
    qs = f.registry := by
  unfold managerQueueFind at h
  obtain ⟨⟨pre, mq, post⟩, hs, rfl⟩ := Option.map_eq_some_iff.mp h
  exact (splitFirst_eq_some.mp hs).1

/-- A lookup that does not create gives the registry. -/
theorem managerQueueGet_found (h : managerQueueGet dm e name false qs = some f) :
    qs = f.registry := by
  unfold managerQueueGet at h
  split at h
  · split at h <;> [cases h; skip]
    split at h
    · rename_i g hg
      obtain rfl := Option.some.inj h
      exact managerQueueFind_registry hg
    · cases h
  · cases h

/-- A name of another length than an id's is refused. -/
theorem managerQueueGet_length {createNew : Bool} (h : name.any (·.length != 36) = true) :
    managerQueueGet dm e name createNew qs = none := by
  cases name with
  | none => cases h
  | some n => simp only [managerQueueGet, ne_eq, bne_iff_ne.mp h, not_false_eq_true, if_true]

/-- A new queue is empty and at the end of the registry. -/
structure IsNew (qs : List ManagerQueue) (f : Found) (addr : Nat) : Prop where
  pre : f.pre = qs
  post : f.post = []
  items : f.mq.q.items = []
  callbacks : f.mq.q.callbacks = []
  counted : Counted f.mq.q
  addr : f.mq.q.addr = addr

theorem managerQueueNew_isNew {uuid : Option Bytes}
    (h : managerQueueNew dm e uuid qs = some f) : IsNew qs f e.addr := by
  unfold managerQueueNew at h
  split at h <;> [cases h; skip]
  split at h <;> [cases h; skip]
  split at h
  · obtain rfl := Option.some.inj h
    exact ⟨rfl, rfl, rfl, rfl, counted_new _ _, rfl⟩
  · split at h <;> [cases h; skip]
    obtain rfl := Option.some.inj h
    exact ⟨rfl, rfl, rfl, rfl, counted_new _ _, rfl⟩

/-- A lookup finds a queue or makes one. -/
theorem managerQueueGet_some {createNew : Bool}
    (h : managerQueueGet dm e name createNew qs = some f) :
    qs = f.registry ∨ IsNew qs f e.addr := by
  unfold managerQueueGet at h
  split at h
  · split at h <;> [cases h; skip]
    split at h
    · rename_i g hg
      obtain rfl := Option.some.inj h
      exact .inl (managerQueueFind_registry hg)
    · split at h <;> [cases h; skip]
      split at h <;> [cases h; skip]
      exact .inr (managerQueueNew_isNew h)
  · split at h <;> [cases h; skip]
    exact .inr (managerQueueNew_isNew h)

theorem storedIn_get {createNew : Bool} (h : managerQueueGet dm e name createNew qs = some f) :
    storedIn f.registry = storedIn qs := by
  rcases managerQueueGet_some h with rfl | hn
  · rfl
  · simp only [storedIn, Found.registry, List.flatMap_append, hn.pre, hn.post, List.flatMap_cons,
      hn.items, List.map_nil, List.flatMap_nil, List.append_nil]

theorem waitingIn_get {createNew : Bool} (h : managerQueueGet dm e name createNew qs = some f) :
    waitingIn f.registry = waitingIn qs := by
  rcases managerQueueGet_some h with rfl | hn
  · rfl
  · simp only [waitingIn, Found.registry, List.flatMap_append, hn.pre, hn.post, List.flatMap_cons,
      hn.callbacks, List.map_nil, List.flatMap_nil, List.append_nil]

theorem allCounted_get {createNew : Bool} (h : managerQueueGet dm e name createNew qs = some f)
    (hc : AllCounted qs) : AllCounted f.registry := by
  rcases managerQueueGet_some h with rfl | hn
  · exact hc
  · intro m hm
    simp only [Found.registry, hn.pre, hn.post, List.mem_append, List.mem_singleton] at hm
    rcases hm with hm | rfl
    · exact hc m hm
    · exact hn.counted

/-! ## Live items -/

/-- The items of the queue are live. -/
def LiveItems (h : Heap) (q : Queue Nat) : Prop := ∀ i ∈ q.items, h.cell i.id = ⟨true, 0, 0⟩

theorem Inv.liveItems {s : Server} (hi : Inv s) {f : Found} (hf : s.queues = f.registry) :
    LiveItems s.heap f.mq.q := by
  intro i hm
  have : (f.mq.q.addr, i) ∈ stored s := by
    rw [stored_eq, hf]
    exact (storedIn_found f).mem_iff.mpr (List.mem_append_left _ (List.mem_map_of_mem hm))
  exact hi.live _ this

variable {q : Queue Nat} {h : Heap}

theorem queueFind_live (hc : Counted q) (hl : LiveItems h q) (key : Option CStr) :
    queueFind key q h = (splitFirst (itemMatches key) q.items, h) := by
  refine Prod.ext (queueFind_eq hc key h) ?_
  have hr : ∀ is : List QueueItem, (∀ i ∈ is, i ∈ q.items) → h.readAll (is.map (·.id)) = h := by
    intro is his
    refine readAll_live fun id hm => ?_
    obtain ⟨i, hi, rfl⟩ := List.mem_map.mp hm
    rw [hl i (his i hi)]
  unfold queueFind
  split
  · rfl
  · split
    · split
      · rename_i pre item post hs
        exact hr (pre ++ [item]) fun i hi => (splitFirst_looked hs).subset hi
      · exact hr q.items fun i hi => hi
    · rfl

/-- Taking from a queue of live items. -/
theorem queueTake_live (hc : Counted q) (hl : LiveItems h q) (key : Option CStr) :
    queueTake key q h =
      match splitFirst (itemMatches key) q.items with
      | some (pre, i, post) =>
        (some i, q.removeItem i (pre ++ post), setCell h i.id ⟨false, 0, 0⟩)
      | none => (none, q, h) := by
  unfold queueTake
  rw [queueFind_live hc hl]
  cases hs : splitFirst (itemMatches key) q.items with
  | none => rfl
  | some t =>
    obtain ⟨pre, i, post⟩ := t
    have hi : h.cell i.id = ⟨true, 0, 0⟩ :=
      hl i (by rw [(splitFirst_eq_some.mp hs).1]; simp)
    have hr : (h.cell i.id).released = 0 := by rw [hi]
    simp only [setInserted_live hr, hi]

/-- Peeking at a queue of live items. -/
theorem queuePeek_live (hc : Counted q) (hl : LiveItems h q) (key : Option CStr) :
    queuePeek key q h = (q.items.find? (itemMatches key), h) := by
  unfold queuePeek
  rw [queueFind_live hc hl, ← splitFirst_find]
  cases splitFirst (itemMatches key) q.items with
  | none => rfl
  | some t => rfl

end DQ.Proof.Server
