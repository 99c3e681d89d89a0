import Disqueue.Proof.Queue.MemoryOps
import Disqueue.Proof.Server.Steps

/-!
# A memory refines the queues

Each call on a memory returns what it returns on the queues that the memory
shows, and the memory then shows what they are (`op_stored`). So over any calls
the tail queues and the counters in memory do what lists of items and callbacks
do, and every loop over them ends (`memory_refines`).
-/

namespace DQ.Proof.Queue

open DQ.Model DQ.Spec DQ.Proof.Server

variable {α σ : Type} {Q : Nat → Option (Model.Queue α)} {next n q : Nat} {m : Memory α}
  {cbs : Nat → Option (List Nat)} {x : Model.Queue α}
  {call : α → QueueItem → Heap × σ → Heap × σ}

theorem stored_put (hcalm : Calm call) (h : Stored Q next m cbs) (hx : Q q = some x)
    (hn : next < n) (ok : Outcome) (key : Option CStr) (value : CStr) (env : σ) :
    ∃ m' cbs', Memory.queuePut call n ok next key value q (m, env) =
        some ((m', (queuePut call ok next key value x (m.heap, env)).2.1.2),
          (queuePut call ok next key value x (m.heap, env)).2.2) ∧
      m'.heap = (queuePut call ok next key value x (m.heap, env)).2.1.1 ∧
      Stored (Function.update Q q (some (queuePut call ok next key value x (m.heap, env)).1))
        (next + 1) m' cbs' := by
  obtain ⟨ids, hj⟩ := h.addresses hx
  have hs := h.queue q x ids hx hj
  unfold Memory.queuePut queuePut
  rw [hs.addr]
  cases hi : queuePutItem ok next q key value with
  | none =>
    refine ⟨m, cbs, rfl, rfl, ?_⟩
    rw [update_self_eq hx]
    exact h.succ
  | some i =>
    cases queuePutItem_eq hi
    have hnew := stored_newItem h ⟨key, value, q⟩
    have hat : ∀ m' : Memory α, m'.item = Function.update m.item next ⟨key, value, q⟩ →
        m'.itemAt next = ⟨next, q, key, value⟩ := by
      intro m' hm'
      unfold Memory.itemAt
      rw [hm', Function.update_self]
    have hcell : (m.heap.calloc next).cell next = {} := Function.update_self ..
    have hout : ((m.heap.calloc next).cell next).inserted = false := congrArg Cell.inserted hcell
    have hsame : Memory.queuePutCallback n key q
        { m with
          heap := m.heap.calloc next
          item := Function.update m.item next ⟨key, value, q⟩ } = m.queuePutCallback n key q := rfl
    dsimp only
    rw [hsame]
    rcases stored_putCallback h hx hj hn key with
      ⟨hnone, hmem⟩ | ⟨pre, cb, post, ipre, id, ipost, hsome, hmem, rfl, hpre, hcb, hpost⟩
    · rw [hnone, hmem]
      refine ⟨_, cbs, rfl, rfl, ?_⟩
      have hins := stored_insertItem hnew hx (i := ⟨next, q, key, value⟩) (hat _ rfl) rfl
        (Nat.lt_succ_self next) hout
      have hd : ({ m.queue q with
          itemCount := (m.queue q).itemCount + 1
          keyedCount := if key.isSome then (m.queue q).keyedCount + 1 else (m.queue q).keyedCount } :
            QueueMembers) = membersOf (x.insertItem ⟨next, q, key, value⟩) := by
        rw [hs.members]
        rfl
      rw [← hd] at hins
      exact hins
    · rw [hsome, hmem]
      have hlift : ∀ id cb, StoredCallback next m q id cb → StoredCallback (next + 1)
          { m with
            heap := m.heap.calloc next
            item := Function.update m.item next ⟨key, value, q⟩ } q id cb :=
        fun _ _ hc => ⟨hc.eq, Nat.lt_succ_of_lt hc.lt⟩
      have hfree := stored_callbackFree hnew hx hj (hpre.imp hlift) (hlift _ _ hcb)
        (hpost.imp hlift)
      obtain ⟨m', hm', henv, hheap, hst⟩ := stored_called hcalm hfree
        (i := ⟨next, q, key, value⟩) (hat _ rfl) hout cb.arg env
      refine ⟨m', _, ?_, hheap, hst⟩
      simp only [Option.map_some, hcb.eq]
      rw [hm', henv]
      rfl

theorem stored_wait (hcalm : Calm call) (h : Stored Q next m cbs) (hx : Q q = some x)
    (hn : next < n) (ok : Outcome) (key : Option CStr) (arg : α) (env : σ) :
    ∃ m' cbs', Memory.queueWait call n ok key arg next q (m, env) =
        some ((m', (queueWait call ok key arg x (m.heap, env)).2.1.2),
          (queueWait call ok key arg x (m.heap, env)).2.2) ∧
      m'.heap = (queueWait call ok key arg x (m.heap, env)).2.1.1 ∧
      Stored (Function.update Q q (some (queueWait call ok key arg x (m.heap, env)).1))
        (next + 1) m' cbs' := by
  unfold Memory.queueWait queueWait
  rcases ht : queueTake key x m.heap with ⟨_ | i, x', heap⟩ <;>
    obtain ⟨m', hm', rfl, hst, hitem⟩ := stored_take h hx hn key ht <;> dsimp only <;> rw [hm']
  · have hx' : Function.update Q q (some x') q = some x' := Function.update_self ..
    simp only [Option.map_some, Option.map_none]
    split
    · obtain ⟨ids, hj⟩ := hst.addresses hx'
      have hs := hst.queue q x' ids hx' hj
      have hnew := stored_newCallback hst ⟨key, arg, q⟩
      have hcb : StoredCallback (next + 1)
          { m' with callback := Function.update m'.callback next ⟨key, arg, q⟩ } q next ⟨key, arg⟩ :=
        ⟨Function.update_self .., Nat.lt_succ_self next⟩
      have hfresh : ∀ k l, cbs k = some l → next ∉ l := by
        intro k l hl hmem
        obtain ⟨y, hy⟩ := Option.isSome_iff_exists.mp ((hst.domain k).symm.trans (hl ▸ rfl))
        exact Nat.lt_irrefl next (callbacks_lt (hst.queue k y l hy hl).callback next hmem)
      have hins := stored_insertCallback hnew hx' hcb hj hfresh
      have hd : ({ m'.queue q with
          callbackCount := (m'.queue q).callbackCount + 1
          keyedCallbackCount :=
            if key.isSome then (m'.queue q).keyedCallbackCount + 1
            else (m'.queue q).keyedCallbackCount } : QueueMembers) =
          membersOf (x'.insertCallback ⟨key, arg⟩) := by
        rw [hs.members]
        rfl
      rw [← hd, Function.update_idem] at hins
      exact ⟨_, _, rfl, rfl, hins⟩
    · exact ⟨m', cbs, rfl, rfl, hst.succ⟩
  · obtain ⟨hat, hout⟩ := hitem i rfl
    obtain ⟨m'', hm'', henv, hheap, hst'⟩ := stored_called hcalm hst hat hout arg env
    refine ⟨m'', cbs, ?_, hheap, hst'.succ⟩
    simp only [Option.map_some]
    rw [hm'', henv]

/-! ## Queues -/

theorem stored_new (h : Stored Q next m cbs) (uuid : Nat → UInt8) (hnext : Q next = none) :
    Stored (Function.update Q next (some (queueNew next uuid))) (next + 1) (m.queueNew next uuid)
      (Function.update cbs next (some [])) where
  live k := by
    show Function.update m.live next true k = _
    by_cases hk : k = next
    · rw [hk, Function.update_self, Function.update_self]
      rfl
    · rw [Function.update_of_ne hk, Function.update_of_ne hk]
      exact h.live k
  items := by
    rw [update_items]
    exact Links.holds_init h.items next
  callbacks := Links.holds_init h.callbacks next
  domain k := by
    by_cases hk : k = next
    · rw [hk, Function.update_self, Function.update_self]
      rfl
    · rw [Function.update_of_ne hk, Function.update_of_ne hk]
      exact h.domain k
  queue k y jds hy hj := by
    by_cases hk : k = next
    · subst hk
      rw [Function.update_self] at hy hj
      cases hy
      cases hj
      exact ⟨rfl, Nat.lt_succ_self k, Function.update_self .., nofun, .nil⟩
    · rw [Function.update_of_ne hk] at hy hj
      exact (h.queue k y jds hy hj).frame (Nat.le_succ next) (Function.update_of_ne hk ..)
        (fun _ _ => ⟨rfl, rfl⟩) fun _ _ => rfl

/-- The loop of `queue_free` over the callbacks. -/
theorem stored_freeCallbacks {ids : List Nat} (h : Stored Q next m cbs) (hx : Q q = some x)
    (hj : cbs q = some ids) (hn : ids.length < n) :
    ∃ m' x', drain (fun m : Memory α => m.callbacks.get (.first q))
        (fun _ id m => some (m.queueCallbackFree_ id)) n m = some m' ∧ m'.heap = m.heap ∧
      x'.items = x.items ∧
      Stored (Function.update Q q (some x')) next m' (Function.update cbs q (some [])) := by
  induction ids generalizing Q x m cbs n with
  | nil =>
    obtain ⟨k, rfl⟩ : ∃ k, n = k + 1 := ⟨n - 1, by omega⟩
    have hfirst := (h.callbacks.held q [] hj).first_eq
    refine ⟨m, x, by rw [drain, hfirst]; rfl, rfl, rfl, ?_⟩
    rwa [update_self_eq hx, update_self_eq hj]
  | cons id ids ih =>
    obtain ⟨k, rfl⟩ : ∃ k, n = k + 1 := ⟨n - 1, by omega⟩
    have hfirst := (h.callbacks.held q _ hj).first_eq
    have hcallbacks := (h.queue q x _ hx hj).callback
    cases hl : x.callbacks with
    | nil =>
      rw [hl] at hcallbacks
      cases hcallbacks
    | cons cb rest =>
      rw [hl] at hcallbacks
      obtain ⟨hcb, hrest⟩ := List.forall₂_cons.mp hcallbacks
      have hfree := stored_callbackFree h hx (show cbs q = some ([] ++ id :: ids) from hj) .nil hcb hrest
      obtain ⟨m', x', hrun, hheap, hitems, hst⟩ := ih hfree (Function.update_self ..)
        (Function.update_self ..) (Nat.lt_of_succ_lt_succ hn)
      refine ⟨m', x', ?_, hheap, hitems.trans ?_, ?_⟩
      · rw [drain, hfirst]
        exact hrun
      · unfold queueCallbackFree_
        cases cb.key <;> rfl
      · rwa [Function.update_idem, Function.update_idem] at hst

/-- The loop of `queue_free` over the items. -/
theorem stored_freeItems {l : List QueueItem} (h : Stored Q next m cbs) (hx : Q q = some x)
    (hl : x.items = l) (hn : l.length < n) :
    ∃ m', drain (fun m : Memory α => m.items.get (.first q))
        (fun _ id m => some (m.queueItemFree_ id)) n m = some m' ∧
      m'.heap = l.foldl (fun h item => queueItemFree_ h item.id) m.heap ∧
      Stored (Function.update Q q (some { x with items := [] })) next m' cbs := by
  induction l generalizing Q x m n with
  | nil =>
    obtain ⟨k, rfl⟩ : ∃ k, n = k + 1 := ⟨n - 1, by omega⟩
    have hfirst := (h.held hx).first_eq
    rw [itemIds, hl] at hfirst
    refine ⟨m, by rw [drain, hfirst]; rfl, rfl, ?_⟩
    rw [show ({ x with items := [] } : Model.Queue α) = x by rw [← hl], update_self_eq hx]
    exact h
  | cons i l ih =>
    obtain ⟨k, rfl⟩ : ∃ k, n = k + 1 := ⟨n - 1, by omega⟩
    obtain ⟨jds, hj⟩ := h.addresses hx
    have hs := h.queue q x jds hx hj
    have hfirst := (h.held hx).first_eq
    rw [itemIds, hl] at hfirst
    obtain ⟨hat, howner, hins, hlt⟩ := hs.item i (hl ▸ List.mem_cons_self)
    have hown : (m.item i.id).owner = q := (congrArg QueueItem.owner hat).trans howner
    have hfree : m.queueItemFree_ i.id =
        { m with items := m.items.remove q i.id, heap := m.heap.release i.id } := by
      unfold Memory.queueItemFree_
      rw [if_pos hins, hown]
    have hst : Stored (Function.update Q q (some { x with items := l })) next
        (m.queueItemFree_ i.id) cbs := by
      rw [hfree, ← update_self_eq hj]
      refine h.update hx ⟨rfl, rfl, rfl, fun _ _ => rfl⟩ ?_ ?_ ?_
        fun _ _ _ _ j _ => release_inserted m.heap i.id j.id
      · have hids : (Q q).map itemIds = some ([] ++ i.id :: l.map (·.id)) := by
          rw [hx, Option.map_some, itemIds, hl]
          rfl
        exact Links.holds_remove h.items hids
      · rw [update_self_eq hj]
        exact h.callbacks
      · refine ⟨hs.addr, hs.lt, hs.members, fun j hjl => ?_,
          hs.callback.imp fun _ _ hc => ⟨hc.eq, hc.lt⟩⟩
        obtain ⟨hat', howner', hins', hlt'⟩ := hs.item j (hl ▸ List.mem_cons_of_mem _ hjl)
        exact ⟨hat', howner', (release_inserted m.heap i.id j.id).trans hins', hlt'⟩
    obtain ⟨m', hrun, hheap, hst'⟩ := ih hst (Function.update_self ..) rfl (Nat.lt_of_succ_lt_succ hn)
    refine ⟨m', ?_, ?_, ?_⟩
    · rw [drain, hfirst]
      exact hrun
    · rw [hheap, hfree]
      rfl
    · rwa [Function.update_idem] at hst'

/-- A queue that is no longer used. -/
theorem stored_forget (h : Stored Q next m cbs) (q : Nat) :
    Stored (Function.update Q q none) next { m with live := Function.update m.live q false }
      (Function.update cbs q none) where
  live k := by
    show Function.update m.live q false k = _
    by_cases hk : k = q
    · rw [hk, Function.update_self, Function.update_self]
      rfl
    · rw [Function.update_of_ne hk, Function.update_of_ne hk]
      exact h.live k
  items := by
    rw [update_items]
    exact h.items.forget q
  callbacks := h.callbacks.forget q
  domain k := by
    by_cases hk : k = q
    · rw [hk, Function.update_self, Function.update_self]
      rfl
    · rw [Function.update_of_ne hk, Function.update_of_ne hk]
      exact h.domain k
  queue k y jds hy hj := by
    by_cases hk : k = q
    · rw [hk, Function.update_self] at hy
      cases hy
    · rw [Function.update_of_ne hk] at hy hj
      exact (h.queue k y jds hy hj).frame (Nat.le_refl _) rfl (fun _ _ => ⟨rfl, rfl⟩) fun _ _ => rfl

theorem stored_free (h : Stored Q next m cbs) (hx : Q q = some x) (hn : next < n) :
    ∃ m' cbs', m.queueFree n q = some m' ∧ m'.heap = queueFree x m.heap ∧
      Stored (Function.update Q q none) next m' cbs' := by
  obtain ⟨ids, hj⟩ := h.addresses hx
  have hlen : ids.length < n := Nat.lt_of_le_of_lt
    (length_le_next (h.callbacks.held q ids hj).nodup (callbacks_lt (h.queue q x ids hx hj).callback)) hn
  obtain ⟨m₁, x₁, hrun₁, hheap₁, hitems₁, hst₁⟩ := stored_freeCallbacks h hx hj hlen
  have hx₁ : Function.update Q q (some x₁) q = some x₁ := Function.update_self ..
  have hlen₁ : x₁.items.length < n := by
    have hle := length_le_next (hst₁.held hx₁).nodup (held_lt hst₁ hx₁)
    rw [itemIds, List.length_map] at hle
    exact Nat.lt_of_le_of_lt hle hn
  obtain ⟨m₂, hrun₂, hheap₂, hst₂⟩ := stored_freeItems hst₁ hx₁ rfl hlen₁
  refine ⟨{ m₂ with live := Function.update m₂.live q false }, Function.update cbs q none, ?_, ?_, ?_⟩
  · unfold Memory.queueFree
    rw [hrun₁]
    show (drain _ _ n m₁).bind _ = _
    rw [hrun₂]
    rfl
  · rw [hheap₂, hheap₁, hitems₁]
    rfl
  · have hst := stored_forget hst₂ q
    rwa [Function.update_idem, Function.update_idem, Function.update_idem] at hst

/-! ## Runs -/

/-- The memory shows the queues, with the same items and the same outside. -/
structure Remembers (y : MemoryStore α σ) (s : Store α σ) : Prop where
  stored : ∃ cbs, Stored s.queues s.next y.mem cbs
  heap : y.mem.heap = s.heap
  env : y.env = s.env
  next : y.next = s.next

/-- One call. -/
theorem op_stored (hcalm : Calm call) {y : MemoryStore α σ} {s : Store α σ} (h : Remembers y s)
    (op : QueueStep α) :
    Remembers (memoryStep call y op).1 (storeStep call s op).1 ∧
      (memoryStep call y op).2 = (storeStep call s op).2 := by
  obtain ⟨mem, env, next⟩ := y
  obtain ⟨Q, heap, env', next'⟩ := s
  obtain ⟨⟨cbs, hst⟩, hheap, henv, hnext⟩ := h
  dsimp only at hst hheap henv hnext
  subst hheap henv hnext
  have hlive : ∀ q, mem.live q = (Q q).isSome := hst.live
  unfold memoryStep storeStep
  dsimp only
  cases op with
  | new uuid =>
    have hnone : Q next = none := by
      by_contra hsome
      obtain ⟨x, hx⟩ := Option.ne_none_iff_exists'.mp hsome
      obtain ⟨ids, hj⟩ := hst.addresses hx
      exact Nat.lt_irrefl next (hst.queue next x ids hx hj).lt
    exact ⟨⟨⟨_, stored_new hst uuid hnone⟩, rfl, rfl, rfl⟩, rfl⟩
  | free q =>
    simp only [MemoryStore.op, Store.op, hlive q]
    cases hx : Q q with
    | none => exact ⟨⟨⟨cbs, hst.succ⟩, rfl, rfl, rfl⟩, rfl⟩
    | some x =>
      obtain ⟨m', cbs', hm', hh, hst'⟩ := stored_free hst hx (Nat.lt_succ_self next)
      simp only [Option.isSome_some, if_true, hm']
      exact ⟨⟨⟨cbs', hst'.succ⟩, hh, rfl, rfl⟩, by rw [hh]; rfl⟩
  | put q ok key value =>
    simp only [MemoryStore.op, Store.op, hlive q]
    cases hx : Q q with
    | none => exact ⟨⟨⟨cbs, hst.succ⟩, rfl, rfl, rfl⟩, rfl⟩
    | some x =>
      obtain ⟨m', cbs', hm', hh, hst'⟩ := stored_put hcalm hst hx (Nat.lt_succ_self next) ok key value env
      simp only [Option.isSome_some, if_true, hm']
      exact ⟨⟨⟨cbs', hst'⟩, hh, rfl, rfl⟩, by rw [hh]⟩
  | take q key =>
    simp only [MemoryStore.op, Store.op, hlive q]
    cases hx : Q q with
    | none => exact ⟨⟨⟨cbs, hst.succ⟩, rfl, rfl, rfl⟩, rfl⟩
    | some x =>
      rcases ht : queueTake key x mem.heap with ⟨item, x', heap⟩
      obtain ⟨m', hm', rfl, hst', hitem⟩ := stored_take hst hx (Nat.lt_succ_self next) key ht
      simp only [Option.isSome_some, if_true, hm', ht]
      have hat : (item.map (·.id)).map m'.itemAt = item := by
        cases item with
        | none => rfl
        | some i => exact congrArg some (hitem i rfl).1
      exact ⟨⟨⟨cbs, hst'.succ⟩, rfl, rfl, rfl⟩, by rw [hat]; rfl⟩
  | peek q key =>
    simp only [MemoryStore.op, Store.op, hlive q]
    cases hx : Q q with
    | none => exact ⟨⟨⟨cbs, hst.succ⟩, rfl, rfl, rfl⟩, rfl⟩
    | some x =>
      rcases ht : queuePeek key x mem.heap with ⟨item, heap⟩
      obtain ⟨hm', hst', hitem⟩ := stored_peek hst hx (Nat.lt_succ_self next) key ht
      simp only [Option.isSome_some, if_true, hm', ht]
      have hat : (item.map (·.id)).map (Memory.itemAt { mem with heap }) = item := by
        cases item with
        | none => rfl
        | some i => exact congrArg some (hitem i rfl)
      exact ⟨⟨⟨cbs, hst'.succ⟩, rfl, rfl, rfl⟩, by rw [hat]⟩
  | wait q ok key arg =>
    simp only [MemoryStore.op, Store.op, hlive q]
    cases hx : Q q with
    | none => exact ⟨⟨⟨cbs, hst.succ⟩, rfl, rfl, rfl⟩, rfl⟩
    | some x =>
      obtain ⟨m', cbs', hm', hh, hst'⟩ := stored_wait hcalm hst hx (Nat.lt_succ_self next) ok key arg env
      simp only [Option.isSome_some, if_true, hm']
      exact ⟨⟨⟨cbs', hst'⟩, hh, rfl, rfl⟩, by rw [hh]⟩
  | lock item =>
    exact ⟨⟨⟨cbs, (hst.heap fun k => addLock_inserted mem.heap item 1 k).succ⟩, rfl, rfl, rfl⟩, rfl⟩
  | unlock item =>
    obtain ⟨hst', hh⟩ := stored_unlock hst item
    exact ⟨⟨⟨cbs, hst'.succ⟩, hh, rfl, rfl⟩, by simp only [MemoryStore.op, Store.op, hh]⟩
  | freeItem item =>
    simp only [MemoryStore.op, Store.op]
    cases hin : (mem.heap.cell item).inserted with
    | true => exact ⟨⟨⟨cbs, hst.succ⟩, rfl, rfl, rfl⟩, rfl⟩
    | false =>
      obtain ⟨hst', hh⟩ := stored_itemFree hst hin
      exact ⟨⟨⟨cbs, hst'.succ⟩, hh, rfl, rfl⟩, congrArg (fun h => [(QueueReturn.none, h, env)]) hh⟩

/-- A call on queues with lists ends. -/
theorem op_ends (s : Store α σ) (op : QueueStep α) : (s.op call op).2 ≠ .endless := by
  intro h
  cases op with
  | new | lock | unlock => cases h
  | free | put | take | peek | wait | freeItem =>
    dsimp only [Store.op] at h
    split at h <;> cases h

theorem storeStep_ends (s : Store α σ) (ops : List (QueueStep α)) :
    ∀ out ∈ (storeStep call).answers s ops, ∀ r ∈ out, r.1 ≠ .endless := by
  induction ops generalizing s with
  | nil => exact List.forall_mem_nil _
  | cons op ops ih =>
    refine List.forall_mem_cons.mpr ⟨?_, ih _⟩
    intro r hr
    rw [List.mem_singleton.mp hr]
    exact op_ends s op

/-- Over any calls, on any memory without queues, each call returns what it
returns on queues with lists, with the same items and the same outside after
it, and every loop of it ends. -/
theorem memory_refines (call : α → QueueItem → Heap × σ → Heap × σ) (hcalm : Calm call)
    (m : Memory α) (hm : ∀ q, m.live q = false) (env : σ) (ops : List (QueueStep α)) :
    (memoryStep call).answers ⟨m, env, 0⟩ ops =
        (storeStep call).answers (.empty m.heap env) ops ∧
      ∀ out ∈ (memoryStep call).answers ⟨m, env, 0⟩ ops, ∀ r ∈ out, r.1 ≠ .endless := by
  have hfollows : Machine.Follows Remembers (fun _ => True) id (memoryStep call) (storeStep call) :=
    fun y s op h _ => op_stored hcalm h op
  have hempty : Stored (fun _ => none) 0 m fun _ => none :=
    ⟨hm, Links.holds_empty m.items, Links.holds_empty m.callbacks, fun _ => rfl, nofun⟩
  have hstart : Remembers ⟨m, env, 0⟩ (.empty m.heap env) := ⟨⟨_, hempty⟩, rfl, rfl, rfl⟩
  have hall : ∀ op ∈ ops, True := fun _ _ => trivial
  have hrun := hfollows.answers hstart hall
  rw [List.map_id] at hrun
  rw [hrun]
  exact ⟨rfl, storeStep_ends _ ops⟩

/-- The callback of a want leaves items in the queues that they are in. -/
theorem calm_callbackWait (e : Sending) : Calm (connectionQueueCallbackWait_ e) := by
  intro want i m id
  have hfree : ∀ h : Heap, (h.cell id).inserted = (m.1.cell id).inserted →
      ((queueItemFree h i.id).cell id).inserted = (m.1.cell id).inserted := fun h hh =>
    (itemFree_inserted h i.id id).trans hh
  have hread : ((m.1.read i.id).cell id).inserted = (m.1.cell id).inserted := by rw [read_cell]
  unfold connectionQueueCallbackWait_
  split
  · rfl
  refine hfree _ ?_
  split
  · rfl
  split
  · rfl
  split
  · rfl
  split
  · exact hread
  · exact hread

/-- No queue, and nothing in memory. -/
def blankMemory : Memory Nat :=
  ⟨.empty, fun _ => ⟨none, [], 0⟩, fun _ => ⟨none, 0, 0⟩, fun _ => ⟨fun _ => 0, 0, 0, 0, 0⟩,
    fun _ => false, ⟨fun _ => none, fun _ => .first 0, fun _ => .first 0⟩,
    ⟨fun _ => none, fun _ => .first 0, fun _ => .first 0⟩⟩

/-- Items and a callback, in two queues. -/
def putTakeWait : List (QueueStep Nat) :=
  [.new fun _ => 0, .new fun _ => 0, .put 0 allOk none ['a'], .put 0 allOk (some ['k']) ['b'],
    .wait 1 allOk none 7, .take 0 (some ['K']), .put 1 allOk none ['c'], .free 0]

theorem memory_refines_putTakeWait :
    ((memoryStep (connectionQueueCallbackWait_ sendingOk)).answers
        ⟨blankMemory, { Net.empty with wants := [⟨7, ['w'], false, 1, 0⟩] }, 0⟩ putTakeWait).map
          (·.map fun r => (r.1, r.2.2.wants.length)) =
      [[(.queue 0, 1)], [(.queue 1, 1)], [(.code 0, 1)], [(.code 0, 1)], [(.code 0, 1)],
        [(.item (some ⟨3, 0, some ['k'], ['b']⟩), 1)], [(.code 1, 0)], [(.none, 0)]] := by
  rw [(memory_refines _ (calm_callbackWait sendingOk) blankMemory (fun _ => rfl) _ putTakeWait).1]
  rfl

end DQ.Proof.Queue
