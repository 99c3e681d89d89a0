import Disqueue.Proof.Queue.Refine
import Disqueue.Proof.Server.Found
import Disqueue.Proof.Server.Net

/-!
# The queue functions as acts

What `queue_put`, `queue_wait`, `queue_take` and `manager_queue_free` do to
the server's state, on a queue found in the registry, as sequences of acts
(`put_acts`, `wait_acts`, `take_act`, `free_act`). The conditions of
`Spec.Handing` say when an item is matched with a want and when the want is
answered: `effects` of the acts are what they give.
-/

namespace DQ.Proof.Server

open DQ.Model DQ.Spec DQ.Proof.Queue

/-- The labels of the acts that are not calm. -/
def effects (ls : List Label) : List Label := ls.filter (· != .calm)

@[simp] theorem effects_nil : effects [] = [] := rfl

@[simp] theorem effects_calm (ls : List Label) : effects (.calm :: ls) = effects ls := rfl

@[simp] theorem effects_connection (ls : List Label) :
    effects (.connection :: ls) = .connection :: effects ls := rfl

@[simp] theorem effects_took (b : Bool) (ls : List Label) :
    effects (.took b :: ls) = .took b :: effects ls := rfl

@[simp] theorem effects_matched (b : Bool) (ls : List Label) :
    effects (.matched b :: ls) = .matched b :: effects ls := rfl

theorem mem_effects {ls : List Label} {l : Label} : l ∈ effects ls ↔ l ∈ ls ∧ l ≠ .calm := by
  simp [effects]

theorem effects_append (ls ls' : List Label) : effects (ls ++ ls') = effects ls ++ effects ls' :=
  List.filter_append ..

variable {s : Server} {f : Found} {q : Queue Nat}

/-- The state with another queue where `f` was found. -/
def withQueue (f : Found) (q : Queue Nat) (h : Heap) (n : Net) (next : Nat) : Server :=
  { queues := f.set q, heap := h, net := n, next }

theorem stored_withQueue {h : Heap} {n : Net} {next : Nat} :
    (stored (withQueue f q h n next)).Perm (itemsAt q ++ storedIn f.free) := storedIn_set f q

theorem waiting_withQueue {h : Heap} {n : Net} {next : Nat} :
    (waiting (withQueue f q h n next)).Perm (callbacksAt q ++ waitingIn f.free) :=
  waitingIn_set f q

theorem stored_of_found (hf : s.queues = f.registry) :
    (stored s).Perm (itemsAt f.mq.q ++ storedIn f.free) := by
  rw [stored_eq, hf]
  exact storedIn_found f

theorem waiting_of_found (hf : s.queues = f.registry) :
    (waiting s).Perm (callbacksAt f.mq.q ++ waitingIn f.free) := by
  rw [waiting_eq, hf]
  exact waitingIn_found f

/-- An element of a list, taken to the front. -/
theorem perm_map_middle {τ υ : Type} (g : τ → υ) (pre post : List τ) (x : τ) (rest : List υ) :
    ((pre ++ x :: post).map g ++ rest).Perm (g x :: ((pre ++ post).map g ++ rest)) := by
  rw [List.map_append, List.map_cons, List.map_append, List.append_assoc, List.append_assoc,
    List.cons_append]
  exact List.perm_middle

theorem perm_map_concat {τ υ : Type} (g : τ → υ) (l : List τ) (x : τ) (rest : List υ) :
    ((l ++ [x]).map g ++ rest).Perm (g x :: (l.map g ++ rest)) := by
  have := perm_map_middle g l [] x rest
  rwa [List.append_nil] at this

/-! ## Taking -/

/-- `queue_take` with the release of the item taken, and what the reply adds
to the trace. -/
theorem take_act (hf : s.queues = f.registry) {pre post : List QueueItem}
    {i : QueueItem} (hl : f.mq.q.items = pre ++ i :: post) {n : Net} {rid : Nat} {replied : Bool}
    (hn : n.wants = s.net.wants) (ha : n.conn = s.net.conn)
    (ht : trace n =
      trace s.net ++ if replied then [.reply rid .take 200 (takeBody i)] else []) :
    Act s (.took replied)
      (withQueue f (f.mq.q.removeItem i (pre ++ post))
        (queueItemFree (setCell s.heap i.id ⟨false, 0, 0⟩) i.id) n (s.next + 1)) := by
  have hs := stored_of_found hf
  rw [itemsAt, hl] at hs
  refine .took f.mq.q.addr i replied rid
    ((hs.trans (perm_map_middle _ pre post i _)).trans
      ((stored_withQueue (q := f.mq.q.removeItem i (pre ++ post))).symm.cons _))
    ((waiting_of_found hf).trans
      (waiting_withQueue (q := f.mq.q.removeItem i (pre ++ post))).symm) ?_ hn ha ht (Nat.le_succ _)
  show queueItemFree (setCell s.heap i.id ⟨false, 0, 0⟩) i.id = _
  rw [queueItemFree_once (setCell_self ..), setCell_setCell]

/-! ## Putting -/

/-- `queue_put`, with an item made. -/
theorem put_acts (hI : Inv s) (hC : AllCounted s.queues) (hf : s.queues = f.registry)
    (e : Sending) {ok : Outcome} {key : Option CStr} {value : CStr} {item : QueueItem}
    (hi : queuePutItem ok s.next f.mq.q.addr key value = some item) :
    ∃ q' h' n' code ls,
      queuePut (connectionQueueCallbackWait_ e) ok s.next key value f.mq.q
        (s.heap, s.net.emit (.put item)) = (q', (h', n'), code) ∧
      0 ≤ code ∧ Counted q' ∧ Acts s ls (withQueue f q' h' n' (s.next + 1)) ∧
      Event.put item ∈ trace n' ∧
      effects ls =
        ((queuePutCallback item.key f.mq.q).map fun (_, cb, _) =>
          Label.matched (answers e s.net cb.arg item)).toList := by
  obtain rfl := queuePutItem_eq hi
  have hc := allCounted_found (hf ▸ hC)
  have hlt : trace (s.net.emit (.put ⟨s.next, f.mq.q.addr, key, value⟩)) =
      trace s.net ++ [.put ⟨s.next, f.mq.q.addr, key, value⟩] := trace_emit ..
  -- the item is stored, at least for a moment
  have hput : ∀ h : Heap, h = setCell s.heap s.next ⟨true, 0, 0⟩ →
      Act s .calm (withQueue f (f.mq.q.insertItem ⟨s.next, f.mq.q.addr, key, value⟩) h
        (s.net.emit (.put ⟨s.next, f.mq.q.addr, key, value⟩)) (s.next + 1)) := by
    rintro h rfl
    refine .put ⟨s.next, f.mq.q.addr, key, value⟩ rfl ?_
      (waiting_withQueue.trans (waiting_of_found hf).symm) rfl rfl rfl hlt rfl
    exact (stored_withQueue.trans (perm_map_concat _ f.mq.q.items _ _)).trans
      ((stored_of_found hf).symm.cons _)
  have hcell : (s.heap.calloc s.next).setInserted s.next true
      = setCell s.heap s.next ⟨true, 0, 0⟩ := by
    rw [calloc_eq, setInserted_live (by rw [setCell_self]), setCell_self, setCell_setCell]
  simp only [queuePut, hi]
  cases hp : queuePutCallback key f.mq.q with
  | none =>
    exact ⟨_, _, _, 0, [.calm], rfl, by decide, hc.insertItem _, .single (hput _ hcell),
      by rw [hlt]; simp, rfl⟩
  | some t =>
    obtain ⟨pre, cb, post⟩ := t
    rw [queuePutCallback_eq hc] at hp
    obtain ⟨hl, hw, -⟩ := splitFirst_eq_some.mp hp
    have hmem : (f.mq.q.addr, cb) ∈ waiting s :=
      (waiting_of_found hf).mem_iff.mpr
        (List.mem_append_left _ (List.mem_map_of_mem (by rw [hl]; simp)))
    obtain ⟨w, hwm, hwi⟩ := hI.waiting_want _ hmem
    obtain ⟨n', he, hd⟩ := connectionQueueCallbackWait_delivered e
      (i := ⟨s.next, f.mq.q.addr, key, value⟩) (h := s.heap.calloc s.next)
      (by rw [calloc_eq, setCell_self])
      (n := s.net.emit (.put ⟨s.next, f.mq.q.addr, key, value⟩)) ⟨w, hwm, hwi⟩
    have hheap : queueItemFree (queueItemFree (s.heap.calloc s.next) s.next) s.next
        = releaseTwice s.heap s.next := by
      rw [calloc_eq, queueItemFree_handed (setCell_self ..), setCell_setCell]
      rfl
    simp only [he, hheap]
    refine ⟨_, _, _, 1, [.calm, .matched (answers e s.net cb.arg _)], rfl, by decide,
      hc.callbackFree hl, .cons (hput _ rfl) (.single ?_), ?_, rfl⟩
    · have hq : itemsAt (queueCallbackFree_ cb (pre ++ post) f.mq.q) = itemsAt f.mq.q := by
        unfold queueCallbackFree_ itemsAt
        split <;> rfl
      have hcq : callbacksAt (queueCallbackFree_ cb (pre ++ post) f.mq.q) =
          (pre ++ post).map fun cb => (f.mq.q.addr, cb) := by
        unfold queueCallbackFree_ callbacksAt
        split <;> rfl
      refine .matched f.mq.q.addr ⟨s.next, f.mq.q.addr, key, value⟩ cb _ ?_ ?_ ?_ ?_ hd (le_refl _)
      · rw [← hw, callbackWants_eq]
        rfl
      · refine (stored_withQueue.trans (perm_map_concat _ f.mq.q.items _ _)).trans ?_
        refine List.Perm.cons _ (List.Perm.trans ?_ stored_withQueue.symm)
        rw [hq]
        exact List.Perm.refl _
      · apply waiting_withQueue.trans
        have : callbacksAt (f.mq.q.insertItem ⟨s.next, f.mq.q.addr, key, value⟩) =
            (pre ++ cb :: post).map fun cb => (f.mq.q.addr, cb) := by
          rw [← hl]
          rfl
        rw [this]
        refine (perm_map_middle _ pre post cb _).trans (List.Perm.cons _ ?_)
        rw [← hcq]
        exact waiting_withQueue.symm
      · show releaseTwice s.heap s.next = releaseTwice (setCell s.heap s.next _) s.next
        unfold releaseTwice
        rw [setCell_setCell]
        rfl
    · rcases hd.trace with ⟨ht, -⟩ | ⟨v, -, -, -, ht⟩ <;> (rw [ht, hlt]; simp)

/-! ## Waiting -/

/-- A new want, before `queue_wait` is called. -/
def withWant (n : Net) (w : Want) (key : Option CStr) : Net :=
  { n with wants := n.wants ++ [w] }.emit (.want w key)

theorem trace_withWant (n : Net) (w : Want) (key : Option CStr) :
    trace (withWant n w key) = trace n ++ [.want w key] := trace_emit ..

/-- The want is found at its address, which is new. -/
theorem answers_withWant (hI : Inv s) (e : Sending) {w : Want} (hw : w.id = s.next)
    (key : Option CStr) (i : QueueItem) :
    answers e (withWant s.net w key) w.id i = wantAnswers e s.net w i := by
  have hf : (withWant s.net w key).wants.find? (·.id == w.id) = some w := by
    show (s.net.wants ++ [w]).find? (·.id == w.id) = some w
    have hn : s.net.wants.find? (·.id == w.id) = none := by
      refine List.find?_eq_none.mpr fun v hv => ?_
      have := hI.wants_lt v hv
      simp only [beq_iff_eq]
      omega
    rw [List.find?_append, hn]
    simp
  rw [answers_of_find hf]
  rfl

/-- A want that is freed when it is new leaves the wants as they were. -/
theorem wantFree_new (hI : Inv s) {w : Want} (hw : w.id = s.next) :
    managerQueueWantFree w.id (s.net.wants ++ [w]) = s.net.wants := by
  unfold managerQueueWantFree
  rw [List.filter_append, List.filter_eq_self.mpr]
  · simp
  intro v hv
  have := hI.wants_lt v hv
  exact bne_iff_ne.mpr (by omega)

/-- `queue_wait`, with a new want. -/
theorem wait_acts (hI : Inv s) (hC : AllCounted s.queues) (hf : s.queues = f.registry)
    (e : Sending) (ok : Outcome) (key : Option CStr) {w : Want} (hw : w.id = s.next)
    (hq : w.queue = f.mq.q.addr) (ha : (s.net.conn w.client).alive = true) :
    ∃ q' h' n' code ls,
      queueWait (connectionQueueCallbackWait_ e) ok key w.id f.mq.q
        (s.heap, withWant s.net w key) = (q', (h', n'), code) ∧
      Counted q' ∧
      Acts s ls (withQueue f q' h'
        (if code < 0 then { n' with wants := managerQueueWantFree w.id n'.wants } else n')
        (s.next + 1)) ∧
      effects ls =
        ((queueTake key f.mq.q s.heap).1.map fun i => Label.matched (wantAnswers e s.net w i)).toList
    := by
  have hc := allCounted_found (hf ▸ hC)
  have hl := hI.liveItems hf
  -- the want waits, at least for a moment
  have hwait : Act s .calm (withQueue f (f.mq.q.insertCallback ⟨key, w.id⟩) s.heap
      (withWant s.net w key) (s.next + 1)) := by
    refine .waits w key hw ha ?_ ?_ rfl rfl rfl (trace_withWant ..) rfl
    · exact (stored_withQueue (q := f.mq.q.insertCallback ⟨key, w.id⟩)).trans
        (stored_of_found hf).symm
    · rw [hq]
      exact (waiting_withQueue.trans (perm_map_concat _ f.mq.q.callbacks _ _)).trans
        ((waiting_of_found hf).symm.cons _)
  simp only [queueWait, queueTake_live hc hl]
  cases hs : splitFirst (itemMatches key) f.mq.q.items with
  | none =>
    dsimp only
    split
    · exact ⟨_, _, _, 0, [.calm], rfl, hc.insertCallback _, .single hwait, rfl⟩
    · refine ⟨_, _, _, -1, [.calm], rfl, hc, .single ?_, rfl⟩
      have hset : f.set f.mq.q = s.queues := hf.symm
      refine .refused w key hw ?_ ?_ rfl (wantFree_new hI hw) rfl (trace_withWant ..) rfl
      · rw [stored_eq, stored_eq, ← hset]
        rfl
      · rw [waiting_eq, waiting_eq, ← hset]
        rfl
  | some t =>
    obtain ⟨pre, i, post⟩ := t
    obtain ⟨hitems, hm, -⟩ := splitFirst_eq_some.mp hs
    obtain ⟨n', he, hd⟩ := connectionQueueCallbackWait_delivered e (i := i)
      (h := setCell s.heap i.id ⟨false, 0, 0⟩) (by rw [setCell_self])
      (n := withWant s.net w key) ⟨w, by simp [withWant, Net.emit], rfl⟩
    rw [answers_withWant hI e hw] at hd
    have hheap : queueItemFree (queueItemFree (setCell s.heap i.id ⟨false, 0, 0⟩) i.id) i.id
        = releaseTwice s.heap i.id := by
      rw [queueItemFree_handed (setCell_self ..), setCell_setCell]
      rfl
    simp only [he, hheap]
    refine ⟨_, _, _, 1, [.calm, .matched (wantAnswers e s.net w i)], rfl, hc.removeItem hitems,
      .cons hwait (.single ?_), rfl⟩
    have hit : itemsAt (f.mq.q.insertCallback ⟨key, w.id⟩) =
        (pre ++ i :: post).map fun i => (f.mq.q.addr, i) := by
      rw [← hitems]
      rfl
    refine .matched f.mq.q.addr i ⟨key, w.id⟩ _ ?_ ?_ ?_ rfl hd (le_refl _)
    · rw [← hm, itemMatches_eq]
    · apply stored_withQueue.trans
      rw [hit]
      exact (perm_map_middle _ pre post i _).trans
        ((stored_withQueue (q := f.mq.q.removeItem i (pre ++ post))).symm.cons _)
    · exact (waiting_withQueue.trans (perm_map_concat _ f.mq.q.callbacks _ _)).trans
        ((waiting_withQueue (q := f.mq.q.removeItem i (pre ++ post))).symm.cons _)

/-! ## Freeing -/

/-- `manager_queue_free`. -/
theorem free_act (hI : Inv s) (hf : s.queues = f.registry) :
    Act s .calm (managerQueueFree f s) := by
  have hs := stored_of_found hf
  have hm : (itemsAt f.mq.q).map (·.2.id) = f.mq.q.items.map (·.id) := by
    rw [itemsAt, List.map_map]
    rfl
  have hn : (f.mq.q.items.map (·.id)).Nodup := by
    have := (hs.map (·.2.id)).nodup_iff.mp hI.stored_nodup
    rw [List.map_append, List.nodup_append, hm] at this
    exact this.1
  obtain ⟨hfl, hc⟩ := queueFree_items f.mq.q hn (hI.liveItems hf)
  refine .freed (itemsAt f.mq.q) (callbacksAt f.mq.q) hs (waiting_of_found hf) (fun id => ?_) hfl rfl
    rfl ?_ (le_refl _)
  · rw [hm]
    exact hc id
  · show (s.net.log ++ f.mq.q.items.map Event.discard).filter notable = _
    rw [List.filter_append]
    refine congrArg (trace s.net ++ ·) ?_
    rw [List.filter_eq_self.mpr]
    · simp [itemsAt]
    · intro ev hev
      obtain ⟨i, -, rfl⟩ := List.mem_map.mp hev
      rfl

end DQ.Proof.Server
