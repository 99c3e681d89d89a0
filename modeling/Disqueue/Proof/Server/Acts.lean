import Disqueue.Model.Server
import Disqueue.Proof.Server.Heap
import Disqueue.Spec.Queue

/-!
# What the server can do

The queues' items and waiters, each with its queue's address (`stored`,
`waiting`), the wants, the heap and the trace of the events that say where an
item goes. Everything a handler does to them is a sequence of a few acts
(`Act`): an item is stored, or taken; a want waits; a stored item is matched
with a waiting want; a queue's items are discarded. A put that hands its item
over stores it first, and a want served at once waits first.
-/

namespace DQ.Proof.Server

open DQ.Model DQ.Spec

/-- The stored items, with the addresses of their queues. -/
def stored (s : Server) : List (Nat × QueueItem) :=
  s.queues.flatMap fun m => m.q.items.map fun i => (m.q.addr, i)

/-- The registered callbacks, with the addresses of their queues. -/
def waiting (s : Server) : List (Nat × QueueCallback Nat) :=
  s.queues.flatMap fun m => m.q.callbacks.map fun cb => (m.q.addr, cb)

/-- The events that say where an item goes. -/
def notable : Event → Bool
  | .put _ | .want _ _ | .discard _ => true
  | .message _ b _ => b.success
  | .reply _ .take _ b => b.success
  | .reply _ .put _ b => b.success
  | _ => false

/-- The notable events that have happened. -/
def trace (n : Net) : List Event := n.log.filter notable

/-- The answer to a want with an item. -/
def answerBody (w : Want) (i : QueueItem) : Body := ⟨true, none, some (.answer w.id w.identifier i)⟩

/-- The reply to a take that carries an item. -/
def takeBody (i : QueueItem) : Body := ⟨true, none, some (.item i)⟩

/-- The reply to a put. -/
def putBody : Body := ⟨true, none, none⟩

/-- The want may have been cancelled. -/
def Eased (w w' : Want) : Prop := w' = w ∨ w' = { w with cancelled := true }

/-- Nothing notable has happened, and no connection was made or freed. -/
structure Calm (n n' : Net) : Prop where
  wants : List.Forall₂ Eased n.wants n'.wants
  alive : ∀ c, (n'.conn c).alive = (n.conn c).alive
  trace : trace n' = trace n

/-- The want at the address `want` was answered with `i`, or consumed without
an answer that was sent, and freed. -/
structure Delivered (n : Net) (want : Nat) (i : QueueItem) (answered : Bool) (n' : Net) :
    Prop where
  wants : List.Forall₂ Eased (managerQueueWantFree want n.wants) n'.wants
  alive : ∀ c, (n'.conn c).alive = (n.conn c).alive
  trace : (trace n' = trace n ∧ answered = false) ∨
    ∃ w ∈ n.wants, w.id = want ∧ w.cancelled = false ∧
      trace n' = trace n ++ [.message w.client (answerBody w i) answered]

/-- What an act does to an item. -/
inductive Label
  | calm
  /-- Nothing, but a connection was made or freed. -/
  | connection
  /-- It was taken, and the reply carries it or not. -/
  | took (replied : Bool)
  /-- It was matched with a want, and a message that was sent carries it or
  not. -/
  | matched (answered : Bool)
deriving DecidableEq

/-- The two releases of a matched item. -/
def releaseTwice (h : Heap) (id : Nat) : Heap :=
  { setCell h id ⟨false, 0, 2⟩ with faults := id :: id :: h.faults }

/-- The acts. -/
inductive Act (s : Server) : Label → Server → Prop
  | calm {s'} (hs : stored s' = stored s) (hw : waiting s' = waiting s) (hh : s'.heap = s.heap)
      (hn : Calm s.net s'.net) (hx : s.next ≤ s'.next) : Act s .calm s'
  /-- A connection was made or freed. -/
  | connected {s'} (hs : stored s' = stored s) (hw : waiting s' = waiting s)
      (hh : s'.heap = s.heap) (hn : List.Forall₂ Eased s.net.wants s'.net.wants)
      (ht : trace s'.net = trace s.net) (hx : s.next ≤ s'.next) : Act s .connection s'
  /-- A queue was freed. -/
  | freed {s'} (items : List (Nat × QueueItem)) (cbs : List (Nat × QueueCallback Nat))
      (hs : (stored s).Perm (items ++ stored s')) (hw : (waiting s).Perm (cbs ++ waiting s'))
      (hc : ∀ id, s'.heap.cell id =
        if id ∈ items.map (·.2.id) then ⟨true, 0, 1⟩ else s.heap.cell id)
      (hf : s'.heap.faults = s.heap.faults)
      (hn : s'.net.wants = s.net.wants) (ha : s'.net.conn = s.net.conn)
      (ht : trace s'.net = trace s.net ++ items.map fun p => .discard p.2)
      (hx : s.next ≤ s'.next) : Act s .calm s'
  /-- A put was replied to. -/
  | accepted {s'} (i : QueueItem) (hi : .put i ∈ trace s.net)
      (hs : stored s' = stored s) (hw : waiting s' = waiting s) (hh : s'.heap = s.heap)
      (hn : s'.net.wants = s.net.wants) (ha : s'.net.conn = s.net.conn)
      (ht : trace s'.net = trace s.net ++ [.reply i.id .put 200 putBody])
      (hx : s.next ≤ s'.next) : Act s .calm s'
  | put {s'} (i : QueueItem) (hi : i.id = s.next)
      (hs : (stored s').Perm ((i.owner, i) :: stored s)) (hw : (waiting s').Perm (waiting s))
      (hh : s'.heap = setCell s.heap i.id ⟨true, 0, 0⟩)
      (hn : s'.net.wants = s.net.wants) (ha : s'.net.conn = s.net.conn)
      (ht : trace s'.net = trace s.net ++ [.put i]) (hx : s'.next = s.next + 1) : Act s .calm s'
  | took {s'} (a : Nat) (i : QueueItem) (replied : Bool) (rid : Nat)
      (hs : (stored s).Perm ((a, i) :: stored s')) (hw : (waiting s).Perm (waiting s'))
      (hh : s'.heap = setCell s.heap i.id ⟨false, 0, 1⟩)
      (hn : s'.net.wants = s.net.wants) (ha : s'.net.conn = s.net.conn)
      (ht : trace s'.net =
        trace s.net ++ if replied then [.reply rid .take 200 (takeBody i)] else [])
      (hx : s.next ≤ s'.next) : Act s (.took replied) s'
  /-- A want was made, and refused. -/
  | refused {s'} (w : Want) (key : Option CStr) (hi : w.id = s.next)
      (hs : stored s' = stored s) (hw : waiting s' = waiting s) (hh : s'.heap = s.heap)
      (hn : s'.net.wants = s.net.wants) (ha : s'.net.conn = s.net.conn)
      (ht : trace s'.net = trace s.net ++ [.want w key]) (hx : s'.next = s.next + 1) :
      Act s .calm s'
  | waits {s'} (w : Want) (key : Option CStr) (hi : w.id = s.next)
      (hc : (s.net.conn w.client).alive = true)
      (hs : (stored s').Perm (stored s))
      (hw : (waiting s').Perm ((w.queue, ⟨key, w.id⟩) :: waiting s)) (hh : s'.heap = s.heap)
      (hn : s'.net.wants = s.net.wants ++ [w]) (ha : s'.net.conn = s.net.conn)
      (ht : trace s'.net = trace s.net ++ [.want w key]) (hx : s'.next = s.next + 1) :
      Act s .calm s'
  | matched {s'} (a : Nat) (i : QueueItem) (cb : QueueCallback Nat) (answered : Bool)
      (hk : wants cb.key i = true)
      (hs : (stored s).Perm ((a, i) :: stored s')) (hw : (waiting s).Perm ((a, cb) :: waiting s'))
      (hh : s'.heap = releaseTwice s.heap i.id) (hn : Delivered s.net cb.arg i answered s'.net)
      (hx : s.next ≤ s'.next) : Act s (.matched answered) s'

/-- A sequence of acts. -/
inductive Acts : Server → List Label → Server → Prop
  | nil (s) : Acts s [] s
  | cons {s l t ls u} (h : Act s l t) (hs : Acts t ls u) : Acts s (l :: ls) u

theorem Acts.single {s s' : Server} {l : Label} (h : Act s l s') : Acts s [l] s' := .cons h (.nil _)

theorem Acts.append {s t u : Server} {ls ls' : List Label} (h : Acts s ls t) (h' : Acts t ls' u) :
    Acts s (ls ++ ls') u := by
  induction h with
  | nil => exact h'
  | cons ha _ ih => exact .cons ha (ih h')

/-- The invariant rule for acts. -/
theorem Acts.inv {I : Server → Prop} (hact : ∀ s l s', I s → Act s l s' → I s')
    {s s' : Server} {ls : List Label} (h : Acts s ls s') (hi : I s) : I s' := by
  induction h with
  | nil => exact hi
  | cons ha _ ih => exact ih (hact _ _ _ hi ha)

/-- Acts that make or free no connection. -/
theorem Acts.alive {s s' : Server} {ls : List Label} (h : Acts s ls s') (hl : .connection ∉ ls)
    (c : Nat) : (s'.net.conn c).alive = (s.net.conn c).alive := by
  induction h with
  | nil => rfl
  | cons ha _ ih =>
    rw [ih fun hm => hl (List.mem_cons_of_mem _ hm)]
    cases ha with
    | connected => exact absurd List.mem_cons_self hl
    | calm hs hw hh hn hx => exact hn.alive c
    | matched a i cb answered hk hs hw hh hn hx => exact hn.alive c
    | freed items cbs hs hw hc hf hn ha ht hx => rw [ha]
    | accepted i hi hs hw hh hn ha ht hx => rw [ha]
    | put i hi hs hw hh hn ha ht hx => rw [ha]
    | took a i replied rid hs hw hh hn ha ht hx => rw [ha]
    | refused w key hi hs hw hh hn ha ht hx => rw [ha]
    | waits w key hi hc hs hw hh hn ha ht hx => rw [ha]

/-! ## What an act adds to the trace -/

theorem trace_emit (n : Net) (e : Event) :
    trace (n.emit e) = trace n ++ if notable e then [e] else [] := by
  simp only [trace, Net.emit, List.filter_append, List.filter_singleton]
  split <;> simp_all

theorem Eased.id {w w' : Want} (h : Eased w w') : w'.id = w.id := by
  rcases h with rfl | rfl <;> rfl

theorem Eased.client {w w' : Want} (h : Eased w w') : w'.client = w.client := by
  rcases h with rfl | rfl <;> rfl

theorem Eased.refl (w : Want) : Eased w w := .inl rfl

theorem Eased.trans {w w' w'' : Want} (h : Eased w w') (h' : Eased w' w'') : Eased w w'' := by
  rcases h with rfl | rfl <;> rcases h' with rfl | rfl
  · exact .inl rfl
  · exact .inr rfl
  · exact .inr rfl
  · exact .inr rfl

theorem eased_refl (ws : List Want) : List.Forall₂ Eased ws ws :=
  List.forall₂_same.mpr fun w _ => Eased.refl w

theorem eased_trans {a b c : List Want} (h : List.Forall₂ Eased a b)
    (h' : List.Forall₂ Eased b c) : List.Forall₂ Eased a c := by
  induction h generalizing c with
  | nil => cases h'; exact .nil
  | cons h _ ih =>
    cases h' with
    | cons h' hs' => exact .cons (h.trans h') (ih hs')

/-- A want after easing was there before, cancelled or not. -/
theorem eased_mem {a b : List Want} (h : List.Forall₂ Eased a b) {w' : Want} (hw : w' ∈ b) :
    ∃ w ∈ a, Eased w w' := by
  induction h with
  | nil => cases hw
  | cons h _ ih =>
    rcases List.mem_cons.mp hw with rfl | hw
    · exact ⟨_, List.mem_cons_self, h⟩
    · obtain ⟨w, hw, he⟩ := ih hw
      exact ⟨w, List.mem_cons_of_mem _ hw, he⟩

theorem eased_mem' {a b : List Want} (h : List.Forall₂ Eased a b) {w : Want} (hw : w ∈ a) :
    ∃ w' ∈ b, Eased w w' := by
  induction h with
  | nil => cases hw
  | cons h _ ih =>
    rcases List.mem_cons.mp hw with rfl | hw
    · exact ⟨_, List.mem_cons_self, h⟩
    · obtain ⟨w', hw', he⟩ := ih hw
      exact ⟨w', List.mem_cons_of_mem _ hw', he⟩

/-- Freeing a want commutes with easing. -/
theorem eased_free {a b : List Want} (h : List.Forall₂ Eased a b) (id : Nat) :
    List.Forall₂ Eased (managerQueueWantFree id a) (managerQueueWantFree id b) := by
  induction h with
  | nil => exact .nil
  | cons h _ ih =>
    simp only [managerQueueWantFree, List.filter_cons, h.id] at ih ⊢
    split
    · exact .cons h ih
    · exact ih

theorem Calm.refl (n : Net) : Calm n n := ⟨eased_refl _, fun _ => rfl, rfl⟩

theorem Calm.trans {a b c : Net} (h : Calm a b) (h' : Calm b c) : Calm a c :=
  ⟨eased_trans h.wants h'.wants, fun x => (h'.alive x).trans (h.alive x), h'.trace.trans h.trace⟩

end DQ.Proof.Server
