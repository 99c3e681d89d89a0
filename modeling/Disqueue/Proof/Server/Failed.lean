import Disqueue.Proof.Registry.Verified
import Disqueue.Proof.Server.Replies
import Disqueue.Proof.Wants.Shift

/-!
# Requests that fail

What each handler replies and leaves (`new_replied` to `put_replied`). A
request whose reply is a failure changes nothing, except where the handler has
changed the state before the reply was encoded (`failsUnchanged_iff`).
-/

namespace DQ.Proof.Server

open DQ.Model DQ.Spec DQ.Proof.Queue DQ.Proof.Registry DQ.Proof.Wants

variable {dm : DataModel} {r : Request} {s s' s'' : Server} {ok : Bool}

/-- One reply, a success or not. -/
def Replied (s : Server) (ok : Bool) (s' : Server) : Prop :=
  ∃ p, Logs s.net [p] s'.net ∧ p.2.success = ok

/-- Whether a failure changes nothing, by the reply. -/
theorem fails_iff (h : Replied s ok (connectionHttpCallback dm r s)) :
    FailsUnchanged dm r s ↔ ok = true ∨ Unchanged s (connectionHttpCallback dm r s) := by
  obtain ⟨p, hlogs, rfl⟩ := h
  have hsame : Unchanged s (s.step dm (.http r)) ↔ Unchanged s (connectionHttpCallback dm r s) :=
    ⟨fun h => ⟨h.queues, h.wants⟩, fun h => ⟨h.queues, h.wants⟩⟩
  rw [FailsUnchanged, repliesTo_eq hlogs, ← hsame]
  cases hp : p.2.success <;> simp [hp]

theorem Emits.unchanged {es : List Event} (h : Emits s es s') : Unchanged s s' := ⟨h.queues, h.wants⟩

theorem unchanged_trans (h : Unchanged s s') (h' : Unchanged s' s'') : Unchanged s s'' :=
  ⟨h'.queues.trans h.queues, h'.wants.trans h.wants⟩

/-- A handler replies to its request. -/
theorem Replies.replied {s₀ : Server} {e : Endpoint} {payload : Option Payload}
    (h : Replies r e payload s₀ ok s') (hl : Logs s.net [] s₀.net) : Replied s ok s' := by
  obtain ⟨p, hlogs, hok, -⟩ := h.logs
  exact ⟨p, hl.trans hlogs, hok⟩

/-- A handler that does nothing but reply. -/
theorem Replies.only {s₀ : Server} {e : Endpoint} {payload : Option Payload}
    (h : Replies r e payload s₀ ok s') (hreads : Reads s s₀) : Replied s ok s' ∧ Unchanged s s' :=
  ⟨h.replied hreads.logs, unchanged_trans hreads.emits.unchanged h.emits.unchanged⟩

/-! ## Handlers that change nothing -/

theorem list_replied (r : Request) (s : Server) : ∃ ok, Replied s ok (connectionHttpCallbackList_ r s) := by
  obtain ⟨p, ok, h⟩ := list_cases r s
  exact ⟨ok, h.replied (Adds.refl s.net)⟩

theorem info_replied (dm : DataModel) (r : Request) (s : Server) :
    ∃ ok, Replied s ok (connectionHttpCallbackInfo_ dm r s) := by
  obtain ⟨s', p, ok, hreads, h⟩ := info_cases dm r s
  exact ⟨ok, h.replied hreads.logs⟩

theorem peek_replied (dm : DataModel) (r : Request) (s : Server) :
    Unchanged s (connectionHttpCallbackPeek dm r s) ∧
      ∃ ok, Replied s ok (connectionHttpCallbackPeek dm r s) := by
  rcases peek_cases dm r s with ⟨s', h, p, hreads, -, hr⟩ | ⟨f, s', i, h, s₁, ok, -, hreads, -, hr, hp⟩
  · have hl : Logs s.net [] { s' with heap := h }.net := hreads.logs
    exact ⟨⟨hr.emits.queues.trans hreads.emits.queues, hr.emits.wants.trans hreads.emits.wants⟩,
      false, hr.replied hl⟩
  · have hl : Logs s.net [] { s' with heap := (queueItemLock h i.id).read i.id }.net := hreads.logs
    rw [hp]
    exact ⟨⟨hr.emits.queues.trans hreads.emits.queues, hr.emits.wants.trans hreads.emits.wants⟩,
      ok, hr.replied hl⟩

/-! ## Handlers that change queues -/

theorem new_replied (dm : DataModel) (r : Request) (s : Server) :
    match requested dm r true s with
    | none => Replied s false (connectionHttpCallbackNew_ dm r s) ∧
        Unchanged s (connectionHttpCallbackNew_ dm r s)
    | some f =>
      Replied s (r.ok .name && encodesPayload r.ok (some (.name f.mq.id)))
        (connectionHttpCallbackNew_ dm r s) ∧
      (connectionHttpCallbackNew_ dm r s).net.wants = s.net.wants ∧
      (connectionHttpCallbackNew_ dm r s).queues = if r.ok .name then f.registry else f.free := by
  rcases new_cases dm r s with ⟨hf, s', hreads, h⟩ | ⟨f, s', hf, hreads, h⟩
  · rw [hf]
    exact h.only hreads
  · have hget : Logs s.net [] { s' with queues := f.registry }.net := hreads.logs
    rw [hf]
    dsimp only
    cases hname : r.ok .name with
    | false =>
      rw [hname, if_neg (by decide)] at h
      exact ⟨h.replied (hget.trans (adds_free (fun _ => rfl) f _)), h.emits.wants.trans hreads.emits.wants,
        h.emits.queues⟩
    | true =>
      rw [hname, if_pos rfl] at h
      exact ⟨h.replied hget, h.emits.wants.trans hreads.emits.wants, h.emits.queues⟩

theorem delete_replied (dm : DataModel) (r : Request) (s : Server) :
    match requested dm r true s with
    | none => Replied s false (connectionHttpCallbackDelete_ dm r s) ∧
        Unchanged s (connectionHttpCallbackDelete_ dm r s)
    | some f =>
      Replied s (encodesPayload r.ok none) (connectionHttpCallbackDelete_ dm r s) ∧
      (connectionHttpCallbackDelete_ dm r s).net.wants =
        managerQueueWantRemove f.mq.q.addr s.net.wants ∧
      (connectionHttpCallbackDelete_ dm r s).queues = f.free := by
  rcases delete_cases dm r s with ⟨hf, s', hreads, h⟩ | ⟨f, s', hf, hreads, h⟩
  · rw [hf]
    exact h.only hreads
  · have hget : Logs s.net [] { s' with
        queues := f.registry
        net.wants := managerQueueWantRemove f.mq.q.addr s'.net.wants }.net := hreads.logs
    rw [hf]
    refine ⟨h.replied (hget.trans (adds_free (fun _ => rfl) f _)), h.emits.wants.trans ?_, h.emits.queues⟩
    rw [← hreads.emits.wants]
    rfl

/-- A registry with another queue is another registry. -/
theorem set_ne {f : Found} {q : Queue Nat} (h : q ≠ f.mq.q) : f.set q ≠ f.registry := by
  intro heq
  have hmq := (List.cons.inj (List.append_cancel_left heq)).1
  exact h (congrArg ManagerQueue.q hmq)

theorem free_ne (f : Found) : f.free ≠ f.registry := by
  intro heq
  have hlen := congrArg List.length heq
  simp only [Found.free, Found.registry, List.length_append, List.length_cons] at hlen
  omega

/-- A take that finds an item changes its queue. -/
theorem removeItem_ne (i : QueueItem) (rest : List QueueItem) (q : Queue Nat) :
    q.removeItem i rest ≠ q := by
  intro heq
  have hcount := congrArg Queue.itemCount heq
  simp only [Queue.removeItem] at hcount
  omega

/-- A take replies the item it finds, which is then gone. -/
theorem take_replied (dm : DataModel) (r : Request) (s : Server) :
    match takeGives dm r s with
    | none => Replied s false (connectionHttpCallbackTake dm r s) ∧
        Unchanged s (connectionHttpCallbackTake dm r s)
    | some encoded => Replied s encoded (connectionHttpCallbackTake dm r s) ∧
        ¬ Unchanged s (connectionHttpCallbackTake dm r s) := by
  unfold takeGives
  rcases take_cases dm r s with ⟨s', h, p, hreads, hmiss, hr⟩ | ⟨f, s', i, rest, h, s₁, hf, hreads,
    htake, hr, ht⟩
  · have hl : Logs s.net [] { s' with heap := h }.net := hreads.logs
    have hdone : Replied s false (connectionHttpCallbackTake dm r s) ∧
        Unchanged s (connectionHttpCallbackTake dm r s) :=
      ⟨hr.replied hl, hr.emits.queues.trans hreads.emits.queues,
        hr.emits.wants.trans hreads.emits.wants⟩
    rcases hmiss with ⟨hf, -⟩ | ⟨f, hf, htake⟩
    · rw [hf]
      exact hdone
    · rw [hf]
      dsimp only
      rw [htake]
      exact hdone
  · have hl : Logs s.net [] { s' with
        queues := f.set (f.mq.q.removeItem i rest), heap := h.read i.id }.net := hreads.logs
    rw [hf]
    dsimp only
    rw [htake, ht]
    refine ⟨hr.replied hl, fun hu => ?_⟩
    have hqueues := hr.emits.queues.symm.trans (hu.queues.trans (reached_found hf))
    exact set_ne (removeItem_ne i rest f.mq.q) hqueues

/-- A put whose item is made changes its queue. -/
theorem queuePut_ne {e : Sending} {ok : Outcome} {id : Nat} {key : Option CStr} {value : CStr}
    {q : Queue Nat} {m : Heap × Net} {item : QueueItem}
    (hi : queuePutItem ok id q.addr key value = some item) :
    (queuePut (connectionQueueCallbackWait_ e) ok id key value q m).1 ≠ q := by
  rcases queuePut_cases (connectionQueueCallbackWait_ e) hi m with ⟨-, hp⟩ | ⟨pre, cb, post, hcb, hp⟩
  · rw [hp]
    intro heq
    have hlen := congrArg (fun q : Queue Nat => q.items.length) heq
    simp only [Queue.insertItem, List.length_append, List.length_singleton] at hlen
    omega
  · rw [hp]
    intro heq
    have hlen := congrArg (fun q : Queue Nat => q.callbacks.length) heq
    simp only [queueCallbackFree_callbacks, queuePutCallback_some hcb, List.length_append,
      List.length_cons] at hlen
    omega

/-- A put that makes its item is then replied to. -/
theorem put_replied (dm : DataModel) (r : Request) (s : Server) :
    match putReached dm r s with
    | none => Replied s false (connectionHttpCallbackPut dm r s) ∧
        Unchanged s (connectionHttpCallbackPut dm r s)
    | some _ => Replied s (encodesPayload r.ok none) (connectionHttpCallbackPut dm r s) ∧
        ¬ Unchanged s (connectionHttpCallbackPut dm r s) := by
  rcases put_cases dm r s with ⟨hf, s', hreads, hr⟩ | ⟨f, item, value, s', hf, hreads, hi, hr⟩
  · rw [hf]
    exact hr.only hreads
  · have hlogs := adds_queuePut (fun _ => rfl) replyOf_ofConn r.answer r.ok s.next
      (evhttpFindHeader r.params keyKey) value f.mq.q (s.heap, s'.net.emit (.put item))
    have hl := (hreads.logs.trans (adds_quiet (e := .put item) rfl s'.net)).trans hlogs
    rw [hf]
    refine ⟨hr.replied hl, fun hu => ?_⟩
    have hqueues := hr.emits.queues.symm.trans
      (hu.queues.trans (reached_found (putReached_reached hf)))
    exact set_ne (queuePut_ne hi) hqueues

/-! ## Requests -/

/-- The queue of a request was registered under its name, or is new. -/
theorem requested_cases {f : Found} (hf : requested dm r true s = some f) :
    (namesRegistered r s = true ∧ s.queues = f.registry) ∨
      (namesRegistered r s = false ∧ IsNew s.queues f s.next) := by
  obtain ⟨-, hgot, -⟩ := requested_got hf
  unfold namesRegistered
  generalize evhttpFindHeader r.params nameKey = name at hgot
  cases hgot with
  | found hq hn =>
    refine .inl ⟨List.any_eq_true.mpr ⟨f.mq, ?_, hn⟩, hq⟩
    rw [hq]
    simp [Found.registry]
  | named hn _ _ hnew _ => exact .inr ⟨registered_eq_false hn, hnew⟩
  | drawn _ hnew _ => exact .inr ⟨rfl, hnew⟩

theorem new_ne {f : Found} {a : Nat} (h : IsNew s.queues f a) : f.registry ≠ s.queues := by
  intro heq
  have hlen := congrArg List.length heq
  rw [isNew_registry h, List.length_append, List.length_singleton] at hlen
  omega

/-- Cancelling the wants of an address that no want names. -/
theorem remove_below (h : Below s) : managerQueueWantRemove s.next s.net.wants = s.net.wants := by
  have hkeep : ∀ w ∈ s.net.wants,
      (if w.queue = s.next then { w with cancelled := true } else w) = id w :=
    fun w hw => if_neg (Nat.ne_of_lt (h.wants w hw))
  exact (List.map_congr_left hkeep).trans (List.map_id _)

theorem new_fails (hp : r.path = .queues) (hm : r.method = .post) :
    FailsUnchanged dm r s ↔ ∀ f ∈ requested dm r true s,
      if namesRegistered r s then r.ok .name = true
      else r.ok .name = true → encodesPayload r.ok (some (.name f.mq.id)) = true := by
  have hcall : connectionHttpCallback dm r s = connectionHttpCallbackNew_ dm r s := by
    simp [connectionHttpCallback, hp, connectionHttpCallbackQueues, hm]
  have hnew := new_replied dm r s
  rw [← hcall] at hnew
  cases hf : requested dm r true s with
  | none =>
    rw [hf] at hnew
    rw [fails_iff hnew.1]
    exact iff_of_true (.inr hnew.2) nofun
  | some f =>
    rw [hf] at hnew
    obtain ⟨hr, hw, hq⟩ := hnew
    simp only [Option.mem_def, Option.some.injEq, forall_eq']
    rw [fails_iff hr]
    rcases requested_cases hf with ⟨hreg, hqs⟩ | ⟨hreg, hisNew⟩
    · rw [if_pos hreg]
      cases hname : r.ok .name with
      | true =>
        rw [hname, if_pos rfl, ← hqs] at hq
        exact iff_of_true (.inr ⟨hq, hw⟩) rfl
      | false =>
        rw [hname, if_neg (by decide)] at hq
        refine iff_of_false ?_ (by decide)
        rintro (h | h)
        · cases h
        · exact free_ne f (hq.symm.trans (h.queues.trans hqs))
    · rw [if_neg (by rw [hreg]; decide)]
      cases hname : r.ok .name with
      | true =>
        rw [hname, if_pos rfl] at hq
        have hne : ¬ Unchanged s (connectionHttpCallback dm r s) := fun h =>
          new_ne hisNew (hq.symm.trans h.queues)
        simp [hne]
      | false =>
        rw [hname, if_neg (by decide), isNew_free hisNew] at hq
        exact iff_of_true (.inr ⟨hq, hw⟩) nofun

theorem delete_fails (hb : Below s) (hp : r.path = .queue) (hm : r.method = .delete) :
    FailsUnchanged dm r s ↔ ((requested dm r true s).isSome → namesRegistered r s = true →
      encodesPayload r.ok none = true) := by
  have hcall : connectionHttpCallback dm r s = connectionHttpCallbackDelete_ dm r s := by
    simp [connectionHttpCallback, hp, connectionHttpCallbackQueue, hm]
  have hdel := delete_replied dm r s
  rw [← hcall] at hdel
  cases hf : requested dm r true s with
  | none =>
    rw [hf] at hdel
    rw [fails_iff hdel.1]
    exact iff_of_true (.inr hdel.2) nofun
  | some f =>
    rw [hf] at hdel
    obtain ⟨hr, hw, hq⟩ := hdel
    rw [fails_iff hr]
    rcases requested_cases hf with ⟨hreg, hqs⟩ | ⟨hreg, hisNew⟩
    · have hne : ¬ Unchanged s (connectionHttpCallback dm r s) := fun h =>
        free_ne f (hq.symm.trans (h.queues.trans hqs))
      simp [hne, hreg]
    · rw [isNew_free hisNew] at hq
      rw [hisNew.addr, remove_below hb] at hw
      exact iff_of_true (.inr ⟨hq, hw⟩) fun _ h => by rw [hreg] at h; cases h

/-- In every state of every run, a request whose reply is a failure changes
nothing exactly if what it does before the reply cannot be lost. -/
theorem failsUnchanged_iff (dm : DataModel) (is : List Input) (r : Request) :
    FailsUnchanged dm r (run (Server.step dm) .startup is) ↔
      UndoesFailure dm r (run (Server.step dm) .startup is) := by
  have hb := below_run dm is
  generalize run (Server.step dm) .startup is = s at hb ⊢
  have quiet : ∀ {ok}, Replied s ok (connectionHttpCallback dm r s) →
      Unchanged s (connectionHttpCallback dm r s) → FailsUnchanged dm r s := fun hr hu =>
    (fails_iff hr).mpr (.inr hu)
  have other : connectionHttpCallback dm r s =
      connectionHttpError_ r .method false 405 .methodNotSupported s → FailsUnchanged dm r s :=
    fun h => by
      have herr : Replies r .method none s false (connectionHttpCallback dm r s) :=
        h ▸ .error false 405 .methodNotSupported (by decide)
      obtain ⟨hr, hu⟩ := herr.only (.refl s)
      exact quiet hr hu
  unfold UndoesFailure asksNew asksDelete
  cases hp : r.path with
  | queues =>
    cases hm : r.method with
    | post => simpa using new_fails hp hm
    | get =>
      have hcall : connectionHttpCallback dm r s = connectionHttpCallbackList_ r s := by
        simp [connectionHttpCallback, hp, connectionHttpCallbackQueues, hm]
      obtain ⟨ok, hr⟩ := list_replied r s
      refine iff_of_true (quiet (hcall ▸ hr) (hcall ▸ list_emits.unchanged)) ?_
      simp
    | _ =>
      refine iff_of_true (other ?_) (by simp)
      simp [connectionHttpCallback, hp, connectionHttpCallbackQueues, hm]
  | queue =>
    cases hm : r.method with
    | delete => simpa using delete_fails hb hp hm
    | post =>
      have hcall : connectionHttpCallback dm r s = connectionHttpCallbackInfo_ dm r s := by
        simp [connectionHttpCallback, hp, connectionHttpCallbackQueue, hm]
      obtain ⟨ok, hr⟩ := info_replied dm r s
      refine iff_of_true (quiet (hcall ▸ hr) (hcall ▸ info_emits.unchanged)) ?_
      simp
    | _ =>
      refine iff_of_true (other ?_) (by simp)
      simp [connectionHttpCallback, hp, connectionHttpCallbackQueue, hm]
  | peek =>
    have hcall : connectionHttpCallback dm r s = connectionHttpCallbackPeek dm r s := by
      simp [connectionHttpCallback, hp]
    obtain ⟨hu, ok, hr⟩ := peek_replied dm r s
    refine iff_of_true (quiet (hcall ▸ hr) (hcall ▸ hu)) ?_
    simp
  | take =>
    have hcall : connectionHttpCallback dm r s = connectionHttpCallbackTake dm r s := by
      simp [connectionHttpCallback, hp]
    have htake := take_replied dm r s
    rw [← hcall] at htake
    cases ht : takeGives dm r s with
    | none =>
      rw [ht] at htake
      exact iff_of_true (quiet htake.1 htake.2) (by simp)
    | some encoded =>
      rw [ht] at htake
      rw [fails_iff htake.1]
      simp [htake.2]
  | put =>
    have hcall : connectionHttpCallback dm r s = connectionHttpCallbackPut dm r s := by
      simp [connectionHttpCallback, hp]
    have hput := put_replied dm r s
    rw [← hcall] at hput
    cases ht : putReached dm r s with
    | none =>
      rw [ht] at hput
      exact iff_of_true (quiet hput.1 hput.2) (by simp)
    | some t =>
      rw [ht] at hput
      rw [fails_iff hput.1]
      simp [hput.2]

/-- A request for the queue that `postQueues` makes, during which one call
fails. -/
def failing (c : Call) (path : Path) : Request :=
  { request path .post [(nameKey, madeId)] with ok := fun c' => c' != c }

/-- A take that cannot encode the item drops it, and a request for an existing
queue that cannot encode its name deletes it. -/
theorem failed_changes :
    ¬ FailsUnchanged .lp64 (failing (.encode .base) .take)
        (run (Server.step .lp64) .startup [postQueues, putValue]) ∧
      ¬ FailsUnchanged .lp64 (failing .name .queues)
        (run (Server.step .lp64) .startup [postQueues, putValue]) := by
  constructor
  · intro h
    have hreply : (500, ⟨false, some .encodeItem, none⟩) ∈ repliesTo .lp64
        (failing (.encode .base) .take)
        (run (Server.step .lp64) .startup [postQueues, putValue]) := by decide +kernel
    have hitems := congrArg (List.map fun m => m.q.items.length) (h _ hreply rfl).queues
    revert hitems
    decide +kernel
  · intro h
    have hreply : (500, ⟨false, some .encodeName, none⟩) ∈ repliesTo .lp64 (failing .name .queues)
        (run (Server.step .lp64) .startup [postQueues, putValue]) := by decide +kernel
    have hqueues := congrArg List.length (h _ hreply rfl).queues
    revert hqueues
    decide +kernel

end DQ.Proof.Server
