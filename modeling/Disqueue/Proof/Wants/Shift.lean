import Disqueue.Proof.Registry.Keys
import Disqueue.Proof.Server.Steps
import Disqueue.Spec.Replies

/-!
# Waiters and wants together

What a call by the event loop does to the callbacks registered in the queues
and to the manager's wants (`Shift`): nothing, or a callback is called and its
want is freed, or a want and its callback are made, or a queue is freed with
its callbacks.
-/

namespace DQ.Proof.Wants

open DQ.Model DQ.Spec DQ.Proof.Queue DQ.Proof.Server DQ.Proof.Registry

/-- What happens to callbacks and wants; `lost` are the callbacks of a queue
that is freed. -/
inductive Shift (lost : List (Nat × QueueCallback Nat)) (s s' : Server) : Prop
  | same (hw : (waiting s').Perm (waiting s)) (hn : List.Forall₂ Eased s.net.wants s'.net.wants)
  /-- A callback was called. -/
  | served (a : Nat) (cb : QueueCallback Nat) (hw : (waiting s).Perm ((a, cb) :: waiting s'))
      (hn : List.Forall₂ Eased (managerQueueWantFree cb.arg s.net.wants) s'.net.wants)
  | waits (w : Want) (key : Option CStr) (hi : w.id = s.next)
      (hq : ∃ m ∈ s.queues, m.q.addr = w.queue)
      (hw : (waiting s').Perm ((w.queue, ⟨key, w.id⟩) :: waiting s))
      (hn : s'.net.wants = s.net.wants ++ [w])
  /-- A queue was freed, with its callbacks. -/
  | freed (hw : (waiting s).Perm (lost ++ waiting s'))
      (hn : List.Forall₂ Eased s.net.wants s'.net.wants)

/-! ## Callbacks of a queue -/

/-- The callback of a want frees it. -/
theorem callback_wants (e : Sending) (want : Nat) (i : QueueItem) (m : Heap × Net) :
    List.Forall₂ Eased (managerQueueWantFree want m.2.wants)
      (connectionQueueCallbackWait_ e want i m).2.wants := by
  rcases callback_cases e want i m with ⟨hf, h⟩ | ⟨w, n, -, hn, h⟩
  · have hall : managerQueueWantFree want m.2.wants = m.2.wants :=
      List.filter_eq_self.mpr fun w hw => by simpa using List.find?_eq_none.mp hf w hw
    rw [h, hall]
    exact eased_refl _
  · rw [h]
    refine eased_free ?_ want
    rcases hn with rfl | ⟨b, rfl⟩
    · exact eased_refl _
    · exact (send_eq e.wslay w.client b m.2).1

/-- A put leaves callbacks and wants, or calls a callback. -/
theorem queuePut_waiters (e : Sending) (ok : Outcome) (id : Nat) (key : Option CStr) (value : CStr)
    (q : Queue Nat) (m : Heap × Net) {q' : Queue Nat} {m' : Heap × Net} {code : Int}
    (h : queuePut (connectionQueueCallbackWait_ e) ok id key value q m = (q', m', code)) :
    (q'.callbacks = q.callbacks ∧ m'.2.wants = m.2.wants) ∨
      ∃ pre cb post, q.callbacks = pre ++ cb :: post ∧ q'.callbacks = pre ++ post ∧
        List.Forall₂ Eased (managerQueueWantFree cb.arg m.2.wants) m'.2.wants := by
  cases hi : queuePutItem ok id q.addr key value with
  | none =>
    cases (queuePut_failed _ hi m).symm.trans h
    exact .inl ⟨rfl, rfl⟩
  | some item =>
    rcases queuePut_cases (connectionQueueCallbackWait_ e) hi m with ⟨-, hp⟩ | ⟨pre, cb, post, hcb, hp⟩
    · cases hp.symm.trans h
      exact .inl ⟨rfl, rfl⟩
    · cases hp.symm.trans h
      exact .inr ⟨pre, cb, post, queuePutCallback_some hcb, queueCallbackFree_callbacks _ _ _,
        callback_wants e cb.arg item (m.1.calloc id, m.2)⟩

/-! ## Requests -/

variable {dm : DataModel} {r : Request} {s s' : Server} {lost : List (Nat × QueueCallback Nat)}

theorem shift_emits {es : List Event} (h : Emits s es s') : Shift lost s s' :=
  .same (by rw [h.waiting]) (h.wants ▸ eased_refl _)

/-- Replying after a shift. -/
theorem Shift.emits {s₁ : Server} {es : List Event} (h : Shift lost s s₁) (he : Emits s₁ es s') :
    Shift lost s s' := by
  have hw := he.waiting
  cases h with
  | same hs hn => exact .same (hw ▸ hs) (he.wants ▸ hn)
  | served a cb hs hn => exact .served a cb (hw ▸ hs) (he.wants ▸ hn)
  | waits w key hi hq hs hn => exact .waits w key hi hq (hw ▸ hs) (he.wants ▸ hn)
  | freed hs hn => exact .freed (hw ▸ hs) (he.wants ▸ hn)

/-- The heap and the number of the next request do not matter. -/
theorem Shift.outside (h : Shift lost s s') (hp : Heap) (n : Nat) :
    Shift lost s { s' with heap := hp, next := n } := by
  cases h with
  | same hs hn => exact .same hs hn
  | served a cb hs hn => exact .served a cb hs hn
  | waits w key hi hq hs hn => exact .waits w key hi hq hs hn
  | freed hs hn => exact .freed hs hn

/-- Callbacks of a queue in the registry, out of those of all. -/
theorem waiting_set_same {f : Found} {q : Queue Nat} (ha : q.addr = f.mq.q.addr)
    (hc : q.callbacks = f.mq.q.callbacks) : waitingIn (f.set q) = waitingIn f.registry := by
  simp only [waitingIn, Found.set, Found.registry, List.flatMap_append, List.flatMap_cons, ha, hc]

theorem waiting_set_less {f : Found} {q : Queue Nat} (ha : q.addr = f.mq.q.addr)
    {pre post : List (QueueCallback Nat)} {cb : QueueCallback Nat}
    (hf : f.mq.q.callbacks = pre ++ cb :: post) (hc : q.callbacks = pre ++ post) :
    (waitingIn f.registry).Perm ((f.mq.q.addr, cb) :: waitingIn (f.set q)) := by
  refine (waitingIn_found f).trans (List.Perm.trans ?_ ((waitingIn_set f q).symm.cons _))
  rw [callbacksAt, callbacksAt, ha, hf, hc]
  exact perm_map_middle _ pre post cb _

theorem waiting_set_more {f : Found} {q : Queue Nat} (ha : q.addr = f.mq.q.addr)
    {cb : QueueCallback Nat} (hc : q.callbacks = f.mq.q.callbacks ++ [cb]) :
    (waitingIn (f.set q)).Perm ((f.mq.q.addr, cb) :: waitingIn f.registry) := by
  refine (waitingIn_set f q).trans (List.Perm.trans ?_ ((waitingIn_found f).symm.cons _))
  rw [callbacksAt, callbacksAt, ha, hc]
  exact perm_map_concat _ f.mq.q.callbacks cb _

theorem put_shift (dm : DataModel) (r : Request) (s : Server) :
    Shift lost s (connectionHttpCallbackPut dm r s) := by
  rcases put_cases dm r s with ⟨-, s', hreads, hr⟩ | ⟨f, item, value, s', hf, hreads, -, hr⟩
  · exact (shift_emits hreads.emits).emits hr.emits
  · have hq := reached_found (putReached_reached hf)
    have hw : (s'.net.emit (.put item)).wants = s.net.wants := hreads.emits.wants
    have ha := queuePut_addr (connectionQueueCallbackWait_ r.answer) r.ok s.next
      (evhttpFindHeader r.params keyKey) value f.mq.q (s.heap, s'.net.emit (.put item))
    dsimp only at hr
    rcases hput : queuePut (connectionQueueCallbackWait_ r.answer) r.ok s.next
      (evhttpFindHeader r.params keyKey) value f.mq.q (s.heap, s'.net.emit (.put item)) with
      ⟨q, ⟨h, n⟩, code⟩
    rw [hput] at ha hr
    refine Shift.emits ?_ hr.emits
    rcases queuePut_waiters _ _ _ _ _ _ _ hput with ⟨hc, hn⟩ | ⟨pre, cb, post, hc, hc', hn⟩
    · apply Shift.same
      · rw [waiting_eq, waiting_eq, hq, waiting_set_same ha hc]
      · rw [← hw, ← hn]
        exact eased_refl _
    · refine .served f.mq.q.addr cb ?_ (hw ▸ hn)
      rw [waiting_eq, waiting_eq, hq]
      exact waiting_set_less ha hc hc'

theorem take_shift (dm : DataModel) (r : Request) (s : Server) :
    Shift lost s (connectionHttpCallbackTake dm r s) := by
  rcases take_cases dm r s with ⟨s', h, p, hreads, -, hr⟩ | ⟨f, s', i, rest, h, s₁, hf, hreads, -,
    hr, ht⟩
  · exact ((shift_emits hreads.emits).outside h s'.next).emits hr.emits
  · rw [ht]
    refine (Shift.emits (.same ?_ (hreads.emits.wants ▸ eased_refl _)) hr.emits).outside _ _
    have hset : waitingIn (f.set (f.mq.q.removeItem i rest)) = waitingIn f.registry :=
      waiting_set_same rfl rfl
    rw [waiting_eq, waiting_eq, reached_found hf, ← hset]

theorem peek_shift (dm : DataModel) (r : Request) (s : Server) :
    Shift lost s (connectionHttpCallbackPeek dm r s) := by
  rcases peek_cases dm r s with ⟨s', h, p, hreads, -, hr⟩ | ⟨f, s', i, h, s₁, ok, -, hreads, -, hr, hp⟩
  · exact ((shift_emits hreads.emits).outside h s'.next).emits hr.emits
  · rw [hp]
    exact (((shift_emits hreads.emits).outside _ s'.next).emits hr.emits).outside _ _

/-- The callbacks of the queue that a request frees. -/
def lostCallbacks (dm : DataModel) (r : Request) (s : Server) : List (Nat × QueueCallback Nat) :=
  if asksDelete r || (asksNew r && !r.ok .name) then
    ((requested dm r true s).map fun f => callbacksAt f.mq.q).getD []
  else []

theorem new_shift (dm : DataModel) (r : Request) (s : Server) (hr : asksNew r = true) :
    Shift (lostCallbacks dm r s) s (connectionHttpCallbackNew_ dm r s) := by
  rcases new_cases dm r s with ⟨-, s', hreads, h⟩ | ⟨f, s', hf, hreads, h⟩
  · exact (shift_emits hreads.emits).emits h.emits
  · have he := hreads.emits
    have hw : waitingIn f.registry = waiting s :=
      (waitingIn_get (requested_get hf)).trans (waiting_eq s).symm
    split at h
    · refine Shift.emits (.same ?_ (he.wants ▸ eased_refl _)) h.emits
      rw [waiting_eq, ← hw]
    · rename_i hname
      have hlost : lostCallbacks dm r s = callbacksAt f.mq.q := by
        simp [lostCallbacks, hr, hname, hf]
      refine Shift.emits (.freed ?_ (he.wants ▸ eased_refl _)) h.emits
      rw [hlost, ← hw]
      exact waitingIn_found f

theorem delete_shift (dm : DataModel) (r : Request) (s : Server) (hr : asksDelete r = true) :
    Shift (lostCallbacks dm r s) s (connectionHttpCallbackDelete_ dm r s) := by
  rcases delete_cases dm r s with ⟨-, s', hreads, h⟩ | ⟨f, s', hf, hreads, h⟩
  · exact (shift_emits hreads.emits).emits h.emits
  · have hw : waitingIn f.registry = waiting s :=
      (waitingIn_get (requested_get hf)).trans (waiting_eq s).symm
    have hlost : lostCallbacks dm r s = callbacksAt f.mq.q := by
      simp [lostCallbacks, hr, hf]
    refine Shift.emits (.freed ?_ ?_) h.emits
    · rw [hlost, ← hw]
      exact waitingIn_found f
    · rw [← hreads.emits.wants]
      exact eased_remove _ _

/-- A request. -/
theorem http_shift (dm : DataModel) (r : Request) (s : Server) :
    Shift (lostCallbacks dm r s) s (s.step dm (.http r)) := by
  have hshift : Shift (lostCallbacks dm r s) s (connectionHttpCallback dm r s) := by
    have hmethod : Shift (lostCallbacks dm r s) s
        (connectionHttpError_ r .method false 405 .methodNotSupported s) :=
      shift_emits (emits_error .method false 405 .methodNotSupported s)
    unfold connectionHttpCallback
    cases hp : r.path with
    | queues =>
      dsimp only [connectionHttpCallbackQueues]
      cases hm : r.method with
      | get => exact shift_emits list_emits
      | post => exact new_shift dm r s (by simp [asksNew, hp, hm])
      | _ => exact hmethod
    | queue =>
      dsimp only [connectionHttpCallbackQueue]
      cases hm : r.method with
      | post => exact shift_emits info_emits
      | delete => exact delete_shift dm r s (by simp [asksDelete, hp, hm])
      | _ => exact hmethod
    | take => exact take_shift dm r s
    | peek => exact peek_shift dm r s
    | put => exact put_shift dm r s
  exact hshift.outside _ _

/-! ## Messages -/

/-- What is recorded before does not matter. -/
theorem Shift.after_emit {e : Event} (h : Shift lost (s.emit e) s') : Shift lost s s' := by
  cases h with
  | same hs hn => exact .same hs hn
  | served a cb hs hn => exact .served a cb hs hn
  | waits w key hi hq hs hn => exact .waits w key hi hq hs hn
  | freed hs hn => exact .freed hs hn

theorem calm_shift {n : Net} (h : Calm s.net n) : Shift lost s { s with net := n } :=
  .same (List.Perm.refl _) h.wants

theorem callbackWait_shift (dm : DataModel) (hI : Inv s) (m : Message) (c : Nat) :
    Shift lost s (connectionWsCallbackWait dm m c s) := by
  rcases callbackWait_cases dm m c s with
    ⟨-, message, h⟩ | ⟨w, f, key, -, hf, hid, -, hqueue, h⟩
  · rw [h]
    exact calm_shift (calm_wsError m.env c message s.net)
  · have hwants : (withWant s.net w key).wants = s.net.wants ++ [w] := rfl
    rw [h]
    unfold afterWait
    rcases queueWait_cases (connectionQueueCallbackWait_ m.env) m.env.ok key w.id f.mq.q
      (s.heap, withWant s.net w key) with ⟨i, rest, h₁, -, hw⟩ | ⟨h₁, -, -, hw⟩ | ⟨h₁, -, -, hw⟩
    · -- the want was served at once
      have hcall := callback_wants m.env w.id i (h₁, withWant s.net w key)
      have hset : waitingIn (f.set (f.mq.q.removeItem i rest)) = waitingIn f.registry :=
        waiting_set_same rfl rfl
      rw [hw]
      dsimp only
      rw [if_neg (by decide)]
      apply Shift.same
      · rw [waiting_eq, waiting_eq, hf, hset]
      · rwa [hwants, wantFree_new hI hid] at hcall
    · rw [hw]
      dsimp only
      rw [if_neg (by decide)]
      refine .waits w key hid ⟨f.mq, ?_, hqueue.symm⟩ ?_ hwants
      · rw [hf]
        simp [Found.registry]
      · rw [waiting_eq, waiting_eq, hf, hqueue]
        exact waiting_set_more (q := f.mq.q.insertCallback ⟨key, w.id⟩) rfl rfl
    · have hset : waitingIn (f.set f.mq.q) = waitingIn f.registry := waiting_set_same rfl rfl
      rw [hw]
      dsimp only
      rw [if_pos (by decide)]
      apply Shift.same
      · rw [waiting_eq, waiting_eq, hf, hset]
      · dsimp only
        rw [hwants, wantFree_new hI hid]
        exact (calm_wsError m.env c .waitForWant { withWant s.net w key with wants := s.net.wants }).wants

/-- A message that wslay delivers. -/
theorem message_shift (dm : DataModel) (hI : Inv s) (c : Nat) (m : Message) :
    Shift lost s (evwsWslayOnMsgCallback_ dm c s m) := by
  have hquiet : Shift lost s { s with next := s.next + 1 } :=
    .same (List.Perm.refl _) (eased_refl _)
  have hdata : Inv (s.emit (.data c)) := hI.act (emits_quiet s rfl).act_same
  unfold evwsWslayOnMsgCallback_
  dsimp only
  split
  · exact hquiet
  · split
    · split
      · exact (callbackWait_shift dm hdata m c).after_emit.outside _ _
      · exact hquiet
    · exact hquiet

theorem good_message (hg : Good s) {c : Nat} (hc : (s.net.conn c).alive = true) (m : Message) :
    Good (evwsWslayOnMsgCallback_ dm c s m) := by
  obtain ⟨ls, ha, -, hC⟩ := message_does dm hg.1 hg.2 hc m
  exact ⟨ha.keeps hg.1, hC⟩

/-- The invariant rule for the messages of one read, which all meet `C`. -/
theorem messages_inv {I : Server → Prop} {C : Server → Message → Prop} {c : Nat}
    {ms : List Message}
    (hstep : ∀ s m, Good s → (s.net.conn c).alive = true → C s m → I s →
      I (evwsWslayOnMsgCallback_ dm c s m))
    (hg : Good s) (hc : (s.net.conn c).alive = true)
    (hC : Meets (evwsWslayOnMsgCallback_ dm c) C s ms) (hs : I s) :
    I (run (evwsWslayOnMsgCallback_ dm c) s ms) := by
  induction ms generalizing s with
  | nil => exact hs
  | cons m ms ih =>
    exact ih (good_message hg hc m) ((message_alive dm hg.1 hg.2 hc m c).trans hc) hC.2
      (hstep s m hg hc hC.1 hs)

/-! ## Addresses of queues -/

theorem Eased.queue {w w' : Want} (h : Eased w w') : w'.queue = w.queue := by
  rcases h with rfl | rfl <;> rfl

/-- The addresses of queues, and those that wants name, are below the next. -/
structure Below (s : Server) : Prop where
  queues : ∀ k ∈ keys s.queues, k.2 < s.next
  wants : ∀ w ∈ s.net.wants, w.queue < s.next

theorem wants_below (lost : List (Nat × QueueCallback Nat)) (h : Below s) (hs : Shift lost s s') :
    ∀ w ∈ s'.net.wants, w.queue < s.next := by
  intro w' hw'
  cases hs with
  | same hs hn =>
    obtain ⟨w, hw, he⟩ := eased_mem hn hw'
    exact Eased.queue he ▸ h.wants w hw
  | served a cb hs hn =>
    obtain ⟨w, hw, he⟩ := eased_mem hn hw'
    exact Eased.queue he ▸ h.wants w (List.mem_filter.mp hw).1
  | waits w key hi hq hs hn =>
    rw [hn] at hw'
    rcases List.mem_append.mp hw' with hw' | hw'
    · exact h.wants w' hw'
    · obtain ⟨m, hm, hmq⟩ := hq
      rw [List.mem_singleton.mp hw', ← hmq]
      exact h.queues _ (List.mem_map_of_mem hm)
  | freed hs hn =>
    obtain ⟨w, hw, he⟩ := eased_mem hn hw'
    exact Eased.queue he ▸ h.wants w hw

theorem Below.eased {n : Net} (h : Below s) (hn : List.Forall₂ Eased s.net.wants n.wants) :
    Below { s with net := n } := by
  refine ⟨h.queues, fun w' hw' => ?_⟩
  obtain ⟨w, hw, he⟩ := eased_mem hn hw'
  exact Eased.queue he ▸ h.wants w hw

theorem step_keys_below (i : Input) (h : ∀ k ∈ keys s.queues, k.2 < s.next) :
    ∀ k ∈ keys (s.step dm i).queues, k.2 < s.next + 1 := by
  intro k hk
  obtain ⟨id, hsub⟩ := step_keys_sublist dm s i
  rcases List.mem_append.mp (hsub.subset hk) with hk | hk
  · exact Nat.lt_succ_of_lt (h k hk)
  · rw [List.mem_singleton.mp hk]
    exact Nat.lt_succ_self _

theorem message_below (c : Nat) (m : Message) (hg : Good s) (h : Below s) :
    Below (evwsWslayOnMsgCallback_ dm c s m) := by
  refine ⟨fun k hk => ?_, fun w hw => ?_⟩
  · rw [message_keys] at hk
    exact Nat.lt_succ_of_lt (h.queues k hk)
  · exact Nat.lt_succ_of_lt (wants_below [] h (message_shift dm hg.1 c m) w hw)

/-- Steps keep addresses below the next. -/
theorem below_step (i : Input) (hg : Good s) (h : Below s) : Below (s.step dm i) := by
  cases i with
  | http r =>
    exact ⟨step_keys_below (.http r) h.queues,
      fun w hw => Nat.lt_succ_of_lt (wants_below _ h (http_shift dm r s) w hw)⟩
  | opened =>
    exact ⟨fun k hk => Nat.lt_succ_of_lt (h.queues k hk),
      fun w hw => Nat.lt_succ_of_lt (h.wants w hw)⟩
  | read c msgs recv e =>
    dsimp only [Server.step]
    split
    · rename_i hc
      obtain ⟨hc, -⟩ := Bool.and_eq_true _ _ |>.mp hc
      have hm : Below (run (evwsWslayOnMsgCallback_ dm c) s msgs) :=
        messages_inv (C := fun _ _ => True) (fun s m hg _ _ h => message_below c m hg h) hg hc
          (Meets.of_forall (fun _ _ => trivial) s msgs) h
      unfold evwsConnectionReadCb_
      dsimp only
      split
      · exact hm.eased (calm_evwsClose c _).wants
      · exact hm.eased (calm_write e c _).wants
    · exact h
  | drained c =>
    dsimp only [Server.step]
    split
    · exact h.eased (calm_evwsClose c s.net).wants
    · exact h
  | event c eof error e =>
    dsimp only [Server.step]
    split
    · exact h.eased (event_eased e c eof error s.net).1
    · exact h

/-- In every state of every run, addresses are below the next. -/
theorem below_run (dm : DataModel) (is : List Input) : Below (run (Server.step dm) .startup is) :=
  (run_inv (I := fun s => Good s ∧ Below s)
    (fun _ i h => ⟨good_step i h.1, below_step i h.1 h.2⟩)
    ⟨good_startup, List.forall_mem_nil _, List.forall_mem_nil _⟩ is).2

end DQ.Proof.Wants
