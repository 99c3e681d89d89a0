import Disqueue.Proof.Server.Emits

/-!
# What each handler can do

A handler reads parameters (`Reads`), looks its queue up (`queue_cases`), does
its work and replies once, with a failure or its payload (`Replies`). There is
one lemma for each handler, `list_cases` to `put_cases`, that says what it can
come to; what is proved of a handler is proved from it.
-/

namespace DQ.Proof.Server

open DQ.Model DQ.Spec DQ.Proof.Queue

variable {dm : DataModel} {r : Request} {s s' : Server} {e : Endpoint} {p : Option Payload}
  {ok : Bool}

/-! ## Reading and replying -/

/-- From `s` to `s'` parameters were read. -/
def Reads (s s' : Server) : Prop :=
  ∃ k, s' = { s with net.log := s.net.log ++ List.replicate k (.params s.next .read) }

theorem Reads.refl (s : Server) : Reads s s := by
  refine ⟨0, ?_⟩
  rw [List.replicate_zero, List.append_nil]

theorem Reads.findParam (h : Reads s s') (r : Request) (name : CStr) :
    Reads s (findParam r name s').2 := by
  obtain ⟨k, rfl⟩ := h
  refine ⟨k + 1, ?_⟩
  rw [List.replicate_succ', ← List.append_assoc]
  rfl

/-- What was read says nothing. -/
theorem Reads.filterMap {τ : Type} {f : Event → Option τ} (h : Reads s s')
    (hf : f (.params s.next .read) = none) : s'.net.log.filterMap f = s.net.log.filterMap f := by
  obtain ⟨k, rfl⟩ := h
  simp [hf]

theorem Reads.emits (h : Reads s s') : Emits s [] s' := by
  obtain ⟨k, rfl⟩ := h
  refine ⟨rfl, rfl, rfl, rfl, rfl, ?_⟩
  simp [trace, notable]

/-- The reply to a request: a failure, or the payload `p`; `ok` says whether it
is a success. -/
inductive Replies (r : Request) (e : Endpoint) (p : Option Payload) (s : Server) :
    Bool → Server → Prop
  | error (params : Bool) (code : Nat) (message : Failure) (hcode : code ≠ 200) :
    Replies r e p s false (connectionHttpError_ r e params code message s)
  | payload : Replies r e p s (encodesPayload r.ok p) (connectionHttpPayload_ r e p s)

theorem Replies.emits (h : Replies r e p s ok s') :
    Emits s (if notable (.reply s.next e 200 ⟨true, none, p⟩) && ok then
      [.reply s.next e 200 ⟨true, none, p⟩] else []) s' := by
  cases h with
  | error params code message _ => simpa using emits_error e params code message s
  | payload => exact emits_payload e p s

/-- Replies to other requests than takes and puts are not notable. -/
theorem Replies.quiet (h : Replies r e p s ok s') (he : e ≠ .take ∧ e ≠ .put) : Emits s [] s' := by
  cases h with
  | error params code message _ => exact emits_error e params code message s
  | payload => exact emits_payload_quiet he p s

theorem Replies.failed (h : Replies r e p s false s') : Emits s [] s' := by
  simpa using h.emits

/-! ## Looking a queue up -/

/-- The code and the message of a lookup that fails. -/
def lookupError (r : Request) (createNew : Bool) : Nat × Failure :=
  if r.ok .body && r.ok .copyout && r.ok .parse then
    if (evhttpFindHeader r.params nameKey).any (·.length != 36) then (400, .invalidQueueId)
    else if createNew then (0, .createQueue)
    else (404, .noQueue)
  else (0, .readBody)

/-- A lookup that fails is not replied to as a success. -/
theorem Replies.lookup (r : Request) (e : Endpoint) (p : Option Payload) (s : Server)
    (createNew : Bool) : Replies r e p s false
      (connectionHttpError_ r e true (lookupError r createNew).1 (lookupError r createNew).2 s) := by
  refine .error _ _ _ ?_
  unfold lookupError
  split
  · split
    · decide
    · split <;> decide
  · decide

/-- The lookup that every handler of a queue starts with. -/
theorem queue_cases (dm : DataModel) (r : Request) (e : Endpoint) (createNew : Bool) (s : Server) :
    (requested dm r createNew s = none ∧ ∃ s', Reads s s' ∧
      connectionHttpQueue_ dm r e createNew s =
        (connectionHttpError_ r e true (lookupError r createNew).1 (lookupError r createNew).2 s',
          none)) ∨
    ∃ f s', requested dm r createNew s = some f ∧ Reads s s' ∧
      connectionHttpQueue_ dm r e createNew s = ({ s' with queues := f.registry }, some f) := by
  unfold connectionHttpQueue_ connectionHttpRead_ requested lookupError
  cases r.ok .body && r.ok .copyout && r.ok .parse with
  | false => exact .inl ⟨rfl, s, .refl s, rfl⟩
  | true =>
    have hreads := (Reads.refl s).findParam r nameKey
    have hname : findParam r nameKey s =
      (evhttpFindHeader r.params nameKey, (findParam r nameKey s).2) := rfl
    have hemits := hreads.emits
    generalize (findParam r nameKey s).2 = s₁ at hreads hname hemits
    simp only [if_true, connectionHttpValidate_, hname]
    by_cases hlen : (evhttpFindHeader r.params nameKey).any (·.length != 36) = true
    · rw [if_pos hlen, if_pos hlen]
      exact .inl ⟨managerQueueGet_length hlen, s₁, hreads, rfl⟩
    have hsupply : r.supply s₁.next = r.supply s.next := by rw [hemits.next]
    rw [if_neg hlen, if_neg hlen, hsupply, hemits.queues]
    cases managerQueueGet dm (r.supply s.next) (evhttpFindHeader r.params nameKey) createNew
        s.queues with
    | none =>
      refine .inl ⟨rfl, s₁, hreads, ?_⟩
      cases createNew <;> rfl
    | some f => exact .inr ⟨f, s₁, rfl, hreads, rfl⟩

/-- What the lookup gives comes from the registry. -/
theorem requested_get {createNew : Bool} {f : Found} (h : requested dm r createNew s = some f) :
    managerQueueGet dm (r.supply s.next) (evhttpFindHeader r.params nameKey) createNew s.queues =
      some f := by
  unfold requested at h
  split at h
  · exact h
  · cases h

theorem reached_found {f : Found} (h : reached dm r s = some f) : s.queues = f.registry :=
  managerQueueGet_found (requested_get h)

/-- The lookup of the handlers that make no queue. -/
theorem found_cases (dm : DataModel) (r : Request) (e : Endpoint) (s : Server) :
    (reached dm r s = none ∧ ∃ s', Reads s s' ∧ connectionHttpQueue_ dm r e false s =
      (connectionHttpError_ r e true (lookupError r false).1 (lookupError r false).2 s', none)) ∨
    ∃ f s', reached dm r s = some f ∧ Reads s s' ∧
      connectionHttpQueue_ dm r e false s = (s', some f) := by
  rcases queue_cases dm r e false s with h | ⟨f, s', hf, hreads, hq⟩
  · exact .inl h
  · refine .inr ⟨f, s', hf, hreads, ?_⟩
    rw [hq, ← reached_found hf, ← hreads.emits.queues]

/-! ## Handlers that change nothing -/

theorem list_cases (r : Request) (s : Server) :
    ∃ p ok, Replies r .list p s ok (connectionHttpCallbackList_ r s) := by
  unfold connectionHttpCallbackList_ connectionHttpRead_
  cases r.ok .body && r.ok .copyout && r.ok .parse with
  | false => exact ⟨none, false, .error true 0 .readBody (by decide)⟩
  | true =>
    simp only [if_true]
    split
    · exact ⟨none, false, .error true 0 .createList (by decide)⟩
    · split
      · exact ⟨none, false, .error true 0 .listQueues (by decide)⟩
      · rename_i ids _
        exact ⟨some (.names ids), _, .payload⟩

theorem info_cases (dm : DataModel) (r : Request) (s : Server) :
    ∃ s' p ok, Reads s s' ∧ Replies r .info p s' ok (connectionHttpCallbackInfo_ dm r s) := by
  unfold connectionHttpCallbackInfo_
  rcases found_cases dm r .info s with ⟨-, s', hreads, hq⟩ | ⟨f, s', -, hreads, hq⟩
  · rw [hq]
    exact ⟨s', none, false, hreads, .lookup ..⟩
  · rw [hq]
    dsimp only
    split
    · exact ⟨s', none, false, hreads, .error _ _ _ (by decide)⟩
    · exact ⟨s', some (.info f.mq.id), _, hreads, .payload⟩

/-- A peek replies the item it finds, which is locked for the while. -/
theorem peek_cases (dm : DataModel) (r : Request) (s : Server) :
    (∃ s' h p, Reads s s' ∧ (s'.heap = h ∨ ∃ f, reached dm r s = some f ∧
        queuePeek (evhttpFindHeader r.params keyKey) f.mq.q s.heap = (none, h)) ∧
      Replies r .peek p { s' with heap := h } false (connectionHttpCallbackPeek dm r s)) ∨
    ∃ f s' i h s₁ ok, reached dm r s = some f ∧ Reads s s' ∧
      queuePeek (evhttpFindHeader r.params keyKey) f.mq.q s.heap = (some i, h) ∧
      Replies r .peek (some (.item i)) { s' with heap := (queueItemLock h i.id).read i.id } ok s₁ ∧
      connectionHttpCallbackPeek dm r s = { s₁ with heap := queueItemUnlock s₁.heap i.id } := by
  unfold connectionHttpCallbackPeek
  rcases found_cases dm r .peek s with ⟨-, s', hreads, hq⟩ | ⟨f, s', hf, hreads, hq⟩
  · rw [hq]
    exact .inl ⟨s', s'.heap, none, hreads, .inl rfl, .lookup ..⟩
  · have hkey := hreads.findParam r keyKey
    have hk : findParam r keyKey s' =
      (evhttpFindHeader r.params keyKey, (findParam r keyKey s').2) := rfl
    rw [hq]
    dsimp only
    rw [hk]
    generalize (findParam r keyKey s').2 = s₀ at hkey ⊢
    dsimp only
    rw [hkey.emits.heap]
    rcases hpeek : queuePeek (evhttpFindHeader r.params keyKey) f.mq.q s.heap with ⟨_ | i, h⟩
    · exact .inl ⟨s₀, h, none, hkey, .inr ⟨f, hf, hpeek⟩, .error _ _ _ (by decide)⟩
    · refine .inr ⟨f, s₀, i, h, ?_⟩
      dsimp only
      split
      · exact ⟨_, _, hf, hkey, hpeek, .error true 0 .encodeItem (by decide), rfl⟩
      · exact ⟨_, _, hf, hkey, hpeek, .payload, rfl⟩

/-! ## Handlers that change queues -/

/-- A request for a new queue, which is deleted again if its name cannot be
encoded. -/
theorem new_cases (dm : DataModel) (r : Request) (s : Server) :
    (requested dm r true s = none ∧ ∃ s', Reads s s' ∧
      Replies r .new none s' false (connectionHttpCallbackNew_ dm r s)) ∨
    ∃ f s', requested dm r true s = some f ∧ Reads s s' ∧
      if r.ok .name then
        Replies r .new (some (.name f.mq.id)) { s' with queues := f.registry }
          (encodesPayload r.ok (some (.name f.mq.id))) (connectionHttpCallbackNew_ dm r s)
      else
        Replies r .new none (managerQueueFree f { s' with queues := f.registry }) false
          (connectionHttpCallbackNew_ dm r s) := by
  unfold connectionHttpCallbackNew_
  rcases queue_cases dm r .new true s with ⟨hf, s', hreads, hq⟩ | ⟨f, s', hf, hreads, hq⟩
  · rw [hq]
    exact .inl ⟨hf, s', hreads, .lookup ..⟩
  · rw [hq]
    refine .inr ⟨f, s', hf, hreads, ?_⟩
    cases r.ok .name with
    | false => exact .error _ _ _ (by decide)
    | true => exact .payload

theorem delete_cases (dm : DataModel) (r : Request) (s : Server) :
    (requested dm r true s = none ∧ ∃ s', Reads s s' ∧
      Replies r .delete none s' false (connectionHttpCallbackDelete_ dm r s)) ∨
    ∃ f s', requested dm r true s = some f ∧ Reads s s' ∧
      Replies r .delete none
        (managerQueueFree f { s' with
          queues := f.registry
          net.wants := managerQueueWantRemove f.mq.q.addr s'.net.wants })
        (encodesPayload r.ok none) (connectionHttpCallbackDelete_ dm r s) := by
  unfold connectionHttpCallbackDelete_
  rcases queue_cases dm r .delete true s with ⟨hf, s', hreads, hq⟩ | ⟨f, s', hf, hreads, hq⟩
  · rw [hq]
    exact .inl ⟨hf, s', hreads, .lookup ..⟩
  · rw [hq]
    exact .inr ⟨f, s', hf, hreads, .payload⟩

/-- A take replies the item it takes, which is then freed. -/
theorem take_cases (dm : DataModel) (r : Request) (s : Server) :
    (∃ s' h p, Reads s s' ∧ (reached dm r s = none ∧ s'.heap = h ∨ ∃ f, reached dm r s = some f ∧
        queueTake (evhttpFindHeader r.params keyKey) f.mq.q s.heap = (none, f.mq.q, h)) ∧
      Replies r .take p { s' with heap := h } false (connectionHttpCallbackTake dm r s)) ∨
    ∃ f s' i rest h s₁, reached dm r s = some f ∧ Reads s s' ∧
      queueTake (evhttpFindHeader r.params keyKey) f.mq.q s.heap =
        (some i, f.mq.q.removeItem i rest, h) ∧
      Replies r .take (some (.item i))
        { s' with queues := f.set (f.mq.q.removeItem i rest), heap := h.read i.id }
        (encodesTake r.ok i) s₁ ∧
      connectionHttpCallbackTake dm r s = { s₁ with heap := queueItemFree s₁.heap i.id } := by
  unfold connectionHttpCallbackTake
  rcases found_cases dm r .take s with ⟨hf, s', hreads, hq⟩ | ⟨f, s', hf, hreads, hq⟩
  · rw [hq]
    exact .inl ⟨s', s'.heap, none, hreads, .inl ⟨hf, rfl⟩, .lookup ..⟩
  · have hkey := hreads.findParam r keyKey
    have hk : findParam r keyKey s' =
      (evhttpFindHeader r.params keyKey, (findParam r keyKey s').2) := rfl
    rw [hq]
    dsimp only
    rw [hk]
    generalize (findParam r keyKey s').2 = s₀ at hkey ⊢
    dsimp only
    rw [hkey.emits.heap]
    rcases queueTake_cases (evhttpFindHeader r.params keyKey) f.mq.q s.heap with
      ⟨h, ht⟩ | ⟨i, rest, h, ht⟩
    · have hset : f.set f.mq.q = s₀.queues := (reached_found hf).symm.trans hkey.emits.queues.symm
      refine .inl ⟨s₀, h, none, hkey, .inr ⟨f, hf, ht⟩, ?_⟩
      rw [ht]
      dsimp only
      rw [hset]
      exact .error _ _ _ (by decide)
    · refine .inr ⟨f, s₀, i, rest, h, ?_⟩
      rw [ht]
      dsimp only
      split
      · rename_i henc
        rw [show encodesTake r.ok i = false by simp_all [encodesTake]]
        exact ⟨_, hf, hkey, rfl, .error true 0 .encodeItem (by decide), rfl⟩
      · rename_i henc
        rw [show encodesTake r.ok i = encodesPayload r.ok (some (.item i)) by
          simp_all [encodesTake, encodesPayload]]
        exact ⟨_, hf, hkey, rfl, .payload, rfl⟩

theorem putReached_reached {f : Found} {item : QueueItem} (h : putReached dm r s = some (f, item)) :
    reached dm r s = some f := by
  unfold putReached at h
  cases hf : reached dm r s with
  | none => simp [hf] at h
  | some f' =>
    cases hv : evhttpFindHeader r.params valueKey with
    | none => simp [hv] at h
    | some value =>
      obtain ⟨i, -, hi⟩ : ∃ i, _ ∧ (f', i) = (f, item) := by simpa [hf, hv] using h
      rw [(Prod.mk.inj hi).1]

/-- A put that makes its item replies after `queue_put`. -/
theorem put_cases (dm : DataModel) (r : Request) (s : Server) :
    (putReached dm r s = none ∧ ∃ s', Reads s s' ∧
      Replies r .put none s' false (connectionHttpCallbackPut dm r s)) ∨
    ∃ f item value s', putReached dm r s = some (f, item) ∧ Reads s s' ∧
      queuePutItem r.ok s.next f.mq.q.addr (evhttpFindHeader r.params keyKey) value = some item ∧
      let t := queuePut (connectionQueueCallbackWait_ r.answer) r.ok s.next
        (evhttpFindHeader r.params keyKey) value f.mq.q (s.heap, s'.net.emit (.put item))
      Replies r .put none { s' with queues := f.set t.1, heap := t.2.1.1, net := t.2.1.2 }
        (encodesPayload r.ok none) (connectionHttpCallbackPut dm r s) := by
  unfold connectionHttpCallbackPut putReached
  rcases found_cases dm r .put s with ⟨hf, s', hreads, hq⟩ | ⟨f, s', hf, hreads, hq⟩
  · rw [hq, hf]
    exact .inl ⟨rfl, s', hreads, .lookup ..⟩
  · have hvalue := (hreads.findParam r keyKey).findParam r valueKey
    have hk : findParam r keyKey s' =
      (evhttpFindHeader r.params keyKey, (findParam r keyKey s').2) := rfl
    have hv : findParam r valueKey (findParam r keyKey s').2 = (evhttpFindHeader r.params valueKey,
      (findParam r valueKey (findParam r keyKey s').2).2) := rfl
    rw [hq, hf]
    dsimp only
    rw [hk]
    dsimp only
    rw [hv]
    generalize (findParam r valueKey (findParam r keyKey s').2).2 = s₀ at hvalue ⊢
    dsimp only
    have hset : f.set f.mq.q = s₀.queues := (reached_found hf).symm.trans hvalue.emits.queues.symm
    cases evhttpFindHeader r.params valueKey with
    | none => exact .inl ⟨rfl, s₀, hvalue, .error _ _ _ (by decide)⟩
    | some value =>
      have hread := hvalue
      obtain ⟨k, rfl⟩ := hread
      dsimp only
      cases hi : queuePutItem r.ok s.next f.mq.q.addr (evhttpFindHeader r.params keyKey) value with
      | none =>
        rw [queuePut_failed _ hi]
        dsimp only at hset ⊢
        rw [if_pos (by decide), hset]
        exact .inl ⟨rfl, _, hvalue, .error _ _ _ (by decide)⟩
      | some item =>
        refine .inr ⟨f, item, value, _, rfl, hvalue, hi, ?_⟩
        have hcode (m) : ¬ (queuePut (connectionQueueCallbackWait_ r.answer) r.ok s.next
            (evhttpFindHeader r.params keyKey) value f.mq.q m).2.2 < 0 := by
          rcases queuePut_cases (connectionQueueCallbackWait_ r.answer) hi m with
            ⟨-, h⟩ | ⟨pre, cb, post, -, h⟩
          · simp [h]
          · simp [h]
        dsimp only
        rw [if_neg (hcode _)]
        exact .payload

end DQ.Proof.Server
