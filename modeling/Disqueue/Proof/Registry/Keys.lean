import Disqueue.Proof.Server.Steps
import Disqueue.Spec.Registry

/-!
# The keys of the registry

The id and the address of each registered queue (`keys`). Only two handlers
change them: `POST /queues` adds a queue at the end, and `DELETE /queue`
removes one (`step_keys`).
-/

namespace DQ.Proof.Registry

open DQ.Model DQ.Spec DQ.Proof.Queue DQ.Proof.Server

/-- The ids and addresses of the queues. -/
def keys (qs : List ManagerQueue) : List (CStr × Nat) := qs.map fun m => (m.id, m.q.addr)

theorem keys_set {f : Found} {q : Queue Nat} (h : q.addr = f.mq.q.addr) :
    keys (f.set q) = keys f.registry := by
  simp only [keys, Found.set, Found.registry, List.map_append, List.map_cons, h]

/-! ## Queues keep their addresses -/

variable {α σ : Type} {q : Queue α}

theorem queuePut_addr (call : α → QueueItem → Heap × σ → Heap × σ) (ok : Outcome) (id : Nat)
    (key : Option CStr) (value : CStr) (q : Queue α) (m : Heap × σ) :
    (queuePut call ok id key value q m).1.addr = q.addr := by
  cases hi : queuePutItem ok id q.addr key value with
  | none => rw [queuePut_failed call hi]
  | some item =>
    rcases queuePut_cases call hi m with ⟨-, h⟩ | ⟨pre, cb, post, -, h⟩
    · rw [h]
      rfl
    · rw [h]
      exact queueCallbackFree_addr ..

theorem queueWait_addr (call : α → QueueItem → Heap × σ → Heap × σ) (ok : Outcome)
    (key : Option CStr) (arg : α) (q : Queue α) (m : Heap × σ) :
    (queueWait call ok key arg q m).1.addr = q.addr := by
  rcases queueWait_cases call ok key arg q m with
    ⟨i, rest, h, -, hw⟩ | ⟨h, -, -, hw⟩ | ⟨h, -, -, hw⟩
  · rw [hw]
    rfl
  · rw [hw]
    rfl
  · rw [hw]

/-! ## Requests for registered queues -/

variable {dm : DataModel} {r : Request} {s : Server}

theorem keys_emits {s s' : Server} {es : List Event} (h : Emits s es s') :
    keys s'.queues = keys s.queues := congrArg keys h.queues

theorem keys_reads {s s' : Server} (h : Reads s s') : keys s'.queues = keys s.queues :=
  keys_emits h.emits

theorem take_keys : keys (connectionHttpCallbackTake dm r s).queues = keys s.queues := by
  rcases take_cases dm r s with ⟨s', h, p, hreads, -, hr⟩ | ⟨f, s', i, rest, h, s₁, hf, -, -, hr, ht⟩
  · have hkeys := keys_reads hreads
    exact (keys_emits hr.emits).trans hkeys
  · rw [ht, reached_found hf]
    exact (keys_emits hr.emits).trans (keys_set rfl)

theorem peek_keys : keys (connectionHttpCallbackPeek dm r s).queues = keys s.queues := by
  rcases peek_cases dm r s with ⟨s', h, p, hreads, -, hr⟩ | ⟨f, s', i, h, s₁, ok, -, hreads, -, hr, hp⟩
  · have hkeys := keys_reads hreads
    exact (keys_emits hr.emits).trans hkeys
  · have hkeys := keys_reads hreads
    rw [hp]
    exact (keys_emits hr.emits).trans hkeys

theorem put_keys : keys (connectionHttpCallbackPut dm r s).queues = keys s.queues := by
  rcases put_cases dm r s with ⟨-, s', hreads, hr⟩ | ⟨f, item, value, s', hf, -, -, hr⟩
  · exact (keys_emits hr.emits).trans (keys_reads hreads)
  · rw [reached_found (putReached_reached hf)]
    exact (keys_emits hr.emits).trans (keys_set (queuePut_addr ..))

/-! ## Messages -/

theorem callbackWait_keys (m : Message) (c : Nat) (s : Server) :
    keys (connectionWsCallbackWait dm m c s).queues = keys s.queues := by
  rcases callbackWait_cases dm m c s with ⟨-, message, h⟩ | ⟨w, f, key, -, hf, -, -, -, h⟩
  · rw [h]
  · rw [h, hf]
    exact keys_set (queueWait_addr ..)

theorem message_keys (c : Nat) (s : Server) (m : Message) :
    keys (evwsWslayOnMsgCallback_ dm c s m).queues = keys s.queues := by
  unfold evwsWslayOnMsgCallback_
  dsimp only
  split
  · rfl
  · split
    · split
      · exact callbackWait_keys m c _
      · rfl
    · rfl

theorem messages_keys (c : Nat) (ms : List Message) (s : Server) :
    keys (run (evwsWslayOnMsgCallback_ dm c) s ms).queues = keys s.queues :=
  run_rel (R := fun s s' : Server => keys s'.queues = keys s.queues) (fun _ => rfl)
    (fun h h' => Eq.trans h' h) (message_keys c) s ms

/-! ## Making and deleting queues -/

theorem new_keys : keys (connectionHttpCallbackNew_ dm r s).queues =
    match requested dm r true s with
    | none => keys s.queues
    | some f => keys (if r.ok .name then f.registry else f.free) := by
  rcases new_cases dm r s with ⟨hf, s', hreads, h⟩ | ⟨f, s', hf, -, h⟩
  · rw [hf]
    exact (keys_emits h.emits).trans (keys_reads hreads)
  · rw [hf]
    dsimp only
    split at h
    · rename_i hname
      rw [if_pos hname]
      exact keys_emits h.emits
    · rename_i hname
      rw [if_neg hname]
      exact keys_emits h.emits

theorem delete_keys : keys (connectionHttpCallbackDelete_ dm r s).queues =
    match requested dm r true s with
    | none => keys s.queues
    | some f => keys f.free := by
  rcases delete_cases dm r s with ⟨hf, s', hreads, h⟩ | ⟨f, s', hf, -, h⟩
  · rw [hf]
    exact (keys_emits h.emits).trans (keys_reads hreads)
  · rw [hf]
    exact keys_emits h.emits

/-- The keys after a request. -/
def httpKeys (dm : DataModel) (r : Request) (s : Server) : List (CStr × Nat) :=
  if mayMake r then
    match requested dm r true s with
    | none => keys s.queues
    | some f => keys (if r.path = .queues ∧ r.ok .name then f.registry else f.free)
  else keys s.queues

theorem http_keys : keys (connectionHttpCallback dm r s).queues = httpKeys dm r s := by
  have hmethod := keys_emits (emits_error (r := r) .method false 405 .methodNotSupported s)
  unfold connectionHttpCallback httpKeys mayMake
  cases hp : r.path with
  | queues =>
    dsimp only [connectionHttpCallbackQueues]
    cases hm : r.method with
    | get => exact keys_emits list_emits
    | post => simpa using new_keys
    | _ => exact hmethod
  | queue =>
    dsimp only [connectionHttpCallbackQueue]
    cases hm : r.method with
    | post => exact keys_emits info_emits
    | delete => simpa using delete_keys
    | _ => exact hmethod
  | take => exact take_keys
  | peek => exact peek_keys
  | put => exact put_keys

/-- A step changes the keys by a request for a new queue or to delete one. -/
theorem step_keys (dm : DataModel) (s : Server) (i : Input) :
    keys (s.step dm i).queues =
      match i with
      | .http r => httpKeys dm r s
      | _ => keys s.queues := by
  cases i with
  | http r => exact http_keys
  | opened => rfl
  | read c msgs recv e =>
    dsimp only [Server.step]
    split
    · exact messages_keys c msgs s
    · rfl
  | drained c =>
    dsimp only [Server.step]
    split <;> rfl
  | event c eof error e =>
    dsimp only [Server.step]
    split <;> rfl

/-! ## New keys -/

theorem isNew_registry {qs : List ManagerQueue} {f : Found} {addr : Nat} (h : IsNew qs f addr) :
    f.registry = qs ++ [f.mq] := by
  rw [Found.registry, h.pre, h.post]

theorem keys_free_sublist (f : Found) : (keys f.free).Sublist (keys f.registry) :=
  ((List.Sublist.refl f.pre).append (List.sublist_cons_self f.mq f.post)).map _

/-- A lookup adds at most one queue, at the next address. -/
theorem requested_keys {s : Server} {createNew : Bool} {f : Found}
    (hf : requested dm r createNew s = some f) :
    ∃ id, (keys f.registry).Sublist (keys s.queues ++ [(id, s.next)]) := by
  unfold requested at hf
  split at hf <;> [skip; cases hf]
  rcases managerQueueGet_some hf with hq | hnew
  · exact ⟨[], hq ▸ List.sublist_append_left _ _⟩
  · have hkeys : keys f.registry = keys s.queues ++ [(f.mq.id, s.next)] := by
      rw [isNew_registry hnew, keys, List.map_append, List.map_singleton, hnew.addr]
      rfl
    exact ⟨f.mq.id, hkeys ▸ List.Sublist.refl _⟩

/-- So does a step. -/
theorem step_keys_sublist (dm : DataModel) (s : Server) (i : Input) :
    ∃ id, (keys (s.step dm i).queues).Sublist (keys s.queues ++ [(id, s.next)]) := by
  have hsame : (keys s.queues).Sublist (keys s.queues ++ [([], s.next)]) :=
    List.sublist_append_left _ _
  rw [step_keys dm s i]
  cases i with
  | http r =>
    dsimp only [httpKeys]
    split <;> [skip; exact ⟨[], hsame⟩]
    cases hf : requested dm r true s with
    | none => exact ⟨[], hsame⟩
    | some f =>
      obtain ⟨id, hsub⟩ := requested_keys hf
      dsimp only
      split
      · exact ⟨id, hsub⟩
      · exact ⟨id, (keys_free_sublist f).trans hsub⟩
  | _ => exact ⟨[], hsame⟩

/-! ## Replies -/

/-- What is added to the log, and what the success replies in it say. -/
def Answers (s : Server) (p : Body → Prop) (s' : Server) : Prop :=
  ∃ es, s'.net.log = s.net.log ++ es ∧
    ∀ rid e code b, Event.reply rid e code b ∈ es → b.success = true → p b

variable {p : Body → Prop}

theorem Answers.trans {s s' s'' : Server} (h : Answers s p s') (h' : Answers s' p s'') :
    Answers s p s'' := by
  obtain ⟨es, hl, hp⟩ := h
  obtain ⟨es', hl', hp'⟩ := h'
  refine ⟨es ++ es', by rw [hl', hl, List.append_assoc], fun rid e code b hm => ?_⟩
  rcases List.mem_append.mp hm with hm | hm
  · exact hp rid e code b hm
  · exact hp' rid e code b hm

/-- Events that are not success replies. -/
theorem answers_quiet {s s' : Server} (es : List Event) (hl : s'.net.log = s.net.log ++ es)
    (he : ∀ rid e code b, .reply rid e code b ∈ es → b.success = false) : Answers s p s' :=
  ⟨es, hl, fun rid e code b hm hb => by rw [he rid e code b hm] at hb; cases hb⟩

theorem answers_json (e : Endpoint) (params : Bool) (code : Nat) (object : Option Body) (s : Server)
    (hp : ∀ b, bodyText r.ok object = some b → b.success = true → p b) :
    Answers s p (connectionHttpJson_ r e params code object s) := by
  have hclear : ∀ {s₁ : Server}, Answers s p s₁ →
      Answers s p (if params then s₁.emit (.params s₁.next .clear) else s₁) := by
    intro s₁ h
    split
    · refine h.trans (answers_quiet [.params s₁.next .clear] rfl fun rid e code b hm => ?_)
      cases List.mem_singleton.mp hm
    · exact h
  unfold connectionHttpJson_
  cases hb : bodyText r.ok object with
  | none =>
    refine hclear (answers_quiet [.reply s.next e 500 protocolFailureFallback] rfl
      fun rid e code b hm => ?_)
    cases List.mem_singleton.mp hm
    rfl
  | some b =>
    refine hclear ⟨[.reply s.next e code b], rfl, fun rid e code b' hm hs => ?_⟩
    cases List.mem_singleton.mp hm
    exact hp b hb hs

theorem answers_error (e : Endpoint) (params : Bool) (code : Nat) (message : Failure) (s : Server) :
    Answers s p (connectionHttpError_ r e params code message s) := by
  refine answers_json e params _ _ s fun b hb hs => ?_
  unfold bodyText at hb
  split at hb
  · rw [protocolCreateFailure_some hb] at hs
    cases hs
  · cases hb

theorem answers_payload (e : Endpoint) (payload : Option Payload) (s : Server)
    (hp : encodesPayload r.ok payload = true → p ⟨true, none, payload⟩) :
    Answers s p (connectionHttpPayload_ r e payload s) := by
  unfold connectionHttpPayload_
  unfold encodesPayload at hp
  cases hs : protocolCreateSuccess r.ok payload with
  | none => exact answers_error e true 0 .encodePayload s
  | some body =>
    obtain rfl := protocolCreateBase_some hs
    refine answers_json e true 200 _ s fun b hb _ => ?_
    unfold bodyText at hb
    split at hb
    · rename_i htext
      exact Option.some.inj hb ▸ hp (by simp [hs, htext])
    · cases hb

/-- The reply of a handler. -/
theorem answers_replies {s s' : Server} {e : Endpoint} {payload : Option Payload} {ok : Bool}
    (h : Replies r e payload s ok s') (hp : ok = true → p ⟨true, none, payload⟩) :
    Answers s p s' := by
  cases h with
  | error params code message => exact answers_error e params code message s
  | payload => exact answers_payload e payload s hp

theorem answers_reads {s s' : Server} (h : Reads s s') : Answers s p s' := by
  obtain ⟨k, rfl⟩ := h
  refine answers_quiet (List.replicate k (.params s.next .read)) rfl fun rid e code b hm => ?_
  cases List.eq_of_mem_replicate hm

/-- Freeing a queue discards its items. -/
theorem answers_free (f : Found) (s : Server) : Answers s p (managerQueueFree f s) := by
  refine answers_quiet (f.mq.q.items.map .discard) rfl fun rid e code b hm => ?_
  obtain ⟨i, -, hi⟩ := List.mem_map.mp hm
  cases hi

/-- A success reply to a request for a new queue says the id of the queue that
is reached or made. -/
theorem new_answers (dm : DataModel) (r : Request) (s : Server) : Answers s
    (fun b => ∃ f, requested dm r true s = some f ∧ r.ok .name = true ∧
      b.payload = some (.name f.mq.id)) (connectionHttpCallbackNew_ dm r s) := by
  rcases new_cases dm r s with ⟨-, s', hreads, h⟩ | ⟨f, s', hf, hreads, h⟩
  · exact (answers_reads hreads).trans (answers_replies h nofun)
  · refine (answers_reads hreads).trans ?_
    show Answers { s' with queues := f.registry } _ _
    split at h
    · rename_i hname
      exact answers_replies h fun _ => ⟨f, hf, hname, rfl⟩
    · exact (answers_free f _).trans (answers_replies h nofun)

/-- There is a success reply to a request to delete only if a queue is reached
or made. -/
theorem delete_answers (dm : DataModel) (r : Request) (s : Server) :
    Answers s (fun _ => ∃ f, requested dm r true s = some f)
    (connectionHttpCallbackDelete_ dm r s) := by
  rcases delete_cases dm r s with ⟨-, s', hreads, h⟩ | ⟨f, s', hf, hreads, h⟩
  · exact (answers_reads hreads).trans (answers_replies h nofun)
  · refine (answers_reads hreads).trans ?_
    show Answers { s' with
      queues := f.registry
      net.wants := managerQueueWantRemove f.mq.q.addr s'.net.wants } _ _
    exact (answers_free f _).trans (answers_replies h fun _ => ⟨f, hf⟩)

/-- The success replies that a request adds to the log. -/
theorem Answers.of_added {i : Input} (h : Answers s p (s.step dm i)) {rid : Nat} {e : Endpoint}
    {code : Nat} {b : Body} (hm : .reply rid e code b ∈ added dm s i) (hb : b.success = true) :
    p b := by
  obtain ⟨es, hl, hp⟩ := h
  rw [added, hl, List.drop_left] at hm
  exact hp rid e code b hm hb

end DQ.Proof.Registry
