import Disqueue.Proof.Server.Http
import Disqueue.Spec.Replies

/-!
# What is added to the log

Every function of a connection adds events of that connection (`Grows`), and
a handler adds one reply: a failure, or the payload if it can be encoded
(`Logs`, `logs_error`, `logs_payload`).
-/

namespace DQ.Proof.Server

open DQ.Model DQ.Spec DQ.Proof.Queue

/-! ## Events of a connection -/

/-- The events added to the log meet `p`. -/
def Grows (p : Event → Prop) (n n' : Net) : Prop := ∃ es, n'.log = n.log ++ es ∧ ∀ e ∈ es, p e

variable {p : Event → Prop} {n n' n'' : Net}

theorem grows_of_log (h : n'.log = n.log) : Grows p n n' :=
  ⟨[], by rw [h, List.append_nil], List.forall_mem_nil _⟩

theorem Grows.refl (n : Net) : Grows p n n := grows_of_log rfl

theorem Grows.trans (h : Grows p n n') (h' : Grows p n' n'') : Grows p n n'' := by
  obtain ⟨es, hl, hp⟩ := h
  obtain ⟨es', hl', hp'⟩ := h'
  refine ⟨es ++ es', by rw [hl', hl, List.append_assoc], fun e he => ?_⟩
  rcases List.mem_append.mp he with he | he
  · exact hp e he
  · exact hp' e he

theorem Grows.mono {p' : Event → Prop} (h : Grows p n n') (hp : ∀ e, p e → p' e) :
    Grows p' n n' := by
  obtain ⟨es, hl, hes⟩ := h
  exact ⟨es, hl, fun e he => hp e (hes e he)⟩

theorem Grows.wants (h : Grows p n n') (ws : List Want) : Grows p n { n' with wants := ws } := h

theorem grows_emit {e : Event} (he : p e) (n : Net) : Grows p n (n.emit e) :=
  ⟨[e], rfl, fun _ hm => List.mem_singleton.mp hm ▸ he⟩

/-- What is sent on a connection, and the report of its end. -/
inductive OfConn (c : Nat) : Event → Prop
  | message (b sent) : OfConn c (.message c b sent)
  | closed : OfConn c (.closed c)
  | errored : OfConn c (.errored c)
  | freed : OfConn c (.freedConnection c)

variable (e : Wslay) (c : Nat)

theorem grows_close (n : Net) : Grows (OfConn c) n (evwsClose_ c n) := grows_emit .closed _

theorem grows_write (n : Net) : Grows (OfConn c) n (evwsConnectionWrite_ e c n) := by
  unfold evwsConnectionWrite_
  split
  · exact grows_close c n
  · split
    · exact grows_of_log rfl
    · exact Grows.refl n

theorem grows_send (b : Body) (n : Net) : Grows (OfConn c) n (evwsConnectionSend_ e c b n) := by
  unfold evwsConnectionSend_
  split
  · exact grows_emit .freed n
  · split
    · exact Grows.refl n
    · split
      · exact grows_close c n
      · exact (grows_emit (.message b _) n).trans (grows_write e c _)

theorem grows_wsError (e : Sending) (message : Failure) (n : Net) :
    Grows (OfConn c) n (connectionWsError_ e c message n) := grows_send e.wslay c _ n

/-- The callback of a want sends on the want's connection only. -/
theorem grows_callback (e : Sending) (want : Nat) (i : QueueItem) (m : Heap × Net) :
    Grows (fun ev => ev = .freedWant want ∨ ∃ w ∈ m.2.wants, w.id = want ∧ OfConn w.client ev) m.2
      (connectionQueueCallbackWait_ e want i m).2 := by
  rcases callback_cases e want i m with ⟨-, h⟩ | ⟨w, n, hf, hn, h⟩
  · rw [h]
    exact grows_emit (.inl rfl) m.2
  · rw [h]
    refine Grows.wants ?_ _
    obtain ⟨hm, hid⟩ := found_want hf
    rcases hn with rfl | ⟨b, rfl⟩
    · exact Grows.refl _
    · exact (grows_send e.wslay w.client b m.2).mono fun ev hev => .inr ⟨w, hm, hid, hev⟩

section
variable (hw : ∀ w, p (.freedWant w)) (hc : ∀ c ev, OfConn c ev → p ev)
include hw hc

/-- What a want's callback adds is of connections, or the use of a freed want. -/
theorem grows_called (e : Sending) (want : Nat) (i : QueueItem) (m : Heap × Net) :
    Grows p m.2 (connectionQueueCallbackWait_ e want i m).2 := by
  refine (grows_callback e want i m).mono fun ev hev => ?_
  rcases hev with rfl | ⟨w, -, -, hev⟩
  · exact hw _
  · exact hc _ _ hev

/-- So is what `queue_put` adds. -/
theorem grows_queuePut (e : Sending) (ok : Outcome) (id : Nat) (key : Option CStr) (value : CStr)
    (q : Queue Nat) (m : Heap × Net) :
    Grows p m.2 (queuePut (connectionQueueCallbackWait_ e) ok id key value q m).2.1.2 := by
  cases hi : queuePutItem ok id q.addr key value with
  | none =>
    rw [queuePut_failed _ hi]
    exact Grows.refl _
  | some item =>
    rcases queuePut_cases (connectionQueueCallbackWait_ e) hi m with ⟨-, h⟩ | ⟨pre, cb, post, -, h⟩
    · rw [h]
      exact Grows.refl _
    · rw [h]
      exact grows_called hw hc e cb.arg item (m.1.calloc id, m.2)

/-- And what `queue_wait` adds. -/
theorem grows_queueWait (e : Sending) (ok : Outcome) (key : Option CStr) (arg : Nat) (q : Queue Nat)
    (m : Heap × Net) :
    Grows p m.2 (queueWait (connectionQueueCallbackWait_ e) ok key arg q m).2.1.2 := by
  rcases queueWait_cases (connectionQueueCallbackWait_ e) ok key arg q m with
    ⟨i, rest, h, -, hq⟩ | ⟨h, -, -, hq⟩ | ⟨h, -, -, hq⟩
  · rw [hq]
    exact grows_called hw hc e arg i (h, m.2)
  · rw [hq]
    exact Grows.refl _
  · rw [hq]
    exact Grows.refl _

end

/-! ## Replies -/

/-- What `f` says of the events added to the log. -/
def Adds {τ : Type} (f : Event → Option τ) (n : Net) (xs : List τ) (n' : Net) : Prop :=
  ∃ es, n'.log = n.log ++ es ∧ es.filterMap f = xs

/-- What is added to the log has these replies. -/
abbrev Logs : Net → List (Nat × Body) → Net → Prop := Adds replyOf

section
variable {τ : Type} {f : Event → Option τ} {xs xs' : List τ}

theorem Grows.adds (h : Grows (fun ev => f ev = none) n n') : Adds f n [] n' := by
  obtain ⟨es, hl, hes⟩ := h
  exact ⟨es, hl, List.filterMap_eq_nil_iff.mpr hes⟩

theorem Adds.refl (n : Net) : Adds f n [] n := (Grows.refl n).adds

theorem Adds.trans (h : Adds f n xs n') (h' : Adds f n' xs' n'') : Adds f n (xs ++ xs') n'' := by
  obtain ⟨es, hl, rfl⟩ := h
  obtain ⟨es', hl', rfl⟩ := h'
  exact ⟨es ++ es', by rw [hl', hl, List.append_assoc], List.filterMap_append⟩

theorem adds_quiet {e : Event} (he : f e = none) (n : Net) : Adds f n [] (n.emit e) :=
  (grows_emit he n).adds

/-- What `queue_put` adds is of connections, or the use of a freed want. -/
theorem adds_queuePut (hw : ∀ w, f (.freedWant w) = none)
    (hc : ∀ c ev, OfConn c ev → f ev = none) (e : Sending) (ok : Outcome) (id : Nat)
    (key : Option CStr) (value : CStr) (q : Queue Nat) (m : Heap × Net) :
    Adds f m.2 [] (queuePut (connectionQueueCallbackWait_ e) ok id key value q m).2.1.2 :=
  (grows_queuePut hw hc e ok id key value q m).adds

end

variable {rs rs' : List (Nat × Body)}

/-- The replies to a request are those that its handler adds. -/
theorem repliesTo_eq {dm : DataModel} {r : Request} {s : Server}
    (h : Logs s.net rs (connectionHttpCallback dm r s).net) : repliesTo dm r s = rs := by
  obtain ⟨es, hl, rfl⟩ := h
  have hstep : (s.step dm (.http r)).net.log = s.net.log ++ es := hl
  rw [repliesTo, added, hstep, List.drop_left]

section
variable (r : Request) (s : Server)

/-- The reply with an object, or the fallback. -/
def sent (code : Nat) (object : Option Body) : Nat × Body :=
  match bodyText r.ok object with
  | some b => (code, b)
  | none => (500, protocolFailureFallback)

theorem logs_json (e : Endpoint) (params : Bool) (code : Nat) (object : Option Body) :
    Logs s.net [sent r code object] (connectionHttpJson_ r e params code object s).net := by
  have clear : ∀ {s' : Server} {rs}, Logs s.net rs s'.net →
      Logs s.net rs (if params then s'.emit (.params s'.next .clear) else s').net := by
    intro s' rs h
    split
    · have hclear := h.trans (adds_quiet (e := .params s'.next .clear) rfl s'.net)
      rwa [List.append_nil] at hclear
    · exact h
  unfold connectionHttpJson_ sent
  cases bodyText r.ok object with
  | none => exact clear ⟨[.reply s.next e 500 protocolFailureFallback], rfl, rfl⟩
  | some b => exact clear ⟨[.reply s.next e code b], rfl, rfl⟩

/-- The reply of a failure. -/
def failureReply (code : Nat) (message : Failure) : Nat × Body :=
  sent r (if code = 0 then 500 else code) (protocolCreateFailure r.ok message)

theorem logs_error (e : Endpoint) (params : Bool) (code : Nat) (message : Failure) :
    Logs s.net [failureReply r code message] (connectionHttpError_ r e params code message s).net :=
  logs_json r s e params _ _

theorem failureReply_success (code : Nat) (message : Failure) :
    (failureReply r code message).2.success = false := by
  unfold failureReply sent bodyText
  split
  · rename_i b hb
    split at hb
    · exact protocolCreateFailure_some hb
    · cases hb
  · rfl

/-- With memory, the code is the one given. -/
theorem failureReply_code (hok : ∀ c, r.ok c = true) {code : Nat} (hcode : code ≠ 0)
    (message : Failure) : (failureReply r code message).1 = code := by
  simp [failureReply, sent, bodyText, protocolCreateFailure, protocolCreateBase, hok, hcode]

/-- The reply of a payload: a success exactly if it can be encoded. -/
theorem logs_payload (e : Endpoint) (payload : Option Payload) :
    ∃ p, Logs s.net [p] (connectionHttpPayload_ r e payload s).net ∧
      p.2.success = encodesPayload r.ok payload ∧ (encodesPayload r.ok payload = true → p.1 = 200) := by
  unfold connectionHttpPayload_ encodesPayload
  cases hs : protocolCreateSuccess r.ok payload with
  | none => exact ⟨_, logs_error r s e true 0 .encodePayload, failureReply_success r 0 _, nofun⟩
  | some b =>
    obtain rfl := protocolCreateBase_some hs
    refine ⟨_, logs_json r s e true 200 _, ?_⟩
    cases ht : r.ok .text <;> simp [sent, bodyText, ht, protocolFailureFallback]

/-- What the lookup of a queue replies if there is none. -/
def lookupFailure (createNew : Bool) : Nat × Body :=
  if readsParams r then
    if (evhttpFindHeader r.params nameKey).any (·.length != 36) then failureReply r 400 .invalidQueueId
    else if createNew then failureReply r 0 .createQueue
    else failureReply r 404 .noQueue
  else failureReply r 0 .readBody

theorem lookupFailure_eq (createNew : Bool) : lookupFailure r createNew =
    failureReply r (lookupError r createNew).1 (lookupError r createNew).2 := by
  unfold lookupFailure lookupError readsParams
  split
  · split
    · rfl
    · split <;> rfl
  · rfl

end

variable {r : Request} {s s' : Server}

theorem replyOf_ofConn (c : Nat) (ev : Event) (h : OfConn c ev) : replyOf ev = none := by
  cases h <;> rfl

theorem Reads.logs (h : Reads s s') : Logs s.net [] s'.net := by
  obtain ⟨k, rfl⟩ := h
  exact ⟨List.replicate k (.params s.next .read), rfl, by simp [replyOf]⟩

/-- The reply of a handler, and its code if it is a success. -/
theorem Replies.logs {e : Endpoint} {payload : Option Payload} {ok : Bool}
    (h : Replies r e payload s ok s') :
    ∃ p, Logs s.net [p] s'.net ∧ p.2.success = ok ∧ (ok = true → p.1 = 200) := by
  cases h with
  | error params code message _ =>
    exact ⟨_, logs_error r s e params code message, failureReply_success r code message, nofun⟩
  | payload => exact logs_payload r s e payload

/-- Freeing a queue discards its items. -/
theorem adds_free {τ : Type} {f : Event → Option τ} (hf : ∀ i, f (.discard i) = none) (g : Found)
    (s : Server) : Adds f s.net [] (managerQueueFree g s).net :=
  ⟨g.mq.q.items.map .discard, rfl, by simp [hf]⟩

end DQ.Proof.Server
