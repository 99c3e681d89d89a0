import Disqueue.Proof.Server.Acts
import Disqueue.Spec.Handing

/-!
# What the connections' functions do

Closing, writing and sending anything but an answer is calm. Sending adds a
message to the trace if it is an answer, the connection is active and wslay
takes it (`trace_send`). A delivery frees the want, and answers it exactly
when the want answers (`connectionQueueCallbackWait_delivered`).
-/

namespace DQ.Proof.Server

open DQ.Model DQ.Spec

theorem calm_emit (n : Net) {e : Event} (he : notable e = false) : Calm n (n.emit e) :=
  ⟨eased_refl _, fun _ => rfl, by simp [trace_emit, he]⟩

theorem eased_close (c : Nat) (ws : List Want) :
    List.Forall₂ Eased ws (managerQueueWantClose c ws) := by
  refine List.forall₂_map_right_iff.mpr (List.forall₂_same.mpr fun w _ => ?_)
  split
  · exact .inr rfl
  · exact .inl rfl

theorem eased_remove (a : Nat) (ws : List Want) :
    List.Forall₂ Eased ws (managerQueueWantRemove a ws) := by
  refine List.forall₂_map_right_iff.mpr (List.forall₂_same.mpr fun w _ => ?_)
  split
  · exact .inr rfl
  · exact .inl rfl

theorem calm_close (c : Nat) (n : Net) : Calm n (connectionWsCallbackClose c n) :=
  Calm.trans (b := { n with wants := managerQueueWantClose c n.wants })
    ⟨eased_close c n.wants, fun _ => rfl, rfl⟩ (calm_emit _ rfl)

theorem calm_error (c : Nat) (n : Net) : Calm n (connectionWsCallbackError c n) :=
  Calm.trans (b := { n with wants := managerQueueWantClose c n.wants })
    ⟨eased_close c n.wants, fun _ => rfl, rfl⟩ (calm_emit _ rfl)

/-- Changing a connection without making or freeing it. -/
theorem calm_setConn (c : Nat) (x : Connection) (n : Net) (hx : x.alive = (n.conn c).alive) :
    Calm n (n.setConn c x) := by
  refine ⟨eased_refl _, fun c' => ?_, rfl⟩
  by_cases h : c' = c
  · subst h
    simpa [Net.setConn] using hx
  · simp [Net.setConn, h]

theorem calm_evwsClose (c : Nat) (n : Net) : Calm n (evwsClose_ c n) :=
  (calm_setConn c { n.conn c with active := false } n rfl).trans (calm_close c _)

theorem calm_write (e : Wslay) (c : Nat) (n : Net) : Calm n (evwsConnectionWrite_ e c n) := by
  unfold evwsConnectionWrite_
  split
  · exact calm_evwsClose c n
  · split
    · exact calm_setConn c _ n rfl
    · exact Calm.refl n

/-- Sending a message. -/
theorem send_eq (e : Wslay) (c : Nat) (b : Body) (n : Net) :
    List.Forall₂ Eased n.wants (evwsConnectionSend_ e c b n).wants ∧
    (∀ c', ((evwsConnectionSend_ e c b n).conn c').alive = (n.conn c').alive) ∧
    trace (evwsConnectionSend_ e c b n) =
      trace n ++ if (n.conn c).alive && (n.conn c).active && !(e.queueMsg < 0) && b.success then
        [.message c b !e.sendFails] else [] := by
  unfold evwsConnectionSend_
  split
  · rename_i h
    obtain ⟨h1, h2, h3⟩ := calm_emit n (e := .freedConnection c) rfl
    simp only [Bool.not_eq_true'] at h
    exact ⟨h1, h2, by simpa [h] using h3⟩
  · split
    · rename_i h1 h
      simp only [Bool.not_eq_true'] at h
      exact ⟨eased_refl _, fun _ => rfl, by simp [h]⟩
    · split
      · rename_i h1 h2 h
        obtain ⟨h1, h2, h3⟩ := calm_evwsClose c n
        exact ⟨h1, h2, by simpa [h] using h3⟩
      · rename_i h1 h2 h3
        obtain ⟨hw, ha, ht⟩ := calm_write e c (n.emit (.message c b !e.sendFails))
        refine ⟨hw, ha, ?_⟩
        rw [ht, trace_emit]
        simp only [Bool.not_eq_true', Bool.not_eq_false] at h1 h2
        simp only [h1, h2, h3, decide_false, Bool.not_false, Bool.and_self, Bool.true_and, notable]
        rfl

theorem calm_send (e : Wslay) (c : Nat) {b : Body} (hb : b.success = false) (n : Net) :
    Calm n (evwsConnectionSend_ e c b n) := by
  obtain ⟨h1, h2, h3⟩ := send_eq e c b n
  exact ⟨h1, h2, by simpa [hb] using h3⟩

/-! ## Bodies -/

theorem protocolCreateBase_some {ok : BaseCall → Bool} {success : Bool} {message : Option Failure}
    {payload : Option Payload} {b : Body}
    (h : protocolCreateBase ok success message payload = some b) :
    b = ⟨success, message, payload⟩ := by
  unfold protocolCreateBase at h
  iterate 6 (split at h <;> [cases h; skip])
  exact (Option.some.inj h).symm

theorem protocolCreateFailure_some {ok : Outcome} {message : Failure} {b : Body}
    (h : protocolCreateFailure ok message = some b) : b.success = false := by
  rw [protocolCreateBase_some h]

/-- What is sent for a failure is a failure. -/
theorem failure_text (ok : Outcome) (message : Failure) :
    ((bodyText ok (protocolCreateFailure ok message)).getD protocolFailureFallback).success
      = false := by
  unfold bodyText
  split
  · cases h : protocolCreateFailure ok message with
    | none => rfl
    | some b => exact protocolCreateFailure_some h
  · rfl

theorem calm_wsError (e : Sending) (c : Nat) (message : Failure) (n : Net) :
    Calm n (connectionWsError_ e c message n) :=
  calm_send e.wslay c (failure_text e.ok message) n

/-- What is sent for a payload: the payload if it is encoded, else a
failure. -/
theorem payload_text (ok : Outcome) (payload : Payload) :
    let b := (bodyText ok (payloadBody ok (some payload))).getD protocolFailureFallback
    if (protocolCreateSuccess ok (some payload)).isSome && ok .text then
      b = ⟨true, none, some payload⟩
    else b.success = false := by
  unfold bodyText payloadBody
  cases hs : protocolCreateSuccess ok (some payload) with
  | none =>
    simp only [Option.isSome_none, Bool.false_and, Bool.false_eq_true, if_false]
    exact failure_text ok .encodePayload
  | some b =>
    cases ht : ok .text with
    | true => simpa using protocolCreateBase_some hs
    | false => rfl

/-! ## Deliveries -/

theorem answers_of_find {e : Sending} {n : Net} {want : Nat} {i : QueueItem} {w : Want}
    (hw : n.wants.find? (·.id == want) = some w) : answers e n want i = wantAnswers e n w i := by
  simp only [answers, hw]

/-- The callback of a want that is there sends at most one message, on the
want's connection, and frees the want. -/
theorem callback_cases (e : Sending) (want : Nat) (i : QueueItem) (m : Heap × Net) :
    (m.2.wants.find? (·.id == want) = none ∧
      (connectionQueueCallbackWait_ e want i m).2 = m.2.emit (.freedWant want)) ∨
    ∃ w n, m.2.wants.find? (·.id == want) = some w ∧
      (n = m.2 ∨ ∃ b, n = evwsConnectionSend_ e.wslay w.client b m.2) ∧
      (connectionQueueCallbackWait_ e want i m).2 =
        { n with wants := managerQueueWantFree want n.wants } := by
  unfold connectionQueueCallbackWait_
  cases m.2.wants.find? (·.id == want) with
  | none => exact .inl ⟨rfl, rfl⟩
  | some w =>
    refine .inr ⟨w, ?_⟩
    dsimp only
    split
    · exact ⟨m.2, rfl, .inl rfl, rfl⟩
    split
    · exact ⟨_, rfl, .inr ⟨_, rfl⟩, rfl⟩
    split
    · exact ⟨_, rfl, .inr ⟨_, rfl⟩, rfl⟩
    split
    · exact ⟨_, rfl, .inr ⟨_, rfl⟩, rfl⟩
    · exact ⟨_, rfl, .inr ⟨_, rfl⟩, rfl⟩

/-- The want that a callback finds. -/
theorem found_want {n : Net} {want : Nat} {w : Want}
    (hw : n.wants.find? (·.id == want) = some w) : w ∈ n.wants ∧ w.id = want := by
  have hid : (w.id == want) = true := List.find?_some (p := fun w : Want => w.id == want) hw
  exact ⟨List.mem_of_find?_eq_some hw, beq_iff_eq.mp hid⟩

/-- Freeing the want after something calm. -/
theorem Calm.delivered {n n' : Net} (h : Calm n n') (want : Nat) (i : QueueItem) :
    Delivered n want i false { n' with wants := managerQueueWantFree want n'.wants } :=
  ⟨eased_free h.wants want, h.alive, .inl ⟨h.trace, rfl⟩⟩

theorem payload_eq (e : Sending) (c : Nat) (p : Payload) (n : Net) :
    List.Forall₂ Eased n.wants (connectionWsPayload_ e c p n).wants ∧
    (∀ c', ((connectionWsPayload_ e c p n).conn c').alive = (n.conn c').alive) ∧
    trace (connectionWsPayload_ e c p n) =
      trace n ++ if (n.conn c).alive && (n.conn c).active && !(e.wslay.queueMsg < 0) &&
          ((protocolCreateSuccess e.ok (some p)).isSome && e.ok .text) then
        [.message c ⟨true, none, some p⟩ !e.wslay.sendFails] else [] := by
  have hb := payload_text e.ok p
  have hs := send_eq e.wslay c
    ((bodyText e.ok (payloadBody e.ok (some p))).getD protocolFailureFallback) n
  refine ⟨hs.1, hs.2.1, hs.2.2.trans ?_⟩
  dsimp only at hb
  split at hb
  · rename_i h
    rw [hb, h]
  · rename_i h
    rw [hb, Bool.not_eq_true _ |>.mp h]
    simp only [Bool.and_false, Bool.false_eq_true, if_false]

/-- A want whose answer cannot be encoded is not answered. -/
theorem wantAnswers_unencoded {e : Sending} {w : Want} {i : QueueItem}
    (h : encodesAnswer e.ok (.answer w.id w.identifier i) i = false) (n : Net) :
    wantAnswers e n w i = false := by
  rw [wantAnswers, h, Bool.and_false, Bool.false_and]

/-- The callback frees the item and the want, and answers the want exactly
when it can. -/
theorem connectionQueueCallbackWait_delivered (e : Sending) {want : Nat} {i : QueueItem} {h : Heap}
    (hl : (h.cell i.id).released = 0) {n : Net} (hw : ∃ w ∈ n.wants, w.id = want) :
    ∃ n', connectionQueueCallbackWait_ e want i (h, n) = (queueItemFree h i.id, n') ∧
      Delivered n want i (answers e n want i) n' := by
  obtain ⟨w, hf⟩ : ∃ w, n.wants.find? (·.id == want) = some w := by
    obtain ⟨w, hm, hi⟩ := hw
    exact Option.isSome_iff_exists.mp (List.find?_isSome.mpr ⟨w, hm, beq_iff_eq.mpr hi⟩)
  obtain ⟨hm, hid⟩ := found_want hf
  rw [answers_of_find hf]
  have calm : ∀ {n'}, Calm n n' → wantAnswers e n w i = false →
      Delivered n want i (wantAnswers e n w i)
        { n' with wants := managerQueueWantFree want n'.wants } := by
    intro n' hn ha
    rw [ha]
    exact hn.delivered want i
  simp only [connectionQueueCallbackWait_, hf, read_live hl]
  by_cases h1 : w.cancelled = true
  · rw [if_pos h1]
    exact ⟨_, rfl, calm (Calm.refl n) (by simp [wantAnswers, h1])⟩
  rw [if_neg h1]
  by_cases h2 : (!e.ok .response) = true
  · rw [if_pos h2]
    refine ⟨_, rfl, calm (calm_wsError e w.client _ n) (wantAnswers_unencoded ?_ n)⟩
    simp only [encodesAnswer, Bool.not_eq_true' _ |>.mp h2, Bool.false_and]
  rw [if_neg h2]
  by_cases h3 : (!e.ok .identifier || !e.ok .addIdentifier) = true
  · rw [if_pos h3]
    refine ⟨_, rfl, calm (calm_wsError e w.client _ n) (wantAnswers_unencoded ?_ n)⟩
    rcases Bool.or_eq_true _ _ |>.mp h3 with h | h <;>
      simp only [encodesAnswer, Bool.not_eq_true' _ |>.mp h, Bool.and_false, Bool.false_and]
  rw [if_neg h3]
  by_cases h4 : (!protocolEncodeItem e.ok i || !e.ok .addItem) = true
  · rw [if_pos h4]
    refine ⟨_, rfl, calm (calm_wsError e w.client _ n) (wantAnswers_unencoded ?_ n)⟩
    rcases Bool.or_eq_true _ _ |>.mp h4 with h | h <;>
      simp only [encodesAnswer, Bool.not_eq_true' _ |>.mp h, Bool.and_false, Bool.false_and]
  rw [if_neg h4]
  obtain ⟨hpw, hpa, hpt⟩ := payload_eq e w.client (.answer w.id w.identifier i) n
  refine ⟨_, rfl, ⟨eased_free hpw want, hpa, ?_⟩⟩
  simp only [Bool.not_eq_true, Bool.or_eq_false_iff, Bool.not_eq_false'] at h1 h2 h3 h4
  have ha : wantAnswers e n w i =
      (((n.conn w.client).alive && (n.conn w.client).active && !(e.wslay.queueMsg < 0) &&
        ((protocolCreateSuccess e.ok (some (.answer w.id w.identifier i))).isSome && e.ok .text))
        && !e.wslay.sendFails) := by
    simp only [wantAnswers, encodesAnswer, wslaySends, h1, h2, h3, h4, Bool.not_false,
      Bool.true_and]
    ac_rfl
  rw [ha]
  split at hpt
  · rename_i h
    rw [h, Bool.true_and]
    exact .inr ⟨w, hm, hid, h1, hpt⟩
  · rename_i h
    rw [Bool.not_eq_true _ |>.mp h, Bool.false_and]
    exact .inl ⟨hpt.trans (List.append_nil _), rfl⟩

end DQ.Proof.Server
