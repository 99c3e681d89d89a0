import Disqueue.Proof.Server.Hand

/-!
# Replying

Reading the parameters of a request and replying to it changes nothing but the
log: the notable events are the success replies of takes and puts (`Emits`).
-/

namespace DQ.Proof.Server

open DQ.Model DQ.Spec

/-- From `s` to `s'` nothing changes but the log, and the notable events
added to it are `es`. -/
structure Emits (s : Server) (es : List Event) (s' : Server) : Prop where
  queues : s'.queues = s.queues
  heap : s'.heap = s.heap
  next : s'.next = s.next
  wants : s'.net.wants = s.net.wants
  conn : s'.net.conn = s.net.conn
  trace : trace s'.net = trace s.net ++ es

theorem Emits.refl (s : Server) : Emits s [] s :=
  ⟨rfl, rfl, rfl, rfl, rfl, (List.append_nil _).symm⟩

theorem Emits.trans {s t u : Server} {es es' : List Event} (h : Emits s es t) (h' : Emits t es' u) :
    Emits s (es ++ es') u :=
  ⟨h'.queues.trans h.queues, h'.heap.trans h.heap, h'.next.trans h.next, h'.wants.trans h.wants,
    h'.conn.trans h.conn, by rw [h'.trace, h.trace, List.append_assoc]⟩

theorem emits_emit (s : Server) (e : Event) :
    Emits s (if notable e then [e] else []) (s.emit e) :=
  ⟨rfl, rfl, rfl, rfl, rfl, trace_emit s.net e⟩

theorem emits_quiet (s : Server) {e : Event} (he : notable e = false) : Emits s [] (s.emit e) := by
  simpa [he] using emits_emit s e

theorem Emits.calm {s s' : Server} (h : Emits s [] s') : Calm s.net s'.net :=
  ⟨h.wants ▸ eased_refl _, fun c => by rw [h.conn], by simpa using h.trace⟩

theorem Emits.stored {s s' : Server} {es : List Event} (h : Emits s es s') : stored s' = stored s := by
  rw [stored_eq, stored_eq, h.queues]

theorem Emits.waiting {s s' : Server} {es : List Event} (h : Emits s es s') :
    waiting s' = waiting s := by
  rw [waiting_eq, waiting_eq, h.queues]

/-- The state with another next number. -/
def withNext (s : Server) (n : Nat) : Server := { s with next := n }

/-- Where nothing notable happens, nothing changes. -/
theorem Emits.act {s s' : Server} (h : Emits s [] s') {n : Nat} (hn : s.next ≤ n) :
    Act s .calm (withNext s' n) :=
  .calm h.stored h.waiting h.heap h.calm hn

theorem Emits.act_same {s s' : Server} (h : Emits s [] s') : Act s .calm s' :=
  .calm h.stored h.waiting h.heap h.calm h.next.ge

variable {r : Request}

/-! ## Replies -/

theorem notable_failure (rid : Nat) (e : Endpoint) (code : Nat) {b : Body}
    (hb : b.success = false) : notable (.reply rid e code b) = false := by
  cases e <;> simp [notable, hb]

theorem emits_json (e : Endpoint) (params : Bool) (code : Nat) (object : Option Body) (s : Server) :
    Emits s
      (match bodyText r.ok object with
        | some b => if notable (.reply s.next e code b) then [.reply s.next e code b] else []
        | none => [])
      (connectionHttpJson_ r e params code object s) := by
  have clear : ∀ {es : List Event} {s' : Server}, Emits s es s' →
      Emits s es (if params then s'.emit (.params s'.next .clear) else s') := by
    intro es s' h
    split
    · simpa using h.trans (emits_quiet s' (e := .params s'.next .clear) rfl)
    · exact h
  unfold connectionHttpJson_
  cases bodyText r.ok object with
  | none => exact clear (emits_quiet s (notable_failure s.next e 500 rfl))
  | some b => exact clear (emits_emit s (.reply s.next e code b))

/-- A failure's reply is not notable. -/
theorem emits_error (e : Endpoint) (params : Bool) (code : Nat) (message : Failure) (s : Server) :
    Emits s [] (connectionHttpError_ r e params code message s) := by
  have h := emits_json (r := r) e params (if code = 0 then 500 else code)
    (protocolCreateFailure r.ok message) s
  unfold connectionHttpError_
  cases hb : bodyText r.ok (protocolCreateFailure r.ok message) with
  | none => simpa [hb] using h
  | some b =>
    have hf : b.success = false := by
      unfold bodyText at hb
      split at hb <;> [skip; cases hb]
      exact protocolCreateFailure_some hb
    simpa [hb, notable_failure _ _ _ hf] using h

/-- A payload's reply is the payload, or a failure. -/
theorem emits_payload (e : Endpoint) (payload : Option Payload) (s : Server) :
    Emits s
      (if notable (.reply s.next e 200 ⟨true, none, payload⟩) && encodesPayload r.ok payload then
        [.reply s.next e 200 ⟨true, none, payload⟩] else [])
      (connectionHttpPayload_ r e payload s) := by
  unfold connectionHttpPayload_ encodesPayload
  cases hs : protocolCreateSuccess r.ok payload with
  | none => simpa using emits_error e true 0 .encodePayload s
  | some b =>
    obtain rfl := protocolCreateBase_some hs
    have h := emits_json (r := r) e true 200 (some ⟨true, none, payload⟩) s
    unfold bodyText at h
    cases ht : r.ok .text with
    | true => simpa [ht] using h
    | false => simpa [ht] using h

theorem emits_payload_quiet {e : Endpoint} (he : e ≠ .take ∧ e ≠ .put) (payload : Option Payload)
    (s : Server) : Emits s [] (connectionHttpPayload_ r e payload s) := by
  have h := emits_payload (r := r) e payload s
  have hn : notable (.reply s.next e 200 ⟨true, none, payload⟩) = false := by
    cases e <;> simp_all [notable]
  simpa [hn] using h

end DQ.Proof.Server
