import Disqueue.Proof.Server.Failed
import Disqueue.Spec.Once

/-!
# One reply for each request

Every handler reads parameters, replies once, and clears the parameters with
the reply (`http_once`). A reply whose text libevent does not take is sent with
its code, and without a body.
-/

namespace DQ.Proof.Server

open DQ.Model DQ.Spec DQ.Proof.Queue

variable {dm : DataModel} {r : Request} {s s₀ s₁ s' : Server} {e : Endpoint} {p : Option Payload}
  {ok : Bool}

/-- From `s` to `s'` one reply is sent whose code and body agree, and
parameters are read, and then cleared or not. -/
structure Once (s s' : Server) : Prop where
  reply : ∃ code b, Logs s.net [(code, b)] s'.net ∧ (code = 200 ↔ b.success = true)
  params : ∃ (k : Nat) (cleared : Bool), Adds paramsUse s.net
    (List.replicate k .read ++ if cleared then [.clear] else []) s'.net

/-! ## Replying -/

/-- A reply with the code of its object. -/
theorem once_json (e : Endpoint) (params : Bool) {code : Nat} {object : Option Body}
    (h : ∀ b, object = some b → (code = 200 ↔ b.success = true)) (s : Server) :
    Once s (connectionHttpJson_ r e params code object s) := by
  constructor
  · refine ⟨(sent r code object).1, (sent r code object).2, logs_json r s e params code object, ?_⟩
    unfold sent bodyText
    cases r.ok .text with
    | false => exact ⟨nofun, nofun⟩
    | true =>
      cases object with
      | none => exact ⟨nofun, nofun⟩
      | some b => exact h b rfl
  · refine ⟨0, params, ?_⟩
    cases params with
    | false =>
      exact ⟨[.reply s.next e (sent r code object).1 (sent r code object).2], rfl, rfl⟩
    | true =>
      refine ⟨[.reply s.next e (sent r code object).1 (sent r code object).2,
        .params s.next .clear], ?_, rfl⟩
      exact List.append_assoc ..

theorem Replies.once (h : Replies r e p s ok s') : Once s s' := by
  have herror (params : Bool) {code : Nat} (message : Failure) (hcode : code ≠ 200) :
      Once s (connectionHttpError_ r e params code message s) := by
    refine once_json e params (fun b hb => ?_) s
    have hcode' : (if code = 0 then 500 else code) ≠ 200 := by
      split
      · decide
      · exact hcode
    rw [protocolCreateFailure_some hb]
    exact iff_of_false hcode' Bool.false_ne_true
  cases h with
  | error params code message hcode => exact herror params message hcode
  | payload =>
    unfold connectionHttpPayload_
    cases hs : protocolCreateSuccess r.ok p with
    | none => exact herror true .encodePayload (by decide)
    | some b =>
      refine once_json e true (fun b' hb => ?_) s
      obtain rfl := Option.some.inj hb
      rw [protocolCreateBase_some hs]
      exact iff_of_true rfl rfl

/-! ## Handlers -/

theorem Reads.uses (h : Reads s s') :
    ∃ k, Adds paramsUse s.net (List.replicate k .read) s'.net := by
  obtain ⟨k, rfl⟩ := h
  refine ⟨k, List.replicate k (.params s.next .read), rfl, ?_⟩
  rw [List.filterMap_replicate]
  rfl

/-- A handler reads, does its work and replies. -/
theorem Once.after (h : Once s₀ s') (hreads : Reads s s₁) (hl : Logs s₁.net [] s₀.net)
    (hu : Adds paramsUse s₁.net [] s₀.net) : Once s s' := by
  obtain ⟨code, b, hreply, hagree⟩ := h.reply
  obtain ⟨k', cleared, huses⟩ := h.params
  obtain ⟨k, hk⟩ := hreads.uses
  refine ⟨⟨code, b, (hreads.logs.trans hl).trans hreply, hagree⟩, k + k', cleared, ?_⟩
  have htrans := (hk.trans hu).trans huses
  rwa [List.append_nil, ← List.append_assoc, List.replicate_append_replicate] at htrans

theorem Once.reads (h : Once s₀ s') (hreads : Reads s s₁) (hn : s₀.net = s₁.net) : Once s s' :=
  h.after hreads (hn ▸ Adds.refl _) (hn ▸ Adds.refl _)

/-- What follows the reply changes no connection. -/
theorem Once.ends {t : Server} (h : Once s s') (hn : t.net = s'.net) : Once s t := by
  obtain ⟨⟨code, b, hreply, hagree⟩, k, cleared, huses⟩ := h
  exact ⟨⟨code, b, hn ▸ hreply, hagree⟩, k, cleared, hn ▸ huses⟩

theorem paramsUse_ofConn (c : Nat) (ev : Event) (h : OfConn c ev) : paramsUse ev = none := by
  cases h <;> rfl

theorem list_once (r : Request) (s : Server) : Once s (connectionHttpCallbackList_ r s) := by
  obtain ⟨p, ok, h⟩ := list_cases r s
  exact h.once

theorem new_once (dm : DataModel) (r : Request) (s : Server) :
    Once s (connectionHttpCallbackNew_ dm r s) := by
  rcases new_cases dm r s with ⟨-, s', hreads, hr⟩ | ⟨f, s', -, hreads, hr⟩
  · exact hr.once.reads hreads rfl
  · split at hr
    · exact hr.once.reads hreads rfl
    · exact hr.once.after hreads (adds_free (fun _ => rfl) f _) (adds_free (fun _ => rfl) f _)

theorem info_once (dm : DataModel) (r : Request) (s : Server) :
    Once s (connectionHttpCallbackInfo_ dm r s) := by
  obtain ⟨s', p, ok, hreads, hr⟩ := info_cases dm r s
  exact hr.once.reads hreads rfl

theorem delete_once (dm : DataModel) (r : Request) (s : Server) :
    Once s (connectionHttpCallbackDelete_ dm r s) := by
  rcases delete_cases dm r s with ⟨-, s', hreads, hr⟩ | ⟨f, s', -, hreads, hr⟩
  · exact hr.once.reads hreads rfl
  · exact hr.once.after hreads (adds_free (fun _ => rfl) f _) (adds_free (fun _ => rfl) f _)

theorem take_once (dm : DataModel) (r : Request) (s : Server) :
    Once s (connectionHttpCallbackTake dm r s) := by
  rcases take_cases dm r s with ⟨s', h, p, hreads, -, hr⟩ | ⟨f, s', i, rest, h, s₁, -, hreads, -, hr, hs⟩
  · exact hr.once.reads hreads rfl
  · rw [hs]
    exact (hr.once.reads hreads rfl).ends rfl

theorem peek_once (dm : DataModel) (r : Request) (s : Server) :
    Once s (connectionHttpCallbackPeek dm r s) := by
  rcases peek_cases dm r s with ⟨s', h, p, hreads, -, hr⟩ | ⟨f, s', i, h, s₁, ok, -, hreads, -, hr, hs⟩
  · exact hr.once.reads hreads rfl
  · rw [hs]
    exact (hr.once.reads hreads rfl).ends rfl

theorem put_once (dm : DataModel) (r : Request) (s : Server) :
    Once s (connectionHttpCallbackPut dm r s) := by
  rcases put_cases dm r s with ⟨-, s', hreads, hr⟩ | ⟨f, item, value, s', -, hreads, -, hr⟩
  · exact hr.once.reads hreads rfl
  · refine hr.once.after hreads ?_ ?_
    · exact (adds_quiet (e := .put item) rfl s'.net).trans
        (adds_queuePut (fun _ => rfl) replyOf_ofConn ..)
    · exact (adds_quiet (e := .put item) rfl s'.net).trans
        (adds_queuePut (fun _ => rfl) paramsUse_ofConn ..)

/-- Every handler replies once. -/
theorem http_once (dm : DataModel) (r : Request) (s : Server) :
    Once s (s.step dm (.http r)) := by
  have hmethod : Once s (connectionHttpError_ r .method false 405 .methodNotSupported s) :=
    (Replies.error (p := none) false 405 .methodNotSupported (by decide)).once
  have h : Once s (connectionHttpCallback dm r s) := by
    unfold connectionHttpCallback
    cases r.path with
    | queues =>
      unfold connectionHttpCallbackQueues
      cases r.method with
      | get => exact list_once r s
      | post => exact new_once dm r s
      | delete | other => exact hmethod
    | queue =>
      unfold connectionHttpCallbackQueue
      cases r.method with
      | post => exact info_once dm r s
      | delete => exact delete_once dm r s
      | get | other => exact hmethod
    | take => exact take_once dm r s
    | peek => exact peek_once dm r s
    | put => exact put_once dm r s
  exact h.ends rfl

end DQ.Proof.Server
