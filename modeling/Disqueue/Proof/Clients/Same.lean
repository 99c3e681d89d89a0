import Disqueue.Proof.Clients.Address
import Disqueue.Proof.Clients.Calls
import Disqueue.Proof.Python.Subscribed

/-!
# Where the clients differ

The libraries open the WebSocket to the same host and the URL's port, send the
key of a handler, and answer calls rightly, each exactly under a condition on
what they are given (`same_clients_iff`): Python ignores the port of an https
URL, does not send an empty key, and does not check what `put` is replied.
-/

namespace DQ.Proof.Clients

open DQ.Model DQ.Spec

/-- Python sends each key but the empty one. -/
theorem wantCarries_iff {ω η : Type} [DecidableEq ω] (id : Python.Identifier ω)
    (s : Python.State ω η) (s' : TypeScript.State η) (queueId : String) (key : Option String)
    (handler : η) : WantCarries id s s' queueId key handler ↔ key ≠ some "" := by
  rw [← Python.filter_nonempty_iff]
  simp [WantCarries, Python.resendWant, Python.State.emit, TypeScript.resendWant]

/-- For every base URL, handler, call and reply: the libraries open the WebSocket
to the same host and the URL's port, send the handler's key, and answer the call
rightly, each exactly if what they are given fits. -/
theorem same_clients_iff {H ω η : Type} [DecidableEq ω] (p : WebPlatform) (named : CStr → H)
    (u : BaseUrl) (id : Python.Identifier ω) (s : Python.State ω η) (s' : TypeScript.State η)
    (queueId : String) (key : Option String) (handler : η) (url : String)
    (auth : Option (String × String)) (call : ClientCall) (reply : Option Json) :
    (SameEndpoint p named u ↔ HostFits p named u ∧ PortFits u) ∧
      (WantCarries id s s' queueId key handler ↔ key ≠ some "") ∧
      (Answers reply (pythonCall (m := Id) url queueId auth (fun _ => reply) call) ∧
          Answers reply (typeScriptCall (m := Id) url queueId auth (fun _ => reply) call) ↔
        ReplyFits call reply) :=
  ⟨sameEndpoint_iff p named u, wantCarries_iff id s s' queueId key handler,
    answers_iff_replyFits url queueId auth call reply⟩

/-! ## An address, a key and a reply -/

/-- Names of letters in lower case, digits, hyphens and dots are kept. -/
def nameParser (s : CStr) : Option CStr :=
  if s ≠ [] ∧ (s.all fun c => c.isLower || c.isDigit || c == '-' || c == '.') = true then some s
  else none

theorem nameParser_eq_some {s h : CStr} (hs : nameParser s = some h) :
    h = s ∧ s ≠ [] ∧ ∀ c ∈ s, isDelimiter c = false ∧ c ≠ ':' := by
  unfold nameParser at hs
  split at hs
  · rename_i hplain
    refine ⟨(Option.some.inj hs).symm, hplain.1, fun c hc => ?_⟩
    have hchar := List.all_eq_true.mp hplain.2 c hc
    have hnot {d : Char} (hd : (d.isLower || d.isDigit || d == '-' || d == '.') = false) :
        c ≠ d := by
      rintro rfl
      rw [hchar] at hd
      cases hd
    simp [isDelimiter, hnot (d := '/') (by decide), hnot (d := '\\') (by decide),
      hnot (d := '?') (by decide), hnot (d := '#') (by decide), hnot (d := '@') (by decide),
      hnot (d := '[') (by decide), hnot (d := ']') (by decide), hnot (d := ':') (by decide)]
  · cases hs

def namePlatform : WebPlatform where
  hostParser := nameParser
  connects := fun address => (TypeScript.newUrl nameParser address).map TypeScript.Url.endpoint
  isHost := by
    intro s h hs
    obtain ⟨rfl, hne, hplain⟩ := nameParser_eq_some hs
    exact .name hne hplain
  stable := by
    intro s h hs
    obtain ⟨rfl, -, -⟩ := nameParser_eq_some hs
    exact hs
  connects_eq := fun _ => rfl

/-- `https://example.com:8443`. -/
def securePort : BaseUrl where
  scheme := httpsScheme
  userinfo := none
  host := "example.com".toList
  port := some "8443".toList
  rest := []
  wellFormed :=
    { scheme := by decide
      userinfo := nofun
      host := .name (by decide) fun c hc => by
        have hname : ("example.com".toList.all fun c => !isDelimiter c && c != ':') = true := by
          decide
        simpa using List.all_eq_true.mp hname c hc
      port := by
        rintro s ⟨⟩
        decide
      rest := nofun }
  isHttp := .inr (by decide)
  plain := by
    intro c hc
    have hplain : ("https://example.com:8443".toList.all fun c => '!' ≤ c && c ≤ '~') = true := by
      decide
    simpa using List.all_eq_true.mp hplain c hc

/-- `{"success": false, "message": "no such queue"}`. -/
def failedReply : Json :=
  .object [(successKey, .bool false), (messageKey, .string "no such queue".toList)]

theorem clients_differ :
    ¬ SameEndpoint namePlatform id securePort ∧
      ¬ WantCarries (⟨(), 0, 0⟩ : Python.Identifier Unit) Python.State.empty
        TypeScript.State.new "q" (some "") () ∧
      ¬ Answers (some failedReply)
        (pythonCall (m := Id) "http://h" "q" none (fun _ => some failedReply) (.put none "x")) := by
  refine ⟨fun h => ?_, fun h => ?_, fun h => ?_⟩
  · have hport := ((sameEndpoint_iff ..).mp h).2 8443 (by decide)
    exact absurd hport (by decide)
  · exact (wantCarries_iff ..).mp h rfl
  · have hok : pythonCall (m := Id) "http://h" "q" none (fun _ => some failedReply)
        (.put none "x") = .ok none := rfl
    rw [hok, answers_ok, failedReply, succeeded_object] at h
    simp at h

end DQ.Proof.Clients
