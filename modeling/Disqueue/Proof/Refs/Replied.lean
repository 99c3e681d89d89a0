import Disqueue.Proof.Refs.Balanced
import Disqueue.Proof.Server.Failed

/-!
# The replies that are built are those sent

The handler of a request sends the reply that it builds last, after the answer to
a want if it puts an item: a success if what the reply needs is made, and a
failure otherwise (`http_sends`). A want that answers with an item builds the
answer (`answers_builds`).
-/

namespace DQ.Proof.Refs

open DQ DQ.Spec DQ.Proof.Server DQ.Proof.Queue
open DQ.Model hiding protocolCreateSuccess listForeach protocolEncodeItem
open DQ.Model.Refs (Building Reply httpBuildings queueBuildings putBuildings waitBuildings)

variable {dm : DataModel} {r : Request} {s s' : Server} {e : Endpoint} {createNew : Bool}

/-- What a success needs is made exactly if there is its object. -/
theorem wraps_eq (ok : Outcome) (p : Option Payload) :
    wraps ok p.isSome = (Model.protocolCreateSuccess ok p).isSome := by
  unfold wraps Model.protocolCreateSuccess protocolCreateBase
  cases p <;> grind

/-- The reply that is sent is a success. -/
def succeeds (b : Building) : Bool := (payloadOf b).any (wraps b.ok) && b.ok .text

theorem succeeds_failure {b : Building} (h : payloadOf b = none) : succeeds b = false := by
  rw [succeeds, h]
  rfl

theorem succeeds_success {b : Building} {p : Option Payload} (h : payloadOf b = some p.isSome) :
    succeeds b = encodesPayload b.ok p := by
  rw [succeeds, h, encodesPayload, ← wraps_eq]
  rfl

/-- The handler sends the reply that it builds last. -/
def Sends (s : Server) (bs : List Building) (s' : Server) : Prop :=
  ∃ bs' b, bs = bs' ++ [b] ∧ Replied s (succeeds b) s'

theorem sends_failure {b : Building} (hb : payloadOf b = none) (h : Replied s false s') :
    Sends s [b] s' :=
  ⟨[], b, rfl, (succeeds_failure hb).symm ▸ h⟩

theorem sends_success {b : Building} {p : Option Payload} (hb : payloadOf b = some p.isSome)
    (h : Replied s (encodesPayload b.ok p) s') : Sends s [b] s' :=
  ⟨[], b, rfl, (succeeds_success hb).symm ▸ h⟩

/-- What a handler of a queue builds, by what it looks up. -/
theorem queueBuildings_cases (dm : DataModel) (r : Request) (e : Endpoint) (createNew : Bool)
    (rest : Server → Found → List Building) (s : Server) :
    (requested dm r createNew s = none ∧
        queueBuildings dm r e createNew rest s = [⟨r.ok, .error⟩]) ∨
      ∃ f s', requested dm r createNew s = some f ∧ Reads s s' ∧
        queueBuildings dm r e createNew rest s = rest { s' with queues := f.registry } f := by
  unfold queueBuildings
  rcases queue_cases dm r e createNew s with ⟨hf, s', -, hq⟩ | ⟨f, s', hf, hreads, hq⟩
  · rw [hq]
    exact .inl ⟨hf, rfl⟩
  · rw [hq]
    exact .inr ⟨f, s', hf, hreads, rfl⟩

/-! ## Handlers -/

theorem list_sends (r : Request) (s : Server) :
    Sends s (match connectionHttpRead_ r .list s with
      | (_, false) => [⟨r.ok, .error⟩]
      | (s, true) => [⟨r.ok, .list s.queues⟩]) (connectionHttpCallbackList_ r s) := by
  have error : ∀ {message}, Replied s false (connectionHttpError_ r .list true 0 message s) :=
    (Replies.error (e := .list) (p := none) true 0 _ (by decide)).replied (Adds.refl s.net)
  unfold connectionHttpCallbackList_ connectionHttpRead_
  cases r.ok .body && r.ok .copyout && r.ok .parse with
  | false => exact sends_failure rfl error
  | true =>
    simp only [if_true]
    cases hl : r.ok .list with
    | false => exact sends_failure (by simp [payloadOf, hl]) error
    | true =>
      cases hn : Model.listForeach r.ok 0 s.queues with
      | none => exact sends_failure (by simp [payloadOf, hn]) error
      | some ids =>
        exact sends_success (p := some (.names ids)) (by simp [payloadOf, hl, hn])
          (Replies.payload.replied (Adds.refl s.net))

theorem new_sends (dm : DataModel) (r : Request) (s : Server) :
    Sends s (queueBuildings dm r .new true (fun _ _ => [⟨r.ok, .name⟩]) s)
      (connectionHttpCallbackNew_ dm r s) := by
  have hnew := new_replied dm r s
  rcases queueBuildings_cases dm r .new true (fun _ _ => [⟨r.ok, .name⟩]) s with
    ⟨hf, hb⟩ | ⟨f, s', hf, -, hb⟩
  · rw [hf] at hnew
    rw [hb]
    exact sends_failure rfl hnew.1
  · rw [hf] at hnew
    obtain ⟨hr, -⟩ := hnew
    rw [hb]
    cases hn : r.ok .name with
    | false => exact sends_failure (by simp [payloadOf, hn]) (by simpa [hn] using hr)
    | true =>
      exact sends_success (p := some (.name f.mq.id)) (by simp [payloadOf, hn])
        (by simpa [hn] using hr)

theorem delete_sends (dm : DataModel) (r : Request) (s : Server) :
    Sends s (queueBuildings dm r .delete true (fun _ _ => [⟨r.ok, .done⟩]) s)
      (connectionHttpCallbackDelete_ dm r s) := by
  have hdelete := delete_replied dm r s
  rcases queueBuildings_cases dm r .delete true (fun _ _ => [⟨r.ok, .done⟩]) s with
    ⟨hf, hb⟩ | ⟨f, s', hf, -, hb⟩
  · rw [hf] at hdelete
    rw [hb]
    exact sends_failure rfl hdelete.1
  · rw [hf] at hdelete
    rw [hb]
    exact sends_success (p := none) rfl hdelete.1

theorem info_sends (dm : DataModel) (r : Request) (s : Server) :
    Sends s (queueBuildings dm r .info false (fun _ _ => [⟨r.ok, .info⟩]) s)
      (connectionHttpCallbackInfo_ dm r s) := by
  unfold queueBuildings connectionHttpCallbackInfo_
  rcases found_cases dm r .info s with ⟨-, s', hreads, hq⟩ | ⟨f, s', -, hreads, hq⟩
  · rw [hq]
    exact sends_failure rfl ((Replies.lookup r .info none s' false).replied hreads.logs)
  · rw [hq]
    dsimp only
    split
    · rename_i hfails
      refine sends_failure ?_ ((Replies.error (p := none) true 0 _ (by decide)).replied hreads.logs)
      simp only [payloadOf]
      grind
    · rename_i hmade
      refine sends_success (p := some (.info f.mq.id)) ?_ (Replies.payload.replied hreads.logs)
      simp only [payloadOf]
      grind

/-- The end of a take and of a peek. -/
theorem item_sends {s₀ : Server} (r : Request) (e : Endpoint) (i : QueueItem)
    (hl : Logs s.net [] s₀.net) : Sends s [⟨r.ok, .item i⟩]
      (if !Model.protocolEncodeItem r.ok i then connectionHttpError_ r e true 0 .encodeItem s₀
      else connectionHttpPayload_ r e (some (.item i)) s₀) := by
  cases hi : Model.protocolEncodeItem r.ok i with
  | false =>
    exact sends_failure (by simp [payloadOf, hi])
      ((Replies.error (p := none) true 0 _ (by decide)).replied hl)
  | true =>
    exact sends_success (p := some (.item i)) (by simp [payloadOf, hi]) (Replies.payload.replied hl)

theorem take_sends (dm : DataModel) (r : Request) (s : Server) :
    Sends s (queueBuildings dm r .take false (fun s f =>
      match (queueTake (evhttpFindHeader r.params keyKey) f.mq.q s.heap).1 with
      | none => [⟨r.ok, .error⟩]
      | some item => [⟨r.ok, .item item⟩]) s) (connectionHttpCallbackTake dm r s) := by
  unfold queueBuildings connectionHttpCallbackTake
  rcases found_cases dm r .take s with ⟨-, s', hreads, hq⟩ | ⟨f, s', -, hreads, hq⟩
  · rw [hq]
    exact sends_failure rfl ((Replies.lookup r .take none s' false).replied hreads.logs)
  · have hkey : Logs s.net [] (findParam r keyKey s').2.net := (hreads.findParam r keyKey).logs
    rw [hq]
    dsimp only [findParam] at hkey ⊢
    have hheap : (s'.emit (.params s'.next .read)).heap = s'.heap := rfl
    rw [hheap]
    rcases queueTake (evhttpFindHeader r.params keyKey) f.mq.q s'.heap with ⟨_ | i, q, h⟩
    · exact sends_failure rfl ((Replies.error (p := none) true 404 _ (by decide)).replied hkey)
    · exact item_sends r .take i hkey

theorem peek_sends (dm : DataModel) (r : Request) (s : Server) :
    Sends s (queueBuildings dm r .peek false (fun s f =>
      match (queuePeek (evhttpFindHeader r.params keyKey) f.mq.q s.heap).1 with
      | none => [⟨r.ok, .error⟩]
      | some item => [⟨r.ok, .item item⟩]) s) (connectionHttpCallbackPeek dm r s) := by
  unfold queueBuildings connectionHttpCallbackPeek
  rcases found_cases dm r .peek s with ⟨-, s', hreads, hq⟩ | ⟨f, s', -, hreads, hq⟩
  · rw [hq]
    exact sends_failure rfl ((Replies.lookup r .peek none s' false).replied hreads.logs)
  · have hkey : Logs s.net [] (findParam r keyKey s').2.net := (hreads.findParam r keyKey).logs
    rw [hq]
    dsimp only [findParam] at hkey ⊢
    have hheap : (s'.emit (.params s'.next .read)).heap = s'.heap := rfl
    rw [hheap]
    rcases queuePeek (evhttpFindHeader r.params keyKey) f.mq.q s'.heap with ⟨_ | i, h⟩
    · exact sends_failure rfl ((Replies.error (p := none) true 404 _ (by decide)).replied hkey)
    · exact item_sends r .peek i hkey

theorem put_sends (dm : DataModel) (r : Request) (s : Server) :
    Sends s (queueBuildings dm r .put false (putBuildings r) s) (connectionHttpCallbackPut dm r s) := by
  have hput := put_replied dm r s
  unfold putReached at hput
  rcases queueBuildings_cases dm r .put false (putBuildings r) s with ⟨hf, hb⟩ | ⟨f, s', hf, hreads, hb⟩
  · rw [show reached dm r s = none from hf] at hput
    rw [hb]
    exact sends_failure rfl hput.1
  · rw [show reached dm r s = some f from hf] at hput
    rw [hb]
    unfold putBuildings
    dsimp only at hput ⊢
    rw [hreads.emits.next]
    cases hv : evhttpFindHeader r.params valueKey with
    | none =>
      rw [hv] at hput
      exact sends_failure rfl hput.1
    | some value =>
      rw [hv] at hput
      dsimp only at hput ⊢
      cases hi : queuePutItem r.ok s.next f.mq.q.addr (evhttpFindHeader r.params keyKey) value with
      | none =>
        rw [hi] at hput
        exact sends_failure rfl hput.1
      | some item =>
        rw [hi] at hput
        have hdone : Replied s (succeeds ⟨r.ok, .done⟩) (connectionHttpCallbackPut dm r s) := by
          rw [succeeds_success (p := none) rfl]
          exact hput.1
        dsimp only
        rcases queuePutCallback (evhttpFindHeader r.params keyKey) f.mq.q with _ | ⟨_, cb, _⟩
        · exact ⟨[], _, rfl, hdone⟩
        · exact ⟨_, _, rfl, hdone⟩

/-- The handler of every request sends the reply that it builds last. -/
theorem http_sends (dm : DataModel) (r : Request) (s : Server) :
    Sends s (httpBuildings dm r s) (connectionHttpCallback dm r s) := by
  have other : Sends s [⟨r.ok, .error⟩]
      (connectionHttpError_ r .method false 405 .methodNotSupported s) :=
    sends_failure rfl ((Replies.error (p := none) false 405 _ (by decide)).replied (Adds.refl s.net))
  unfold httpBuildings connectionHttpCallback
  cases r.path with
  | queues =>
    unfold connectionHttpCallbackQueues
    cases r.method with
    | get => exact list_sends r s
    | post => exact new_sends dm r s
    | _ => exact other
  | queue =>
    unfold connectionHttpCallbackQueue
    cases r.method with
    | post => exact info_sends dm r s
    | delete => exact delete_sends dm r s
    | _ => exact other
  | take => exact take_sends dm r s
  | peek => exact peek_sends dm r s
  | put => exact put_sends dm r s

/-! ## Wants -/

theorem answer_succeeds (ok : Outcome) (payload : Payload) (i : QueueItem) :
    succeeds ⟨ok, .answer i⟩ = encodesAnswer ok payload i := by
  unfold encodesAnswer
  cases hmade : (ok .response && ok .identifier && ok .addIdentifier &&
      Model.protocolEncodeItem ok i && ok .addItem) with
  | false => exact succeeds_failure (by simp [payloadOf, hmade])
  | true =>
    rw [succeeds_success (p := some payload) (by simp [payloadOf, hmade])]
    rfl

/-- A want that answers with an item builds the answer, and it is a success. -/
theorem answers_builds {n : Net} {want : Nat} {i : QueueItem} {e : Sending}
    (h : answers e n want i = true) : waitBuildings e want i n.wants = [⟨e.ok, .answer i⟩] ∧
      succeeds ⟨e.ok, .answer i⟩ = true := by
  unfold answers at h
  unfold waitBuildings
  cases hw : n.wants.find? (·.id == want) with
  | none => simp [hw] at h
  | some w =>
    simp only [hw, wantAnswers, Bool.and_eq_true, Bool.not_eq_true'] at h
    obtain ⟨⟨⟨⟨hcancelled, -⟩, -⟩, hencodes⟩, -⟩ := h
    simp only [hcancelled, answer_succeeds e.ok (.answer w.id w.identifier i), hencodes]
    simp

end DQ.Proof.Refs
