import Disqueue.Proof.Registry.Keys
import Disqueue.Proof.Server.Delivery
import Disqueue.Proof.Server.Replies
import Disqueue.Proof.Wants.Told

/-!
# What handlers were given

A want is made of a message that came, an item is put by a request that came,
and a reply is to a request that came: what a handler adds to the log is
explained by what it was given (`http_explains`, `message_explains`).
-/

namespace DQ.Proof.Server

open DQ.Model DQ.Spec DQ.Proof.Queue DQ.Proof.Registry DQ.Proof.Wants

variable {dm : DataModel} {r : Request} {s s' : Server} {came : List Arrival}

/-! ## What replying adds -/

/-- What the handler `e` of the request `rid` adds to the log: it uses the
parameters, and replies the payload if it replies a success. -/
inductive OfReply (rid : Nat) (e : Endpoint) (p : Option Payload) (ok : Bool) : Event → Prop
  | params (use) : OfReply rid e p ok (.params rid use)
  | reply (code b) (h : b.success = true → ok = true ∧ b.payload = p) :
    OfReply rid e p ok (.reply rid e code b)

variable {e : Endpoint} {p : Option Payload} {ok : Bool}

theorem grows_json (params : Bool) (code : Nat) (object : Option Body)
    (h : ∀ b, bodyText r.ok object = some b → b.success = true → ok = true ∧ b.payload = p) :
    Grows (OfReply s.next e p ok) s.net (connectionHttpJson_ r e params code object s).net := by
  have clear : ∀ {s₁ : Server}, Grows (OfReply s.next e p ok) s.net s₁.net → s₁.next = s.next →
      Grows (OfReply s.next e p ok) s.net
        (if params then s₁.emit (.params s₁.next .clear) else s₁).net := by
    intro s₁ hg hn
    split
    · exact hg.trans (grows_emit (hn ▸ .params .clear) _)
    · exact hg
  unfold connectionHttpJson_
  cases hb : bodyText r.ok object with
  | none => exact clear (grows_emit (.reply 500 protocolFailureFallback nofun) s.net) rfl
  | some b => exact clear (grows_emit (.reply code b (h b hb)) s.net) rfl

theorem grows_error (params : Bool) (code : Nat) (message : Failure) :
    Grows (OfReply s.next e p ok) s.net (connectionHttpError_ r e params code message s).net := by
  refine grows_json params _ _ fun b hb hs => ?_
  unfold bodyText at hb
  split at hb <;> [skip; cases hb]
  rw [protocolCreateFailure_some hb] at hs
  cases hs

theorem Replies.grows (h : Replies r e p s ok s') : Grows (OfReply s.next e p ok) s.net s'.net := by
  cases h with
  | error params code message => exact grows_error params code message
  | payload =>
    unfold connectionHttpPayload_
    cases hs : protocolCreateSuccess r.ok p with
    | none => exact grows_error true 0 .encodePayload
    | some body =>
      obtain rfl := protocolCreateBase_some hs
      refine grows_json true 200 _ fun b hb _ => ?_
      unfold bodyText at hb
      split at hb <;> [skip; cases hb]
      rename_i htext
      exact ⟨by simp [encodesPayload, hs, htext], (Option.some.inj hb) ▸ rfl⟩

theorem Reads.grows (h : Reads s s') : Grows (OfReply s.next e p ok) s.net s'.net := by
  obtain ⟨k, rfl⟩ := h
  refine ⟨List.replicate k (.params s.next .read), rfl, fun ev hev => ?_⟩
  rw [List.eq_of_mem_replicate hev]
  exact .params .read

/-! ## Queues that are named -/

/-- A lookup that makes no queue finds the queue with the name. -/
theorem managerQueueGet_address {q : QueueSupply} {name : Option CStr} {f : Found}
    (h : managerQueueGet dm q name false s.queues = some f) :
    ∃ n, name = some n ∧ addressOf n s = some f.mq.q.addr := by
  unfold managerQueueGet at h
  split at h <;> [skip; cases h]
  rename_i n
  split at h <;> [cases h; skip]
  split at h <;> [skip; cases h]
  rename_i g hg
  obtain rfl := Option.some.inj h
  unfold managerQueueFind at hg
  obtain ⟨t, ht, rfl⟩ := Option.map_eq_some_iff.mp hg
  refine ⟨n, rfl, ?_⟩
  rw [addressOf, ← splitFirst_find, ht]
  rfl

theorem reached_address {f : Found} (h : reached dm r s = some f) :
    ∃ name, parameter r "name" = some name ∧ addressOf name s = some f.mq.q.addr :=
  managerQueueGet_address (requested_get h)

/-- What a take finds is in the queue, and its key wants it. -/
theorem queueTake_found {α : Type} {q : Queue α} (hc : Counted q) {key : Option CStr} {h h' : Heap}
    {q' : Queue α} {i : QueueItem} (ht : queueTake key q h = (some i, q', h')) :
    i ∈ q.items ∧ keyWants key i.key = true := by
  cases hs : splitFirst (itemMatches key) q.items with
  | none =>
    obtain ⟨h₁, hnone⟩ := queueTake_none hc h hs
    rw [hnone] at ht
    cases ht
  | some t =>
    obtain ⟨pre, x, post⟩ := t
    obtain ⟨h₁, hsome⟩ := queueTake_some hc h hs
    rw [hsome] at ht
    obtain rfl : x = i := Option.some.inj (Prod.mk.inj ht).1
    obtain ⟨hl, hx, -⟩ := splitFirst_eq_some.mp hs
    exact ⟨hl ▸ List.mem_append_right _ List.mem_cons_self, (itemMatches_eq key x).symm.trans hx⟩

/-! ## Events that are explained -/

/-- The event is explained by what came before the end of the events. -/
def Explained (came : List Arrival) (before : List Event) : Event → Prop
  | .put i => PutCame came before i i.owner
  | .want w key => WantCame came before w.client w.id w.identifier w.queue key
  | .reply rid e _ b =>
    (∃ s r, .request s r ∈ came ∧ s.next = rid ∧ (e = .take ↔ r.path = .take)) ∧
      (e = .take → b.success = true → AnswersTake came before rid b)
  | _ => True

/-- The event is explained wherever it stands after the state. -/
def Explains (came : List Arrival) (s : Server) (ev : Event) : Prop :=
  ∀ before, s.net.log <+: before → Explained came before ev

theorem explains_ofConn (c : Nat) (ev : Event) (h : OfConn c ev) : Explains came s ev := by
  intro before hb
  cases h <;> trivial

theorem putCame_mono {came' : List Arrival} {before before' : List Event} {i : QueueItem} {q : Nat}
    (h : PutCame came before i q) (hc : came ⊆ came') (hb : before <+: before') :
    PutCame came' before' i q := by
  obtain ⟨s, r, name, hm, hn, hl, hrest⟩ := h
  exact ⟨s, r, name, hc hm, hn, hl.trans hb, hrest⟩

/-- The payload is an item that was put into the queue of the take, and that its
key wants. -/
def TakesPut (came : List Arrival) (s : Server) (r : Request) (p : Option Payload) : Prop :=
  ∃ name i q, p = some (.item i) ∧ parameter r "name" = some name ∧ addressOf name s = some q ∧
    PutCame came s.net.log i q ∧ keyWants (parameter r "key") i.key = true

/-- The reply to a request. -/
theorem explains_reply (hmem : .request s r ∈ came) (he : e = .take ↔ r.path = .take)
    (ht : e = .take → ok = true → TakesPut came s r p) {ev : Event}
    (h : OfReply s.next e p ok ev) : Explains came s ev := by
  intro before hb
  cases h with
  | params use => trivial
  | reply code b h =>
    refine ⟨⟨s, r, hmem, rfl, he⟩, fun htake hs => ?_⟩
    obtain ⟨hok, rfl⟩ := h hs
    obtain ⟨name, i, q, hp, hname, haddr, hput, hkey⟩ := ht htake hok
    exact ⟨s, r, name, i, q, hmem, rfl, he.mp htake, hp, hname, haddr,
      putCame_mono hput (List.Subset.refl _) hb, hkey⟩

/-- A handler that reads parameters and replies. -/
theorem explains_handler (hmem : .request s r ∈ came) (he : e = .take ↔ r.path = .take)
    (ht : e = .take → ok = true → TakesPut came s r p) {s₀ s₁ : Server} (hreads : Reads s s₁)
    (h : Replies r e p s₀ ok s') (hn : s₀.next = s₁.next)
    (hg : Grows (Explains came s) s₁.net s₀.net) : Grows (Explains came s) s.net s'.net := by
  have hread : Grows (Explains came s) s.net s₁.net :=
    hreads.grows.mono fun _ => explains_reply hmem he ht
  have hreply := h.grows
  rw [hn, hreads.emits.next] at hreply
  exact (hread.trans hg).trans (hreply.mono fun _ => explains_reply hmem he ht)

/-- The handler of a request that is no take. -/
theorem explains_other (hmem : .request s r ∈ came) (he : e ≠ .take) (hr : r.path ≠ .take)
    {s₀ s₁ : Server} (hreads : Reads s s₁) (h : Replies r e p s₀ ok s') (hn : s₀.next = s₁.next)
    (hg : Grows (Explains came s) s₁.net s₀.net) : Grows (Explains came s) s.net s'.net :=
  explains_handler hmem (iff_of_false he hr) (fun ht => absurd ht he) hreads h hn hg

/-- Freeing a queue discards its items. -/
theorem grows_free (f : Found) (s₀ : Server) :
    Grows (Explains came s) s₀.net (managerQueueFree f s₀).net := by
  refine ⟨f.mq.q.items.map .discard, rfl, fun ev hev => ?_⟩
  obtain ⟨i, -, rfl⟩ := List.mem_map.mp hev
  exact fun _ _ => trivial

/-! ## Requests -/

theorem list_explains (hmem : .request s r ∈ came) (hr : r.path ≠ .take) :
    Grows (Explains came s) s.net (connectionHttpCallbackList_ r s).net := by
  obtain ⟨p, ok, h⟩ := list_cases r s
  exact explains_other hmem (by decide) hr (.refl s) h rfl (.refl _)

theorem info_explains (hmem : .request s r ∈ came) (hr : r.path ≠ .take) :
    Grows (Explains came s) s.net (connectionHttpCallbackInfo_ dm r s).net := by
  obtain ⟨s₁, p, ok, hreads, h⟩ := info_cases dm r s
  exact explains_other hmem (by decide) hr hreads h rfl (.refl _)

theorem peek_explains (hmem : .request s r ∈ came) (hr : r.path ≠ .take) :
    Grows (Explains came s) s.net (connectionHttpCallbackPeek dm r s).net := by
  rcases peek_cases dm r s with ⟨s₁, h, p, hreads, -, hp⟩ | ⟨f, s₁, i, h, s₂, ok, -, hreads, -,
    hp, heq⟩
  · exact explains_other hmem (by decide) hr hreads hp rfl (grows_of_log rfl)
  · rw [heq]
    show Grows (Explains came s) s.net s₂.net
    exact explains_other hmem (by decide) hr hreads hp rfl (grows_of_log rfl)

theorem new_explains (hmem : .request s r ∈ came) (hr : r.path ≠ .take) :
    Grows (Explains came s) s.net (connectionHttpCallbackNew_ dm r s).net := by
  rcases new_cases dm r s with ⟨-, s₁, hreads, h⟩ | ⟨f, s₁, -, hreads, h⟩
  · exact explains_other hmem (by decide) hr hreads h rfl (.refl _)
  · split at h
    · exact explains_other hmem (by decide) hr hreads h rfl (grows_of_log rfl)
    · exact explains_other hmem (by decide) hr hreads h rfl (grows_free f _)

theorem delete_explains (hmem : .request s r ∈ came) (hr : r.path ≠ .take) :
    Grows (Explains came s) s.net (connectionHttpCallbackDelete_ dm r s).net := by
  rcases delete_cases dm r s with ⟨-, s₁, hreads, h⟩ | ⟨f, s₁, -, hreads, h⟩
  · exact explains_other hmem (by decide) hr hreads h rfl (.refl _)
  · exact explains_other hmem (by decide) hr hreads h rfl (grows_free f _)

/-- A put makes its item of the value and the key in its request. -/
theorem putReached_made {f : Found} {item : QueueItem} (h : putReached dm r s = some (f, item)) :
    ∃ value, evhttpFindHeader r.params valueKey = some value ∧
      item = ⟨s.next, f.mq.q.addr, evhttpFindHeader r.params keyKey, value⟩ := by
  have hf := putReached_reached h
  unfold putReached at h
  rw [hf] at h
  cases hv : evhttpFindHeader r.params valueKey with
  | none =>
    rw [hv] at h
    cases h
  | some value =>
    rw [hv] at h
    obtain ⟨i, hi, heq⟩ := Option.map_eq_some_iff.mp h
    obtain rfl := (Prod.mk.inj heq).2
    exact ⟨value, rfl, queuePutItem_eq hi⟩

theorem put_explains (hmem : .request s r ∈ came) (hr : r.path = .put) :
    Grows (Explains came s) s.net (connectionHttpCallbackPut dm r s).net := by
  have hpath : r.path ≠ .take := by simp [hr]
  rcases put_cases dm r s with ⟨-, s₁, hreads, h⟩ | ⟨f, item, value, s₁, hf, hreads, -, h⟩
  · exact explains_other hmem (by decide) hpath hreads h rfl (.refl _)
  · obtain ⟨name, hname, haddr⟩ := reached_address (putReached_reached hf)
    obtain ⟨sent, hvalue, hitem⟩ := putReached_made hf
    have hput : Explains came s (.put item) := by
      intro before hb
      rw [hitem]
      exact ⟨s, r, name, hmem, rfl, hb, hr, hname, haddr, hvalue, rfl⟩
    have hcall := grows_queuePut (p := Explains came s) (fun _ _ _ => trivial) explains_ofConn
      r.answer r.ok s.next (evhttpFindHeader r.params keyKey) value f.mq.q
      (s.heap, s₁.net.emit (.put item))
    exact explains_other hmem (by decide) hpath hreads h rfl ((grows_emit hput _).trans hcall)

/-- A take replies an item that is in the queue it names. -/
theorem take_explains (hmem : .request s r ∈ came) (hr : r.path = .take)
    (hC : AllCounted s.queues) (hput : ∀ x ∈ stored s, PutCame came s.net.log x.2 x.1) :
    Grows (Explains came s) s.net (connectionHttpCallbackTake dm r s).net := by
  have he : Endpoint.take = .take ↔ r.path = .take := iff_of_true rfl hr
  rcases take_cases dm r s with ⟨s₁, h, p, hreads, -, hp⟩ | ⟨f, s₁, i, rest, h, s₂, hf, hreads,
    htake, hp, heq⟩
  · exact explains_handler hmem he (fun _ hok => by cases hok) hreads hp rfl (grows_of_log rfl)
  · obtain ⟨name, hname, haddr⟩ := reached_address hf
    have hfound := reached_found hf
    obtain ⟨hi, hkey⟩ := queueTake_found (allCounted_found (hfound ▸ hC)) htake
    have hstored : (f.mq.q.addr, i) ∈ stored s := by
      rw [stored_eq, hfound]
      exact (storedIn_found f).mem_iff.mpr (List.mem_append_left _ (List.mem_map_of_mem hi))
    rw [heq]
    show Grows (Explains came s) s.net s₂.net
    have htakes : TakesPut came s r (some (.item i)) :=
      ⟨name, i, _, rfl, hname, haddr, hput _ hstored, hkey⟩
    exact explains_handler hmem he (fun _ _ => htakes) hreads hp rfl (grows_of_log rfl)

/-- What a request adds to the log is explained by it. -/
theorem http_explains (dm : DataModel) (hmem : .request s r ∈ came) (hC : AllCounted s.queues)
    (hput : ∀ x ∈ stored s, PutCame came s.net.log x.2 x.1) :
    Grows (Explains came s) s.net (s.step dm (.http r)).net := by
  have hmethod (hr : r.path ≠ .take) : Grows (Explains came s) s.net
      (connectionHttpError_ r .method false 405 .methodNotSupported s).net :=
    explains_other hmem (by decide) hr (.refl s)
      (.error (p := none) false 405 .methodNotSupported (by decide)) rfl (.refl _)
  show Grows (Explains came s) s.net (connectionHttpCallback dm r s).net
  unfold connectionHttpCallback
  cases hr : r.path with
  | queues =>
    have hpath : r.path ≠ .take := by simp [hr]
    dsimp only [connectionHttpCallbackQueues]
    split
    · exact list_explains hmem hpath
    · exact new_explains hmem hpath
    · exact hmethod hpath
  | queue =>
    have hpath : r.path ≠ .take := by simp [hr]
    dsimp only [connectionHttpCallbackQueue]
    split
    · exact info_explains hmem hpath
    · exact delete_explains hmem hpath
    · exact hmethod hpath
  | take => exact take_explains hmem hr hC hput
  | peek => exact peek_explains hmem (by simp [hr])
  | put => exact put_explains hmem hr

/-! ## Messages -/

/-- The want of a message is what the message asks for. -/
theorem wantReached_asked {m : Message} {c : Nat} {w : Want} {f : Found} {key : Option CStr}
    (h : wantReached dm m c s = some (w, f, key)) :
    ∃ name, m.text = some ⟨some w.identifier, some name, key⟩ ∧
      addressOf name s = some f.mq.q.addr := by
  unfold wantReached connectionWsRead_ at h
  split at h <;> [cases h; skip]
  rename_i request hread
  split at hread <;> [skip; cases hread]
  split at h <;> [cases h; skip]
  rename_i identifier hid
  split at h <;> [cases h; skip]
  rename_i g hget
  obtain ⟨v, hv, heq⟩ := Option.map_eq_some_iff.mp h
  obtain ⟨rfl, hgf⟩ := Prod.mk.inj heq
  obtain ⟨rfl, rfl⟩ := Prod.mk.inj hgf
  obtain ⟨name, hname, haddr⟩ := managerQueueGet_address hget
  refine ⟨name, ?_, haddr⟩
  rw [hread, managerQueueWantNew_eq hv, ← hid, ← hname]

/-- What a message adds to the log is explained by it. -/
theorem message_explains (dm : DataModel) {c : Nat} {m : Message}
    (hmem : .message s c m ∈ came) :
    Grows (Explains came s) s.net (evwsWslayOnMsgCallback_ dm c s m).net := by
  cases hd : isData m with
  | false => exact grows_of_log (congrArg Net.log (message_other hd))
  | true =>
    rw [message_data hd]
    have hdata : Grows (Explains came s) s.net (s.emit (.data c)).net :=
      grows_emit (fun _ _ => trivial) s.net
    have hop : m.opcode = 1 ∨ m.opcode = 2 := by
      simp only [isData, Bool.and_eq_true, Bool.or_eq_true, beq_iff_eq] at hd
      exact hd.1.2
    refine hdata.trans ?_
    rcases callbackWait_cases dm m c (s.emit (.data c)) with
      ⟨-, message, h⟩ | ⟨w, f, key, hr, -, hid, hclient, hqueue, h⟩
    · rw [h]
      exact (grows_wsError c m.env message _).mono fun _ => explains_ofConn c _
    · obtain ⟨name, htext, haddr⟩ := wantReached_asked hr
      have hwant : Explains came s (.want w key) := by
        intro before hb
        exact ⟨s, m, name, hclient ▸ hmem, hid.symm, hb, hop, htext, hqueue ▸ haddr⟩
      rw [h]
      unfold afterWait
      dsimp only
      have hmade : Grows (Explains came s) (s.emit (.data c)).net
          (withWant (s.emit (.data c)).net w key) :=
        grows_emit (n := { (s.emit (.data c)).net with wants := _ }) hwant
      have hcall := hmade.trans (grows_queueWait (p := Explains came s) (fun _ _ _ => trivial)
        explains_ofConn m.env m.env.ok key w.id f.mq.q
        ((s.emit (.data c)).heap, withWant (s.emit (.data c)).net w key))
      split
      · exact (hcall.wants _).trans ((grows_wsError c m.env .waitForWant _).mono fun _ =>
          explains_ofConn c _)
      · exact hcall

end DQ.Proof.Server
