import Disqueue.Proof.Auth.Authorised
import Disqueue.Spec.References

/-!
# What becomes of the references

Each function keeps account of the references that it is given and makes
(`Objects.Grown`). `protocol_create_base` gives up its payload when it fails, and
loses a message that it made but did not add (`createFailure_grown`);
`connection_http_payload_` then gives the payload up again
(`sendPayload_grown`).
-/

namespace DQ.Proof.Refs

open DQ DQ.Model.Refs DQ.Spec Objects
open DQ.Proof.Auth (asked decodeBob noFiles unread)
open DQ.Proof.Server (request)
open DQ.Model (BaseCall Call DataModel ManagerQueue Method Outcome Program ProgramInput QueueItem)

variable {o j : Objects} {roots dead : List Nat} {once : Bool} {ok : Outcome}

/-! ## References -/

/-- A reference that is held, or null, is given up. -/
theorem put_grown {r : Ref} (h : Grown o j (r.toList ++ roots) dead once) :
    Grown o (jsonObjectPut r j) roots (r.toList ++ dead) once := by
  cases r with
  | none => exact h
  | some r => exact Grown.release h

/-- A reference, or null, is given to a container. -/
theorem add_grown {c : Nat} {m : Ref} (h : Grown o j (c :: (m.toList ++ roots)) dead once) :
    Grown o (m.elim j (j.add c)) (c :: roots) dead once := by
  cases m with
  | none => exact h
  | some m => exact Grown.add h

@[simp] theorem new_true (j : Objects) : jsonObjectNew true j = (some j.next, j.new) := rfl

@[simp] theorem new_false (j : Objects) : jsonObjectNew false j = (none, j) := rfl

@[simp] theorem add_true (c : Nat) (m : Ref) (j : Objects) :
    jsonObjectAdd true c m j = (true, m.elim j (j.add c)) := rfl

@[simp] theorem add_false (c : Nat) (m : Ref) (j : Objects) :
    jsonObjectAdd false c m j = (false, j) := rfl

/-! ## Protocol -/

/-- The cleanup gives up the payload, the status and the container. -/
theorem cleanup_grown (msg payload status container : Ref)
    (hmsg : msg.isSome = true → payload = none)
    (h : Grown o j (payload.toList ++ (status.toList ++ (container.toList ++ roots))) dead once) :
    (protocolCreateBaseCleanup msg payload status container j).1 = none ∧
      Grown o (protocolCreateBaseCleanup msg payload status container j).2 roots
        (payload.toList ++ dead) once := by
  have hfirst : (if msg.isSome then jsonObjectPut payload j else j) = j := by
    split
    · rename_i hm
      rw [hmsg hm]
      rfl
    · rfl
  have hputs := put_grown (put_grown (put_grown h))
  unfold protocolCreateBaseCleanup
  rw [hfirst]
  refine ⟨rfl, hputs.forget fun d hd => ?_⟩
  exact List.mem_append_right _ (List.mem_append_right _ hd)

/-- The calls of `protocol_create_base` from the new container on. -/
def containerMade (ok : BaseCall → Bool) (payload : Bool) : Bool :=
  ok .container && ok .addMessage && ok .addSuccess && (!payload || ok .addPayload)

/-- What is made of a status, or lost. -/
theorem container_grown {ok : BaseCall → Bool} {msg payload : Ref} {status : Nat}
    (hmsg : msg.isSome = true → payload = none)
    (h : Grown o j (status :: (msg.toList ++ (payload.toList ++ roots))) dead once) :
    (containerMade ok payload.isSome = true ∧
        ∃ c, (protocolCreateContainer ok msg payload status j).1 = some c ∧
          Grown o (protocolCreateContainer ok msg payload status j).2 (c :: roots) dead once) ∨
      (containerMade ok payload.isSome = false ∧
        (protocolCreateContainer ok msg payload status j).1 = none ∧
          Grown o (protocolCreateContainer ok msg payload status j).2
            ((if ok .container && ok .addMessage then [] else msg.toList) ++ roots)
            (payload.toList ++ dead) once) := by
  unfold protocolCreateContainer containerMade
  cases hc : ok .container with
  | false =>
    refine .inr ⟨rfl, ?_⟩
    have h' : Grown o j (payload.toList ++ ([status] ++ ([] ++ (msg.toList ++ roots)))) dead once := by
      refine h.perm (List.perm_iff_count.mpr fun a => ?_)
      simp only [List.count_append, List.count_cons, List.count_nil]
      omega
    exact cleanup_grown msg payload (some status) none hmsg h'
  | true =>
    have hnew : Grown o j.new (j.next :: status :: (msg.toList ++ (payload.toList ++ roots))) dead
        once := h.new
    simp only [new_true]
    cases hm : ok .addMessage with
    | false =>
      refine .inr ⟨rfl, ?_⟩
      have h' : Grown o j.new
          (payload.toList ++ ([status] ++ ([j.next] ++ (msg.toList ++ roots)))) dead once := by
        refine hnew.perm (List.perm_iff_count.mpr fun a => ?_)
        simp only [List.count_append, List.count_cons, List.count_nil]
        omega
      exact cleanup_grown msg payload (some status) (some j.next) hmsg h'
    | true =>
      have hadd : Grown o (msg.elim j.new (j.new.add j.next))
          (j.next :: status :: (payload.toList ++ roots)) dead once := by
        refine add_grown (hnew.perm (List.perm_iff_count.mpr fun a => ?_))
        simp only [List.count_append, List.count_cons]
        omega
      simp only [add_true, Bool.and_self, if_true, List.nil_append]
      generalize msg.elim j.new (j.new.add j.next) = j₂ at hadd
      cases hs : ok .addSuccess with
      | false =>
        refine .inr ⟨rfl, ?_⟩
        have h' : Grown o j₂ (payload.toList ++ ([status] ++ ([j.next] ++ roots))) dead once := by
          refine hadd.perm (List.perm_iff_count.mpr fun a => ?_)
          simp only [List.count_append, List.count_cons, List.count_nil]
          omega
        exact cleanup_grown none payload (some status) (some j.next) (by simp) h'
      | true =>
        have hstatus : Grown o (j₂.add j.next status) (j.next :: (payload.toList ++ roots)) dead
            once := hadd.add
        simp only [add_true, Option.elim_some]
        cases payload with
        | none => exact .inl ⟨rfl, j.next, rfl, hstatus⟩
        | some payload =>
          cases hp : ok .addPayload with
          | false =>
            refine .inr ⟨rfl, ?_⟩
            have h' : Grown o (j₂.add j.next status) ([payload] ++ ([] ++ ([j.next] ++ roots))) dead
                once := hstatus.perm (.swap payload j.next roots)
            exact cleanup_grown none (some payload) none (some j.next) (by simp) h'
          | true => exact .inl ⟨rfl, j.next, rfl, hstatus.add⟩

/-- What is made of a message, or null. -/
theorem status_grown (ok : BaseCall → Bool) (msg payload : Ref)
    (hmsg : msg.isSome = true → payload = none)
    (h : Grown o j (msg.toList ++ (payload.toList ++ roots)) dead once) :
    ((ok .status && containerMade ok payload.isSome) = true ∧
        ∃ c, (protocolCreateStatus ok msg payload j).1 = some c ∧
          Grown o (protocolCreateStatus ok msg payload j).2 (c :: roots) dead once) ∨
      ((ok .status && containerMade ok payload.isSome) = false ∧
        (protocolCreateStatus ok msg payload j).1 = none ∧
          Grown o (protocolCreateStatus ok msg payload j).2
            ((if ok .status && ok .container && ok .addMessage then [] else msg.toList) ++ roots)
            (payload.toList ++ dead) once) := by
  unfold protocolCreateStatus
  cases hs : ok .status with
  | false =>
    refine .inr ⟨rfl, ?_⟩
    have h' : Grown o j (payload.toList ++ ([] ++ ([] ++ (msg.toList ++ roots)))) dead once := by
      refine h.perm (List.perm_iff_count.mpr fun a => ?_)
      simp only [List.count_append, List.count_nil]
      omega
    exact cleanup_grown msg payload none none hmsg h'
  | true => exact container_grown hmsg h.new

/-- `protocol_create_success` takes the payload's reference. -/
theorem createSuccess_grown (ok : Outcome) (payload : Ref)
    (h : Grown o j (payload.toList ++ roots) dead once) :
    (wraps ok payload.isSome = true ∧ ∃ c, (protocolCreateSuccess ok payload j).1 = some c ∧
        Grown o (protocolCreateSuccess ok payload j).2 (c :: roots) dead once) ∨
      (wraps ok payload.isSome = false ∧ (protocolCreateSuccess ok payload j).1 = none ∧
        Grown o (protocolCreateSuccess ok payload j).2 roots (payload.toList ++ dead) once) := by
  have hwraps : wraps ok payload.isSome =
      (ok (.success .status) && containerMade (fun c => ok (.success c)) payload.isSome) := by
    simp only [wraps, containerMade, Bool.and_assoc]
  rw [hwraps]
  rcases status_grown (fun c => ok (.success c)) none payload (by simp) h with
    hmade | ⟨hmade, hnone, hg⟩
  · exact .inl hmade
  · rw [Option.toList_none, ite_self] at hg
    exact .inr ⟨hmade, hnone, hg⟩

/-- `protocol_create_failure` may lose a message. -/
theorem createFailure_grown (ok : Outcome) (h : Grown o j roots dead once) :
    (∃ c, (protocolCreateFailure ok j).1 = some c ∧
        Grown o (protocolCreateFailure ok j).2 (c :: roots) dead once ∧ KeepsMessage ok) ∨
      ((protocolCreateFailure ok j).1 = none ∧ ∃ lost,
        Grown o (protocolCreateFailure ok j).2 (lost ++ roots) dead once ∧
          (lost = [] ↔ KeepsMessage ok)) := by
  unfold protocolCreateFailure protocolCreateBase KeepsMessage
  simp only [if_true]
  cases hm : ok (.failure .message) with
  | false =>
    exact .inr ⟨rfl, [], (cleanup_grown none none none none (by simp) h).2, by simp⟩
  | true =>
    rw [new_true]
    rcases status_grown (fun c => ok (.failure c)) (some j.next) none (fun _ => rfl) h.new with
      ⟨hmade, c, hc, hg⟩ | ⟨-, hnone, hg⟩
    · refine .inl ⟨c, hc, hg, fun _ => ?_⟩
      simp only [containerMade, Bool.and_eq_true] at hmade
      exact ⟨hmade.1, hmade.2.1.1.1, hmade.2.1.1.2⟩
    · refine .inr ⟨hnone, _, hg, ?_⟩
      simp [and_assoc]

/-! ## Items -/

/-- The end of `protocol_encode_item` gives up what was made. -/
theorem encodeError_grown (base value key : Ref)
    (h : Grown o j (base.toList ++ (value.toList ++ (key.toList ++ roots))) dead once) :
    (protocolEncodeItemError base value key j).1 = none ∧
      Grown o (protocolEncodeItemError base value key j).2 roots dead once := by
  refine ⟨rfl, (put_grown (put_grown (put_grown h))).forget fun d hd => ?_⟩
  exact List.mem_append_right _ (List.mem_append_right _ (List.mem_append_right _ hd))

/-- The members of an item's object. -/
theorem encodeMembers_grown (ok : Outcome) (base : Nat) (key : Ref)
    (h : Grown o j (base :: (key.toList ++ roots)) dead once) :
    ((ok (.encode .addKey) && ok (.encode .value) && ok (.encode .addValue)) = true ∧
        ∃ c, (protocolEncodeMembers ok base key j).1 = some c ∧
          Grown o (protocolEncodeMembers ok base key j).2 (c :: roots) dead once) ∨
      ((ok (.encode .addKey) && ok (.encode .value) && ok (.encode .addValue)) = false ∧
        (protocolEncodeMembers ok base key j).1 = none ∧
          Grown o (protocolEncodeMembers ok base key j).2 roots dead once) := by
  unfold protocolEncodeMembers
  cases hk : ok (.encode .addKey) with
  | false => exact .inr ⟨rfl, encodeError_grown (some base) none key h⟩
  | true =>
    have hadd : Grown o (key.elim j (j.add base)) (base :: roots) dead once := add_grown h
    simp only [add_true, Bool.true_and]
    generalize key.elim j (j.add base) = j₁ at hadd ⊢
    cases hv : ok (.encode .value) with
    | false => exact .inr ⟨rfl, encodeError_grown (some base) none none hadd⟩
    | true =>
      have hvalue : Grown o j₁.new (base :: j₁.next :: roots) dead once :=
        hadd.new.perm (.swap base j₁.next roots)
      simp only [new_true, Bool.true_and]
      cases ha : ok (.encode .addValue) with
      | false => exact .inr ⟨rfl, encodeError_grown (some base) (some j₁.next) none hvalue⟩
      | true => exact .inl ⟨rfl, base, rfl, hvalue.add⟩

/-- `protocol_encode_item` gives an object, or gives up what it made. -/
theorem encodeItem_grown (ok : Outcome) (item : QueueItem) (h : Grown o j roots dead once) :
    (Model.protocolEncodeItem ok item = true ∧ ∃ c, (protocolEncodeItem ok item j).1 = some c ∧
        Grown o (protocolEncodeItem ok item j).2 (c :: roots) dead once) ∨
      (Model.protocolEncodeItem ok item = false ∧ (protocolEncodeItem ok item j).1 = none ∧
        Grown o (protocolEncodeItem ok item j).2 roots dead once) := by
  unfold protocolEncodeItem Model.protocolEncodeItem
  cases hb : ok (.encode .base) with
  | false => exact .inr ⟨rfl, encodeError_grown none none none h⟩
  | true =>
    have hbase : Grown o j.new (j.next :: roots) dead once := h.new
    simp only [new_true, Bool.true_and]
    cases hkey : item.key with
    | none =>
      simpa using encodeMembers_grown ok j.next none hbase
    | some key =>
      cases hk : ok (.encode .key) with
      | false => exact .inr ⟨rfl, encodeError_grown (some j.next) none none hbase⟩
      | true =>
        have hkeyed : Grown o j.new.new (j.next :: ([j.new.next] ++ roots)) dead once :=
          hbase.new.perm (.swap j.next j.new.next roots)
        simpa using encodeMembers_grown ok j.next (some j.new.next) hkeyed

/-! ## Sending -/

/-- A failure gives up its object, and may lose its message. -/
theorem sendError_grown (ok : Outcome) (h : Grown o j roots dead once) :
    ∃ lost, Grown o (sendError ok j) (lost ++ roots) dead once ∧ (lost = [] ↔ KeepsMessage ok) := by
  unfold sendError
  rcases createFailure_grown ok h with ⟨c, hc, hg, hkeeps⟩ | ⟨hnone, lost, hg, hlost⟩
  · refine ⟨[], ?_, by simpa using hkeeps⟩
    dsimp only
    rw [hc]
    exact hg.release.forget (List.subset_cons_self _ _)
  · refine ⟨lost, ?_, hlost⟩
    dsimp only
    rw [hnone]
    exact hg

/-- A payload is given up with its object; it is given up twice if it has none. -/
theorem sendPayload_grown (ok : Outcome) (payload : Ref)
    (h : Grown o j (payload.toList ++ roots) dead once) :
    ∃ lost once', Grown o (sendPayload ok payload j) (lost ++ roots) dead once' ∧
      (lost = [] ∧ once' = true ↔ once = true ∧
        (wraps ok payload.isSome = true ∨ payload.isSome = false ∧ KeepsMessage ok)) := by
  unfold sendPayload
  rcases createSuccess_grown ok payload h with ⟨hmade, c, hc, hg⟩ | ⟨hmade, hnone, hg⟩
  · refine ⟨[], once, ?_, fun h => ⟨h.2, .inl hmade⟩, fun h => ⟨rfl, h.1⟩⟩
    rw [← Prod.eta (protocolCreateSuccess ok payload j), hc]
    exact hg.release.forget (List.subset_cons_self _ _)
  · rw [← Prod.eta (protocolCreateSuccess ok payload j), hnone]
    dsimp only
    generalize (protocolCreateSuccess ok payload j).2 = j₁ at hg
    cases payload with
    | none =>
      obtain ⟨lost, he, hlost⟩ := sendError_grown ok hg
      have hmade : wraps ok false = false := hmade
      exact ⟨lost, once, he, by simp [hmade, hlost, and_comm]⟩
    | some payload =>
      have hagain : Grown o (j₁.release payload) roots ([payload] ++ dead) false :=
        hg.releaseAgain List.mem_cons_self
      obtain ⟨lost, he, -⟩ := sendError_grown ok hagain
      have hmade : wraps ok true = false := hmade
      exact ⟨lost, false, he.forget (List.subset_append_right _ _), by simp [hmade]⟩

/-! ## Handlers -/

/-- What a reply leaves of the objects: everything was freed once exactly if
`P`. -/
def Leaves (o j : Objects) (P : Prop) : Prop :=
  ∃ lost once, Grown o j lost [] once ∧ (lost = [] ∧ once = true ↔ P)

theorem leaves_error (ok : Outcome) (h : Grown o j [] dead true) :
    Leaves o (sendError ok j) (KeepsMessage ok) := by
  obtain ⟨lost, hg, hlost⟩ := sendError_grown ok h
  rw [List.append_nil] at hg
  exact ⟨lost, true, hg.forget (List.nil_subset _), by simpa using hlost⟩

theorem leaves_payload (ok : Outcome) (payload : Ref) (h : Grown o j payload.toList dead true) :
    Leaves o (sendPayload ok payload j)
      (wraps ok payload.isSome = true ∨ payload.isSome = false ∧ KeepsMessage ok) := by
  rw [← List.append_nil payload.toList] at h
  obtain ⟨lost, once, hg, hlost⟩ := sendPayload_grown ok payload h
  rw [List.append_nil] at hg
  exact ⟨lost, once, hg.forget (List.nil_subset _), by simpa using hlost⟩

/-- The loop over the queues keeps the list. -/
theorem listForeach_grown (ok : Outcome) (list i : Nat) (queues : List ManagerQueue)
    (h : Grown o j (list :: roots) dead once) :
    (listForeach ok list i queues j).1 = (Model.listForeach ok i queues).isSome ∧
      ∃ dead', Grown o (listForeach ok list i queues j).2 (list :: roots) dead' once := by
  induction queues generalizing i j with
  | nil => exact ⟨rfl, dead, h⟩
  | cons m queues ih =>
    unfold listForeach Model.listForeach
    cases hn : ok (.listName i) with
    | false => exact ⟨rfl, dead, h⟩
    | true =>
      have hstr : Grown o j.new (list :: j.next :: roots) dead once :=
        h.new.perm (.swap list j.next roots)
      simp only [new_true, Bool.true_and]
      cases ha : ok (.listAdd i) with
      | false => exact ⟨rfl, _, (hstr.perm (.swap j.next list roots)).release⟩
      | true => simpa using ih (i + 1) hstr.add

theorem leaves_failure {b : Building} (hb : payloadOf b = none)
    (h : Leaves o j (KeepsMessage b.ok)) : Leaves o j (Balances b) := by
  unfold Balances
  rwa [hb]

theorem leaves_success {b : Building} {payload : Bool} (hb : payloadOf b = some payload)
    (h : Leaves o j (wraps b.ok payload = true ∨ payload = false ∧ KeepsMessage b.ok)) :
    Leaves o j (Balances b) := by
  unfold Balances
  rwa [hb]

theorem leaves_list (ok : Outcome) (queues : List ManagerQueue) (j : Objects) :
    Leaves j (connectionHttpCallbackList_ ok queues j) (Balances ⟨ok, .list queues⟩) := by
  have hstart := grown_start j
  unfold connectionHttpCallbackList_
  cases hl : ok .list with
  | false => exact leaves_failure (by simp [payloadOf, hl]) (leaves_error ok hstart)
  | true =>
    obtain ⟨hall, dead, hg⟩ := listForeach_grown ok j.next 0 queues hstart.new
    simp only [new_true]
    rw [← Prod.eta (listForeach ok j.next 0 queues j.new), hall]
    cases hf : (Model.listForeach ok 0 queues).isSome with
    | false => exact leaves_failure (by simp [payloadOf, hl, hf]) (leaves_error ok hg.release)
    | true =>
      exact leaves_success (by simp [payloadOf, hl, hf]) (leaves_payload ok (some j.next) hg)

theorem leaves_name (ok : Outcome) (j : Objects) :
    Leaves j (connectionHttpCallbackNew_ ok j) (Balances ⟨ok, .name⟩) := by
  have hstart := grown_start j
  unfold connectionHttpCallbackNew_
  cases hn : ok .name with
  | false => exact leaves_failure (by simp [payloadOf, hn]) (leaves_error ok hstart)
  | true =>
    exact leaves_success (by simp [payloadOf, hn]) (leaves_payload ok (some j.next) hstart.new)

theorem leaves_info (ok : Outcome) (j : Objects) :
    Leaves j (connectionHttpCallbackInfo_ ok j) (Balances ⟨ok, .info⟩) := by
  have hstart := grown_start j
  unfold connectionHttpCallbackInfo_
  cases hn : ok .name with
  | false => exact leaves_failure (by simp [payloadOf, hn]) (leaves_error ok hstart)
  | true =>
    have hname := hstart.new
    simp only [new_true]
    cases hi : ok .info with
    | false => exact leaves_failure (by simp [payloadOf, hi]) (leaves_error ok hname.release)
    | true =>
      have hinfo := hname.new
      simp only [new_true]
      cases ha : ok .addName with
      | false =>
        exact leaves_failure (by simp [payloadOf, ha]) (leaves_error ok hinfo.release.release)
      | true =>
        exact leaves_success (by simp [payloadOf, hn, hi, ha])
          (leaves_payload ok (some j.new.next) hinfo.add)

theorem leaves_item (ok : Outcome) (item : QueueItem) (j : Objects) :
    Leaves j (encodeItem ok item j) (Balances ⟨ok, .item item⟩) := by
  unfold encodeItem
  rw [← Prod.eta (protocolEncodeItem ok item j)]
  rcases encodeItem_grown ok item (grown_start j) with ⟨hmade, c, hc, hg⟩ | ⟨hmade, hnone, hg⟩
  · rw [hc]
    exact leaves_success (by simp [payloadOf, hmade]) (leaves_payload ok (some c) hg)
  · rw [hnone]
    exact leaves_failure (by simp [payloadOf, hmade]) (leaves_error ok hg)

/-- A failure in place of an answer is sent before the answer is given up. -/
theorem leaves_cleanup (ok : Outcome) (response detail : Ref)
    (h : Grown o j (response.toList ++ detail.toList) dead true) :
    Leaves o (connectionQueueCallbackWaitCleanup response detail (connectionWsError_ ok j))
      (KeepsMessage ok) := by
  obtain ⟨lost, hg, hlost⟩ := sendError_grown ok h
  have hheld : Grown o (sendError ok j) (response.toList ++ (detail.toList ++ lost)) dead true := by
    apply hg.perm
    rw [← List.append_assoc response.toList]
    exact List.perm_append_comm
  exact ⟨lost, true, (put_grown (put_grown hheld)).forget (List.nil_subset _), by simpa using hlost⟩

theorem leaves_answer (ok : Outcome) (item : QueueItem) (j : Objects) :
    Leaves j (connectionQueueCallbackWait_ ok item j) (Balances ⟨ok, .answer item⟩) := by
  have hstart := grown_start j
  unfold connectionQueueCallbackWait_
  cases hr : ok .response with
  | false => exact leaves_failure (by simp [payloadOf, hr]) (leaves_cleanup ok none none hstart)
  | true =>
    have hresponse := hstart.new
    simp only [new_true]
    cases hi : ok .identifier with
    | false =>
      exact leaves_failure (by simp [payloadOf, hi]) (leaves_cleanup ok (some j.next) none hresponse)
    | true =>
      have hidentifier := hresponse.new.perm (.swap j.next j.new.next [])
      simp only [new_true]
      cases ha : ok .addIdentifier with
      | false =>
        exact leaves_failure (by simp [payloadOf, ha])
          (leaves_cleanup ok (some j.next) (some j.new.next) hidentifier)
      | true =>
        have hidentified := hidentifier.add
        simp only [add_true, Option.elim_some]
        generalize j.new.new.add j.next j.new.next = j₁ at hidentified
        unfold answerItem
        rw [← Prod.eta (protocolEncodeItem ok item j₁)]
        rcases encodeItem_grown ok item hidentified with ⟨hmade, d, hd, hg⟩ | ⟨hmade, hnone, hg⟩
        · rw [hd]
          have hdetail := hg.perm (.swap j.next d [])
          cases hadd : ok .addItem with
          | false =>
            exact leaves_failure (by simp [payloadOf, hadd])
              (leaves_cleanup ok (some j.next) (some d) hdetail)
          | true =>
            exact leaves_success (by simp [payloadOf, hr, hi, ha, hmade, hadd])
              (leaves_payload ok (some j.next) hdetail.add)
        · rw [hnone]
          exact leaves_failure (by simp [payloadOf, hmade])
            (leaves_cleanup ok (some j.next) none hg)

/-- Every reply. -/
theorem build_leaves (b : Building) (j : Objects) : Leaves j (b.build j) (Balances b) := by
  obtain ⟨ok, reply⟩ := b
  cases reply with
  | error => exact leaves_failure rfl (leaves_error ok (grown_start j))
  | list queues => exact leaves_list ok queues j
  | name => exact leaves_name ok j
  | info => exact leaves_info ok j
  | item item => exact leaves_item ok item j
  | done => exact leaves_success rfl (leaves_payload ok none (grown_start j))
  | answer item => exact leaves_answer ok item j

/-! ## Steps -/

/-- What was there before is left. -/
theorem build_old (b : Building) (j : Objects) :
    j.next ≤ (b.build j).next ∧ ∀ id < j.next, (b.build j).get id = j.get id := by
  obtain ⟨_, _, hg, -⟩ := build_leaves b j
  exact hg.old

/-- The objects of a reply are freed once exactly if it balances. -/
theorem build_releasedOnce (b : Building) (j : Objects) :
    ReleasedOnce j (b.build j) ↔ Balances b := by
  obtain ⟨_, _, hg, hb⟩ := build_leaves b j
  exact hg.releasedOnce_iff.trans hb

theorem foldl_old (bs : List Building) (j : Objects) :
    j.next ≤ (bs.foldl Building.build j).next ∧
      ∀ id < j.next, (bs.foldl Building.build j).get id = j.get id := by
  induction bs generalizing j with
  | nil => exact ⟨Nat.le_refl _, fun _ _ => rfl⟩
  | cons b bs ih =>
    obtain ⟨hle, hold⟩ := build_old b j
    obtain ⟨hle', hold'⟩ := ih (b.build j)
    exact ⟨Nat.le_trans hle hle',
      fun id hid => (hold' id (Nat.lt_of_lt_of_le hid hle)).trans (hold id hid)⟩

/-- So are those of several replies: the objects of each are new, and no later
reply has them. -/
theorem foldl_releasedOnce (bs : List Building) (j : Objects) :
    ReleasedOnce j (bs.foldl Building.build j) ↔ ∀ b ∈ bs, Balances b := by
  induction bs generalizing j with
  | nil => exact iff_of_true (fun id hlo hhi => absurd hlo (Nat.not_le.mpr hhi)) (by simp)
  | cons b bs ih =>
    obtain ⟨hle, -⟩ := build_old b j
    obtain ⟨hle', hold⟩ := foldl_old bs (b.build j)
    rw [List.forall_mem_cons, ← build_releasedOnce b j, ← ih (b.build j), List.foldl_cons]
    constructor
    · intro hall
      refine ⟨fun id hlo hhi => ?_, fun id hlo hhi => hall id (Nat.le_trans hle hlo) hhi⟩
      rw [← hold id hhi]
      exact hall id hlo (Nat.lt_of_lt_of_le hhi hle')
    · rintro ⟨hfirst, hrest⟩ id hlo hhi
      rcases Nat.lt_or_ge id (b.build j).next with hid | hid
      · rw [hold id hid]
        exact hfirst id hlo hid
      · exact hrest id hid hhi

/-- The objects of a reply, and those of all replies of a step of the program,
are freed once exactly if the replies balance. -/
theorem replies_releasedOnce_iff (dm : DataModel) (bioRead : CStr → List Char) :
    (∀ b j, ReleasedOnce j (Building.build j b) ↔ Balances b) ∧
      ∀ p i j, ReleasedOnce j (objectsAfter dm bioRead p i j) ↔
        ∀ b ∈ buildings dm bioRead p i, Balances b :=
  ⟨build_releasedOnce, fun p i j => foldl_releasedOnce (buildings dm bioRead p i) j⟩

/-- A request for the list of queues, or one whose method is not supported,
during which one call fails. -/
def listFailing (c : Call) (method : Method) : ProgramInput :=
  .ask (asked .queues [] { request .queues method [] with ok := fun c' => c' != c })

/-- The program with one server, without authentication. -/
def openServer : Program :=
  run (Program.step .lp64 decodeBob) (.startup unread noFiles) [.addServer (fun _ => true) none none]

/-- A list whose reply has no container is freed twice, and the message of a
failure without a status is not freed. -/
theorem replies_not_releasedOnce :
    ¬ ReleasedOnce .empty
        (objectsAfter .lp64 decodeBob openServer (listFailing (.success .container) .get) .empty) ∧
      ¬ ReleasedOnce .empty
        (objectsAfter .lp64 decodeBob openServer (listFailing (.failure .status) .other) .empty) := by
  constructor
  · intro h
    have htwice := h 0 (by decide) (by decide +kernel)
    revert htwice
    decide +kernel
  · intro h
    have hnever := h 0 (by decide) (by decide +kernel)
    revert hnever
    decide +kernel

end DQ.Proof.Refs
