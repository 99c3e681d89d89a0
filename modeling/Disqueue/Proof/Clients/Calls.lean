import Disqueue.Spec.SameClients

/-!
# What calls make of replies

Each call of the TypeScript library, and each of the Python library but `put`,
checks the message that `parse` gives, so that it returns exactly if that says
that the request succeeded (`checked_answers_iff`). `put` returns whatever the
message says (`unchecked_answers_iff`).
-/

namespace DQ.Proof.Clients

open DQ.Model DQ.Spec

variable {reply : Option Json} {parsed : Except Raised ProtocolMessage}
  {f : ProtocolMessage → Except Raised (Option Json)} {members : List (CStr × Json)}

/-! ## Replies -/

theorem not_truthy_python {v : Json} (h : TypeScript.truthy v = false) :
    Python.truthy v = false := by
  cases v with
  | array elems => cases h
  | object members => cases h
  | null | bool b | number text | string s => exact h

theorem succeeded_object :
    Succeeded (some (.object members)) ↔ members.lookup successKey = some (.bool true) := by
  constructor
  · rintro ⟨members', heq, h⟩
    cases heq
    exact h
  · exact fun h => ⟨members, rfl, h⟩

theorem not_succeeded (h : ∀ members, reply ≠ some (.object members)) : ¬ Succeeded reply :=
  fun ⟨members, heq, _⟩ => h members heq

theorem answers_ok {payload : Option Json} : Answers reply (.ok payload) ↔ Succeeded reply := by
  constructor
  · intro h
    by_contra hnot
    obtain ⟨e, he, -⟩ := h.raises hnot
    cases he
  · exact fun h => ⟨fun _ => ⟨payload, rfl⟩, fun hnot => absurd h hnot⟩

theorem answers_error {e : Raised} :
    Answers reply (.error e) ↔ ¬ Succeeded reply ∧ IsQueueException e := by
  constructor
  · intro h
    have hnot : ¬ Succeeded reply := fun hs => by
      obtain ⟨payload, hp⟩ := h.returns hs
      cases hp
    obtain ⟨e', he, hq⟩ := h.raises hnot
    cases he
    exact ⟨hnot, hq⟩
  · exact fun h => ⟨fun hs => absurd hs h.1, fun _ => ⟨e, rfl, h.2⟩⟩

/-! ## Checks -/

/-- What a call does with a message that it checks. -/
def checked {m : Type → Type} [Monad m] (parsed : ExceptT Raised m ProtocolMessage)
    (f : ProtocolMessage → Except Raised (Option Json)) : ExceptT Raised m (Option Json) := do
  let message ← parsed
  message.raiseOnError
  f message

/-- After the check, no exception is raised. -/
def Gives (f : ProtocolMessage → Except Raised (Option Json)) : Prop :=
  ∀ message : ProtocolMessage, message.success = true → ∃ payload, f message = .ok payload

theorem gives_payload : Gives ProtocolMessage.getPayload := by
  intro message h
  exact ⟨message.payload, by rw [ProtocolMessage.getPayload, if_pos h]⟩

theorem gives_none : Gives fun _ => .ok none := fun _ _ => ⟨none, rfl⟩

/-- What is parsed says whether the request succeeded. -/
def Reads (reply : Option Json) : Except Raised ProtocolMessage → Prop
  | .ok message => message.success = true ↔ Succeeded reply
  | .error e => ¬ Succeeded reply ∧ IsQueueException e

theorem checked_answers_iff (hf : Gives f) :
    Answers reply (checked (m := Id) parsed f) ↔ Reads reply parsed := by
  cases parsed with
  | error e => exact answers_error
  | ok message =>
    have hchecked : checked (m := Id) (.ok message) f =
        if message.success then f message else .error (.failed message.message) := by
      obtain ⟨success, text, payload⟩ := message
      cases success <;> rfl
    rw [hchecked, Reads]
    cases hm : message.success with
    | true =>
      obtain ⟨payload, hpayload⟩ := hf message hm
      rw [if_pos rfl, hpayload, answers_ok]
      simp
    | false =>
      rw [if_neg (by simp), answers_error]
      simp [IsQueueException]

/-- What a call does with a message that it does not look at. -/
def unchecked {m : Type → Type} [Monad m] (parsed : ExceptT Raised m ProtocolMessage) :
    ExceptT Raised m (Option Json) := do
  let _ ← parsed
  return none

theorem unchecked_answers_iff :
    Answers reply (unchecked (m := Id) parsed) ↔
      match parsed with
      | .ok _ => Succeeded reply
      | .error e => ¬ Succeeded reply ∧ IsQueueException e := by
  cases parsed with
  | error e => exact answers_error
  | ok message => exact answers_ok

/-! ## The parsers -/

theorem ne_true_of_truthy {v : Json} (h : Python.truthy v = false) : v ≠ .bool true := by
  rintro rfl
  cases h

/-- Python's parser, on objects: it raises an exception only if the request did
not succeed. -/
theorem python_parse_object {v : Json} (hv : members.lookup successKey = some v) :
    Python.parse (some (.object members)) =
      if Python.truthy v then
        .ok ⟨true, none, some ((members.lookup payloadKey).getD (.object []))⟩
      else
        match members.lookup messageKey with
        | none => .error (.missingKey messageKey)
        | some message => .ok ⟨false, some message, none⟩ := by
  unfold Python.parse
  dsimp only
  generalize members.lookup successKey = found at hv ⊢
  subst hv
  rfl

/-- An object that does not say whether the request succeeded. -/
theorem python_parse_missing (hv : members.lookup successKey = none) :
    Python.parse (some (.object members)) = .error (.missingKey successKey) ∧
      ¬ Succeeded (some (.object members)) := by
  rw [succeeded_object, hv]
  exact ⟨by simp only [Python.parse, hv], nofun⟩

theorem python_reads_object :
    Reads (some (.object members)) (Python.parse (some (.object members))) ↔
      ∀ v, members.lookup successKey = some v → v = .bool true ∨ Python.truthy v = false := by
  cases hv : members.lookup successKey with
  | none =>
    obtain ⟨hparse, hnot⟩ := python_parse_missing hv
    rw [hparse]
    exact iff_of_true ⟨hnot, trivial⟩ nofun
  | some v =>
    rw [python_parse_object hv]
    simp only [Option.some.injEq, forall_eq']
    cases ht : Python.truthy v with
    | true =>
      rw [if_pos rfl, Reads, succeeded_object, hv]
      simp
    | false =>
      have hnot : ¬ Succeeded (some (.object members)) := by
        rw [succeeded_object, hv]
        exact fun h => ne_true_of_truthy ht (Option.some.inj h)
      rw [if_neg (by simp)]
      refine iff_of_true ?_ (.inr rfl)
      cases members.lookup messageKey with
      | none => exact ⟨hnot, trivial⟩
      | some message => exact iff_of_false (by simp) hnot

/-- `put`, where the reply is an object. -/
theorem python_put_object :
    Answers (some (.object members)) (unchecked (m := Id) (Python.parse (some (.object members)))) ↔
      ∀ v, members.lookup successKey = some v →
        v = .bool true ∨ Python.truthy v = false ∧ members.lookup messageKey = none := by
  rw [unchecked_answers_iff]
  cases hv : members.lookup successKey with
  | none =>
    obtain ⟨hparse, hnot⟩ := python_parse_missing hv
    rw [hparse]
    exact iff_of_true ⟨hnot, trivial⟩ nofun
  | some v =>
    rw [python_parse_object hv]
    simp only [Option.some.injEq, forall_eq']
    cases ht : Python.truthy v with
    | true =>
      rw [if_pos rfl]
      simp [succeeded_object, hv]
    | false =>
      rw [if_neg (by simp)]
      cases members.lookup messageKey with
      | none => simp [succeeded_object, hv, ne_true_of_truthy ht, IsQueueException]
      | some message => simp [succeeded_object, hv, ne_true_of_truthy ht]

/-- TypeScript's parser, on objects. -/
theorem typeScript_reads_object :
    Reads (some (.object members)) (TypeScript.parse (some (.object members))) ↔
      ∀ v, members.lookup successKey = some v → v = .bool true ∨ TypeScript.truthy v = false := by
  cases hv : members.lookup successKey with
  | none => simp [TypeScript.parse, Reads, succeeded_object, hv]
  | some v =>
    simp only [Option.some.injEq, forall_eq']
    cases ht : TypeScript.truthy v with
    | true => simp [TypeScript.parse, Reads, succeeded_object, hv, ht]
    | false =>
      have hnot := ne_true_of_truthy (not_truthy_python ht)
      simp [TypeScript.parse, Reads, succeeded_object, hv, ht, hnot]

/-- The exceptions of `_request` are those of the library. -/
theorem typeScript_request (url path method : String) (params : List (String × String))
    (auth : Option (String × String)) (reply : Option Json) :
    TypeScript.request (m := Id) (fun _ => reply) url path method params auth =
      TypeScript.catchError (TypeScript.parse reply) := rfl

theorem typeScript_parse_object (members : List (CStr × Json)) :
    ∃ message, TypeScript.parse (some (.object members)) = .ok message := by
  unfold TypeScript.parse
  dsimp only
  split
  · exact ⟨_, rfl⟩
  · exact ⟨_, rfl⟩

/-- What `_request` gives. Where the reply is no object, no request succeeded. -/
theorem typeScript_reads (url path method : String) (params : List (String × String))
    (auth : Option (String × String)) (reply : Option Json) :
    Reads reply (TypeScript.request (m := Id) (fun _ => reply) url path method params auth) ↔
      ∀ members, reply = some (.object members) →
        ∀ v, members.lookup successKey = some v → v = .bool true ∨ TypeScript.truthy v = false := by
  rw [typeScript_request]
  cases reply with
  | none => exact iff_of_true ⟨not_succeeded nofun, trivial⟩ nofun
  | some j =>
    cases j with
    | object members =>
      obtain ⟨message, hmessage⟩ := typeScript_parse_object members
      have hreads : Reads (some (.object members)) (TypeScript.parse (some (.object members))) ↔
        _ := typeScript_reads_object
      rw [hmessage] at hreads ⊢
      simpa [TypeScript.catchError] using hreads
    | null => exact iff_of_true ⟨not_succeeded nofun, trivial⟩ nofun
    | bool b | number text | string text | array elems =>
      exact iff_of_true (iff_of_false (by simp) (not_succeeded nofun)) nofun

/-! ## Calls -/

section
variable (url queueId : String) (auth : Option (String × String)) (call : ClientCall)

/-- Each call of the TypeScript library checks the message. -/
theorem typeScriptCall_answers_iff (reply : Option Json) :
    Answers reply (typeScriptCall (m := Id) url queueId auth (fun _ => reply) call) ↔
      ∀ members, reply = some (.object members) →
        ∀ v, members.lookup successKey = some v → v = .bool true ∨ TypeScript.truthy v = false := by
  cases call with
  | put key value => exact (checked_answers_iff gives_none).trans (typeScript_reads ..)
  | take key => exact (checked_answers_iff gives_payload).trans (typeScript_reads ..)
  | peek key => exact (checked_answers_iff gives_payload).trans (typeScript_reads ..)
  | delete => exact (checked_answers_iff gives_none).trans (typeScript_reads ..)
  | info => exact (checked_answers_iff gives_payload).trans (typeScript_reads ..)
  | create name => exact (checked_answers_iff gives_payload).trans (typeScript_reads ..)
  | list => exact (checked_answers_iff gives_payload).trans (typeScript_reads ..)

/-- Each call of the Python library but `put` checks the message. -/
theorem pythonCall_answers_iff (hput : ∀ key value, call ≠ .put key value) (reply : Option Json) :
    Answers reply (pythonCall (m := Id) url queueId auth (fun _ => reply) call) ↔
      Reads reply (Python.parse reply) := by
  cases call with
  | put key value => exact absurd rfl (hput key value)
  | take key => exact checked_answers_iff gives_payload
  | peek key => exact checked_answers_iff gives_payload
  | delete => exact checked_answers_iff gives_none
  | info => exact checked_answers_iff gives_payload
  | create name => exact checked_answers_iff gives_payload
  | list => exact checked_answers_iff gives_payload

/-- A call whose reply is not parsed raises what the parser raises. -/
theorem pythonCall_error {reply : Option Json} {e : Raised} (he : Python.parse reply = .error e) :
    Answers reply (pythonCall (m := Id) url queueId auth (fun _ => reply) call) ↔
      ¬ Succeeded reply ∧ IsQueueException e := by
  by_cases hput : ∃ key value, call = .put key value
  · obtain ⟨key, value, rfl⟩ := hput
    show Answers reply (unchecked (m := Id) (Python.parse reply)) ↔ _
    rw [he]
    exact answers_error
  · rw [pythonCall_answers_iff _ _ _ _ fun key value heq => hput ⟨key, value, heq⟩, he]
    rfl

/-- Python's calls, where the reply is an object. -/
theorem pythonCall_object (members : List (CStr × Json)) :
    Answers (some (.object members))
        (pythonCall (m := Id) url queueId auth (fun _ => some (.object members)) call) ↔
      ∀ v, members.lookup successKey = some v → v = .bool true ∨ Python.truthy v = false ∧
        ((∃ key value, call = .put key value) → members.lookup messageKey = none) := by
  by_cases hput : ∃ key value, call = .put key value
  · obtain ⟨key, value, rfl⟩ := hput
    exact python_put_object.trans (by simp)
  · rw [pythonCall_answers_iff _ _ _ _ fun key value heq => hput ⟨key, value, heq⟩,
      python_reads_object]
    simp only [hput, false_imp_iff, and_true]

/-- Both libraries answer a call rightly exactly if the reply fits. -/
theorem answers_iff_replyFits (reply : Option Json) :
    Answers reply (pythonCall (m := Id) url queueId auth (fun _ => reply) call) ∧
        Answers reply (typeScriptCall (m := Id) url queueId auth (fun _ => reply) call) ↔
      ReplyFits call reply := by
  rw [typeScriptCall_answers_iff]
  cases reply with
  | none =>
    refine iff_of_true ⟨?_, nofun⟩ trivial
    exact (pythonCall_error url queueId auth call rfl).mpr ⟨not_succeeded nofun, trivial⟩
  | some j =>
    cases j with
    | object members =>
      rw [pythonCall_object]
      simp only [Option.some.injEq, Json.object.injEq, forall_eq', ReplyFits]
      constructor
      · rintro ⟨hpython, htypeScript⟩ v hv
        rcases hpython v hv with htrue | ⟨-, hmessage⟩
        · exact .inl htrue
        · exact (htypeScript v hv).imp_right fun ht => ⟨ht, hmessage⟩
      · intro h
        refine ⟨fun v hv => (h v hv).imp_right fun ⟨ht, hmessage⟩ => ?_, fun v hv =>
          (h v hv).imp_right fun ht => ht.1⟩
        exact ⟨not_truthy_python ht, hmessage⟩
    | null | bool b | number text | string text | array elems =>
      refine iff_of_false (fun h => ?_) id
      exact ((pythonCall_error url queueId auth call rfl).mp h.1).2

end

end DQ.Proof.Clients
