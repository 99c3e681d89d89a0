import Disqueue.Proof.Clients.Form
import Disqueue.Proof.Clients.Layer
import Disqueue.Proof.Service.Refines

/-!
# Sessions on the server

A request of a library is answered with the value or the failure of the
service's operation (`ask_replies`), which the library's call returns or raises
(`call_returns`). So a session of calls of both libraries, with anything else
that happens to the server between them, is a session on the service
(`session_refines`).
-/

namespace DQ.Proof.Clients

open DQ.Model DQ.Spec DQ.Proof.Server DQ.Proof.Service

variable {t : Service}

/-! ## Replies -/

/-- The reply of a request, with the messages before it. -/
inductive Replied (t : Service) (a : Ask) (ms : List Sent) : List Sent → Prop
  | refused (code : Nat) (f : Failure) (h : t.call a = .error f) :
    Replied t a ms (ms ++ Service.refuse code f)
  | granted (v : Value) (h : t.call a = .ok v) : Replied t a ms (ms ++ Service.grant (v.json id))

theorem send_messages (c : Nat) (fate : LinkFate) (json : Json) (t : Service) :
    ∀ o ∈ (t.send c fate json).2, o.isMessage = true := by
  unfold Service.send
  intro o ho
  split at ho
  · split at ho
    · split at ho
      · cases ho
      · rw [List.mem_singleton.mp ho]
        rfl
      · rw [List.mem_singleton.mp ho]
        rfl
    · cases ho
  · cases ho

/-- A request causes messages, and then its reply. -/
def AskReplies (t : Service) (a : Ask) : Prop :=
  ∃ ms, (∀ o ∈ ms, o.isMessage = true) ∧ Replied t a ms (t.ask a).2

/-- A request that is answered as its operation is, and causes no message. -/
theorem granted_alone {a : Ask} {v : Value} (hcall : t.call a = .ok v)
    (hask : (t.ask a).2 = Service.grant (v.json id)) : AskReplies t a :=
  ⟨[], List.forall_mem_nil _, hask ▸ .granted v hcall⟩

theorem refused_alone {a : Ask} {f : Failure} (code : Nat) (hcall : t.call a = .error f)
    (hask : (t.ask a).2 = Service.refuse code f) : AskReplies t a :=
  ⟨[], List.forall_mem_nil _, hask ▸ .refused code f hcall⟩

/-- The name that a request looks up, and the id that a queue made under it
gets. -/
def lookedUp : Ask → Option (Option CStr × Option (Option CStr))
  | .create name made | .delete name made => some (name, some made)
  | .info name | .take name _ | .peek name _ | .put name _ _ _ => some (name, none)
  | .list | .unsupported => none

/-- A request and its operation fail alike if the lookup fails. -/
theorem lookup_error {a : Ask} {name : Option CStr} {makes : Option (Option CStr)}
    {e : Nat × Failure} (ha : lookedUp a = some (name, makes))
    (hl : Service.lookup name makes t.rooms = .error e) :
    t.call a = .error e.2 ∧ (t.ask a).2 = Service.refuse e.1 e.2 := by
  cases a <;> cases ha <;> simp only [Service.call, Service.ask, hl, and_self]

/-- A request that finds its room. -/
theorem lookup_replies {a : Ask} {name : Option CStr} {makes : Option (Option CStr)}
    {p : Service.Place} (ha : lookedUp a = some (name, makes))
    (hl : Service.lookup name makes t.rooms = .ok p) : AskReplies t a := by
  cases a with
  | list | unsupported => cases ha
  | create name made =>
    cases ha
    have hcall : t.call (.create name made) = .ok (.text p.room.name) := by
      simp only [Service.call, hl]
    exact granted_alone hcall (by simp only [Service.ask, hl]; rfl)
  | info name =>
    cases ha
    have hcall : t.call (.info name) = .ok (.info p.room.name) := by
      simp only [Service.call, hl]
    exact granted_alone hcall (by simp only [Service.ask, hl]; rfl)
  | delete name made =>
    cases ha
    have hcall : t.call (.delete name made) = .ok .nothing := by simp only [Service.call, hl]
    exact granted_alone hcall (by simp only [Service.ask, hl]; rfl)
  | take name key =>
    cases ha
    rcases ht : p.room.line.take entryWants key with ⟨line, _ | x⟩
    · have hcall : t.call (.take name key) = .error .noItemToTake := by
        simp only [Service.call, hl, ht]
      exact refused_alone 404 hcall (by simp only [Service.ask, hl, ht])
    · have hcall : t.call (.take name key) = .ok (.entry x) := by
        simp only [Service.call, hl, ht]
      exact granted_alone hcall (by simp only [Service.ask, hl, ht]; rfl)
  | peek name key =>
    cases ha
    cases ht : p.room.line.peek entryWants key with
    | none =>
      have hcall : t.call (.peek name key) = .error .noItemToPeek := by
        simp only [Service.call, hl, ht]
      exact refused_alone 404 hcall (by simp only [Service.ask, hl, ht])
    | some x =>
      have hcall : t.call (.peek name key) = .ok (.entry x) := by
        simp only [Service.call, hl, ht]
      exact granted_alone hcall (by simp only [Service.ask, hl, ht]; rfl)
  | put name key value fate =>
    cases ha
    cases value with
    | none =>
      have hcall : t.call (.put name key none fate) = .error .missingValue := by
        simp [Service.call, hl]
      exact refused_alone 400 hcall (by simp only [Service.ask, hl])
    | some value =>
      have hcall : t.call (.put name key (some value) fate) = .ok .nothing := by
        simp [Service.call, hl]
      rcases hp : p.room.line.put entryWants Waiter.key ⟨key, value⟩ with ⟨line, _ | w⟩
      · exact granted_alone hcall (by simp only [Service.ask, hl, hp]; rfl)
      · have hask : (t.ask (.put name key (some value) fate)).2 =
            (Service.send w.client fate
              (successJson (some (answerJson w.identifier (entryJson key value))))
              { t with rooms := p.set line }).2 ++ Service.grant none := by
          simp only [Service.ask, hl, hp]
        unfold AskReplies
        rw [hask]
        exact ⟨_, send_messages _ _ _ _, Replied.granted _ hcall⟩

/-- A request gets one reply, with the value or the failure of the operation. -/
theorem ask_replies (t : Service) (a : Ask) : AskReplies t a := by
  cases ha : lookedUp a with
  | some looked =>
    obtain ⟨name, makes⟩ := looked
    cases hl : Service.lookup name makes t.rooms with
    | error e =>
      obtain ⟨hcall, hask⟩ := lookup_error ha hl
      exact refused_alone e.1 hcall hask
    | ok p => exact lookup_replies ha hl
  | none =>
    cases a with
    | list => exact granted_alone (v := .texts (t.rooms.map (·.name))) rfl rfl
    | unsupported => exact refused_alone 405 rfl rfl
    | create | info | delete | take | peek | put => cases ha

/-! ## Reading a reply -/

section
variable (h : HttpLayer)

/-- A text whose characters are its bytes is decoded to itself. -/
theorem decode_bytes {s : String} (hs : chars (utf8 s) = s.toList) :
    h.decode s.toList = s.toList :=
  (congrArg h.decode hs.symm).trans (h.decodes s)

theorem decode_failure (f : Failure) : h.decode f.text.toList = f.text.toList :=
  decode_bytes h (by cases f <;> rfl)

/-- So are the names of the members. -/
theorem decode_member :
    ∀ name ∈ [successKey, messageKey, payloadKey, keyKey, valueKey, nameKey],
      h.decode name = name := by
  intro name hname
  have hnames : ∀ s ∈ ["success", "message", "payload", "key", "value", "name"],
      chars (utf8 s) = s.toList := by decide
  obtain ⟨s, hs, rfl⟩ : ∃ s ∈ ["success", "message", "payload", "key", "value", "name"],
      s.toList = name := List.mem_map.mp hname
  exact decode_bytes h (hnames s hs)

theorem mapText_success (payload : Option Json) :
    (successJson payload).mapText h.decode = successJson (payload.map (Json.mapText h.decode)) := by
  cases payload <;>
    simp [successJson, baseJson, Json.mapText, Json.mapText.mapMembers, decode_member]

theorem mapText_failure (f : Failure) : (failureJson f).mapText h.decode = failureJson f := by
  simp [failureJson, baseJson, Json.mapText, Json.mapText.mapMembers, decode_member,
    decode_failure]

theorem mapText_elems (l : List CStr) :
    Json.mapText.mapElems h.decode (l.map .string) = l.map fun s => .string (h.decode s) := by
  induction l with
  | nil => rfl
  | cons s l ih =>
    rw [List.map_cons, Json.mapText.mapElems, ih]
    rfl

/-- The value sent is read as the value. -/
theorem mapText_value (v : Value) :
    (v.json id).map (Json.mapText h.decode) = v.json h.decode := by
  cases v with
  | nothing => rfl
  | entry x =>
    cases hk : x.key <;>
      simp [Value.json, Json.mapText, Json.mapText.mapMembers, decode_member, hk]
  | text s => rfl
  | texts l => simp [Value.json, Json.mapText, mapText_elems]
  | info name => simp [Value.json, Json.mapText, Json.mapText.mapMembers, decode_member]

/-- The reply is read after the messages. -/
theorem reply_read {ms : List Sent} (hms : ∀ o ∈ ms, o.isMessage = true) (code : Nat)
    (json : Json) : h.reply (ms ++ [.reply code json]) = some (json.mapText h.decode) := by
  unfold HttpLayer.reply
  rw [List.findSome?_append, List.findSome?_eq_none_iff.mpr, Option.none_or]
  · rfl
  · intro o ho
    cases o with
    | message c json => rfl
    | reply code json => cases hms _ ho

/-! ## The result of a call -/

variable (dm : DataModel) (url queueId : String) (auth : Option (String × String))

/-- A call whose result is a payload. -/
def givesValue : ClientCall → Bool
  | .put .. | .delete => false
  | _ => true

/-- The value of a call is a payload, if the call gives one. -/
theorem call_value (lib : Library) (env : Env) (call : ClientCall) {v : Value}
    (hv : t.call (askFor dm lib env queueId call) = .ok v) (decode : CStr → CStr) :
    (v.json decode).isSome = givesValue call := by
  cases call with
  | list =>
    cases hv
    rfl
  | create | info | delete =>
    simp only [askFor, Service.call] at hv
    split at hv <;> cases hv
    rfl
  | take | peek =>
    simp only [askFor, Service.call] at hv
    split at hv <;> [cases hv; skip]
    split at hv <;> cases hv
    rfl
  | put key value =>
    simp only [askFor, Service.call, Option.isSome_some, if_true] at hv
    split at hv <;> cases hv
    rfl

/-- A call returns the value of a success. -/
theorem returns_value (lib : Library) (call : ClientCall) {payload : Option Json}
    (hp : payload.isSome = givesValue call) :
    libraryCall (m := Id) url queueId auth lib (fun _ => some (successJson payload)) call =
      .ok payload := by
  cases lib <;> cases call <;> cases payload <;> first | rfl | simp [givesValue] at hp

/-- A call raises an exception with the text of a failure, but for Python's
`put`. -/
theorem raises_failure (lib : Library) (call : ClientCall) (f : Failure) (decode : CStr → CStr) :
    libraryCall (m := Id) url queueId auth lib (fun _ => some (failureJson f)) call =
      returned decode lib call (.error f) := by
  cases lib <;> cases call <;> rfl

/-- A call gives the value or the failure that its request was answered with. -/
theorem call_returns (lib : Library) (env : Env) (call : ClientCall) {ms out : List Sent}
    (hms : ∀ o ∈ ms, o.isMessage = true)
    (hout : Replied t (askFor dm lib env queueId call) ms out) :
    libraryCall (m := Id) url queueId auth lib (fun _ => h.reply out) call =
      returned h.decode lib call (t.call (askFor dm lib env queueId call)) := by
  cases hout with
  | refused code f hf =>
    rw [hf, Service.refuse, reply_read h hms, mapText_failure]
    exact raises_failure url queueId auth lib call f h.decode
  | granted v hv =>
    rw [hv, Service.grant, reply_read h hms, mapText_success, mapText_value]
    exact returns_value url queueId auth lib call
      (call_value dm queueId lib env call hv h.decode)

/-! ## Sessions -/

theorem session_call {s : Server} (hst : Refined s t) (lib : Library) (call : ClientCall)
    {env : Env} (henv : ActHolds (.call lib queueId call env)) :
    Refined (serverSession dm h url auth s (.call lib queueId call env)).1
        (serviceSession dm h t (.call lib queueId call env)).1 ∧
      (serverSession dm h url auth s (.call lib queueId call env)).2 =
        (serviceSession dm h t (.call lib queueId call env)).2 := by
  obtain ⟨r, hr, hok, hans, hask⟩ := request_ask url queueId auth dm h lib env call
  have hnf : NothingFails (.http r) := ⟨hok ▸ henv.1, hans ▸ henv.2⟩
  obtain ⟨hrel, hout⟩ := follows dm s t (.http r) hst hnf
  have hcall : callOf dm (.http r) = .ask (askFor dm lib env queueId call) := congrArg _ hask
  rw [hcall] at hrel hout
  obtain ⟨ms, hms, hrep⟩ := ask_replies t (askFor dm lib env queueId call)
  have hsend : (sendRequest dm h lib env (clientRequest url queueId auth lib call)).run (s, []) =
      (h.reply (server dm s (.http r)).2, (server dm s (.http r)).1,
        (server dm s (.http r)).2) := by
    simp only [sendRequest, StateT.run, hr, List.nil_append]
  have hret := call_returns h dm url queueId auth lib env call hms hrep
  simp only [serverSession, serviceSession]
  rw [call_sends, hsend]
  simp only [hout] at hret ⊢
  refine ⟨hrel, ?_⟩
  exact congrArg (fun r => messagesOf _ ++ [Seen.result r]) hret

theorem session_follows :
    Machine.Follows Refined ActHolds id (serverSession dm h url auth) (serviceSession dm h) := by
  intro s t act hst hact
  cases act with
  | call lib queueId call env => exact session_call h dm url queueId auth hst lib call hact
  | event i =>
    obtain ⟨hrel, hout⟩ := follows dm s t i hst hact
    exact ⟨hrel, congrArg _ hout⟩

/-- A session with the server is one with the service. -/
theorem session_refines (acts : List Act) (hacts : ∀ act ∈ acts, ActHolds act) :
    (serverSession dm h url auth).answers .startup acts =
      (serviceSession dm h).answers .empty acts := by
  have hrun := (session_follows h dm url auth).answers ⟨ready_startup, view_startup⟩ hacts
  rwa [List.map_id] at hrun

end

/-! ## A session -/

/-- A request during which nothing fails. -/
def envOk : Env := ⟨allOk, fun _ => 0, fun _ => 0, sendingOk⟩

/-- The id of the queue that it makes. -/
def madeText : String := "00000000-0000-4000-8000-000000000000"

/-- One library makes a queue and puts into it, and the other takes. -/
def createPutTake : List Act :=
  [.call .python "" (.create none) envOk, .call .python madeText (.put none "a&b") envOk,
    .event .opened, .call .typeScript madeText (.take none) envOk]

theorem createPutTake_holds : ∀ act ∈ createPutTake, ActHolds act := by
  intro act hact
  simp only [createPutTake, List.mem_cons, List.not_mem_nil, or_false] at hact
  rcases hact with rfl | rfl | rfl | rfl
  · exact ⟨fun _ => rfl, fun _ => rfl⟩
  · exact ⟨fun _ => rfl, fun _ => rfl⟩
  · trivial
  · exact ⟨fun _ => rfl, fun _ => rfl⟩

theorem session_refines_createPutTake :
    (serverSession .lp64 httpLayer "" none).answers .startup createPutTake =
      [[.result (.ok (some (.string madeText.toList)))], [.result (.ok none)], [],
        [.result (.ok (some (.object [(keyKey, .null), (valueKey, .string "a&b".toList)])))]] := by
  refine (session_refines httpLayer .lp64 "" none createPutTake createPutTake_holds).trans ?_
  rfl

end DQ.Proof.Clients
