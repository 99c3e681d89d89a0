import Disqueue.Proof.Clients.Calls
import Disqueue.Spec.Session

/-!
# The request of a call

A call of either library sends one request (`clientRequest`, `call_sends`),
which the server reads as the call's request to the service (`request_ask`): its
parameters, up to their first NUL (`request_params`), since percent-encoding a
text and decoding it gives its bytes.
-/

namespace DQ.Proof.Clients

open DQ.Model DQ.Spec

/-! ## The fields of a body -/

theorem uriPlain_safe (c : Char) (h : TypeScript.uriPlain c = true) :
    (c ≠ '%' ∧ c ≠ '+') ∧ c ≠ '&' ∧ c ≠ '=' := by
  refine ⟨⟨?_, ?_⟩, ?_, ?_⟩ <;>
  · rintro rfl
    exact absurd h (by decide)

theorem quotePlain_safe (c : Char) (h : Python.quotePlain c = true) :
    (c ≠ '%' ∧ c ≠ '+') ∧ c ≠ '&' ∧ c ≠ '=' := by
  refine ⟨⟨?_, ?_⟩, ?_, ?_⟩ <;>
  · rintro rfl
    exact absurd h (by decide)

/-- The names of parameters. -/
def fieldNames : List String := ["value", "key", "name"]

theorem fieldNames_plain : ∀ name ∈ fieldNames, name.toList ≠ [] ∧
    (∀ c ∈ name.toList, c.isAlpha = true) ∧ TypeScript.encodeURIComponent name = name.toList ∧
    Python.quotePlus name = name.toList := by
  intro name hname
  simp only [fieldNames, List.mem_cons, List.not_mem_nil, or_false] at hname
  rcases hname with rfl | rfl | rfl <;>
  exact ⟨by decide, List.all_eq_true.mp (by decide), rfl, rfl⟩

/-- The parameters as the server should read them. -/
def readParams (params : List (String × String)) : List (CStr × CStr) :=
  params.map fun p => (p.1.toList, received p.2)

/-- A body of fields whose values are encoded by `quote`. -/
theorem fields_read (h : HttpLayer) {quote : String → CStr}
    (hquote : ∀ s, percentDecode (quote s) = chars (utf8 s))
    (hsafe : ∀ s, ∀ c ∈ quote s, c ≠ '&' ∧ c ≠ '=')
    (hname : ∀ name ∈ fieldNames, quote name = name.toList) {params : List (String × String)}
    (hp : ∀ p ∈ params, p.1 ∈ fieldNames) :
    h.parseQueryStr (formFields (params.map fun p => (quote p.1, quote p.2))) =
      readParams params := by
  have hfields : ∀ f ∈ params.map fun p => (quote p.1, quote p.2), f.1 ≠ [] ∧
      (∀ c ∈ f.1, c.isAlpha = true) ∧ ∀ c ∈ f.2, c ≠ '&' ∧ c ≠ '=' := by
    intro f hf
    obtain ⟨p, hpm, rfl⟩ := List.mem_map.mp hf
    obtain ⟨hne, halpha, -⟩ := fieldNames_plain p.1 (hp p hpm)
    exact ⟨hname p.1 (hp p hpm) ▸ hne, hname p.1 (hp p hpm) ▸ halpha, hsafe p.2⟩
  rw [h.parses _ hfields, List.map_map]
  refine List.map_congr_left fun p hpm => ?_
  simp only [Function.comp_apply, hname p.1 (hp p hpm), hquote, received]

/-- What the server reads of a library's body. -/
theorem request_params (h : HttpLayer) (lib : Library) {params : List (String × String)}
    (hp : ∀ p ∈ params, p.1 ∈ fieldNames) :
    h.parseQueryStr (h.body lib params) = readParams params := by
  cases lib with
  | python =>
    rw [HttpLayer.body, h.urlencodes]
    exact fields_read h (fun s => percentDecode_encode (fun c hc => (quotePlain_safe c hc).1) _)
      (fun s => percentEncode_separators (fun c hc => (quotePlain_safe c hc).2) _)
      (fun name hn => (fieldNames_plain name hn).2.2.2) hp
  | typeScript =>
    exact fields_read h (fun s => percentDecode_encode (fun c hc => (uriPlain_safe c hc).1) _)
      (fun s => percentEncode_separators (fun c hc => (uriPlain_safe c hc).2) _)
      (fun name hn => (fieldNames_plain name hn).2.2.1) hp

/-- A parameter is found under its name. -/
theorem find_readParams {params : List (String × String)} (hp : ∀ p ∈ params, p.1 ∈ fieldNames)
    (name : String) (hname : name ∈ fieldNames) :
    evhttpFindHeader (readParams params) name.toList = (params.lookup name).map received := by
  have heq : ∀ a ∈ fieldNames, ∀ b ∈ fieldNames, strcaseEq a.toList b.toList = (b == a) := by
    decide
  unfold evhttpFindHeader readParams
  induction params with
  | nil => rfl
  | cons p params ih =>
    obtain ⟨key, text⟩ := p
    rw [List.map_cons, List.find?_cons, List.lookup_cons,
      heq key (hp (key, text) List.mem_cons_self) name hname]
    cases name == key with
    | true => rfl
    | false => exact ih fun p hpm => hp p (List.mem_cons_of_mem _ hpm)

/-! ## The request of a call -/

section
variable {σ : Type} {st st' : σ}

/-- What a call does with a reply it does in any monad. -/
theorem checked_run {parsed : ExceptT Raised (StateM σ) ProtocolMessage}
    {result : Except Raised ProtocolMessage} (h : parsed.run.run st = (result, st'))
    (f : ProtocolMessage → Except Raised (Option Json)) :
    (checked parsed f).run.run st = (checked (m := Id) result f, st') := by
  simp only [checked, ExceptT.run_bind, StateT.run_bind, h]
  cases result with
  | error e => rfl
  | ok message =>
    obtain ⟨success, text, payload⟩ := message
    cases success <;> rfl

theorem unchecked_run {parsed : ExceptT Raised (StateM σ) ProtocolMessage}
    {result : Except Raised ProtocolMessage} (h : parsed.run.run st = (result, st')) :
    (unchecked parsed).run.run st = (unchecked (m := Id) result, st') := by
  simp only [unchecked, ExceptT.run_bind, StateT.run_bind, h]
  cases result <;> rfl

/-- Sending a request and parsing its reply. -/
theorem parsed_run (send : ClientRequest → StateM σ (Option Json)) (st : σ)
    (parse : Option Json → Except Raised ProtocolMessage) (c : ClientRequest) :
    (do parse (← liftM (send c)) : ExceptT Raised (StateM σ) ProtocolMessage).run.run st =
      (parse ((send c).run st).1, ((send c).run st).2) := rfl

end

section
variable (url queueId : String) (auth : Option (String × String))

/-- The parameters with the key. -/
def withKey : Library → List (String × String) → Option String → List (String × String)
  | .python => Python.withKey
  | .typeScript => TypeScript.withKey

/-- The request that a call sends. -/
def clientRequest (lib : Library) : ClientCall → ClientRequest
  | .put key value =>
    ⟨url, "/put", "POST", withKey lib [("value", value)] key ++ [("name", queueId)], auth⟩
  | .take key => ⟨url, "/take", "POST", withKey lib [] key ++ [("name", queueId)], auth⟩
  | .peek key => ⟨url, "/peek", "POST", withKey lib [] key ++ [("name", queueId)], auth⟩
  | .delete => ⟨url, "/queue", "DELETE", [("name", queueId)], auth⟩
  | .info => ⟨url, "/queue", "POST", [("name", queueId)], auth⟩
  | .create name =>
    ⟨url, "/queues", "POST", ((createName lib name).map fun n => ("name", n)).toList, auth⟩
  | .list => ⟨url, "/queues", "GET", [], auth⟩

/-- A call sends its request and no other, and reads the reply as it reads one
that it is given. -/
theorem call_sends {σ : Type} (lib : Library) (send : ClientRequest → StateM σ (Option Json))
    (call : ClientCall) (st : σ) :
    (libraryCall url queueId auth lib send call).run.run st =
      (libraryCall (m := Id) url queueId auth lib
          (fun _ => ((send (clientRequest url queueId auth lib call)).run st).1) call,
        ((send (clientRequest url queueId auth lib call)).run st).2) := by
  cases lib with
  | python =>
    have hparse := parsed_run send st Python.parse
    cases call with
    | put key value => exact unchecked_run (hparse _)
    | delete => exact checked_run (hparse _) fun _ => .ok none
    | take key | peek key | info | create name | list =>
      exact checked_run (hparse _) ProtocolMessage.getPayload
  | typeScript =>
    have hparse := parsed_run send st (TypeScript.catchError ∘ TypeScript.parse)
    cases call with
    | put key value => exact checked_run (hparse _) fun _ => .ok none
    | delete => exact checked_run (hparse _) fun _ => .ok none
    | take key | peek key | info | create name | list =>
      exact checked_run (hparse _) ProtocolMessage.getPayload

theorem clientRequest_names (lib : Library) (call : ClientCall) :
    ∀ p ∈ (clientRequest url queueId auth lib call).params, p.1 ∈ fieldNames := by
  cases call with
  | put key value =>
    cases lib <;> cases key <;> simp [clientRequest, withKey, Python.withKey, TypeScript.withKey, fieldNames]
  | take key =>
    cases lib <;> cases key <;> simp [clientRequest, withKey, Python.withKey, TypeScript.withKey, fieldNames]
  | peek key =>
    cases lib <;> cases key <;> simp [clientRequest, withKey, Python.withKey, TypeScript.withKey, fieldNames]
  | delete => simp [clientRequest, fieldNames]
  | info => simp [clientRequest, fieldNames]
  | create name => cases hn : createName lib name <;> simp [clientRequest, fieldNames, hn]
  | list => simp [clientRequest]

/-- The server gets a request, which is the one of the call. -/
theorem request_ask (dm : DataModel) (h : HttpLayer) (lib : Library) (env : Env)
    (call : ClientCall) :
    ∃ r, h.request lib env (clientRequest url queueId auth lib call) = some r ∧
      r.ok = env.ok ∧ r.answer = env.answer ∧ askOf dm r = askFor dm lib env queueId call := by
  have hnames := clientRequest_names url queueId auth lib call
  have hname : evhttpFindHeader _ nameKey = _ := find_readParams hnames "name" (by decide)
  have hkey : evhttpFindHeader _ keyKey = _ := find_readParams hnames "key" (by decide)
  have hvalue : evhttpFindHeader _ valueKey = _ :=
    find_readParams hnames "value" (by decide)
  unfold HttpLayer.request
  rw [request_params h lib hnames]
  generalize readParams (clientRequest url queueId auth lib call).params = params
    at hname hkey hvalue ⊢
  cases call with
  | put key value =>
    refine ⟨_, rfl, rfl, rfl, ?_⟩
    show Ask.put (evhttpFindHeader params nameKey) (evhttpFindHeader params keyKey)
      (evhttpFindHeader params valueKey) _ = _
    rw [hname, hkey, hvalue]
    cases lib <;> cases key <;> rfl
  | take key =>
    refine ⟨_, rfl, rfl, rfl, ?_⟩
    show Ask.take (evhttpFindHeader params nameKey) (evhttpFindHeader params keyKey) = _
    rw [hname, hkey]
    cases lib <;> cases key <;> rfl
  | peek key =>
    refine ⟨_, rfl, rfl, rfl, ?_⟩
    show Ask.peek (evhttpFindHeader params nameKey) (evhttpFindHeader params keyKey) = _
    rw [hname, hkey]
    cases lib <;> cases key <;> rfl
  | delete =>
    refine ⟨_, rfl, rfl, rfl, ?_⟩
    show Ask.delete (evhttpFindHeader params nameKey)
      (newId dm ⟨.queue, .delete, params, env.ok, env.rand, env.stack, env.answer⟩) = _
    unfold newId
    rw [hname]
    rfl
  | info =>
    refine ⟨_, rfl, rfl, rfl, ?_⟩
    show Ask.info (evhttpFindHeader params nameKey) = _
    rw [hname]
    rfl
  | create name =>
    refine ⟨_, rfl, rfl, rfl, ?_⟩
    show Ask.create (evhttpFindHeader params nameKey)
      (newId dm ⟨.queues, .post, params, env.ok, env.rand, env.stack, env.answer⟩) = _
    unfold newId
    rw [hname]
    simp only [clientRequest, askFor]
    cases createName lib name <;> rfl
  | list => exact ⟨_, rfl, rfl, rfl, rfl⟩

end

end DQ.Proof.Clients
