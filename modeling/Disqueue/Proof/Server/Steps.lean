import Disqueue.Proof.Server.Http

/-!
# Messages and steps as acts

A want message, like a request, is a sequence of acts (`message_does`), and so
is each call by the event loop (`step_does`): the invariant holds in every
state of every run (`good_run`).
-/

namespace DQ.Proof.Server

open DQ.Model DQ.Spec DQ.Proof.Queue

variable {dm : DataModel} {s : Server}

/-- A handler that changes nothing but the state outside the queues, calmly. -/
theorem Calm.does {n : Net} (h : Calm s.net n) (hC : AllCounted s.queues) :
    Does s [] { s with net := n } :=
  ⟨[.calm], .single (.calm rfl rfl rfl h (Nat.le_succ _)), rfl, hC⟩

/-- The error of a want message. -/
theorem wsError_does (m : Message) (c : Nat) (message : Failure) (hC : AllCounted s.queues) :
    Does s [] { s with net := connectionWsError_ m.env c message s.net } :=
  (calm_wsError m.env c message s.net).does hC

/-- The want that a message makes. -/
theorem managerQueueWantNew_eq {ok : Outcome} {id client queue : Nat} {identifier : CStr} {w : Want}
    (h : managerQueueWantNew ok id identifier client queue = some w) :
    w = ⟨id, identifier, false, queue, client⟩ := by
  unfold managerQueueWantNew at h
  split at h <;> [cases h; skip]
  split at h <;> [cases h; skip]
  exact (Option.some.inj h).symm

/-- The state after a want that was made has waited, or failed to. -/
def afterWait (m : Message) (c : Nat) (s : Server) (w : Want) (f : Found)
    (t : Queue Nat × (Heap × Net) × Int) : Server :=
  { s with
    queues := f.set t.1
    heap := t.2.1.1
    net :=
      if t.2.2 < 0 then
        connectionWsError_ m.env c .waitForWant
          { t.2.1.2 with wants := managerQueueWantFree w.id t.2.1.2.wants }
      else t.2.1.2 }

/-- A want message fails, or makes a want that waits. -/
theorem callbackWait_cases (dm : DataModel) (m : Message) (c : Nat) (s : Server) :
    (wantReached dm m c s = none ∧ ∃ message, connectionWsCallbackWait dm m c s =
      { s with net := connectionWsError_ m.env c message s.net }) ∨
    ∃ w f key, wantReached dm m c s = some (w, f, key) ∧ s.queues = f.registry ∧
      w.id = s.next ∧ w.client = c ∧ w.queue = f.mq.q.addr ∧
      connectionWsCallbackWait dm m c s = afterWait m c s w f
        (queueWait (connectionQueueCallbackWait_ m.env) m.env.ok key w.id f.mq.q
          (s.heap, withWant s.net w key)) := by
  unfold connectionWsCallbackWait wantReached
  cases connectionWsRead_ m with
  | none => exact .inl ⟨rfl, .readMessage, rfl⟩
  | some request =>
    dsimp only
    cases request.identifier with
    | none => exact .inl ⟨rfl, .noIdentifier, rfl⟩
    | some identifier =>
      dsimp only
      cases hg : managerQueueGet dm (.unused m.env.ok s.next) request.queue false s.queues with
      | none => exact .inl ⟨rfl, .noQueueFound, rfl⟩
      | some f =>
        dsimp only
        cases hw : managerQueueWantNew m.env.ok s.next identifier c f.mq.q.addr with
        | none => exact .inl ⟨rfl, .createWant, rfl⟩
        | some w =>
          have hwe := managerQueueWantNew_eq hw
          refine .inr ⟨w, f, request.key, rfl, managerQueueGet_found hg, ?_⟩
          refine ⟨by rw [hwe], by rw [hwe], by rw [hwe], ?_⟩
          have hn : ({ s.net with wants := s.net.wants ++ [w] } : Net).emit (.want w request.key) =
              withWant s.net w request.key := rfl
          dsimp only
          rw [hn]
          generalize queueWait (connectionQueueCallbackWait_ m.env) m.env.ok request.key w.id f.mq.q
            (s.heap, withWant s.net w request.key) = t
          obtain ⟨q, ⟨h, n⟩, code⟩ := t
          unfold afterWait
          dsimp only
          split <;> rfl

theorem callbackWait_does (hI : Inv s) (hC : AllCounted s.queues) (m : Message) {c : Nat}
    (hc : (s.net.conn c).alive = true) :
    Does s ((wantGives dm m c s).map .matched).toList (connectionWsCallbackWait dm m c s) := by
  unfold wantGives
  rcases callbackWait_cases dm m c s with
    ⟨hr, message, h⟩ | ⟨w, f, key, hr, hf, hid, hclient, hqueue, h⟩
  · rw [hr, h]
    exact wsError_does m c message hC
  · obtain ⟨q', h', n', code, ls, hq, hq', hacts, heff⟩ :=
      wait_acts hI hC hf m.env m.env.ok key hid hqueue (hclient ▸ hc)
    have heff' : effects ls = (((queueTake key f.mq.q s.heap).1.map
        (wantAnswers m.env s.net w)).map Label.matched).toList := by
      rw [heff, Option.map_map]
      rfl
    have hset := allCounted_set (hf ▸ hC) hq'
    rw [hr, h, hq]
    unfold afterWait
    dsimp only
    by_cases hcode : code < 0
    · rw [if_pos hcode] at hacts ⊢
      refine ⟨ls ++ [.calm], hacts.append (.single ?_), ?_, hset⟩
      · exact .calm rfl rfl rfl (calm_wsError m.env c .waitForWant _) (le_refl _)
      · rw [effects_append, heff']
        exact List.append_nil _
    · rw [if_neg hcode] at hacts ⊢
      exact ⟨ls, hacts, heff', hset⟩

/-- What is done after something that changes nothing. -/
theorem Does.after {s₀ s' : Server} {gives : List Label} (h : Emits s [] s₀)
    (hd : Does s₀ gives s') : Does s gives s' := by
  obtain ⟨ls, ha, he, hC⟩ := hd
  rw [h.next] at ha
  exact ⟨.calm :: ls, .cons h.act_same ha, he, hC⟩

/-- A message that wslay delivers. -/
theorem message_does (dm : DataModel) (hI : Inv s) (hC : AllCounted s.queues) {c : Nat}
    (hc : (s.net.conn c).alive = true) (m : Message) :
    Does s ((messageGives dm c s m).map .matched).toList (evwsWslayOnMsgCallback_ dm c s m) := by
  have hquiet : Does s [] s := (Emits.refl s).does hC
  have hdata := emits_quiet s (e := .data c) rfl
  have hwait : Does s ((wantGives dm m c s).map .matched).toList
      (connectionWsCallbackWait dm m c (s.emit (.data c))) :=
    Does.after hdata (callbackWait_does (hI.act hdata.act_same) (hdata.queues ▸ hC) m hc)
  unfold evwsWslayOnMsgCallback_ messageGives isData
  refine Does.next ?_ _
  by_cases h1 : m.opcode / 8 % 2 = 1
  · simpa [h1] using hquiet
  by_cases h2 : m.opcode = 1 ∨ m.opcode = 2
  · cases h3 : m.env.ok .message && m.env.ok .messageBuffer && m.env.ok .messageAdd with
    | false => simpa [h1, h2, h3] using hquiet
    | true => simpa [h1, h2, h3] using hwait
  · simpa [h1, h2] using hquiet

/-- No message makes or frees a connection. -/
theorem message_alive (dm : DataModel) (hI : Inv s) (hC : AllCounted s.queues) {c : Nat}
    (hc : (s.net.conn c).alive = true) (m : Message) (c' : Nat) :
    ((evwsWslayOnMsgCallback_ dm c s m).net.conn c').alive = (s.net.conn c').alive :=
  (message_does dm hI hC hc m).alive (by cases messageGives dm c s m <;> simp) c'

/-- What the messages read at once do to items. -/
def readGives (dm : DataModel) (c : Nat) : Server → List Message → List Label
  | _, [] => []
  | s, m :: ms =>
    ((messageGives dm c s m).map .matched).toList ++
      readGives dm c (evwsWslayOnMsgCallback_ dm c s m) ms

/-- The messages read at once. -/
theorem messages_acts (dm : DataModel) {c : Nat} (ms : List Message) (hI : Inv s) (hC : AllCounted s.queues)
    (hc : (s.net.conn c).alive = true) :
    ∃ ls, Acts s ls (run (evwsWslayOnMsgCallback_ dm c) s ms) ∧
      effects ls = readGives dm c s ms ∧
      AllCounted (run (evwsWslayOnMsgCallback_ dm c) s ms).queues := by
  induction ms generalizing s with
  | nil => exact ⟨[], .nil s, rfl, hC⟩
  | cons m ms ih =>
    have hal := message_alive dm hI hC hc m c
    obtain ⟨ls, ha, he, hC'⟩ := message_does dm hI hC hc m
    have ha : Acts s ls (evwsWslayOnMsgCallback_ dm c s m) := ha
    obtain ⟨ls', ha', he', hC''⟩ := ih (ha.keeps hI) hC' (hal.trans hc)
    exact ⟨ls ++ ls', ha.append ha', by rw [effects_append, he, he']; rfl, hC''⟩

/-! ## Steps -/

/-- What a call by the event loop does to items and connections. -/
def stepGives (dm : DataModel) (s : Server) : Input → List Label
  | .http r => httpGives dm r s
  | .opened => [.connection]
  | .read c msgs _ _ =>
    if (s.net.conn c).alive && !(s.net.conn c).closing then readGives dm c s msgs else []
  | .drained _ => []
  | .event c _ _ _ => if (s.net.conn c).alive then [.connection] else []

/-- Sending a close message is calm. -/
theorem calm_sendClose (e : Wslay) (c : Nat) (n : Net) :
    Calm n (evwsConnectionSendClose_ e c n) := by
  unfold evwsConnectionSendClose_
  split
  · exact Calm.refl n
  · split
    · exact calm_evwsClose c n
    · exact calm_write e c n

/-- Freeing a connection eases wants and is not notable. -/
theorem free_eased (e : Wslay) (c : Nat) (n : Net) :
    List.Forall₂ Eased n.wants (evwsConnectionFree e c n).wants ∧
      trace (evwsConnectionFree e c n) = trace n := by
  unfold evwsConnectionFree
  split
  · have h := calm_sendClose e c n
    exact ⟨h.wants, h.trace⟩
  · exact ⟨eased_refl _, rfl⟩

theorem event_eased (e : Wslay) (c : Nat) (eof error : Bool) (n : Net) :
    List.Forall₂ Eased n.wants (evwsConnectionEventCb_ e c eof error n).wants ∧
      trace (evwsConnectionEventCb_ e c eof error n) = trace n := by
  have after : ∀ {n'}, Calm n n' → List.Forall₂ Eased n.wants (evwsConnectionFree e c n').wants ∧
      trace (evwsConnectionFree e c n') = trace n := by
    intro n' h
    obtain ⟨h1, h2⟩ := free_eased e c n'
    exact ⟨eased_trans h.wants h1, h2.trans h.trace⟩
  unfold evwsConnectionEventCb_
  split
  · split
    · exact after (calm_close c n)
    · exact after (Calm.refl n)
  · split
    · exact after (calm_error c n)
    · exact after (Calm.refl n)

/-- Each call by the event loop is a sequence of acts. -/
theorem step_does (dm : DataModel) (hI : Inv s) (hC : AllCounted s.queues) (i : Input) :
    ∃ ls, Acts s ls (s.step dm i) ∧ effects ls = stepGives dm s i ∧
      AllCounted (s.step dm i).queues := by
  cases i with
  | http r => exact http_does hI hC
  | opened =>
    exact ⟨[.connection], .single (.connected rfl rfl rfl (eased_refl _) rfl (Nat.le_succ _)),
      rfl, hC⟩
  | read c msgs recv e =>
    dsimp only [Server.step, stepGives]
    split
    · rename_i hg
      obtain ⟨ls, ha, he, hC'⟩ :=
        messages_acts dm (c := c) msgs hI hC (Bool.and_eq_true _ _ |>.mp hg).1
      refine ⟨ls ++ [.calm], ha.append (.single ?_), by rw [effects_append, he]; simp, hC'⟩
      unfold evwsConnectionReadCb_
      refine .calm rfl rfl rfl ?_ (le_refl _)
      split
      · exact calm_evwsClose c _
      · exact calm_write e c _
    · exact ⟨[], .nil s, rfl, hC⟩
  | drained c =>
    dsimp only [Server.step, stepGives]
    split
    · exact ⟨[.calm], .single (.calm rfl rfl rfl (calm_evwsClose c s.net) (le_refl _)), rfl, hC⟩
    · exact ⟨[], .nil s, rfl, hC⟩
  | event c eof error e =>
    dsimp only [Server.step, stepGives]
    split
    · obtain ⟨hw, ht⟩ := event_eased e c eof error s.net
      exact ⟨[.connection], .single (.connected rfl rfl rfl hw ht (le_refl _)), rfl, hC⟩
    · exact ⟨[], .nil s, rfl, hC⟩

/-- The invariant, and the counters. -/
def Good (s : Server) : Prop := Inv s ∧ AllCounted s.queues

theorem good_startup : Good .startup := ⟨inv_startup, fun _ hm => by cases hm⟩

theorem good_step (i : Input) (h : Good s) : Good (s.step dm i) := by
  obtain ⟨ls, ha, -, hC⟩ := step_does dm h.1 h.2 i
  exact ⟨ha.keeps h.1, hC⟩

/-- Every state of every run is good. -/
theorem good_run (dm : DataModel) (is : List Input) : Good (run (Server.step dm) .startup is) :=
  run_inv (fun _ i h => good_step i h) good_startup is

/-! ## Clients whose requests succeed -/

/-- wslay takes and sends everything. -/
def wslayOk : Wslay := ⟨0, 0, false, 0, false⟩

/-- Everything sent is sent. -/
def sendingOk : Sending := ⟨allOk, wslayOk⟩

/-- A request during which nothing fails. -/
def request (path : Path) (method : Method) (params : List (CStr × CStr)) : Request :=
  ⟨path, method, params, allOk, fun _ => 0, fun _ => 0, sendingOk⟩

/-- The id that `request` makes for a queue without a name. -/
def madeId : CStr := queueGetUuid .lp64 (randomUuid fun _ => 0)

/-- `POST /queues`, without a name. -/
def postQueues : Input := .http (request .queues .post [])

/-- A put into that queue. -/
def putValue : Input := .http (request .put .post [(nameKey, madeId), (valueKey, ['v'])])

/-- A message that wants an item of that queue. -/
def wantMessage : Message := ⟨1, some ⟨some ['i'], some madeId, none⟩, sendingOk⟩

end DQ.Proof.Server
