import Disqueue.Proof.Wants.Shift
import Disqueue.Proof.Ws.Ended
import Disqueue.Spec.Paired

/-!
# Connections that are reported to have ended

The close and error callbacks are called for a connection when a message on it
cannot be sent, when its output was written after a close message, or at an
event (`Tells`): for a put the connection of the want that is given the item
(`put_serves`), for a message the one it was received on (`message_hears`).
With this comes what a request or message adds to the log (`Sends`, `Says`).
-/

namespace DQ.Proof.Wants

open DQ.Model DQ.Spec DQ.Proof.Queue DQ.Proof.Server DQ.Proof.Ws

/-- From `n` to `n'` no connection was made, and those reported to have ended
are in `D`, and are not active. -/
structure Tells (D : Nat → Prop) (n n' : Net) : Prop where
  alive : ∀ c, (n'.conn c).alive = true → (n.conn c).alive = true
  active : ∀ c, (n'.conn c).active = true → (n.conn c).active = true
  ended : ∀ c, ended c n' = true → ended c n = true ∨ (D c ∧ (n'.conn c).active = false)

variable {D D' : Nat → Prop} {n n' n'' : Net} {e : Wslay} {c : Nat}

theorem Tells.trans (h : Tells D n n') (h' : Tells D n' n'') : Tells D n n'' := by
  refine ⟨fun c hc => h.alive c (h'.alive c hc), fun c hc => h.active c (h'.active c hc),
    fun c hc => ?_⟩
  rcases h'.ended c hc with hc | hc
  · refine (h.ended c hc).imp id fun ⟨hd, ha⟩ => ⟨hd, ?_⟩
    refine Bool.eq_false_iff.mpr fun ha' => ?_
    rw [h'.active c ha'] at ha
    cases ha
  · exact .inr hc

theorem Tells.mono (h : Tells D n n') (hd : ∀ c, D c → D' c) : Tells D' n n' :=
  ⟨h.alive, h.active, fun c hc => (h.ended c hc).imp id fun ⟨h1, h2⟩ => ⟨hd c h1, h2⟩⟩

/-- Events that report no end. -/
theorem tells_log (es : List Event) (hes : ∀ ev ∈ es, ∀ c, reportsEnd c ev = false)
    (hc : n'.conn = n.conn) (hl : n'.log = n.log ++ es) : Tells D n n' := by
  refine ⟨fun c h => hc ▸ h, fun c h => hc ▸ h, fun c h => .inl ?_⟩
  rw [Spec.ended, hl, List.any_append, Bool.or_eq_true] at h
  refine h.resolve_right fun h => ?_
  obtain ⟨ev, hev, hr⟩ := List.any_eq_true.mp h
  rw [hes ev hev c] at hr
  cases hr

theorem tells_same (hc : n'.conn = n.conn) (hl : n'.log = n.log) : Tells D n n' :=
  tells_log [] (List.forall_mem_nil _) hc (by rw [hl, List.append_nil])

theorem Tells.refl (n : Net) : Tells D n n := tells_same rfl rfl

theorem tells_emit {ev : Event} (hev : ∀ c, reportsEnd c ev = false) (n : Net) :
    Tells D n (n.emit ev) :=
  tells_log [ev] (fun _ h => List.mem_singleton.mp h ▸ hev) rfl rfl

/-! ## The functions of a connection -/

theorem tells_setConn {x : Connection} (ha : x.alive = true → (n.conn c).alive = true)
    (hx : x.active = true → (n.conn c).active = true) : Tells D n (n.setConn c x) := by
  refine ⟨fun d h => ?_, fun d h => ?_, fun d h => .inl h⟩
  all_goals
    by_cases hd : d = c
    · subst hd
      simp only [Net.setConn, Function.update_self] at h
      first | exact ha h | exact hx h
    · simpa only [Net.setConn, Function.update_of_ne hd] using h

theorem tells_close (c : Nat) (n : Net) : Tells (· = c) n (evwsClose_ c n) := by
  have h : Tells (· = c) n (n.setConn c { n.conn c with active := false }) :=
    tells_setConn id (fun h => by cases h)
  refine ⟨h.alive, h.active, fun d hd => ?_⟩
  have hl : (evwsClose_ c n).log = n.log ++ [.closed c] := rfl
  rw [Spec.ended, hl, List.any_append, Bool.or_eq_true] at hd
  refine hd.imp id fun hd => ?_
  obtain rfl : c = d := by simpa [reportsEnd] using hd
  exact ⟨rfl, close_active c n⟩

theorem tells_write (e : Wslay) (c : Nat) (n : Net) :
    Tells (fun d => d = c ∧ e.sendFails = true) n (evwsConnectionWrite_ e c n) := by
  unfold evwsConnectionWrite_
  split
  · rename_i hf
    exact (tells_close c n).mono fun d hd => ⟨hd, hf⟩
  · split
    · exact tells_setConn id id
    · exact .refl n

theorem tells_send (e : Wslay) (c : Nat) (b : Body) (n : Net) :
    Tells (fun d => d = c ∧ endsBySend e (n.conn c) = true) n (evwsConnectionSend_ e c b n) := by
  unfold evwsConnectionSend_
  split
  · exact tells_emit (fun _ => rfl) n
  · split
    · exact .refl n
    · rename_i hal hac
      simp only [Bool.not_eq_true', Bool.not_eq_false] at hal hac
      split
      · rename_i hq
        exact (tells_close c n).mono fun d hd => ⟨hd, by simp [endsBySend, hal, hac, failsToSend, hq]⟩
      · refine (tells_emit (fun _ => rfl) n).trans ((tells_write e c _).mono fun d hd => ⟨hd.1, ?_⟩)
        simp [endsBySend, hal, hac, failsToSend, hd.2]

/-- The callback of a want sends on the want's connection. -/
theorem tells_callback (e : Sending) (want : Nat) (i : QueueItem) (m : Heap × Net) :
    Tells (fun c => ∃ w : Want, m.2.wants.find? (·.id == want) = some w ∧ c = w.client ∧
      endsBySend e.wslay (m.2.conn c) = true) m.2 (connectionQueueCallbackWait_ e want i m).2 := by
  rcases callback_cases e want i m with ⟨-, h⟩ | ⟨w, n, hf, hn, h⟩
  · rw [h]
    exact tells_emit (fun _ => rfl) m.2
  · rw [h]
    refine Tells.trans ?_ (tells_same (n := n) rfl rfl)
    rcases hn with rfl | ⟨b, rfl⟩
    · exact .refl _
    · refine (tells_send e.wslay w.client b m.2).mono ?_
      rintro c ⟨rfl, hends⟩
      exact ⟨w, hf, rfl, hends⟩

theorem tells_free (e : Wslay) (c : Nat) (n : Net) :
    Tells (fun _ => True) n (evwsConnectionFree e c n) := by
  have hclose : Tells (fun _ => True) n
      (if (n.conn c).active then evwsConnectionSendClose_ e c n else n) := by
    unfold evwsConnectionSendClose_
    split
    · split
      · exact .refl n
      · split
        · exact (tells_close c n).mono fun _ _ => trivial
        · exact (tells_write e c n).mono fun _ _ => trivial
    · exact .refl n
  exact hclose.trans (tells_setConn (fun h => by cases h) (fun h => by cases h))

theorem reportsEnd_unique {d : Nat} {ev : Event} (hc : reportsEnd c ev = true)
    (hd : reportsEnd d ev = true) : d = c := by
  cases ev <;> simp only [reportsEnd, beq_iff_eq, Bool.false_eq_true] at hc hd
  · exact hd.symm.trans hc
  · exact hd.symm.trans hc

theorem eventReports_nil {x : Connection} {eof error : Bool} (h : reports e x eof error = false) :
    eventReports e c x.active eof error = [] := by
  unfold reports at h
  cases eof <;> cases error <;> simp_all [eventReports, failsToClose]

/-- An event on a connection, which is then freed. -/
theorem tells_event (e : Wslay) (c : Nat) (eof error : Bool) (n : Net) :
    Tells (fun d => d = c ∧ reports e (n.conn c) eof error = true) n
      (evwsConnectionEventCb_ e c eof error n) := by
  have hframe : ∀ n' : Net, n'.conn = n.conn → ∀ d,
      (((evwsConnectionFree e c n').conn d).alive = true → (n.conn d).alive = true) ∧
      (((evwsConnectionFree e c n').conn d).active = true → (n.conn d).active = true) := by
    intro n' hc d
    rw [← hc]
    exact ⟨(tells_free e c n').alive d, (tells_free e c n').active d⟩
  have hconn : ∀ d, (((evwsConnectionEventCb_ e c eof error n).conn d).alive = true →
      (n.conn d).alive = true) ∧ (((evwsConnectionEventCb_ e c eof error n).conn d).active = true →
      (n.conn d).active = true) := by
    unfold evwsConnectionEventCb_
    refine hframe _ ?_
    split
    · split <;> rfl
    · split <;> rfl
  refine ⟨fun d => (hconn d).1, fun d => (hconn d).2, fun d hd => ?_⟩
  rw [Spec.ended, event_log, List.any_append, Bool.or_eq_true] at hd
  refine hd.imp id fun hd => ?_
  obtain ⟨ev, hev, hr⟩ := List.any_eq_true.mp hd
  obtain rfl := reportsEnd_unique (eventReports_all e c _ eof error ev hev) hr
  refine ⟨⟨rfl, ?_⟩, (free_conn e d _).2⟩
  by_contra hn
  rw [eventReports_nil (by simpa using hn)] at hev
  cases hev

/-! ## Requests -/

/-- What a request adds to the log itself; `rid` is its number. -/
inductive OfRequest (rid : Nat) : Event → Prop
  | put (i) (hi : i.id = rid) : OfRequest rid (.put i)
  | discard (i) : OfRequest rid (.discard i)
  | reply (n e code b) : OfRequest rid (.reply n e code b)
  | params (n use) : OfRequest rid (.params n use)

/-- Wants may have been cancelled, and nothing was sent on a connection. -/
structure Quiet (rid : Nat) (n n' : Net) : Prop where
  wants : List.Forall₂ Eased n.wants n'.wants
  conn : n'.conn = n.conn
  log : Grows (OfRequest rid) n n'

variable {rid : Nat}

theorem Quiet.same (hw : List.Forall₂ Eased n.wants n'.wants) (hc : n'.conn = n.conn)
    (hl : n'.log = n.log) : Quiet rid n n' := ⟨hw, hc, grows_of_log hl⟩

theorem Quiet.trans (h : Quiet rid n n') (h' : Quiet rid n' n'') : Quiet rid n n'' :=
  ⟨eased_trans h.wants h'.wants, h'.conn.trans h.conn, h.log.trans h'.log⟩

theorem Quiet.tells (h : Quiet rid n n') : Tells D n n' := by
  obtain ⟨es, hl, hes⟩ := h.log
  refine tells_log es (fun ev hev c => ?_) h.conn hl
  cases hes ev hev <;> rfl

theorem quiet_emit {ev : Event} (hev : OfRequest rid ev) (n : Net) : Quiet rid n (n.emit ev) :=
  ⟨eased_refl _, rfl, grows_emit hev n⟩

variable {dm : DataModel} {r : Request} {s s' : Server}

theorem quiet_json (e : Endpoint) (params : Bool) (code : Nat) (object : Option Body) (s : Server) :
    Quiet rid s.net (connectionHttpJson_ r e params code object s).net := by
  have hreply : ∀ code b, Quiet rid s.net (s.emit (.reply s.next e code b)).net := fun code b =>
    quiet_emit (.reply ..) s.net
  have hclear : ∀ s₁ : Server, Quiet rid s.net s₁.net →
      Quiet rid s.net (if params then s₁.emit (.params s₁.next .clear) else s₁).net := by
    intro s₁ h
    split
    · exact h.trans (quiet_emit (.params ..) s₁.net)
    · exact h
  unfold connectionHttpJson_
  cases bodyText r.ok object with
  | none => exact hclear _ (hreply 500 protocolFailureFallback)
  | some b => exact hclear _ (hreply code b)

theorem quiet_error (e : Endpoint) (params : Bool) (code : Nat) (message : Failure) (s : Server) :
    Quiet rid s.net (connectionHttpError_ r e params code message s).net := quiet_json e params _ _ s

theorem quiet_payload (e : Endpoint) (payload : Option Payload) (s : Server) :
    Quiet rid s.net (connectionHttpPayload_ r e payload s).net := by
  unfold connectionHttpPayload_
  split
  · exact quiet_error e true 0 .encodePayload s
  · exact quiet_json e true 200 _ s

theorem quiet_reads (h : Reads s s') : Quiet rid s.net s'.net := by
  obtain ⟨k, rfl⟩ := h
  refine ⟨eased_refl _, rfl, List.replicate k (.params s.next .read), rfl, fun ev hev => ?_⟩
  rw [List.eq_of_mem_replicate hev]
  exact .params ..

/-- The reply of a handler. -/
theorem quiet_replies {e : Endpoint} {p : Option Payload} {ok : Bool} (h : Replies r e p s ok s') :
    Quiet rid s.net s'.net := by
  cases h with
  | error params code message => exact quiet_error e params code message s
  | payload => exact quiet_payload e p s

/-- A handler that leaves the connections alone and replies. -/
theorem quiet_handler {s₀ s'' : Server} {e : Endpoint} {p : Option Payload} {ok : Bool}
    (hreads : Reads s s') (h : Replies r e p s₀ ok s'') (hn : s₀.net = s'.net) :
    Quiet rid s.net s''.net :=
  (quiet_reads hreads).trans (hn ▸ quiet_replies h)

theorem list_quiet (r : Request) (s : Server) :
    Quiet rid s.net (connectionHttpCallbackList_ r s).net := by
  obtain ⟨p, ok, h⟩ := list_cases r s
  exact quiet_replies h

theorem quiet_managerQueueFree (f : Found) (s : Server) :
    Quiet rid s.net (managerQueueFree f s).net := by
  refine ⟨eased_refl _, rfl, f.mq.q.items.map .discard, rfl, fun ev hev => ?_⟩
  obtain ⟨i, -, rfl⟩ := List.mem_map.mp hev
  exact .discard i

theorem new_quiet (dm : DataModel) (r : Request) (s : Server) :
    Quiet rid s.net (connectionHttpCallbackNew_ dm r s).net := by
  rcases new_cases dm r s with ⟨-, s', hreads, h⟩ | ⟨f, s', -, hreads, h⟩
  · exact quiet_handler hreads h rfl
  · split at h
    · exact quiet_handler hreads h rfl
    · have hfree : Quiet rid s'.net _ :=
        quiet_managerQueueFree f { s' with queues := f.registry }
      exact ((quiet_reads hreads).trans hfree).trans (quiet_replies h)

theorem info_quiet (dm : DataModel) (r : Request) (s : Server) :
    Quiet rid s.net (connectionHttpCallbackInfo_ dm r s).net := by
  obtain ⟨s', p, ok, hreads, h⟩ := info_cases dm r s
  exact quiet_handler hreads h rfl

theorem delete_quiet (dm : DataModel) (r : Request) (s : Server) :
    Quiet rid s.net (connectionHttpCallbackDelete_ dm r s).net := by
  rcases delete_cases dm r s with ⟨-, s', hreads, h⟩ | ⟨f, s', -, hreads, h⟩
  · exact quiet_handler hreads h rfl
  · have hremove : Quiet rid s'.net
        { s' with
          queues := f.registry
          net.wants := managerQueueWantRemove f.mq.q.addr s'.net.wants }.net :=
      .same (eased_remove _ _) rfl rfl
    exact (((quiet_reads hreads).trans hremove).trans (quiet_managerQueueFree f _)).trans
      (quiet_replies h)

theorem take_quiet (dm : DataModel) (r : Request) (s : Server) :
    Quiet rid s.net (connectionHttpCallbackTake dm r s).net := by
  rcases take_cases dm r s with ⟨s', h, p, hreads, -, hr⟩ | ⟨f, s', i, rest, h, s₁, -, hreads, -,
    hr, ht⟩
  · exact quiet_handler hreads hr rfl
  · rw [ht]
    show Quiet rid s.net s₁.net
    exact quiet_handler hreads hr rfl

theorem peek_quiet (dm : DataModel) (r : Request) (s : Server) :
    Quiet rid s.net (connectionHttpCallbackPeek dm r s).net := by
  rcases peek_cases dm r s with ⟨s', h, p, hreads, -, hr⟩ | ⟨f, s', i, h, s₁, ok, -, hreads, -, hr, hp⟩
  · exact quiet_handler hreads hr rfl
  · rw [hp]
    show Quiet rid s.net s₁.net
    exact quiet_handler hreads hr rfl

/-- What a request adds to the log, itself or on the connections of wants. -/
def Sends (rid : Nat) (n : Net) (ev : Event) : Prop :=
  OfRequest rid ev ∨ (∃ want, ev = .freedWant want) ∨ ∃ w ∈ n.wants, OfConn w.client ev

/-- The want `o` was given an item, if any was, and is freed. -/
structure Serves (rid : Nat) (e : Wslay) (n : Net) (o : Option Want) (n' : Net) : Prop where
  tells : Tells (fun c => ∃ w : Want, o = some w ∧ c = w.client ∧
    endsBySend e (n.conn c) = true) n n'
  wants : ∀ w' ∈ n'.wants, ∃ w ∈ n.wants, Eased w w'
  freed : ∀ w, o = some w → ∀ w' ∈ n'.wants, w'.id ≠ w.id
  log : Grows (Sends rid n) n n'

theorem Serves.none (h : Quiet rid n n') : Serves rid e n none n' :=
  ⟨h.tells, fun _ hw => eased_mem h.wants hw, fun _ hw => (by cases hw), h.log.mono fun _ => .inl⟩

theorem Serves.after {o : Option Want} (h : Quiet rid n n') (h' : Serves rid e n' o n'') :
    Serves rid e n o n'' := by
  refine ⟨h.tells.trans (h'.tells.mono fun c hd => ?_), fun w' hw' => ?_, h'.freed,
    (h.log.mono fun _ => .inl).trans (h'.log.mono fun ev hev => ?_)⟩
  · rwa [h.conn] at hd
  · obtain ⟨w, hw, he⟩ := h'.wants w' hw'
    obtain ⟨w₀, hw₀, he₀⟩ := eased_mem h.wants hw
    exact ⟨w₀, hw₀, he₀.trans he⟩
  · rcases hev with hev | hev | ⟨w, hw, hev⟩
    · exact .inl hev
    · exact .inr (.inl hev)
    · obtain ⟨w₀, hw₀, he₀⟩ := eased_mem h.wants hw
      exact .inr (.inr ⟨w₀, hw₀, he₀.client ▸ hev⟩)

theorem Serves.next {o : Option Want} (h : Serves rid e n o n') (h' : Quiet rid n' n'') :
    Serves rid e n o n'' := by
  refine ⟨h.tells.trans h'.tells, fun w' hw' => ?_, fun w ho w' hw' => ?_,
    h.log.trans (h'.log.mono fun _ => .inl)⟩
  · obtain ⟨w₁, hw₁, he₁⟩ := eased_mem h'.wants hw'
    obtain ⟨w₀, hw₀, he₀⟩ := h.wants w₁ hw₁
    exact ⟨w₀, hw₀, he₀.trans he₁⟩
  · obtain ⟨w₁, hw₁, he₁⟩ := eased_mem h'.wants hw'
    exact he₁.id ▸ h.freed w ho w₁ hw₁

/-- A put that makes its item gives it to the want of the callback it finds. -/
theorem queuePut_serves (e : Sending) {ok : Outcome} {id : Nat} {key : Option CStr} {value : CStr}
    {q : Queue Nat} {item : QueueItem} (hi : queuePutItem ok id q.addr key value = some item)
    (m : Heap × Net) :
    Serves id e.wslay m.2 ((queuePutCallback key q).bind fun (_, cb, _) =>
      m.2.wants.find? (·.id == cb.arg))
      (queuePut (connectionQueueCallbackWait_ e) ok id key value q m).2.1.2 := by
  rcases queuePut_cases (connectionQueueCallbackWait_ e) hi m with ⟨hcb, h⟩ | ⟨pre, cb, post, hcb, h⟩
  · rw [hcb, h]
    exact .none (.same (eased_refl _) rfl rfl)
  · rw [hcb, h]
    have hcall := callback_wants e cb.arg item (m.1.calloc id, m.2)
    refine ⟨tells_callback e cb.arg item (m.1.calloc id, m.2), fun w' hw' => ?_,
      fun w hw w' hw' => ?_, (grows_callback e cb.arg item (m.1.calloc id, m.2)).mono ?_⟩
    · obtain ⟨w₀, hw₀, he⟩ := eased_mem hcall hw'
      exact ⟨w₀, (List.mem_filter.mp hw₀).1, he⟩
    · obtain ⟨w₀, hw₀, he⟩ := eased_mem hcall hw'
      rw [he.id, (found_want hw).2]
      simpa using (List.mem_filter.mp hw₀).2
    · rintro ev (rfl | ⟨w, hw, -, hev⟩)
      · exact .inr (.inl ⟨cb.arg, rfl⟩)
      · exact .inr (.inr ⟨w, hw, hev⟩)

theorem put_serves (dm : DataModel) (r : Request) (s : Server) :
    Serves s.next r.answer.wslay s.net (putWant dm r s)
      (connectionHttpCallbackPut dm r s).net := by
  unfold putWant
  rcases put_cases dm r s with ⟨hf, s', hreads, hr⟩ | ⟨f, item, value, s', hf, hreads, hi, hr⟩
  · rw [hf]
    exact .none ((quiet_reads hreads).trans (quiet_replies hr))
  · have hkey : item.key = evhttpFindHeader r.params keyKey := by rw [queuePutItem_eq hi]
    have hid : item.id = s.next := by rw [queuePutItem_eq hi]
    have hserves := queuePut_serves r.answer hi (s.heap, s'.net.emit (.put item))
    have hwants : (s'.net.emit (.put item)).wants = s.net.wants := hreads.emits.wants
    rw [hf]
    dsimp only at hr hserves ⊢
    rw [hwants] at hserves
    rw [hkey]
    exact (hserves.after ((quiet_reads hreads).trans (quiet_emit (.put item hid) s'.net))).next
      (quiet_replies hr)

/-- A request. -/
theorem http_serves (dm : DataModel) (r : Request) (s : Server) :
    Serves s.next r.answer.wslay s.net (if r.path = .put then putWant dm r s else none)
      (s.step dm (.http r)).net := by
  have hmethod : Quiet s.next s.net _ :=
    quiet_error (r := r) .method false 405 .methodNotSupported s
  dsimp only [Server.step]
  unfold connectionHttpCallback
  cases r.path with
  | queues =>
    rw [if_neg (by simp)]
    dsimp only [connectionHttpCallbackQueues]
    split
    · exact .none (list_quiet r s)
    · exact .none (new_quiet dm r s)
    · exact .none hmethod
  | queue =>
    rw [if_neg (by simp)]
    dsimp only [connectionHttpCallbackQueue]
    split
    · exact .none (info_quiet dm r s)
    · exact .none (delete_quiet dm r s)
    · exact .none hmethod
  | take =>
    rw [if_neg (by simp)]
    exact .none (take_quiet dm r s)
  | peek =>
    rw [if_neg (by simp)]
    exact .none (peek_quiet dm r s)
  | put =>
    rw [if_pos rfl]
    exact put_serves dm r s

/-! ## Messages -/

/-- What a message received on `c` adds to the log: its own events, and those
of the connections of wants. -/
def Says (c : Nat) (n : Net) (ev : Event) : Prop :=
  (∃ w key, ev = .want w key ∧ w.client = c) ∨ ev = .data c ∨ (∃ want, ev = .freedWant want) ∨
    OfConn c ev ∨ ∃ w ∈ n.wants, OfConn w.client ev

/-- A message received on `c` leaves a want that waits, or it is answered. -/
structure Hears (e : Wslay) (c : Nat) (n : Net) (left : Bool) (n' : Net) : Prop where
  waits : left = true → Tells (fun _ => False) n n' ∧
    ∃ w : Want, w.client = c ∧ n'.wants = n.wants ++ [w]
  answers : left = false →
    Tells (fun d => d = c ∧ endsBySend e (n.conn c) = true) n n' ∧
      List.Forall₂ Eased n.wants n'.wants
  log : Grows (Says c n) n n'

theorem hears_error (e : Sending) (c : Nat) (message : Failure) (n : Net) :
    Hears e.wslay c n false (connectionWsError_ e c message n) :=
  ⟨by simp, fun _ => ⟨tells_send e.wslay c _ n, (calm_wsError e c message n).wants⟩,
    (grows_wsError c e message n).mono fun _ h => .inr (.inr (.inr (.inl h)))⟩

theorem Hears.after {left : Bool} (h : ∀ D, Tells D n n') (hc : n'.conn = n.conn)
    (hw : n'.wants = n.wants) (hg : Grows (Says c n) n n') (h' : Hears e c n' left n'') :
    Hears e c n left n'' := by
  refine ⟨fun hl => ?_, fun hl => ?_, hg.trans (h'.log.mono fun ev hev => ?_)⟩
  · obtain ⟨ht, w, hwc, hwn⟩ := h'.waits hl
    exact ⟨(h _).trans ht, w, hwc, by rw [hwn, hw]⟩
  · obtain ⟨ht, hwn⟩ := h'.answers hl
    rw [hc] at ht
    exact ⟨(h _).trans ht, hw ▸ hwn⟩
  · unfold Says at hev ⊢
    rwa [hw] at hev

theorem callbackWait_hears (dm : DataModel) (hI : Inv s) (m : Message) (c : Nat) :
    Hears m.env.wslay c s.net
      (match wantReached dm m c s with
        | some (_, f, key) =>
          (queueTake key f.mq.q s.heap).1.isNone && queueCallbackNew_ m.env.ok key
        | none => false)
      (connectionWsCallbackWait dm m c s).net := by
  rcases callbackWait_cases dm m c s with
    ⟨hr, message, h⟩ | ⟨w, f, key, hr, -, hid, hclient, -, h⟩
  · rw [hr, h]
    exact hears_error m.env c message s.net
  · have hfree : managerQueueWantFree w.id (s.net.wants ++ [w]) = s.net.wants :=
      wantFree_new hI hid
    have hmade : ∀ D, Tells D s.net (withWant s.net w key) := fun D =>
      tells_log [.want w key] (by simp [reportsEnd]) rfl rfl
    have hgrows : Grows (Says c s.net) s.net (withWant s.net w key) :=
      grows_emit (n := { s.net with wants := s.net.wants ++ [w] }) (.inl ⟨w, key, rfl, hclient⟩)
    have hwants : (withWant s.net w key).wants = s.net.wants ++ [w] := rfl
    have hconn : (withWant s.net w key).conn = s.net.conn := rfl
    rw [hr, h]
    unfold afterWait
    dsimp only
    generalize withWant s.net w key = n₀ at hmade hgrows hwants hconn ⊢
    rcases queueWait_cases (connectionQueueCallbackWait_ m.env) m.env.ok key w.id f.mq.q
      (s.heap, n₀) with ⟨i, rest, h₁, htake, hw⟩ | ⟨h₁, htake, hok, hw⟩ | ⟨h₁, htake, hok, hw⟩
    · -- the want was served at once, if it was found
      have hcall := callback_wants m.env w.id i (h₁, n₀)
      have hlog := grows_callback m.env w.id i (h₁, n₀)
      rw [hw, htake]
      dsimp only at hcall hlog ⊢
      rw [if_neg (by decide)]
      rw [hwants, hfree] at hcall
      rw [hwants] at hlog
      refine ⟨by simp, fun _ => ⟨(hmade _).trans ?_, hcall⟩, hgrows.trans (hlog.mono ?_)⟩
      · refine (tells_callback m.env w.id i (h₁, n₀)).mono ?_
        rintro d ⟨w', hw', rfl, hends⟩
        obtain ⟨hm, hid'⟩ := found_want hw'
        dsimp only at hm hends
        rw [hwants] at hm
        rw [hconn] at hends
        rcases List.mem_append.mp hm with hm | hm
        · have := hI.wants_lt w' hm
          omega
        · obtain rfl := List.mem_singleton.mp hm
          rw [hclient] at hends
          exact ⟨hclient, hends⟩
      · rintro ev (rfl | ⟨w', hw', -, hev⟩)
        · exact .inr (.inr (.inl ⟨w.id, rfl⟩))
        rcases List.mem_append.mp hw' with hw' | hw'
        · exact .inr (.inr (.inr (.inr ⟨w', hw', hev⟩)))
        · rw [List.mem_singleton.mp hw', hclient] at hev
          exact .inr (.inr (.inr (.inl hev)))
    · rw [hw, htake, hok]
      dsimp only
      rw [if_neg (by decide)]
      exact ⟨fun _ => ⟨hmade _, w, hclient, hwants⟩, by simp, hgrows⟩
    · rw [hw, htake, hok]
      dsimp only
      rw [if_pos (by decide)]
      have hfreed : ∀ D, Tells D s.net { n₀ with wants := managerQueueWantFree w.id n₀.wants } :=
        fun D => (hmade D).trans (tells_same rfl rfl)
      exact (hears_error m.env c .waitForWant _).after hfreed hconn (by rw [hwants, hfree])
        (hgrows.wants _)

/-- A message that is no data changes nothing. -/
theorem message_other {c : Nat} {m : Message} (hd : isData m = false) :
    (evwsWslayOnMsgCallback_ dm c s m).net = s.net := by
  unfold evwsWslayOnMsgCallback_
  dsimp only
  split
  · rfl
  · split
    · split
      · exfalso
        simp_all [isData]
      · rfl
    · rfl

theorem message_data {c : Nat} {m : Message} (hd : isData m = true) :
    (evwsWslayOnMsgCallback_ dm c s m).net =
      (connectionWsCallbackWait dm m c (s.emit (.data c))).net := by
  simp only [isData, Bool.and_eq_true, Bool.not_eq_true', beq_eq_false_iff_ne, Bool.or_eq_true,
    beq_iff_eq] at hd
  obtain ⟨⟨hctl, hop⟩, ⟨h1, h2⟩, h3⟩ := hd
  simp [evwsWslayOnMsgCallback_, hctl, hop, h1, h2, h3]

/-- A message that wslay delivers. -/
theorem message_hears (dm : DataModel) (hI : Inv s) (c : Nat) {m : Message} (hd : isData m = true) :
    Hears m.env.wslay c s.net (messageWaits dm c s m) (evwsWslayOnMsgCallback_ dm c s m).net := by
  have hdata : Inv (s.emit (.data c)) := hI.act (emits_quiet s rfl).act_same
  rw [message_data hd, messageWaits, hd, Bool.true_and]
  exact (callbackWait_hears dm hdata m c).after (fun _ => tells_emit (fun _ => rfl) s.net) rfl rfl
    (grows_emit (.inr (.inl rfl)) s.net)

end DQ.Proof.Wants
