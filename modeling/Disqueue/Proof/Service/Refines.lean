import Disqueue.Proof.Server.Released
import Disqueue.Proof.Service.Wants

/-!
# The server refines the service

Each call by the event loop in which nothing fails is a call of the service: it
sends the same, and leaves the server as one that shows as what the service is
then (`step_view`). So over any such run the server answers every call as the
service does (`server_refines`). What the service does not show is the heap, in
which an item given to a waiter is released twice.
-/

namespace DQ.Proof.Service

open DQ.Model DQ.Spec DQ.Proof.Queue DQ.Proof.Server DQ.Proof.Wants

variable {dm : DataModel} {s : Server} {t : Service} {c : Nat}

theorem Adds.drop {τ : Type} {f : Event → Option τ} {n n' : Net} {xs : List τ}
    (h : Adds f n xs n') : (n'.log.drop n.log.length).filterMap f = xs := by
  obtain ⟨es, hl, rfl⟩ := h
  rw [hl, List.drop_left]

/-- A new connection is a new link, to a client without wants. -/
theorem opened_view (hr : Ready s) (hv : View s t) :
    Reaches s.net (s.step dm .opened) (Service.step t .opened) := by
  refine ⟨⟨rooms_all hv.rooms ⟨fun v hv _ => ⟨v, hv, .refl v, .inl⟩, fun v hv _ h => ?_⟩, ?_,
    congrArg (· + 1) hv.next⟩, .refl s.net⟩
  · have hne : v.client ≠ s.next := Nat.ne_of_lt (hr.clients.client_lt v hv)
    rwa [show ((s.step dm .opened).net.conn v.client) = s.net.conn v.client from
      Function.update_of_ne hne ..] at h
  · have hu : Linked (s.step dm .opened).net
        (t.setLink s.next (linkOf { alive := true, active := true })) := hv.link.update rfl
    rw [← hv.next] at hu
    exact hu

theorem close_view (hv : View s t) {l : Link} (hl : t.link c = some l) :
    Reaches s.net { s with net := evwsClose_ c s.net }
      (t.setLink c (some { l with active := false }), []) :=
  ⟨⟨rooms_all hv.rooms (fades_close c s.net), linked_close hv.link hl, hv.next⟩,
    adds_quiet rfl _⟩

theorem link_alive (hv : View s t) (hc : (s.net.conn c).alive = true) :
    t.link c = some ⟨(s.net.conn c).active, (s.net.conn c).closing⟩ := by
  rw [hv.link c, linkOf, if_pos hc]

/-- What becomes of a connection at the end of a read. -/
theorem endRead_view (hv : View s t) (hc : (s.net.conn c).alive = true) (recv : Int) (e : Wslay) :
    Reaches s.net
      { s with net := if recv < 0 then evwsClose_ c s.net else evwsConnectionWrite_ e c s.net }
      (t.endRead c (readFate recv e), []) := by
  have hl := link_alive hv hc
  unfold Service.endRead readFate evwsConnectionWrite_
  rw [hl]
  by_cases hrecv : recv < 0
  · simp only [hrecv, decide_true, Bool.true_or, if_true]
    exact close_view hv hl
  simp only [hrecv, decide_false, Bool.false_or, if_false]
  cases e.sendFails with
  | true => exact close_view hv hl
  | false =>
    cases e.closeSent with
    | true => exact ⟨⟨rooms_all hv.rooms (fades_setConn id), linked_closing hv.link hl, hv.next⟩,
        .refl s.net⟩
    | false => exact ⟨hv, .refl s.net⟩

theorem drained_view (hv : View s t) (c : Nat) :
    Reaches s.net (s.step dm (.drained c)) (Service.step t (.drained c)) := by
  dsimp only [Server.step, Service.step]
  cases hc : (s.net.conn c).alive with
  | true =>
    have hl := link_alive hv hc
    rw [hl]
    cases hcl : (s.net.conn c).closing with
    | true =>
      rw [hcl] at hl
      exact close_view hv hl
    | false => exact ⟨hv, .refl s.net⟩
  | false =>
    rw [show t.link c = none by rw [hv.link c, linkOf, hc]; rfl]
    exact ⟨hv, .refl s.net⟩

/-! ## The end of a connection -/

/-- Only the connection `c` and the wants of its client change. -/
structure AtConn (c : Nat) (n n' : Net) : Prop where
  want : ∀ v ∈ n.wants, ∃ v' ∈ n'.wants, Eased v v' ∧
    (v'.cancelled = true → v.cancelled = true ∨ v.client = c)
  conn : ∀ d, d ≠ c → n'.conn d = n.conn d

theorem AtConn.trans {a b d : Net} (h : AtConn c a b) (h' : AtConn c b d) : AtConn c a d where
  want v hv := by
    obtain ⟨v', hv', he, hc⟩ := h.want v hv
    obtain ⟨v'', hv'', he', hc'⟩ := h'.want v' hv'
    exact ⟨v'', hv'', he.trans he', fun hx => (hc' hx).elim hc fun hcl => .inr (he.client ▸ hcl)⟩
  conn d hd := (h'.conn d hd).trans (h.conn d hd)

theorem atConn_refl (c : Nat) (n : Net) : AtConn c n n :=
  ⟨fun v hv => ⟨v, hv, .refl v, .inl⟩, fun _ _ => rfl⟩

theorem atConn_setConn (c : Nat) (x : Connection) (n : Net) : AtConn c n (n.setConn c x) :=
  ⟨fun v hv => ⟨v, hv, .refl v, .inl⟩, fun _ hd => Function.update_of_ne hd ..⟩

/-- The wants of a client are cancelled, and that is logged. -/
theorem atConn_cancel (c : Nat) (n : Net) (e : Event) :
    AtConn c n ({ n with wants := managerQueueWantClose c n.wants }.emit e) where
  want v hv := by
    refine ⟨_, List.mem_map_of_mem hv, ?_, fun hx => ?_⟩
    · split
      · exact .inr rfl
      · exact .refl v
    · split at hx
      · rename_i hcl
        exact .inr hcl
      · exact .inl hx
  conn _ _ := rfl

theorem atConn_close (c : Nat) (n : Net) : AtConn c n (evwsClose_ c n) :=
  (atConn_setConn c _ n).trans (atConn_cancel c _ (.closed c))

theorem atConn_sendClose (e : Wslay) (c : Nat) (n : Net) :
    AtConn c n (evwsConnectionSendClose_ e c n) := by
  unfold evwsConnectionSendClose_ evwsConnectionWrite_
  split
  · exact atConn_refl c n
  split
  · exact atConn_close c n
  split
  · exact atConn_close c n
  split
  · exact atConn_setConn ..
  · exact atConn_refl c n

theorem atConn_free (e : Wslay) (c : Nat) (n : Net) : AtConn c n (evwsConnectionFree e c n) := by
  unfold evwsConnectionFree
  refine AtConn.trans ?_ (atConn_setConn c _ _)
  split
  · exact atConn_sendClose e c n
  · exact atConn_refl c n

theorem atConn_event (e : Wslay) (c : Nat) (eof error : Bool) (n : Net) :
    AtConn c n (evwsConnectionEventCb_ e c eof error n) := by
  unfold evwsConnectionEventCb_
  refine AtConn.trans ?_ (atConn_free e c _)
  split
  · split
    · exact atConn_cancel c n (.closed c)
    · exact atConn_refl c n
  · split
    · exact atConn_cancel c n (.errored c)
    · exact atConn_refl c n

theorem AtConn.fades {n n' : Net} (h : AtConn c n n') (hc : (n'.conn c).active = false) :
    Fades All n n' where
  want v hv _ := by
    obtain ⟨v', hv', he, hx⟩ := h.want v hv
    refine ⟨v', hv', he, fun hcancel => (hx hcancel).imp id fun hcl => ?_⟩
    rw [hcl]
    exact hc
  active v hv _ ha := by
    by_cases hcl : v.client = c
    · rw [hcl, hc] at ha
      cases ha
    · rwa [h.conn _ hcl] at ha

theorem ended_view (hv : View s t) (c : Nat) (eof error : Bool) (e : Wslay) :
    Reaches s.net (s.step dm (.event c eof error e)) (Service.step t (.ended c)) := by
  dsimp only [Server.step, Service.step]
  split
  · have hat := atConn_event e c eof error s.net
    have hconn : ((evwsConnectionEventCb_ e c eof error s.net).conn c).alive = false ∧
        ((evwsConnectionEventCb_ e c eof error s.net).conn c).active = false := Ws.free_conn e c _
    refine ⟨⟨rooms_all hv.rooms (hat.fades hconn.2), fun d => ?_, hv.next⟩, ?_⟩
    · by_cases hd : d = c
      · subst hd
        simp [Service.setLink, linkOf, hconn.1]
      · simp only [Service.setLink, Function.update_of_ne hd]
        rw [hat.conn d hd]
        exact hv.link d
    · refine ⟨_, Ws.event_log e c eof error s.net, List.filterMap_eq_nil_iff.mpr fun ev hev => ?_⟩
      have hends := Ws.eventReports_all e c (s.net.conn c).active eof error ev hev
      cases ev <;> first | rfl | cases hends
  · rename_i hc
    have hnone : t.link c = none := by rw [hv.link c, linkOf, if_neg hc]
    refine ⟨⟨hv.rooms, fun d => ?_, hv.next⟩, .refl s.net⟩
    by_cases hd : d = c
    · subst hd
      simp only [Service.setLink, Function.update_self]
      exact hnone.symm.trans (hv.link d)
    · simp only [Service.setLink, Function.update_of_ne hd]
      exact hv.link d

variable (dm) in
/-- A call by the event loop is a call of the service. -/
theorem step_view (hr : Ready s) (hv : View s t) {i : Input} (hi : NothingFails i) :
    Reaches s.net (s.step dm i) (Service.step t (callOf dm i)) := by
  cases i with
  | http r =>
    have h := ask_view dm hi.1 hi.2 hr hv
    exact ⟨⟨h.view.rooms, h.view.link, congrArg (· + 1) hv.next⟩, h.sent⟩
  | opened => exact opened_view hr hv
  | read c msgs recv e =>
    dsimp only [Server.step, callOf, Service.step]
    have hlink : (t.link c).any (fun l => !l.closing) =
        ((s.net.conn c).alive && !(s.net.conn c).closing) := by
      rw [hv.link c]
      unfold linkOf
      cases (s.net.conn c).alive <;> simp
    rw [hlink]
    split
    · rename_i hg
      have hc := (Bool.and_eq_true _ _ |>.mp hg).1
      have hms := notes_view dm hr hc hv hi
      have hend := endRead_view hms.view (ready_messages hr hc msgs).2 recv e
      have hsent := hms.sent.trans hend.sent
      rw [List.append_nil] at hsent
      exact ⟨hend.view, hsent⟩
    · exact ⟨hv, .refl s.net⟩
  | drained c => exact drained_view hv c
  | event c eof error e => exact ended_view hv c eof error e

/-- The server and what it shows as. -/
def Refined (s : Server) (t : Service) : Prop := Ready s ∧ View s t

theorem follows (dm : DataModel) :
    Machine.Follows Refined NothingFails (callOf dm) (server dm) Service.step := by
  intro s t i h hi
  have hs := step_view dm h.1 h.2 hi
  exact ⟨⟨ready_step i h.1, hs.view⟩, Adds.drop hs.sent⟩

/-- Over every run in which nothing fails, the server answers each call as the
service does. -/
theorem server_refines (dm : DataModel) (is : List Input) (h : ∀ i ∈ is, NothingFails i) :
    (server dm).answers .startup is = Service.step.answers .empty (is.map (callOf dm)) :=
  (follows dm).answers ⟨ready_startup, view_startup⟩ h

theorem server_refines_waitThenPut : (server .lp64).answers .startup waitThenPut =
    [[.reply 200 (successJson (some (.string madeId)))], [], [],
      [.message 1 (successJson (some (answerJson ['i'] (entryJson none ['v'])))),
        .reply 200 (successJson none)]] := by
  refine (server_refines .lp64 waitThenPut fun i hi => ?_).trans rfl
  simp only [waitThenPut, List.mem_cons, List.not_mem_nil, or_false] at hi
  rcases hi with rfl | rfl | rfl | rfl
  · exact ⟨fun _ => rfl, fun _ => rfl⟩
  · trivial
  · intro m hm c
    rw [List.mem_singleton.mp hm]
    rfl
  · exact ⟨fun _ => rfl, fun _ => rfl⟩

end DQ.Proof.Service
