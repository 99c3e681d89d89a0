import Disqueue.Proof.Server.Replies
import Disqueue.Spec.WsEnd

/-!
# The end of a WebSocket connection is reported once

While the inputs meet `EndsOnce`, the end of a connection has been reported
exactly when the connection is not active (`Once`). A report is never taken
back (`Sound.of_grows`), so an input that does not meet `EndsOnce` leaves a
second report, or data after the first.
-/

namespace DQ.Proof.Ws

open DQ.Model DQ.Model.WsConnection DQ.Spec DQ.Proof.Server

variable {c : Nat} {n n' : Net} {e : Wslay}

/-! ## The invariant -/

/-- The end is reported at most once, with no data after it. -/
structure Sound (c : Nat) (n : Net) : Prop where
  once : n.log.countP (reportsEnd c) ≤ 1
  last : n.log.Pairwise fun a b => reportsEnd c a = true → b ≠ .data c

/-- The end has been reported when the connection is not active, and not
before. -/
structure Once (c : Nat) (n : Net) : Prop where
  count : n.log.countP (reportsEnd c) = if (n.conn c).active then 0 else 1
  last : n.log.Pairwise fun a b => reportsEnd c a = true → b ≠ .data c
  alive : (n.conn c).active = true → (n.conn c).alive = true

theorem Once.sound (h : Once c n) : Sound c n := by
  refine ⟨?_, h.last⟩
  rw [h.count]
  split <;> omega

theorem Once.reported (h : Once c n) : EndReported c n := by
  refine ⟨h.sound.once, fun hd => ?_, h.last⟩
  have ha : ¬ (n.conn c).active = true := by
    intro ha
    rw [h.alive ha] at hd
    cases hd
  rw [h.count, if_neg ha]

theorem once_new (c : Nat) : Once c (WsConnection.new c) := by
  have hc : (WsConnection.new c).conn c = { alive := true, active := true } := Function.update_self ..
  refine ⟨?_, List.Pairwise.nil, fun _ => ?_⟩
  · rw [hc]
    rfl
  · rw [hc]

/-- Reports stay. -/
theorem Sound.of_grows (hg : Grows (fun _ => True) n n') (h : Sound c n') : Sound c n := by
  obtain ⟨es, hl, -⟩ := hg
  have hs : n.log.Sublist n'.log := hl ▸ List.sublist_append_left n.log es
  exact ⟨hs.countP_le.trans h.once, h.last.sublist hs⟩

/-- An event that is neither a report nor data. -/
theorem Once.emit (h : Once c n) {ev : Event} (hr : reportsEnd c ev = false) (hd : ev ≠ .data c) :
    Once c (n.emit ev) := by
  have hcount : (n.emit ev).log.countP (reportsEnd c) = n.log.countP (reportsEnd c) := by
    simp [Net.emit, hr]
  refine ⟨hcount.trans h.count, ?_, h.alive⟩
  refine List.pairwise_append.mpr ⟨h.last, List.pairwise_singleton _ _, fun a _ b hb _ => ?_⟩
  rwa [List.mem_singleton.mp hb]

/-- Data, on an active connection. -/
theorem Once.data (h : Once c n) (ha : (n.conn c).active = true) : Once c (n.emit (.data c)) := by
  have hnone := h.count
  rw [if_pos ha, List.countP_eq_zero] at hnone
  have hcount : (n.emit (.data c)).log.countP (reportsEnd c) = n.log.countP (reportsEnd c) := by
    simp [Net.emit, reportsEnd]
  refine ⟨hcount.trans h.count, ?_, h.alive⟩
  exact List.pairwise_append.mpr ⟨h.last, List.pairwise_singleton _ _, fun a hm b _ hr =>
    absurd hr (hnone a hm)⟩

/-- Data, after the report. -/
theorem Once.not_data (h : Once c n) (ha : (n.conn c).active = false) :
    ¬ Sound c (n.emit (.data c)) := by
  intro hs
  have hone := h.count
  rw [ha, if_neg (by simp)] at hone
  obtain ⟨a, hm, hr⟩ := List.countP_pos_iff.mp (hone ▸ Nat.one_pos)
  exact (List.pairwise_append.mp hs.last).2.2 a hm (.data c) (List.mem_singleton_self _) hr rfl

/-! ## The functions of a connection -/

@[simp] theorem close_active (c : Nat) (n : Net) : ((evwsClose_ c n).conn c).active = false := by
  simp [evwsClose_, connectionWsCallbackClose, Net.emit, Net.setConn]

theorem Once.close (h : Once c n) (ha : (n.conn c).active = true) : Once c (evwsClose_ c n) := by
  have hnone := h.count
  rw [if_pos ha] at hnone
  refine ⟨?_, ?_, fun hf => ?_⟩
  · rw [close_active]
    simp [evwsClose_, connectionWsCallbackClose, Net.emit, Net.setConn, reportsEnd, hnone]
  · refine List.pairwise_append.mpr ⟨h.last, List.pairwise_singleton _ _, fun a _ b hb _ => ?_⟩
    rw [List.mem_singleton.mp hb]
    simp
  · simp at hf

theorem Once.not_close (h : Once c n) (ha : (n.conn c).active = false) :
    ¬ Sound c (evwsClose_ c n) := by
  intro hs
  have h2 := hs.once
  have hone := h.count
  rw [ha, if_neg (by simp)] at hone
  simp [evwsClose_, connectionWsCallbackClose, Net.emit, Net.setConn, reportsEnd, hone] at h2

/-- The end of `evws_connection_write_` and of the functions that call it: the
connection is closed if something fails. -/
theorem Once.write (h : Once c n) (ha : e.sendFails = true → (n.conn c).active = true) :
    Once c (evwsConnectionWrite_ e c n) := by
  unfold evwsConnectionWrite_
  split
  · rename_i hf
    exact h.close (ha hf)
  · split
    · refine ⟨?_, h.last, ?_⟩
      · simpa [Net.setConn] using h.count
      · simpa [Net.setConn] using h.alive
    · exact h

theorem write_active (e : Wslay) (c : Nat) (n : Net) :
    ((evwsConnectionWrite_ e c n).conn c).active = ((n.conn c).active && !e.sendFails) := by
  unfold evwsConnectionWrite_
  split
  · rename_i hf
    simp [hf]
  · rename_i hf
    split <;> simp [hf, Net.setConn]

theorem Once.send (h : Once c n) (e : Wslay) (b : Body) : Once c (evwsConnectionSend_ e c b n) := by
  unfold evwsConnectionSend_
  split
  · exact h.emit rfl (by simp)
  · split
    · exact h
    · rename_i ha
      have hact : (n.conn c).active = true := by simpa using ha
      split
      · exact h.close hact
      · exact (h.emit rfl (by simp)).write fun _ => hact

theorem send_active (h : Once c n) (e : Wslay) (b : Body) :
    ((evwsConnectionSend_ e c b n).conn c).active = ((n.conn c).active && !failsToSend e) := by
  unfold evwsConnectionSend_
  by_cases ha : (n.conn c).active = true
  · rw [h.alive ha, ha]
    by_cases hq : e.queueMsg < 0
    · simp [hq, failsToSend]
    · simp only [Bool.not_true, Bool.false_eq_true, if_false, if_neg hq]
      rw [write_active]
      simp [Net.emit, ha, failsToSend, hq]
  · have hf : (n.conn c).active = false := by simpa using ha
    rw [hf]
    split
    · exact hf
    · exact hf

/-- The sends of a data callback. -/
theorem Once.sends (h : Once c n) (sends : List (Wslay × Body)) :
    Once c (sends.foldl (fun n s => evwsConnectionSend_ s.1 c s.2 n) n) ∧
      ((sends.foldl (fun n s => evwsConnectionSend_ s.1 c s.2 n) n).conn c).active =
        ((n.conn c).active && !sends.any fun s => failsToSend s.1) := by
  induction sends generalizing n with
  | nil => exact ⟨h, by simp⟩
  | cons s sends ih =>
    obtain ⟨h1, h2⟩ := ih (h.send s.1 s.2)
    refine ⟨h1, h2.trans ?_⟩
    rw [send_active h, List.any_cons, Bool.not_or, Bool.and_assoc]

/-! ## Reads -/

theorem onMsg_passed {m : WsMessage} (hp : passed m = true) : onMsg c n m =
    m.sends.foldl (fun n s => evwsConnectionSend_ s.1 c s.2 n) (n.emit (.data c)) := by
  simp only [passed, Bool.and_eq_true, bne_iff_ne, Bool.or_eq_true, beq_iff_eq] at hp
  obtain ⟨⟨hctl, hop⟩, ⟨h1, h2⟩, h3⟩ := hp
  simp [onMsg, hctl, hop, h1, h2, h3]

theorem onMsg_other {m : WsMessage} (hp : passed m = false) : onMsg c n m = n := by
  unfold onMsg
  split
  · rfl
  · split
    · split
      · exfalso
        simp_all [passed]
      · rfl
    · rfl

theorem grows_sends (c : Nat) (sends : List (Wslay × Body)) (n : Net) :
    Grows (fun _ => True) n (sends.foldl (fun n s => evwsConnectionSend_ s.1 c s.2 n) n) := by
  induction sends generalizing n with
  | nil => exact Grows.refl n
  | cons s sends ih => exact ((grows_send s.1 c s.2 n).mono fun _ _ => trivial).trans (ih _)

theorem grows_onMsg (c : Nat) (n : Net) (m : WsMessage) : Grows (fun _ => True) n (onMsg c n m) := by
  cases hp : passed m with
  | true => exact onMsg_passed hp ▸ (grows_emit trivial n).trans (grows_sends c m.sends _)
  | false => exact onMsg_other hp ▸ Grows.refl n

theorem grows_readEnd (c : Nat) (recv : Int) (e : Wslay) (n : Net) :
    Grows (fun _ => True) n (readEnd c recv e n) := by
  unfold readEnd
  split
  · exact (grows_close c n).mono fun _ _ => trivial
  · exact (grows_write e c n).mono fun _ _ => trivial

/-- What follows a message of a read only adds to the log. -/
theorem grows_read (c : Nat) (recv : Int) (e : Wslay) (n : Net) (msgs : List WsMessage) :
    Grows (fun _ => True) n (readEnd c recv e (run (onMsg c) n msgs)) :=
  (run_rel (R := Grows fun _ => True) Grows.refl Grows.trans (grows_onMsg c) n msgs).trans
    (grows_readEnd c recv e _)

/-- The end of a read, on an active connection or without a failure. -/
theorem Once.readEnd (h : Once c n) {recv : Int}
    (ha : (decide (recv < 0) || e.sendFails) = true → (n.conn c).active = true) :
    Once c (readEnd c recv e n) := by
  unfold WsConnection.readEnd
  split
  · rename_i hr
    exact h.close (ha (by simp [hr]))
  · exact h.write fun hf => ha (by simp [hf])

theorem Once.readEnd_only (h : Once c n) {recv : Int} (hs : Sound c (WsConnection.readEnd c recv e n))
    (hends : (decide (recv < 0) || e.sendFails) = true) : (n.conn c).active = true := by
  by_contra ha
  refine h.not_close (by simpa using ha) ?_
  unfold WsConnection.readEnd evwsConnectionWrite_ at hs
  by_cases hr : recv < 0
  · rwa [if_pos hr] at hs
  · have hf : e.sendFails = true := by simpa [hr] using hends
    rwa [if_neg hr, if_pos hf] at hs

/-- The messages of a read and its end: the induction is on the messages, each
of which leaves the connection active or not. -/
theorem Once.read (h : Once c n) (recv : Int) (e : Wslay) (msgs : List WsMessage) :
    (ReadWhileActive (decide (recv < 0) || e.sendFails) (n.conn c).active msgs →
      Once c (WsConnection.readEnd c recv e (run (onMsg c) n msgs))) ∧
    (Sound c (WsConnection.readEnd c recv e (run (onMsg c) n msgs)) →
      ReadWhileActive (decide (recv < 0) || e.sendFails) (n.conn c).active msgs) := by
  induction msgs generalizing n with
  | nil => exact ⟨fun hw => h.readEnd hw, fun hs => h.readEnd_only hs⟩
  | cons m msgs ih =>
    rw [run_cons]
    cases hp : passed m with
    | false =>
      have hw : ReadWhileActive (decide (recv < 0) || e.sendFails) (n.conn c).active (m :: msgs) ↔
          ReadWhileActive (decide (recv < 0) || e.sendFails) (n.conn c).active msgs := by
        simp [ReadWhileActive, hp]
      rw [hw, onMsg_other hp]
      exact ih h
    | true =>
      have hgrows := grows_read c recv e (onMsg c n m) msgs
      rw [onMsg_passed hp] at hgrows ⊢
      cases ha : (n.conn c).active with
      | false =>
        refine ⟨fun hw => absurd (hw.1 hp) (by simp), fun hs => absurd ?_ (h.not_data ha)⟩
        exact hs.of_grows ((grows_sends c m.sends _).trans hgrows)
      | true =>
        obtain ⟨h1, h2⟩ := (h.data ha).sends m.sends
        have hnow : ((n.emit (.data c)).conn c).active = true := ha
        rw [hnow] at h2
        have hih := ih h1
        rw [h2] at hih
        have hw : ReadWhileActive (decide (recv < 0) || e.sendFails) true (m :: msgs) ↔
            ReadWhileActive (decide (recv < 0) || e.sendFails)
              (true && !m.sends.any fun s => failsToSend s.1) msgs := by
          simp [ReadWhileActive, hp]
        rw [hw]
        exact hih

/-! ## Events -/

/-- The reports of an event, on a connection that is active or not. -/
def eventReports (e : Wslay) (c : Nat) (active eof error : Bool) : List Event :=
  (if eof then (if active then [.closed c] else []) else if error then [.errored c] else []) ++
    (if active && failsToClose e then [.closed c] else [])

theorem eventReports_all (e : Wslay) (c : Nat) (active eof error : Bool) :
    ∀ ev ∈ eventReports e c active eof error, reportsEnd c ev = true := by
  intro ev hev
  unfold eventReports at hev
  rcases List.mem_append.mp hev with hev | hev
  · split at hev
    · split at hev
      · simp [List.mem_singleton.mp hev, reportsEnd]
      · cases hev
    · split at hev
      · simp [List.mem_singleton.mp hev, reportsEnd]
      · cases hev
  · split at hev
    · simp [List.mem_singleton.mp hev, reportsEnd]
    · cases hev

theorem free_log (e : Wslay) (c : Nat) (n : Net) : (evwsConnectionFree e c n).log =
    n.log ++ if (n.conn c).active && failsToClose e then [.closed c] else [] := by
  unfold evwsConnectionFree
  by_cases ha : (n.conn c).active = true
  · rw [if_pos ha, ha]
    unfold evwsConnectionSendClose_ evwsConnectionWrite_
    rw [ha]
    by_cases hq : e.queueClose < 0
    · simp [hq, failsToClose, evwsClose_, connectionWsCallbackClose, Net.emit, Net.setConn]
    · by_cases hf : e.sendFails = true
      · simp [hq, hf, failsToClose, evwsClose_, connectionWsCallbackClose, Net.emit, Net.setConn]
      · simp only [Bool.not_true, Bool.false_eq_true, if_false, if_neg hq, if_neg hf]
        split <;> simp [hq, hf, failsToClose, Net.setConn]
  · have hn : (n.conn c).active = false := by simpa using ha
    simp [hn, Net.setConn]

theorem free_conn (e : Wslay) (c : Nat) (n : Net) :
    ((evwsConnectionFree e c n).conn c).alive = false ∧
      ((evwsConnectionFree e c n).conn c).active = false := by
  simp [evwsConnectionFree, Net.setConn]

theorem event_log (e : Wslay) (c : Nat) (eof error : Bool) (n : Net) :
    (evwsConnectionEventCb_ e c eof error n).log =
      n.log ++ eventReports e c (n.conn c).active eof error := by
  have hcb : ∀ n', n'.conn = n.conn → n'.log = n.log ++
      (if eof then (if (n.conn c).active then [.closed c] else []) else
        if error then [.errored c] else []) →
      (evwsConnectionFree e c n').log = n.log ++ eventReports e c (n.conn c).active eof error := by
    intro n' hc hl
    rw [free_log, hl, hc, List.append_assoc]
    rfl
  unfold evwsConnectionEventCb_
  refine hcb _ ?_ ?_
  · split
    · split <;> rfl
    · split <;> rfl
  · cases eof
    · cases error
      · exact (List.append_nil _).symm
      · rfl
    · cases ha : (n.conn c).active
      · simp
      · rfl

/-- A connection that an event freed was reported once if the event reports
what was left to report. -/
theorem Once.event (h : Once c n) (e : Wslay) (eof error : Bool) :
    (EndReported c (evwsConnectionEventCb_ e c eof error n) ↔
      (eventReports e c (n.conn c).active eof error).length = if (n.conn c).active then 1 else 0) ∧
    (EndReported c (evwsConnectionEventCb_ e c eof error n) →
      Once c (evwsConnectionEventCb_ e c eof error n)) := by
  have hall := eventReports_all e c (n.conn c).active eof error
  have hl := event_log e c eof error n
  obtain ⟨hd, ha⟩ : ((evwsConnectionEventCb_ e c eof error n).conn c).alive = false ∧
      ((evwsConnectionEventCb_ e c eof error n).conn c).active = false := free_conn e c _
  generalize evwsConnectionEventCb_ e c eof error n = n' at hl hd ha
  generalize eventReports e c (n.conn c).active eof error = es at hl hall
  have hcount : n'.log.countP (reportsEnd c) =
      (if (n.conn c).active then 0 else 1) + es.length := by
    rw [hl, List.countP_append, h.count, List.countP_eq_length.mpr hall]
  have hlast : n'.log.Pairwise fun a b => reportsEnd c a = true → b ≠ .data c := by
    rw [hl]
    refine List.pairwise_append.mpr ⟨h.last, List.pairwise_of_forall_mem_list ?_, ?_⟩
    · rintro a - b hb - rfl
      exact absurd (hall _ hb) (by simp [reportsEnd])
    · rintro a - b hb - rfl
      exact absurd (hall _ hb) (by simp [reportsEnd])
  refine ⟨⟨fun hr => ?_, fun hlen => ?_⟩, fun hr => ?_⟩
  · have hone := hr.freed hd
    rw [hcount] at hone
    split at hone <;> split <;> simp_all
  · have hone : n'.log.countP (reportsEnd c) = 1 := by
      rw [hcount, hlen]
      split <;> rfl
    exact ⟨hone.le, fun _ => hone, hlast⟩
  · refine ⟨?_, hlast, fun hf => ?_⟩
    · rw [hr.freed hd, ha]
      rfl
    · rw [ha] at hf
      cases hf

theorem eventReports_length (e : Wslay) (c : Nat) (active eof error : Bool) :
    (eventReports e c active eof error).length = (if active then 1 else 0) ↔
      if eof then active = true → failsToClose e = false
      else if error then active = true ∧ failsToClose e = false
      else active = true → failsToClose e = true := by
  cases eof <;> cases error <;> cases active <;> cases hf : failsToClose e <;>
    simp [eventReports, hf]

/-! ## Runs -/

theorem once_step (h : Once c n) (i : WsInput) (hi : EndsOnce c n i) :
    Once c (WsConnection.step c n i) := by
  cases i with
  | read msgs recv e =>
    simp only [WsConnection.step]
    split
    · rename_i ha
      simp only [Bool.and_eq_true, Bool.not_eq_true'] at ha
      exact (h.read recv e msgs).1 (hi ha.1 ha.2)
    · exact h
  | send e b =>
    simp only [WsConnection.step]
    split
    · exact h.send e b
    · exact h
  | drained =>
    simp only [WsConnection.step]
    split
    · rename_i ha
      simp only [Bool.and_eq_true] at ha
      exact h.close (hi ha.1 ha.2)
    · exact h
  | event eof error e =>
    simp only [WsConnection.step]
    split
    · rename_i ha
      obtain ⟨hiff, honce⟩ := h.event e eof error
      exact honce (hiff.mpr ((eventReports_length e c _ eof error).mpr (hi ha)))
    · exact h

theorem endsOnce_only (h : Once c n) (i : WsInput) (hr : EndReported c (WsConnection.step c n i)) :
    EndsOnce c n i := by
  have hs : Sound c (WsConnection.step c n i) := ⟨hr.once, hr.last⟩
  cases i with
  | read msgs recv e =>
    intro ha hc
    simp only [WsConnection.step, ha, hc, Bool.not_false, Bool.and_self, if_true] at hs
    exact (h.read recv e msgs).2 hs
  | send e b => trivial
  | drained =>
    intro ha hc
    simp only [WsConnection.step, ha, hc, Bool.and_self, if_true] at hs
    by_contra hn
    exact h.not_close (by simpa using hn) hs
  | event eof error e =>
    intro ha
    simp only [WsConnection.step, ha, if_true] at hr
    exact (eventReports_length e c _ eof error).mp ((h.event e eof error).1.mp hr)

/-- The end of a connection is reported as it should be, in every state of its
life, exactly when each of its inputs is one that reports it so. -/
theorem endReported_iff (c : Nat) (is : List WsInput) :
    (∀ js, js <+: is → EndReported c (run (WsConnection.step c) (WsConnection.new c) js)) ↔
      Meets (WsConnection.step c) (EndsOnce c) (WsConnection.new c) is :=
  prefixes_iff_kept (I := Once c) (P := EndReported c) (fun _ => Once.reported)
    (fun _ i h hi => once_step h i hi) (fun _ i h hr => endsOnce_only h i hr) (once_new c) is

/-- An error after a message that could not be queued is a second report. -/
theorem endReported_not_error :
    ¬ ∀ js, js <+: [.send ⟨-1, 0, false, 0, false⟩ protocolFailureFallback,
        .event false true ⟨0, 0, false, 0, false⟩] →
      EndReported 0 (run (WsConnection.step 0) (WsConnection.new 0) js) := by
  intro h
  exact absurd (h _ List.prefix_rfl).once (by decide)

end DQ.Proof.Ws
