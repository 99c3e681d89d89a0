import Disqueue.Proof.Server.Released

/-!
# Wants and the connections they name

A want that is not cancelled names a connection that was not freed, exactly as
long as every event that frees a connection is reported to the close or error
callback, or the connection has no such want (`pending_iff`). No other step
endangers this: a message comes from a connection that is there, and no
handler frees one.
-/

namespace DQ.Proof.Server

open DQ.Model DQ.Spec

/-- Every want that is not cancelled names a connection that was not freed. -/
def PendingAlive (n : Net) : Prop :=
  ∀ w ∈ n.wants, w.cancelled = false → (n.conn w.client).alive = true

theorem pendingAlive_startup : PendingAlive Server.startup.net := by
  intro w hw
  cases hw

/-- Easing wants keeps it, while connections stay. -/
theorem PendingAlive.eased {n n' : Net} (h : PendingAlive n) {ws : List Want}
    (hws : ∀ w ∈ ws, w ∈ n.wants) (hw : List.Forall₂ Eased ws n'.wants)
    (ha : ∀ c, (n'.conn c).alive = (n.conn c).alive) : PendingAlive n' := by
  intro w' hw' hc
  obtain ⟨w, hm, rfl | rfl⟩ := eased_mem hw hw'
  · rw [ha]
    exact h _ (hws _ hm) hc
  · cases hc

variable {s s' : Server}

theorem PendingAlive.same (h : PendingAlive s.net) (hn : s'.net.wants = s.net.wants)
    (ha : s'.net.conn = s.net.conn) : PendingAlive s'.net :=
  h.eased (fun _ hw => hw) (hn ▸ eased_refl _) fun c => by rw [ha]

/-- Acts that make or free no connection keep it. -/
theorem PendingAlive.act (h : PendingAlive s.net) {l : Label} (hl : l ≠ .connection)
    (ha : Act s l s') : PendingAlive s'.net := by
  cases ha with
  | calm hs hw hh hn hx => exact h.eased (fun _ hw => hw) hn.wants hn.alive
  | connected hs hw hh hn ht hx => exact absurd rfl hl
  | freed items cbs hs hw hc hf hn ha ht hx => exact h.same hn ha
  | accepted i hi hs hw hh hn ha ht hx => exact h.same hn ha
  | put i hi hs hw hh hn ha ht hx => exact h.same hn ha
  | took a i replied rid hs hw hh hn ha ht hx => exact h.same hn ha
  | refused w key hi hs hw hh hn ha ht hx => exact h.same hn ha
  | waits w key hi hc hs hw hh hn ha ht hx =>
    intro v hv hcv
    rw [hn] at hv
    rw [ha]
    rcases List.mem_append.mp hv with hv | hv
    · exact h v hv hcv
    · rw [List.mem_singleton.mp hv]
      exact hc
  | matched a i cb answered hk hs hw hh hn hx =>
    exact h.eased (fun _ hw => (List.mem_filter.mp hw).1) hn.wants hn.alive

theorem Acts.pendingAlive {ls : List Label} (h : Acts s ls s') (hl : .connection ∉ ls)
    (hp : PendingAlive s.net) : PendingAlive s'.net := by
  induction h with
  | nil => exact hp
  | cons ha _ ih =>
    rw [List.mem_cons, not_or] at hl
    exact ih hl.2 (hp.act (Ne.symm hl.1) ha)

/-! ## The end of a connection -/

/-- What `manager_queue_want_close` leaves of the wants. -/
theorem close_wants (c : Nat) (ws : List Want) :
    ∀ w ∈ managerQueueWantClose c ws, w.client = c → w.cancelled = true := by
  intro w hw hc
  obtain ⟨v, -, rfl⟩ := List.mem_map.mp hw
  split
  · rfl
  · rename_i h
    rw [if_neg h] at hc
    exact absurd hc h

/-- Once cancelled, a connection's wants stay cancelled. -/
theorem cancelled_eased {c : Nat} {ws ws' : List Want} (h : List.Forall₂ Eased ws ws')
    (hc : ∀ w ∈ ws, w.client = c → w.cancelled = true) :
    ∀ w ∈ ws', w.client = c → w.cancelled = true := by
  intro w' hw' hcl
  obtain ⟨w, hm, rfl | rfl⟩ := eased_mem h hw'
  · exact hc _ hm hcl
  · rfl

/-- Closing a connection cancels its wants. -/
theorem evwsClose_cancels (c : Nat) (n : Net) :
    ∀ w ∈ (evwsClose_ c n).wants, w.client = c → w.cancelled = true :=
  close_wants c n.wants

/-- Freeing an active connection reports it if the close message fails. -/
theorem free_reports (e : Wslay) (c : Nat) (n : Net) (ha : (n.conn c).active = true)
    (he : (decide (e.queueClose < 0) || e.sendFails) = true) :
    ∀ w ∈ (evwsConnectionFree e c n).wants, w.client = c → w.cancelled = true := by
  unfold evwsConnectionFree evwsConnectionSendClose_ evwsConnectionWrite_
  rw [if_pos ha]
  simp only [ha, Bool.not_true, Bool.false_eq_true, if_false]
  by_cases hq : e.queueClose < 0
  · rw [if_pos hq]
    exact evwsClose_cancels c n
  · rw [if_neg hq, if_pos (by simpa [hq] using he)]
    exact evwsClose_cancels c n

/-- Otherwise it leaves the wants as they are. -/
theorem free_silent (e : Wslay) (c : Nat) (n : Net)
    (he : ((n.conn c).active && (decide (e.queueClose < 0) || e.sendFails)) = false) :
    (evwsConnectionFree e c n).wants = n.wants := by
  unfold evwsConnectionFree evwsConnectionSendClose_ evwsConnectionWrite_
  by_cases ha : (n.conn c).active = true
  · simp only [ha, Bool.true_and, Bool.or_eq_false_iff, decide_eq_false_iff_not] at he
    simp only [ha, if_true, Bool.not_true, Bool.false_eq_true, if_false, he.1, he.2]
    split <;> rfl
  · rw [if_neg ha]
    rfl

/-- An event that is reported cancels the connection's wants. -/
theorem event_reports {e : Wslay} {c : Nat} {eof error : Bool} {n : Net}
    (h : reports e (n.conn c) eof error = true) :
    ∀ w ∈ (evwsConnectionEventCb_ e c eof error n).wants, w.client = c → w.cancelled = true := by
  unfold evwsConnectionEventCb_
  unfold reports at h
  cases eof with
  | true =>
    simp only [if_true] at h ⊢
    rw [if_pos h]
    exact cancelled_eased (free_eased e c _).1 (close_wants c n.wants)
  | false =>
    cases error with
    | true =>
      simp only [Bool.false_eq_true, if_false, if_true]
      exact cancelled_eased (free_eased e c _).1 (close_wants c n.wants)
    | false =>
      simp only [Bool.false_eq_true, if_false, Bool.false_or, Bool.and_eq_true] at h ⊢
      exact free_reports e c n h.1 h.2

/-- An event that is not leaves them. -/
theorem event_silent {e : Wslay} {c : Nat} {eof error : Bool} {n : Net}
    (h : reports e (n.conn c) eof error = false) :
    (evwsConnectionEventCb_ e c eof error n).wants = n.wants := by
  unfold evwsConnectionEventCb_
  unfold reports at h
  cases eof with
  | true =>
    simp only [if_true] at h ⊢
    rw [h]
    exact free_silent e c n (by rw [h]; rfl)
  | false =>
    cases error with
    | true => cases h
    | false => exact free_silent e c n h

/-- An event frees its connection, and no other. -/
theorem event_alive (e : Wslay) (c : Nat) (eof error : Bool) (n : Net) (c' : Nat) :
    ((evwsConnectionEventCb_ e c eof error n).conn c').alive =
      if c' = c then false else (n.conn c').alive := by
  have free : ∀ n' : Net, (∀ x, (n'.conn x).alive = (n.conn x).alive) →
      ((evwsConnectionFree e c n').conn c').alive =
        if c' = c then false else (n.conn c').alive := by
    intro n' hn
    unfold evwsConnectionFree
    by_cases hc : c' = c
    · subst hc
      simp [Net.setConn]
    · simp only [Net.setConn, Function.update_of_ne hc, if_neg hc]
      split
      · rw [(calm_sendClose e c n').alive, hn]
      · exact hn c'
  unfold evwsConnectionEventCb_
  split
  · split
    · exact free _ (calm_close c n).alive
    · exact free _ fun _ => rfl
  · split
    · exact free _ (calm_error c n).alive
    · exact free _ fun _ => rfl

/-- After an event, the wants that are not cancelled name connections that are
there exactly if the event is reported or there were none of its
connection's. -/
theorem pendingAlive_event {n : Net} (hp : PendingAlive n) (e : Wslay) (c : Nat)
    (eof error : Bool) :
    PendingAlive (evwsConnectionEventCb_ e c eof error n) ↔
      reports e (n.conn c) eof error = true ∨
        ∀ w ∈ n.wants, w.client = c → w.cancelled = true := by
  constructor
  · intro h
    by_cases hr : reports e (n.conn c) eof error = true
    · exact .inl hr
    · refine .inr fun w hw hc => ?_
      by_contra hcan
      have := h w (event_silent (Bool.not_eq_true _ |>.mp hr) ▸ hw) (Bool.not_eq_true _ |>.mp hcan)
      rw [event_alive, if_pos hc] at this
      cases this
  · intro h w hw hcan
    have hne : w.client ≠ c := by
      intro hc
      rcases h with h | h
      · rw [event_reports h w hw hc] at hcan
        cases hcan
      · rw [cancelled_eased (event_eased e c eof error n).1 h w hw hc] at hcan
        cases hcan
    rw [event_alive, if_neg hne]
    obtain ⟨v, hv, rfl | rfl⟩ := eased_mem (event_eased e c eof error n).1 hw
    · exact hp _ hv hcan
    · cases hcan

/-! ## Runs -/

variable {dm : DataModel}

theorem connection_toList (f : Bool → Label) (hf : ∀ b, f b ≠ .connection) (o : Option Bool) :
    Label.connection ∉ (o.map f).toList := by
  cases o with
  | none => simp
  | some b => simpa using (hf b).symm

theorem connection_read (c : Nat) (ms : List Message) (s : Server) :
    .connection ∉ readGives dm c s ms := by
  induction ms generalizing s with
  | nil => exact List.not_mem_nil
  | cons m ms ih =>
    rw [readGives, List.mem_append, not_or]
    exact ⟨connection_toList .matched (fun _ => Label.noConfusion) _, ih _⟩

theorem connection_http (r : Request) (s : Server) : .connection ∉ httpGives dm r s := by
  unfold httpGives
  cases r.path with
  | take => exact connection_toList .took (fun _ => Label.noConfusion) _
  | put => exact connection_toList .matched (fun _ => Label.noConfusion) _
  | _ => exact List.not_mem_nil

theorem pendingAlive_step (hg : Good s) (hp : PendingAlive s.net) (i : Input) :
    PendingAlive (s.step dm i).net ↔ ReportsEnd s i := by
  obtain ⟨ls, ha, he, -⟩ := step_does dm hg.1 hg.2 i
  have keeps : .connection ∉ stepGives dm s i → PendingAlive (s.step dm i).net := fun h =>
    ha.pendingAlive (fun hm => h (he ▸ mem_effects.mpr ⟨hm, nofun⟩)) hp
  cases i with
  | http r => exact iff_of_true (keeps (connection_http r s)) trivial
  | opened =>
    refine iff_of_true (fun w hw hc => ?_) trivial
    have := hp w hw hc
    simp only [Server.step, Net.setConn, Function.update_apply]
    split
    · rfl
    · exact this
  | read c msgs recv e =>
    refine iff_of_true (keeps ?_) trivial
    dsimp only [stepGives]
    split
    · exact connection_read c msgs s
    · exact List.not_mem_nil
  | drained c => exact iff_of_true (keeps List.not_mem_nil) trivial
  | event c eof error e =>
    dsimp only [Server.step, ReportsEnd]
    split
    · rename_i hal
      rw [pendingAlive_event hp]
      exact ⟨fun h _ => h, fun h => h hal⟩
    · rename_i hal
      exact iff_of_true hp fun h => absurd h hal

/-- In every state of a run no want that is not cancelled names a freed
connection, exactly if each event that frees a connection is reported, or the
connection has no such want. -/
theorem pending_iff (dm : DataModel) (is : List Input) :
    (∀ js, js <+: is → PendingAlive (run (Server.step dm) .startup js).net) ↔
      Meets (Server.step dm) ReportsEnd .startup is :=
  prefixes_iff_meets (I := Good) (fun _ i h => good_step i h)
    (fun _ i hg hp => pendingAlive_step hg hp i) good_startup pendingAlive_startup is

/-- Two messages are read at once from a connection that then ends. The first
cannot be answered, since sending fails; the connection is closed before the
second makes its want. -/
def wantAfterClose : List Input :=
  [postQueues, .opened,
    .read 1 [⟨1, none, ⟨allOk, ⟨0, 0, true, -1, false⟩⟩⟩, wantMessage] 0 wslayOk,
    .event 1 true false wslayOk]

theorem want_dangles :
    ¬ ∀ js, js <+: wantAfterClose → PendingAlive (run (Server.step .lp64) .startup js).net := by
  intro h
  have hp := h wantAfterClose (List.prefix_refl _) ⟨3, ['i'], false, 0, 1⟩
  revert hp
  decide +kernel

end DQ.Proof.Server
