import Disqueue.Spec.Subscribed

/-!
# The handlers of a TypeScript client

The methods change the object's desk as those of the Python client do, except
that every request asks for its handler's key (`asksFor_want`), and a handler
that is registered for `__proto__` is not among those that `notifyOpen` finds
(`run_registered`). So the handlers are kept exactly if none is registered for
that, and none throws (`subscribed_prefixes_iff`).
-/

namespace DQ.Proof.TypeScript

open DQ.Model.TypeScript DQ.Spec DQ.Spec.TypeScript

variable {η : Type} {s : State η}

/-- The message that `resendWant` sends. -/
def want (id : Nat) (w : QueueRescheduleItem η) : WantMessage := ⟨w.1, id, w.2.1⟩

@[simp] theorem asksFor_want (id : Nat) (w : QueueRescheduleItem η) :
    asksFor (want id w) w = true := by
  simp [asksFor, want]

/-- The name makes an own property. -/
def named (w : QueueRescheduleItem η) : Bool := w.1 ≠ "__proto__"

/-! ## Waiting handlers -/

/-- The entries of an object are its own properties. -/
theorem objectEntries_perm {α : Type} (own : List (String × α)) :
    (objectEntries own).Perm own := by
  unfold objectEntries
  generalize arrayIndex = index
  apply ((List.mergeSort_perm _ _).append_right _).trans
  exact List.filter_append_perm (fun p => (index p.1).isSome) own

theorem objectEntries_singleton {α : Type} (p : String × α) : objectEntries [p] = [p] :=
  List.perm_singleton.mp (objectEntries_perm [p])

theorem ungroup_queueHandler (w : QueueRescheduleItem η)
    (own : List (String × List (Option String × η))) :
    (ungroup (queueHandler w.1 w.2.1 w.2.2 own)).Perm (ungroup own ++ [w].filter named) := by
  unfold queueHandler
  by_cases hname : w.1 = "__proto__"
  · simp [hname, named]
  · rw [if_neg hname, List.filter_cons_of_pos (by simpa [named] using hname)]
    exact ungroup_pushGroup w.1 (w.2.1, w.2.2) own

/-- What `notifyOpen` sends. -/
def requests (next : Nat) (l : List (QueueRescheduleItem η)) :
    List (WantMessage × QueueRescheduleItem η) :=
  (l.zipIdx next).map fun p => (want p.2 p.1, p.1)

theorem requests_identifiers (next : Nat) (l : List (QueueRescheduleItem η)) :
    ((requests next l).map (·.1)).map WantMessage.identifier = List.range' next l.length := by
  rw [requests, List.map_map, ← List.zipIdx_map_snd next l, List.map_map]
  rfl

theorem requests_reschedule (next : Nat) (l : List (QueueRescheduleItem η)) :
    (requests next l).map (·.2) = l := by
  calc (requests next l).map (·.2)
    _ = (l.zipIdx next).map (·.1) := by rw [requests, List.map_map]; rfl
    _ = l := List.zipIdx_map_fst next l

theorem requests_nodup (next : Nat) (l : List (QueueRescheduleItem η)) :
    (((requests next l).map (·.1)).map WantMessage.identifier).Nodup := by
  rw [requests_identifiers]
  exact List.nodup_range'

/-- Each request asks for its handler. -/
theorem asksFor_requests {next : Nat} {l : List (QueueRescheduleItem η)} :
    ∀ p ∈ requests next l, asksFor p.1 p.2 = true := by
  intro p hp
  obtain ⟨q, -, rfl⟩ := List.mem_map.mp hp
  exact asksFor_want ..

/-! ## The methods -/

theorem desk_resendWant (w : QueueRescheduleItem η) (s : State η) :
    desk (resendWant w s) = (desk s).send WantMessage.identifier (want s.next w) w := by
  simp [desk, resendWant, Desk.send, want, wantSent]

theorem desk_resendAll (l : List (QueueRescheduleItem η)) (s : State η) :
    desk (l.foldl (fun s w => resendWant w s) s) =
      (desk s).sendAll WantMessage.identifier (requests s.next l) := by
  induction l generalizing s with
  | nil => rfl
  | cons w l ih =>
    have hrequests : requests s.next (w :: l) = (want s.next w, w) :: requests (s.next + 1) l := by
      rw [requests, List.zipIdx_cons]
      rfl
    rw [List.foldl_cons, ih, desk_resendWant, hrequests, Desk.sendAll_cons]
    rfl

theorem next_resendAll (l : List (QueueRescheduleItem η)) (s : State η) :
    (l.foldl (fun s w => resendWant w s) s).next = s.next + l.length := by
  induction l generalizing s with
  | nil => rfl
  | cons w l ih =>
    rw [List.foldl_cons, ih, List.length_cons]
    simp only [resendWant]
    omega

/-- While a handler runs, no message is handled. -/
theorem notifyMessage_running {id : Nat} {key : Option String} {value : String}
    (hrunning : s.running ≠ none) : notifyMessage id key value s = s := by
  obtain ⟨w, hw⟩ := Option.ne_none_iff_exists'.mp hrunning
  simp [notifyMessage, hw]

theorem desk_notifyMessage {id : Nat} {key : Option String} {value : String}
    (hrunning : s.running = none) : desk (notifyMessage id key value s) = (desk s).answer id := by
  unfold notifyMessage Desk.answer
  have hran (f : η) : [Output.ran f key value].filterMap wantSent = [] := rfl
  cases hid : s.waitingIdentifiers id with
  | none => simp [desk, hid, hrunning]
  | some w => simp [desk, hid, hrunning, hran]

theorem desk_handled {returns : Bool} {w : QueueRescheduleItem η} (hrunning : s.running = some w) :
    desk (handled returns s) =
      if returns then ((desk s).finish 0).send WantMessage.identifier (want s.next w) w
      else (desk s).finish 0 := by
  unfold handled
  rw [hrunning]
  have hfinish : desk { s with running := none } = (desk s).finish 0 := by
    simp [desk, Desk.finish, hrunning]
  cases returns with
  | true => simp only [if_true, desk_resendWant, hfinish]
  | false => simp only [Bool.false_eq_true, if_false, hfinish]

/-! ## Runs -/

/-- The calls that register handlers put them with those that wait, if the
name makes an own property. -/
theorem run_registered (l : List (QueueRescheduleItem η)) (s : State η) :
    let t := run step s (l.map fun r => .queueHandler r.1 r.2.1 r.2.2)
    desk t = desk s ∧ t.next = s.next ∧
      (ungroup t.waitingHandlers).Perm (ungroup s.waitingHandlers ++ l.filter named) := by
  induction l generalizing s with
  | nil => simp
  | cons r l ih =>
    rw [List.map_cons, run_cons]
    obtain ⟨hdesk, hnext, hwaiting⟩ := ih (step s (.queueHandler r.1 r.2.1 r.2.2))
    refine ⟨hdesk, hnext, hwaiting.trans ?_⟩
    have hregister := (ungroup_queueHandler r s.waitingHandlers).append_right (l.filter named)
    rwa [List.append_assoc, ← List.filter_append] at hregister

/-- The desk after the opening. -/
theorem desk_opened (registered : List (QueueRescheduleItem η)) :
    ∃ l : List (QueueRescheduleItem η), l.Perm (registered.filter named) ∧
      desk (opened registered) = Desk.empty.sendAll WantMessage.identifier (requests 0 l) ∧
      (opened registered).next = l.length := by
  obtain ⟨hdesk, hnext, hwaiting⟩ := run_registered registered State.new
  rw [opened, run_append]
  generalize run step State.new (registered.map fun r => .queueHandler r.1 r.2.1 r.2.2) = t at *
  refine ⟨ungroup (objectEntries t.waitingHandlers),
    (ungroup_perm (objectEntries_perm t.waitingHandlers)).trans hwaiting, ?_, ?_⟩
  · show desk (notifyOpen t) = _
    have hall := desk_resendAll (ungroup (objectEntries t.waitingHandlers)) t
    rw [hdesk, hnext] at hall
    exact hall
  · show (notifyOpen t).next = _
    have hall := next_resendAll (ungroup (objectEntries t.waitingHandlers)) t
    rw [hnext] at hall
    exact hall.trans (Nat.zero_add _)

/-- The handlers whose names make own properties are asked for. -/
theorem opened_keeps (registered : List (QueueRescheduleItem η)) :
    Subscribed (registered.filter named) (opened registered) := by
  obtain ⟨l, hperm, hdesk, -⟩ := desk_opened registered
  have hheld : ((Desk.empty.sendAll WantMessage.identifier (requests 0 l)).held
      WantMessage.identifier asksFor).Perm _ := Desk.held_sendAll (requests_nodup 0 l)
  rw [List.filter_eq_self.mpr asksFor_requests, requests_reschedule] at hheld
  rw [Subscribed, hdesk]
  exact hheld.trans (by simpa [Desk.held, Desk.outstanding, Desk.empty] using hperm)

theorem opened_tracked (registered : List (QueueRescheduleItem η)) :
    (desk (opened registered)).Tracked WantMessage.identifier asksFor := by
  obtain ⟨l, -, hdesk, -⟩ := desk_opened registered
  rw [hdesk]
  exact Desk.Tracked.empty.sendAll (requests_nodup 0 l) asksFor_requests

/-- The next identifier is new. -/
def Fresh (s : State η) : Prop := ∀ m ∈ (desk s).sent, m.identifier < s.next

theorem fresh_opened (registered : List (QueueRescheduleItem η)) : Fresh (opened registered) := by
  obtain ⟨l, -, hdesk, hnext⟩ := desk_opened registered
  intro m hm
  rw [hdesk, Desk.sent_sendAll] at hm
  have hid : m.identifier ∈ ((requests 0 l).map (·.1)).map WantMessage.identifier :=
    List.mem_map_of_mem hm
  rw [requests_identifiers, List.mem_range'_1] at hid
  omega

theorem Fresh.new (h : Fresh s) (w : QueueRescheduleItem η) :
    (want s.next w).identifier ∉ (desk s).sent.map WantMessage.identifier := by
  intro hmem
  obtain ⟨m, hm, hid⟩ := List.mem_map.mp hmem
  have hlt := h m hm
  rw [hid] at hlt
  exact Nat.lt_irrefl _ hlt

theorem next_notifyMessage (id : Nat) (key : Option String) (value : String) (s : State η) :
    (notifyMessage id key value s).next = s.next := by
  unfold notifyMessage
  cases s.running with
  | some w => rfl
  | none =>
    cases s.waitingIdentifiers id with
    | none => rfl
    | some w => rfl

theorem Fresh.later (h : Fresh s) (e : Later Nat Unit) : Fresh (laterStep s e) := by
  cases e with
  | delivered id key value =>
    show Fresh (notifyMessage id key value s)
    intro m hm
    rw [next_notifyMessage]
    by_cases hrunning : s.running = none
    · rw [desk_notifyMessage hrunning, Desk.sent_answer] at hm
      exact h m hm
    · rw [notifyMessage_running hrunning] at hm
      exact h m hm
  | handled k returns =>
    show Fresh (handled returns s)
    cases hrunning : s.running with
    | none => simpa [handled, hrunning] using h
    | some w =>
      intro m hm
      rw [desk_handled hrunning] at hm
      cases returns with
      | false => simpa [handled, hrunning] using h m hm
      | true =>
        have hnext : (handled true s).next = s.next + 1 := by
          simp [handled, hrunning, resendWant]
        rw [hnext]
        rcases List.mem_append.mp hm with hold | hnew
        · exact Nat.lt_succ_of_lt (h m hold)
        · rw [List.mem_singleton.mp hnew]
          exact Nat.lt_succ_self s.next

/-- A step in which no handler throws. -/
theorem change_kept (h : Fresh s) {e : Later Nat Unit} (he : HandlerReturns s e) :
    Desk.Change WantMessage.identifier asksFor named (desk s) true (desk (laterStep s e)) := by
  cases e with
  | delivered id key value =>
    show Desk.Change _ _ _ _ _ (desk (notifyMessage id key value s))
    by_cases hrunning : s.running = none
    · rw [desk_notifyMessage hrunning]
      exact .answered id
    · rw [notifyMessage_running hrunning]
      exact .idle
  | handled k returns =>
    show Desk.Change _ _ _ _ _ (desk (handled returns s))
    cases hrunning : s.running with
    | none =>
      have hidle : handled returns s = s := by simp [handled, hrunning]
      rw [hidle]
      exact .idle
    | some w =>
      have hreturns : returns = true := he.resolve_right (by simp [hrunning])
      rw [desk_handled hrunning, if_pos hreturns]
      exact .renewed (by simp [desk, hrunning]) (h.new w) fun _ => asksFor_want s.next w

/-- A step in which one does. -/
theorem change_lost {e : Later Nat Unit} (he : ¬ HandlerReturns s e) :
    Desk.Change WantMessage.identifier asksFor named (desk s) false (desk (laterStep s e)) := by
  cases e with
  | delivered id key value => exact absurd trivial he
  | handled k returns =>
    obtain ⟨hthrows, hrunning⟩ := not_or.mp he
    obtain ⟨w, hrunning⟩ := Option.ne_none_iff_exists'.mp hrunning
    show Desk.Change _ _ _ _ _ (desk (handled returns s))
    rw [desk_handled hrunning, if_neg hthrows]
    exact .dropped (w := w) (by simp [desk, hrunning])

/-- The handlers are kept in a run exactly if none is registered for the name
`__proto__` and each that runs returns. -/
theorem subscribed_prefixes_iff (registered : List (QueueRescheduleItem η))
    (later : List (Later Nat Unit)) :
    (∀ js, js <+: later → Subscribed registered (run laterStep (opened registered) js)) ↔
      (∀ r ∈ registered, r.1 ≠ "__proto__") ∧
        Meets laterStep HandlerReturns (opened registered) later := by
  have hnamed : (∀ r ∈ registered, r.1 ≠ "__proto__") ↔ ∀ r ∈ registered, named r = true := by
    simp only [named, decide_eq_true_eq]
  rw [hnamed]
  exact Desk.keeps_prefixes_iff desk (fun _ e h => Fresh.later h e)
    (fun _ _ h he => change_kept h he) (fun _ _ _ he => change_lost he) (fresh_opened registered)
    (opened_keeps registered)
    (fun _ => opened_tracked registered) later

end DQ.Proof.TypeScript
