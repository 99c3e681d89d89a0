import Disqueue.Proof.Python.Isolated
import Disqueue.Spec.Subscribed

/-!
# The handlers of a Python client

A method changes the object's desk as one operation on it does: `resend_want`
sends a request for the handler, which asks for its key unless that is empty
(`desk_resendWant`, `asksFor_want`), `notify_message` answers one
(`desk_notifyMessage`), and `run_and_reschedule` ends the work on a handler, and
sends a request for it if the handler returns (`desk_runAndReschedule`). So the
handlers are kept exactly if none has an empty key and none raises an exception
(`subscribed_prefixes_iff`).
-/

namespace DQ.Proof.Python

open DQ.Model.Python DQ.Spec DQ.Spec.Python

variable {ω η : Type} {o : ω}

/-- The message that `resend_want` sends. -/
def want (id : Identifier ω) (w : RescheduleItem η) : WantMessage ω :=
  ⟨w.queueId, id, w.key.filter (· ≠ "")⟩

/-- The key of the handler is not the empty string. -/
def keyed (w : RescheduleItem η) : Bool := w.key ≠ some ""

/-- Only the empty key is left out. -/
theorem filter_nonempty_iff (key : Option String) : key.filter (· ≠ "") = key ↔ key ≠ some "" := by
  cases key with
  | none => simp
  | some k => rw [Option.filter_some_eq_some]; simp

theorem asksFor_want (id : Identifier ω) (w : RescheduleItem η) :
    asksFor (want id w) w = keyed w := by
  rw [asksFor, want, keyed, Bool.eq_iff_iff, decide_eq_true_iff, decide_eq_true_iff,
    filter_nonempty_iff]
  exact and_iff_right rfl

/-! ## Waiting handlers -/

/-- A waiting handler, as it is put into `waiting_identifiers`. -/
def reschedule (p : String × WaitingItem ω η) : RescheduleItem η := ⟨p.1, p.2.key, p.2.handler⟩

/-- What `notify_open` sends. -/
def requests (o : ω) (number : Nat) (l : List (String × WaitingItem ω η)) :
    List (WantMessage ω × RescheduleItem η) :=
  l.zipIdx.map fun p => (want ⟨o, number, p.2⟩ (reschedule p.1), reschedule p.1)

theorem requests_identifiers (number : Nat) (l : List (String × WaitingItem ω η)) :
    ((requests o number l).map (·.1)).map WantMessage.identifier =
      (List.range' 0 l.length).map fun k => ⟨o, number, k⟩ := by
  rw [requests, List.map_map, ← List.zipIdx_map_snd 0 l, List.map_map, List.map_map]
  rfl

theorem requests_reschedule (number : Nat) (l : List (String × WaitingItem ω η)) :
    (requests o number l).map (·.2) = l.map reschedule := by
  calc (requests o number l).map (·.2)
    _ = (l.zipIdx.map (·.1)).map reschedule := by rw [requests, List.map_map, List.map_map]; rfl
    _ = l.map reschedule := by rw [List.zipIdx_map_fst]

theorem requests_nodup (number : Nat) (l : List (String × WaitingItem ω η)) :
    (((requests o number l).map (·.1)).map WantMessage.identifier).Nodup := by
  rw [requests_identifiers]
  apply List.Nodup.map _ List.nodup_range'
  intro i j h
  exact congrArg Identifier.index h

/-- A request asks for its handler if its key is not empty. -/
theorem asksFor_requests {number : Nat} {l : List (String × WaitingItem ω η)} :
    ∀ p ∈ requests o number l, asksFor p.1 p.2 = keyed p.2 := by
  intro p hp
  obtain ⟨q, -, rfl⟩ := List.mem_map.mp hp
  exact asksFor_want ..

/-- What the requests ask for. -/
theorem requests_asked (number : Nat) (l : List (String × WaitingItem ω η)) :
    ((requests o number l).filter fun p => asksFor p.1 p.2).map (·.2) =
      (l.map reschedule).filter keyed := by
  rw [List.filter_congr asksFor_requests, ← requests_reschedule number l, List.filter_map]
  rfl

/-! ## The methods -/

variable [DecidableEq ω] {account : ω → Account} {s : State ω η}

theorem desk_resendWant (number i : Nat) (w : RescheduleItem η) :
    desk o (resendWant ⟨o, number, i⟩ w s) =
      (desk o s).send WantMessage.identifier (want ⟨o, number, i⟩ w) w := by
  simp [desk, resendWant, State.emit, Desk.send, want, wantSent]

theorem desk_resendAll (number : Nat) (l : List ((String × WaitingItem ω η) × Nat)) (s : State ω η) :
    desk o (l.foldl (fun s p => resendWant ⟨o, number, p.2⟩ (reschedule p.1) s) s) =
      (desk o s).sendAll WantMessage.identifier
        (l.map fun p => (want ⟨o, number, p.2⟩ (reschedule p.1), reschedule p.1)) := by
  induction l generalizing s with
  | nil => rfl
  | cons p l ih => rw [List.foldl_cons, ih, desk_resendWant, List.map_cons, Desk.sendAll_cons]

theorem desk_notifyOpen (number : Nat) (s : State ω η) :
    desk o (notifyOpen o number s) =
      (desk o s).sendAll WantMessage.identifier (requests o number (waitingItems s.waitingHandlers)) :=
  desk_resendAll number _ s

theorem desk_notifyMessage (id : Identifier ω) (item : Option (Option String × String))
    (s : State ω η) :
    desk o (notifyMessage o (some (id, item)) s) = (desk o s).answer id := by
  unfold notifyMessage Desk.answer
  cases hid : s.waitingIdentifiers id with
  | none => simp [desk, hid]
  | some w => simp [desk, hid]

theorem mem_tasks_notifyMessage {id : Identifier ω} {item : Option (Option String × String)}
    {task : HandlerTask η} (h : task ∈ (notifyMessage o (some (id, item)) s).tasks o) :
    task ∈ s.tasks o ∨ task.item = item := by
  unfold notifyMessage at h
  cases hid : s.waitingIdentifiers id with
  | none => exact .inl (by simpa [hid] using h)
  | some w =>
    have hmem : task ∈ s.tasks o ++ [⟨w, item⟩] := by simpa [hid] using h
    rcases List.mem_append.mp hmem with hold | hnew
    · exact .inl hold
    · exact .inr (by rw [List.mem_singleton.mp hnew])

theorem tasks_runAndReschedule {number k : Nat} {returns : Bool} {task : HandlerTask η}
    (htask : (s.tasks o)[k]? = some task) :
    (runAndReschedule o number k returns s).tasks o = (s.tasks o).eraseIdx k := by
  unfold runAndReschedule
  rw [htask]
  cases hitem : task.item with
  | none => simp [hitem]
  | some item =>
    cases returns with
    | true => simp [hitem, State.emit, resendWant]
    | false => simp [hitem, State.emit]

/-- A call of a handler sends nothing. -/
theorem desk_ran (f : η) (key : Option String) (value : String) (s : State ω η) :
    desk o (s.emit o (.ran f key value)) = desk o s := by
  have hran : [(.ran f key value : Output ω η)].filterMap wantSent = [] := rfl
  simp only [desk, State.emit, Function.update_self, List.filterMap_append, hran, List.append_nil]

/-- A handler that was delivered an item. -/
theorem desk_runAndReschedule (number : Nat) (returns : Bool) {k : Nat} {task : HandlerTask η}
    (htask : (s.tasks o)[k]? = some task) (hitem : task.item ≠ none) :
    desk o (runAndReschedule o number k returns s) =
      if returns then
        ((desk o s).finish k).send WantMessage.identifier (want ⟨o, number, 0⟩ task.want) task.want
      else (desk o s).finish k := by
  obtain ⟨item, hitem⟩ := Option.ne_none_iff_exists'.mp hitem
  unfold runAndReschedule
  simp only [htask, hitem]
  have hfinish : desk o { s with tasks := Function.update s.tasks o ((s.tasks o).eraseIdx k) } =
      (desk o s).finish k := by
    simp [desk, Desk.finish, List.eraseIdx_map]
  cases returns with
  | true => simp only [if_true, desk_resendWant, desk_ran, hfinish]
  | false => simp only [Bool.false_eq_true, if_false, desk_ran, hfinish]

/-! ## Runs -/

/-- The calls that register handlers put them with those that wait. -/
theorem run_registered (account : ω → Account) (o : ω) (l : List (RescheduleItem η))
    (s : State ω η × Nat) :
    let t := run (callStep account o) s (l.map fun r => .queueHandler r.queueId r.key r.handler)
    desk o t.1 = desk o s.1 ∧
      ((waitingItems t.1.waitingHandlers).map reschedule).Perm
        ((waitingItems s.1.waitingHandlers).map reschedule ++ l) := by
  induction l generalizing s with
  | nil => simp
  | cons r l ih =>
    rw [List.map_cons, run_cons]
    obtain ⟨hdesk, hwaiting⟩ :=
      ih (callStep account o s (.queueHandler r.queueId r.key r.handler))
    refine ⟨hdesk, hwaiting.trans ?_⟩
    rw [List.append_cons]
    have happend := (waitingItems_appendOrCreate r.queueId ⟨o, r.key, r.handler⟩
      s.1.waitingHandlers).map reschedule
    rw [List.map_append] at happend
    exact happend.append_right l

/-- The desk after the opening. -/
theorem desk_opened (account : ω → Account) (o : ω) (registered : List (RescheduleItem η)) :
    ∃ number, ∃ l : List (String × WaitingItem ω η), (l.map reschedule).Perm registered ∧
      desk o (opened account o registered).1 =
        Desk.empty.sendAll WantMessage.identifier (requests o number l) ∧
      (opened account o registered).2 = number + 1 := by
  obtain ⟨hdesk, hwaiting⟩ := run_registered account o registered (State.empty, 0)
  rw [opened, run_append]
  generalize run (callStep account o) (State.empty, 0)
    (registered.map fun r => .queueHandler r.queueId r.key r.handler) = t at hdesk hwaiting
  refine ⟨t.2, waitingItems t.1.waitingHandlers, hwaiting, ?_, rfl⟩
  show desk o (notifyOpen o t.2 t.1) = _
  rw [desk_notifyOpen, hdesk]
  rfl

/-- The handlers with a key that is not empty are asked for. -/
theorem opened_keeps (registered : List (RescheduleItem η)) :
    Subscribed o (registered.filter keyed) (opened account o registered).1 := by
  obtain ⟨number, l, hperm, hdesk, -⟩ := desk_opened account o registered
  have hheld : ((Desk.empty.sendAll WantMessage.identifier (requests o number l)).held
      WantMessage.identifier asksFor).Perm _ := Desk.held_sendAll (requests_nodup number l)
  rw [requests_asked] at hheld
  rw [Subscribed, hdesk]
  exact hheld.trans (by simpa [Desk.held, Desk.outstanding, Desk.empty] using hperm.filter keyed)

/-- What the opening sends is tracked, if each key is asked for. -/
theorem opened_tracked {registered : List (RescheduleItem η)}
    (hkeyed : ∀ r ∈ registered, keyed r = true) :
    (desk o (opened account o registered).1).Tracked WantMessage.identifier asksFor := by
  obtain ⟨number, l, hperm, hdesk, -⟩ := desk_opened account o registered
  rw [hdesk]
  refine Desk.Tracked.empty.sendAll (requests_nodup number l) fun p hp => ?_
  rw [asksFor_requests p hp]
  refine hkeyed _ (hperm.subset ?_)
  rw [← requests_reschedule number l]
  exact List.mem_map_of_mem hp

/-- After the opening, the identifiers of later calls are new, and every task
was delivered an item. -/
structure Fresh (o : ω) (s : State ω η × Nat) : Prop where
  calls : ∀ m ∈ (desk o s.1).sent, m.identifier.call < s.2
  items : ∀ task ∈ s.1.tasks o, task.item ≠ none

theorem fresh_opened (registered : List (RescheduleItem η)) :
    Fresh o (opened account o registered) := by
  obtain ⟨number, l, -, hdesk, hnumber⟩ := desk_opened account o registered
  constructor
  · intro m hm
    rw [hdesk, Desk.sent_sendAll] at hm
    have hid : m.identifier ∈ ((requests o number l).map (·.1)).map WantMessage.identifier :=
      List.mem_map_of_mem hm
    rw [requests_identifiers] at hid
    obtain ⟨k, -, hk⟩ := List.mem_map.mp hid
    rw [← hk, hnumber]
    exact Nat.lt_succ_self number
  · intro task htask
    have hworking : ((opened account o registered).1.tasks o).map (·.want) = [] := by
      show (desk o (opened account o registered).1).working = []
      rw [hdesk, Desk.working_sendAll]
      rfl
    rw [List.map_eq_nil_iff.mp hworking] at htask
    cases htask

variable {t : State ω η × Nat}

omit [DecidableEq ω] in
/-- The identifier of the next call is new. -/
theorem Fresh.new (h : Fresh o t) (i : Nat) (w : RescheduleItem η) :
    (want ⟨o, t.2, i⟩ w).identifier ∉ (desk o t.1).sent.map WantMessage.identifier := by
  intro hmem
  obtain ⟨m, hm, hid⟩ := List.mem_map.mp hmem
  have hlt := h.calls m hm
  rw [hid] at hlt
  exact Nat.lt_irrefl _ hlt

theorem Fresh.delivered (h : Fresh o t) (id : Identifier ω) (item : Option String × String) :
    Fresh o (callStep account o t (.notifyMessage (some (id, some item)))) := by
  have hdesk : desk o (callStep account o t (.notifyMessage (some (id, some item)))).1 =
      (desk o t.1).answer id := desk_notifyMessage id (some item) t.1
  constructor
  · intro m hm
    rw [hdesk, Desk.sent_answer] at hm
    exact Nat.lt_succ_of_lt (h.calls m hm)
  · intro task htask
    rcases mem_tasks_notifyMessage htask with hold | hnew
    · exact h.items task hold
    · simp [hnew]

/-- Where there is no such task, nothing happens. -/
theorem callStep_idle {k : Nat} (returns : Bool) (hk : (t.1.tasks o)[k]? = none) :
    callStep account o t (.runAndReschedule k returns) = (t.1, t.2 + 1) := by
  simp [callStep, step, runAndReschedule, hk]

theorem Fresh.handled (h : Fresh o t) (k : Nat) (returns : Bool) :
    Fresh o (callStep account o t (.runAndReschedule k returns)) := by
  cases hk : (t.1.tasks o)[k]? with
  | none =>
    rw [callStep_idle returns hk]
    exact ⟨fun m hm => Nat.lt_succ_of_lt (h.calls m hm), h.items⟩
  | some task =>
    have hdesk : desk o (callStep account o t (.runAndReschedule k returns)).1 = _ :=
      desk_runAndReschedule t.2 returns hk (h.items task (List.mem_of_getElem? hk))
    have htasks : (callStep account o t (.runAndReschedule k returns)).1.tasks o =
        (t.1.tasks o).eraseIdx k := tasks_runAndReschedule hk
    constructor
    · intro m hm
      rw [hdesk] at hm
      cases returns with
      | false => exact Nat.lt_succ_of_lt (h.calls m hm)
      | true =>
        rcases List.mem_append.mp hm with hold | hnew
        · exact Nat.lt_succ_of_lt (h.calls m hold)
        · rw [List.mem_singleton.mp hnew]
          exact Nat.lt_succ_self t.2
    · intro task' htask'
      rw [htasks] at htask'
      exact h.items task' (List.mem_of_mem_eraseIdx htask')

theorem Fresh.later (h : Fresh o t) (e : Later (Identifier ω) Nat) :
    Fresh o (laterStep account o t e) := by
  cases e with
  | delivered id key value => exact h.delivered id (key, value)
  | handled k returns => exact h.handled k returns

/-- A step in which no handler raises an exception. -/
theorem change_kept (h : Fresh o t) {e : Later (Identifier ω) Nat} (he : HandlerReturns o t e) :
    Desk.Change WantMessage.identifier asksFor keyed (desk o t.1) true
      (desk o (laterStep account o t e).1) := by
  cases e with
  | delivered id key value =>
    show Desk.Change _ _ _ _ _ (desk o (notifyMessage o (some (id, some (key, value))) t.1))
    rw [desk_notifyMessage]
    exact .answered id
  | handled k returns =>
    show Desk.Change _ _ _ _ _ (desk o (callStep account o t (.runAndReschedule k returns)).1)
    cases hk : (t.1.tasks o)[k]? with
    | none =>
      rw [callStep_idle returns hk]
      exact .idle
    | some task =>
      have hreturns : returns = true := he.resolve_right (by simp [hk])
      subst hreturns
      have hdesk := desk_runAndReschedule t.2 true hk (h.items task (List.mem_of_getElem? hk))
      show Desk.Change _ _ _ _ _ (desk o (runAndReschedule o t.2 k true t.1))
      rw [hdesk, if_pos rfl]
      exact .renewed (by simp [desk, hk]) (h.new 0 task.want) fun hw => asksFor_want _ _ ▸ hw

/-- A step in which one does. -/
theorem change_lost (h : Fresh o t) {e : Later (Identifier ω) Nat} (he : ¬ HandlerReturns o t e) :
    Desk.Change WantMessage.identifier asksFor keyed (desk o t.1) false
      (desk o (laterStep account o t e).1) := by
  cases e with
  | delivered id key value => exact absurd trivial he
  | handled k returns =>
    obtain ⟨hraises, hk⟩ := not_or.mp he
    obtain ⟨task, hk⟩ := Option.ne_none_iff_exists'.mp hk
    have hdesk := desk_runAndReschedule t.2 returns hk (h.items task (List.mem_of_getElem? hk))
    show Desk.Change _ _ _ _ _ (desk o (runAndReschedule o t.2 k returns t.1))
    rw [hdesk, if_neg hraises]
    exact .dropped (w := task.want) (by simp [desk, hk])

/-- The handlers are kept in a run exactly if none has an empty key and each
that runs returns. -/
theorem subscribed_prefixes_iff (account : ω → Account) (o : ω)
    (registered : List (RescheduleItem η)) (later : List (Later (Identifier ω) Nat)) :
    (∀ js, js <+: later →
        Subscribed o registered (run (laterStep account o) (opened account o registered) js).1) ↔
      (∀ r ∈ registered, r.key ≠ some "") ∧
        Meets (laterStep account o) (HandlerReturns o) (opened account o registered) later := by
  have hkeyed : (∀ r ∈ registered, r.key ≠ some "") ↔ ∀ r ∈ registered, keyed r = true := by
    simp only [keyed, decide_eq_true_eq]
  rw [hkeyed]
  exact Desk.keeps_prefixes_iff (fun t : State ω η × Nat => desk o t.1) (fun _ e h => h.later e)
    (fun _ _ h he => change_kept h he) (fun _ _ h he => change_lost h he) (fresh_opened registered)
    (opened_keeps registered) opened_tracked later

end DQ.Proof.Python
