import Disqueue.Spec.Network
import Disqueue.Proof.Service.Frame

/-!
# What a call does with items and waiters

Of the items of all queues and the waiters, a call of the service keeps all but
those it gives to each other, loses some, and adds what it brings (`Effect`). An
item that is given to a waiter is in a message to the waiter's client, or both are
lost.
-/

namespace DQ.Proof.Network

open DQ.Model DQ.Spec DQ.Proof.Service

/-- The items of all queues. -/
def stored (rooms : List Room) : List Item :=
  rooms.flatMap fun r => r.line.items.map fun x => (fold r.name, x)

/-- A waiter, with the name of its queue. -/
abbrev NamedWaiter := CStr × Waiter

def waiting (rooms : List Room) : List NamedWaiter :=
  rooms.flatMap fun r => r.line.waiters.map fun w => (fold r.name, w)

/-- The messages, each with the number of its connection. -/
def addressed (out : List Sent) : List (Nat × Json) :=
  out.filterMap fun
    | .message c json => some (c, json)
    | .reply .. => none

/-- The message that answers a waiter. -/
def answer (w : Waiter) (x : Entry) : Json := successJson (some (answerJson w.identifier x.json))

/-- From the waiters `W` and the items `S` to others, with the waiters that are
lost and the messages that are sent. -/
inductive Effect (W : List NamedWaiter) (S : List Item) (W' : List NamedWaiter) (S' : List Item) :
    List NamedWaiter → List (Nat × Json) → Prop
  /-- No item is given to a waiter, and the messages are no answers. -/
  | quiet {lost msgs} (hs : S'.Subperm S) (hw : W.Perm (lost ++ W'))
    (hm : ∀ m ∈ msgs, payloadTexts m.2 = none) : Effect W S W' S' lost msgs
  /-- A waiter is given an item that it wants. -/
  | gives {n w x} (hwants : entryWants w.key x = true) (hs : ((n, x) :: S').Subperm S)
    (hw : W.Perm ((n, w) :: W')) : Effect W S W' S' [] [(w.client, answer w x)]

variable {W W' : List NamedWaiter} {S S' : List Item}

/-! ## A queue among others -/

section
variable {n : CStr} {rooms : List Room} {p : Service.Place}

theorem stored_append (a b : List Room) : stored (a ++ b) = stored a ++ stored b :=
  List.flatMap_append

theorem waiting_append (a b : List Room) : waiting (a ++ b) = waiting a ++ waiting b :=
  List.flatMap_append

theorem stored_cons (r : Room) (l : List Room) :
    stored (r :: l) = r.line.items.map (fun x => (fold r.name, x)) ++ stored l := rfl

theorem waiting_cons (r : Room) (l : List Room) :
    waiting (r :: l) = r.line.waiters.map (fun w => (fold r.name, w)) ++ waiting l := rfl

/-- The queue that was found, and the others. -/
theorem place_perm (h : Service.lookup (some n) none rooms = .ok p) :
    (stored rooms).Perm (p.room.line.items.map (fun x => (fold n, x)) ++ stored p.free) ∧
      (waiting rooms).Perm (p.room.line.waiters.map (fun w => (fold n, w)) ++ waiting p.free) := by
  obtain ⟨hrooms, hname, -⟩ := lookup_found h
  rw [← strcaseEq_iff.mp hname, hrooms, Service.Place.free, stored_append, stored_cons,
    stored_append, waiting_append, waiting_cons, waiting_append]
  exact ⟨List.perm_append_comm_assoc .., List.perm_append_comm_assoc ..⟩

/-- The same for what replaces the queue. -/
theorem place_set_perm (h : Service.lookup (some n) none rooms = .ok p)
    (line : Rendezvous Entry Waiter) :
    (stored (p.set line)).Perm (line.items.map (fun x => (fold n, x)) ++ stored p.free) ∧
      (waiting (p.set line)).Perm (line.waiters.map (fun w => (fold n, w)) ++ waiting p.free) := by
  obtain ⟨-, hname, -⟩ := lookup_found h
  rw [← strcaseEq_iff.mp hname, Service.Place.set, Service.Place.free, stored_append, stored_cons,
    stored_append, waiting_append, waiting_cons, waiting_append]
  exact ⟨List.perm_append_comm_assoc .., List.perm_append_comm_assoc ..⟩

/-- The queue that was found, or a new one without items and waiters. -/
theorem lookup_perm {name : Option CStr} {makes : Option (Option CStr)}
    (h : Service.lookup name makes rooms = .ok p) :
    (stored (p.set p.room.line)).Perm (stored rooms) ∧
      (waiting (p.set p.room.line)).Perm (waiting rooms) := by
  rcases lookup_place h with ⟨n, -, hrooms, -, -⟩ | ⟨-, id, rfl⟩
  · rw [hrooms]
    exact ⟨List.Perm.refl _, List.Perm.refl _⟩
  · rw [Service.Place.set, stored_append, waiting_append]
    simp [stored, waiting]

theorem free_perm {name : Option CStr} {makes : Option (Option CStr)}
    (h : Service.lookup name makes rooms = .ok p) :
    (stored p.free).Subperm (stored rooms) ∧
      ∃ lost, (waiting rooms).Perm (lost ++ waiting p.free) := by
  rcases lookup_place h with ⟨n, -, hrooms, -, -⟩ | ⟨-, id, rfl⟩
  · rw [hrooms, Service.Place.free, stored_append, stored_append, stored_cons, waiting_append,
      waiting_append, waiting_cons]
    refine ⟨List.Sublist.subperm ?_, _, List.perm_append_comm_assoc ..⟩
    exact (List.sublist_append_right ..).append_left _
  · rw [Service.Place.free, List.append_nil]
    exact ⟨List.Subperm.refl _, [], List.Perm.refl _⟩

end

/-! ## Lines -/

section
variable {n : CStr}

/-- An item that is put is stored, or is given to a waiter that wants it. -/
theorem put_cases (line : Rendezvous Entry Waiter) (x : Entry) :
    (∃ line', line.put entryWants Waiter.key x = (line', none) ∧
        line'.items = line.items ++ [x] ∧ line'.waiters = line.waiters) ∨
      ∃ line' w, line.put entryWants Waiter.key x = (line', some w) ∧
        line'.items = line.items ∧ line.waiters.Perm (w :: line'.waiters) ∧
        entryWants w.key x = true := by
  unfold Rendezvous.put
  cases hs : splitFirst (fun w : Waiter => entryWants w.key x) line.waiters with
  | none => exact .inl ⟨_, rfl, rfl, rfl⟩
  | some t =>
    obtain ⟨pre, w, post⟩ := t
    obtain ⟨hl, hw, -⟩ := splitFirst_eq_some.mp hs
    exact .inr ⟨_, w, rfl, rfl, hl ▸ List.perm_middle, hw⟩

theorem take_cases (line : Rendezvous Entry Waiter) (key : Option CStr) :
    line.take entryWants key = (line, none) ∨
      ∃ line' x, line.take entryWants key = (line', some x) ∧ line'.waiters = line.waiters ∧
        line.items.Perm (x :: line'.items) ∧ entryWants key x = true := by
  unfold Rendezvous.take
  cases hs : splitFirst (entryWants key) line.items with
  | none => exact .inl rfl
  | some t =>
    obtain ⟨pre, x, post⟩ := t
    obtain ⟨hl, hx, -⟩ := splitFirst_eq_some.mp hs
    exact .inr ⟨_, x, rfl, rfl, hl ▸ List.perm_middle, hx⟩

theorem wait_cases (line : Rendezvous Entry Waiter) (w : Waiter) :
    (∃ line', line.wait entryWants Waiter.key w = (line', none) ∧ line'.items = line.items ∧
        line'.waiters = line.waiters ++ [w]) ∨
      ∃ line' x, line.wait entryWants Waiter.key w = (line', some x) ∧
        line'.waiters = line.waiters ∧ line.items.Perm (x :: line'.items) ∧
        entryWants w.key x = true := by
  unfold Rendezvous.wait
  rcases take_cases line w.key with h | ⟨line', x, h, hw, hi, hx⟩
  · rw [h]
    exact .inl ⟨_, rfl, rfl, rfl⟩
  · rw [h]
    exact .inr ⟨line', x, rfl, hw, hi, hx⟩

end

/-! ## Requests -/

section
variable {t : Service} {c : Nat} {fate : LinkFate} {json : Json}

theorem send_addressed (c : Nat) (fate : LinkFate) (json : Json) (t : Service) :
    (t.send c fate json).2 = [] ∨ (t.send c fate json).2 = [.message c json] := by
  unfold Service.send
  split
  · split
    · split
      · exact .inl rfl
      · exact .inr rfl
      · exact .inr rfl
    · exact .inl rfl
  · exact .inl rfl

theorem addressed_append (a b : List Sent) : addressed (a ++ b) = addressed a ++ addressed b :=
  List.filterMap_append

theorem entryOf_json (x : Entry) : entryOf x.json = some x := by
  obtain ⟨key, value⟩ := x
  cases key <;> rfl

/-- A call that changes no queue and is no answer. -/
theorem effect_same (rooms : List Room) (acc : List Item) {msgs : List (Nat × Json)}
    (hm : ∀ m ∈ msgs, payloadTexts m.2 = none) :
    Effect (waiting rooms) (stored rooms ++ acc) (waiting rooms) (stored rooms ++ []) [] msgs :=
  .quiet (List.append_nil _ ▸ (List.sublist_append_left ..).subperm) (List.Perm.refl _) hm

/-- What a waiter is given may be lost. -/
theorem effect_sends {n : CStr} {w : Waiter} {x : Entry} (hwants : entryWants w.key x = true)
    (hs : ((n, x) :: S').Subperm S) (hw : W.Perm ((n, w) :: W')) (fate : LinkFate) (t : Service) :
    ∃ lost, Effect W S W' S' lost (addressed (t.send w.client fate (answer w x)).2) := by
  rcases send_addressed w.client fate (answer w x) t with h | h
  · rw [h]
    have hfewer := (List.sublist_cons_self (n, x) S').subperm.trans hs
    exact ⟨[(n, w)], .quiet hfewer hw (List.forall_mem_nil _)⟩
  · rw [h]
    exact ⟨[], .gives hwants hs hw⟩

theorem put_effect (name : Option CStr) (key value : Option CStr) (fate : LinkFate) (t : Service) :
    ∃ lost, Effect (waiting t.rooms)
      (stored t.rooms ++
        putBy (.ask (.put name key value fate)) (t.ask (.put name key value fate)).2)
      (waiting (t.ask (.put name key value fate)).1.rooms)
      (stored (t.ask (.put name key value fate)).1.rooms ++ []) lost
      (addressed (t.ask (.put name key value fate)).2) := by
  cases hl : Service.lookup name none t.rooms with
  | error e =>
    simp only [Service.ask, hl]
    exact ⟨[], effect_same _ _ (List.forall_mem_nil _)⟩
  | ok p =>
    cases value with
    | none =>
      simp only [Service.ask, hl]
      exact ⟨[], effect_same _ _ (List.forall_mem_nil _)⟩
    | some value =>
      cases name with
      | none => cases hl
      | some n =>
        obtain ⟨hstored, hwaiting⟩ := place_perm hl
        -- The put is granted, whatever is sent to a waiter.
        have hgranted (out : List Sent) : isGranted (out ++ Service.grant none) = true := by
          simp [isGranted, Service.grant]
        rcases put_cases p.room.line ⟨key, value⟩ with
          ⟨line, h, hi, hw⟩ | ⟨line, w, h, hi, hw, hwants⟩
        · simp only [Service.ask, hl, h, putBy]
          obtain ⟨hs', hw'⟩ := place_set_perm hl line
          rw [hi, List.map_append, List.append_assoc] at hs'
          rw [hw] at hw'
          refine ⟨[], .quiet ?_ (hwaiting.trans hw'.symm) (List.forall_mem_nil _)⟩
          rw [List.append_nil, if_pos (by exact hgranted [])]
          refine (hs'.trans ?_).subperm
          exact (List.perm_append_comm_assoc ..).trans
            (List.perm_append_comm.trans (hstored.symm.append_right _))
        · simp only [Service.ask, hl, h, putBy]
          obtain ⟨hs', hw'⟩ := place_set_perm hl line
          rw [hi] at hs'
          have hquiet : addressed (Service.grant none) = [] := rfl
          rw [if_pos (hgranted _), addressed_append, hquiet, List.append_nil, List.append_nil,
            send_rooms]
          refine effect_sends (n := fold n) hwants ?_ ?_ fate { t with rooms := p.set line }
          · exact (((hs'.trans hstored.symm).cons _).trans
              (List.perm_append_singleton _ _).symm).subperm
          · exact hwaiting.trans
              (((hw.map _).append_right _).trans (hw'.symm.cons (fold n, w)))

theorem take_effect (name key : Option CStr) (t : Service) :
    Effect (waiting t.rooms) (stored t.rooms ++ []) (waiting (t.ask (.take name key)).1.rooms)
      (stored (t.ask (.take name key)).1.rooms ++
        takenBy (.ask (.take name key)) (t.ask (.take name key)).2) []
      (addressed (t.ask (.take name key)).2) := by
  cases hl : Service.lookup name none t.rooms with
  | error e =>
    have htaken : takenBy (.ask (.take name key)) (Service.refuse e.1 e.2) = [] := by
      cases name <;> rfl
    simp only [Service.ask, hl, htaken]
    exact effect_same _ _ (List.forall_mem_nil _)
  | ok p =>
    cases name with
    | none => cases hl
    | some n =>
      rcases take_cases p.room.line key with h | ⟨line, x, h, hw, hi, -⟩
      · simp only [Service.ask, hl, h]
        exact effect_same _ _ (List.forall_mem_nil _)
      · obtain ⟨hstored, hwaiting⟩ := place_perm hl
        obtain ⟨hs', hw'⟩ := place_set_perm hl line
        rw [hw] at hw'
        have htaken : takenBy (.ask (.take (some n) key)) (Service.grant (some x.json)) =
            [(fold n, x)] :=
          congrArg (fun x : Option Entry => (x.map fun x => (fold n, x)).toList) (entryOf_json x)
        simp only [Service.ask, hl, h, htaken]
        refine .quiet ?_ (hwaiting.trans hw'.symm) (List.forall_mem_nil _)
        rw [List.append_nil]
        refine ((List.perm_append_singleton _ _).trans ?_).subperm
        exact ((hs'.cons _).trans ((hi.map _).append_right _).symm).trans hstored.symm

theorem ask_effect (t : Service) (a : Ask) :
    ∃ lost, Effect (waiting t.rooms) (stored t.rooms ++ putBy (.ask a) (t.ask a).2)
      (waiting (t.ask a).1.rooms) (stored (t.ask a).1.rooms ++ takenBy (.ask a) (t.ask a).2) lost
      (addressed (t.ask a).2) := by
  cases a with
  | list => exact ⟨[], effect_same _ _ (List.forall_mem_nil _)⟩
  | create name made =>
    cases hl : Service.lookup name (some made) t.rooms with
    | error e =>
      simp only [Service.ask, hl]
      exact ⟨[], effect_same _ _ (List.forall_mem_nil _)⟩
    | ok p =>
      obtain ⟨hs, hw⟩ := lookup_perm hl
      simp only [Service.ask, hl]
      exact ⟨[], .quiet ((hs.append_right []).subperm) hw.symm (List.forall_mem_nil _)⟩
  | info name =>
    cases hl : Service.lookup name none t.rooms with
    | error e =>
      simp only [Service.ask, hl]
      exact ⟨[], effect_same _ _ (List.forall_mem_nil _)⟩
    | ok p =>
      simp only [Service.ask, hl]
      exact ⟨[], effect_same _ _ (List.forall_mem_nil _)⟩
  | delete name made =>
    cases hl : Service.lookup name (some made) t.rooms with
    | error e =>
      simp only [Service.ask, hl]
      exact ⟨[], effect_same _ _ (List.forall_mem_nil _)⟩
    | ok p =>
      obtain ⟨hs, lost, hw⟩ := free_perm hl
      simp only [Service.ask, hl]
      exact ⟨lost, .quiet ((List.subperm_append_right []).mpr hs) hw (List.forall_mem_nil _)⟩
  | take name key => exact ⟨[], take_effect name key t⟩
  | peek name key =>
    cases hl : Service.lookup name none t.rooms with
    | error e =>
      simp only [Service.ask, hl]
      exact ⟨[], effect_same _ _ (List.forall_mem_nil _)⟩
    | ok p =>
      cases hp : p.room.line.peek entryWants key with
      | none =>
        simp only [Service.ask, hl, hp]
        exact ⟨[], effect_same _ _ (List.forall_mem_nil _)⟩
      | some x =>
        simp only [Service.ask, hl, hp]
        exact ⟨[], effect_same _ _ (List.forall_mem_nil _)⟩
  | put name key value fate => exact put_effect name key value fate t
  | unsupported => exact ⟨[], effect_same _ _ (List.forall_mem_nil _)⟩

/-! ## Messages -/

/-- The waiter that a message of a client is to be. -/
def askers (c : Nat) : Note → List NamedWaiter
  | .data (some ⟨some identifier, some name, key⟩) _ => [(fold name, ⟨c, identifier, key⟩)]
  | _ => []

theorem failure_noise (f : Failure) : payloadTexts (failureJson f) = none := rfl

/-- A message that is refused. -/
theorem effect_refused (W : List NamedWaiter) (c : Nat) (fate : LinkFate) (f : Failure)
    (t : Service) :
    Effect (W ++ waiting t.rooms) (stored t.rooms) (waiting (t.send c fate (failureJson f)).1.rooms)
      (stored (t.send c fate (failureJson f)).1.rooms) W
      (addressed (t.send c fate (failureJson f)).2) := by
  rw [send_rooms]
  refine .quiet (List.Subperm.refl _) (List.Perm.refl _) fun m hm => ?_
  rcases send_addressed c fate (failureJson f) t with h | h
  · rw [h] at hm
    cases hm
  · rw [h] at hm
    rw [List.mem_singleton.mp hm]
    exact failure_noise f

/-- A want that is granted names its identifier and its queue. -/
theorem wanted_cases {want : Option WantRequest} {rooms : List Room} {identifier : CStr}
    {p : Service.Place} {key : Option CStr}
    (h : Service.wanted want rooms = .ok (identifier, p, key)) :
    ∃ n, want = some ⟨some identifier, some n, key⟩ ∧
      Service.lookup (some n) none rooms = .ok p := by
  obtain ⟨⟨identifier', queue, key'⟩, n, rfl, rfl, hl⟩ := wanted_lookup h
  cases identifier' with
  | none => cases h
  | some identifier' =>
    simp only [Service.wanted, hl] at h
    cases h
    exact ⟨n, rfl, hl⟩

/-- Who asks waits, or is given an item. -/
theorem note_effect (c : Nat) (t : Service) (note : Note) :
    ∃ lost, Effect (askers c note ++ waiting t.rooms) (stored t.rooms)
      (waiting (t.note c note).1.rooms) (stored (t.note c note).1.rooms) lost
      (addressed (t.note c note).2) := by
  cases note with
  | control => exact ⟨[], .quiet (List.Subperm.refl _) (List.Perm.refl _) (List.forall_mem_nil _)⟩
  | data want fate =>
    cases hw : Service.wanted want t.rooms with
    | error f =>
      simp only [Service.note, hw]
      exact ⟨_, effect_refused _ c fate f t⟩
    | ok r =>
      obtain ⟨identifier, p, key⟩ := r
      obtain ⟨n, rfl, hl⟩ := wanted_cases hw
      obtain ⟨hstored, hwaiting⟩ := place_perm hl
      rcases wait_cases p.room.line ⟨c, identifier, key⟩ with
        ⟨line, h, hi, hws⟩ | ⟨line, x, h, hws, hi, hwants⟩
      · obtain ⟨hs', hw'⟩ := place_set_perm hl line
        rw [hi] at hs'
        rw [hws, List.map_append, List.append_assoc] at hw'
        simp only [Service.note, hw, h, askers]
        refine ⟨[], .quiet (hs'.trans hstored.symm).subperm ?_ (List.forall_mem_nil _)⟩
        refine (hwaiting.cons _).trans (List.Perm.trans ?_ hw'.symm)
        exact List.perm_middle.symm
      · obtain ⟨hs', hw'⟩ := place_set_perm hl line
        rw [hws] at hw'
        simp only [Service.note, hw, h, askers, send_rooms]
        refine effect_sends (n := fold n) hwants ?_ ?_ fate { t with rooms := p.set line }
        · exact ((hs'.cons _).trans (((hi.map _).append_right _).symm.trans hstored.symm)).subperm
        · exact (hwaiting.trans hw'.symm).cons _

end

end DQ.Proof.Network
