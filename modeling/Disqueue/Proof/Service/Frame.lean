import Disqueue.Spec.TextQueue
import Disqueue.Proof.Service.View

/-!
# What a call leaves

A call that does not use a queue leaves it as it is (`step_kept`): its entries,
its waiters and its place among the rooms with its name.
-/

namespace DQ.Proof.Service

open DQ.Model DQ.Spec

variable {n : CStr} {t : Service}

/-- The first room with the name. -/
def roomOf (n : CStr) (rooms : List Room) : Option Room :=
  rooms.find? fun room => strcaseEq room.name n

/-- A room that is the first with the name stays so. -/
def KeepsRoom (n : CStr) (rooms rooms' : List Room) : Prop :=
  ∀ room, roomOf n rooms = some room → roomOf n rooms' = some room

theorem KeepsRoom.refl (n : CStr) (rooms : List Room) : KeepsRoom n rooms rooms := fun _ h => h

theorem KeepsRoom.trans {a b c : List Room} (h : KeepsRoom n a b) (h' : KeepsRoom n b c) :
    KeepsRoom n a c :=
  fun room hr => h' room (h room hr)

/-! ## Rooms found -/

/-- A place is of the first room with the name, or new. -/
theorem lookup_place {name : Option CStr} {makes : Option (Option CStr)} {rooms : List Room}
    {p : Service.Place} (h : Service.lookup name makes rooms = .ok p) :
    (∃ n, name = some n ∧ rooms = p.pre ++ p.room :: p.post ∧ strcaseEq p.room.name n = true ∧
        ∀ room ∈ p.pre, strcaseEq room.name n = false) ∨
      makes.isSome ∧ ∃ id, p = ⟨rooms, ⟨id, ⟨[], []⟩⟩, []⟩ := by
  unfold Service.lookup at h
  split at h
  · cases h
  split at h
  · rename_i pre room post hs
    cases h
    obtain ⟨n, rfl, hsplit⟩ := Option.bind_eq_some_iff.mp hs
    obtain ⟨hl, hp, hpre⟩ := splitFirst_eq_some.mp hsplit
    exact .inl ⟨n, rfl, hl, hp, hpre⟩
  · split at h
    · cases h
    · cases h
    · rename_i id
      cases h
      exact .inr ⟨rfl, id, rfl⟩

/-- The first room with a name is found. -/
theorem lookup_found {rooms : List Room} {p : Service.Place}
    (h : Service.lookup (some n) none rooms = .ok p) :
    rooms = p.pre ++ p.room :: p.post ∧ strcaseEq p.room.name n = true ∧
      ∀ room ∈ p.pre, strcaseEq room.name n = false := by
  rcases lookup_place h with ⟨m, hm, hp⟩ | ⟨hmakes, -⟩
  · cases hm
    exact hp
  · cases hmakes

theorem roomOf_place {p : Service.Place} (hp : strcaseEq p.room.name n = true)
    (hpre : ∀ room ∈ p.pre, strcaseEq room.name n = false) (line : Rendezvous Entry Waiter) :
    roomOf n (p.set line) = some { p.room with line } := by
  unfold roomOf Service.Place.set
  rw [List.find?_append, List.find?_eq_none.mpr fun room hr => by simp [hpre room hr],
    Option.none_or]
  exact List.find?_cons_of_pos hp

/-- A found room is the first with its name, and conversely. -/
theorem lookup_roomOf {rooms : List Room} {p : Service.Place}
    (h : Service.lookup (some n) none rooms = .ok p) : roomOf n rooms = some p.room := by
  obtain ⟨hl, hp, hpre⟩ := lookup_found h
  rw [hl]
  exact roomOf_place hp hpre p.room.line

theorem roomOf_lookup {rooms : List Room} {room : Room} (hn : n.length = 36)
    (h : roomOf n rooms = some room) :
    ∃ p, Service.lookup (some n) none rooms = .ok p ∧ p.room = room := by
  unfold roomOf at h
  rw [← splitFirst_find] at h
  obtain ⟨⟨pre, r, post⟩, hs, rfl⟩ := Option.map_eq_some_iff.mp h
  exact ⟨⟨pre, r, post⟩, by simp [Service.lookup, hn, hs], rfl⟩

/-! ## Rooms changed -/

theorem other_name {a b : CStr} {room : Room} (h : strcaseEq room.name a = true)
    (hab : strcaseEq a b = false) : strcaseEq room.name b = false := by
  have hfold : fold room.name = fold a := strcaseEq_iff.mp h
  unfold strcaseEq at hab ⊢
  rwa [hfold]

/-- The first room with the name is before or after a room with another. -/
theorem roomOf_middle {pre post : List Room} {room : Room}
    (h : strcaseEq room.name n = false) :
    roomOf n (pre ++ room :: post) = roomOf n (pre ++ post) := by
  unfold roomOf
  rw [List.find?_append, List.find?_append, List.find?_cons_of_neg (by simp [h])]

theorem kept_made (n id : CStr) (rooms : List Room) (line : Rendezvous Entry Waiter) :
    KeepsRoom n rooms (rooms ++ [⟨id, line⟩]) := by
  intro room hr
  unfold roomOf at hr ⊢
  rw [List.find?_append, hr, Option.some_or]

section
variable {name : Option CStr} {makes : Option (Option CStr)} {rooms : List Room}
  {p : Service.Place}

/-- A room that a request does not use is kept when another is changed. -/
theorem kept_set (h : Service.lookup name makes rooms = .ok p)
    (hn : name.any (strcaseEq · n) = false) (line : Rendezvous Entry Waiter) :
    KeepsRoom n rooms (p.set line) := by
  rcases lookup_place h with ⟨m, rfl, hl, hp, -⟩ | ⟨-, id, rfl⟩
  · have hother : strcaseEq p.room.name n = false := other_name hp hn
    intro room hr
    rw [hl, roomOf_middle hother] at hr
    have hset : roomOf n (p.set line) = roomOf n (p.pre ++ p.post) := roomOf_middle hother
    exact hset.trans hr
  · exact kept_made n id rooms line

theorem kept_free (h : Service.lookup name makes rooms = .ok p)
    (hn : name.any (strcaseEq · n) = false) : KeepsRoom n rooms p.free := by
  rcases lookup_place h with ⟨m, rfl, hl, hp, -⟩ | ⟨-, id, rfl⟩
  · intro room hr
    rwa [hl, roomOf_middle (other_name hp hn)] at hr
  · intro room hr
    rwa [Service.Place.free, List.append_nil]

/-- Making a room, or finding it, keeps every other. -/
theorem kept_create (n : CStr) (h : Service.lookup name makes rooms = .ok p) :
    KeepsRoom n rooms (p.set p.room.line) := by
  rcases lookup_place h with ⟨m, rfl, hl, -⟩ | ⟨-, id, rfl⟩
  · intro room hr
    rwa [hl] at hr
  · exact kept_made n id rooms ⟨[], []⟩

end

/-! ## Calls -/

theorem ask_kept {a : Ask} (h : a.uses n = false) (t : Service) :
    KeepsRoom n t.rooms (t.ask a).1.rooms := by
  cases a with
  | list => exact .refl n _
  | create name made =>
    cases hl : Service.lookup name (some made) t.rooms with
    | error e => simpa only [Service.ask, hl] using .refl n _
    | ok p => simpa only [Service.ask, hl] using kept_create n hl
  | info name =>
    cases hl : Service.lookup name none t.rooms with
    | error e => simpa only [Service.ask, hl] using .refl n _
    | ok p => simpa only [Service.ask, hl] using .refl n _
  | delete name made =>
    cases hl : Service.lookup name (some made) t.rooms with
    | error e => simpa only [Service.ask, hl] using .refl n _
    | ok p => simpa only [Service.ask, hl] using kept_free hl h
  | take name key =>
    cases hl : Service.lookup name none t.rooms with
    | error e => simpa only [Service.ask, hl] using .refl n _
    | ok p =>
      rcases ht : p.room.line.take entryWants key with ⟨line, _ | x⟩
      · simpa only [Service.ask, hl, ht] using .refl n _
      · simpa only [Service.ask, hl, ht] using kept_set hl h line
  | peek name key =>
    cases hl : Service.lookup name none t.rooms with
    | error e => simpa only [Service.ask, hl] using .refl n _
    | ok p =>
      cases ht : p.room.line.peek entryWants key with
      | none => simpa only [Service.ask, hl, ht] using .refl n _
      | some x => simpa only [Service.ask, hl, ht] using .refl n _
  | put name key value fate =>
    cases hl : Service.lookup name none t.rooms with
    | error e => simpa only [Service.ask, hl] using .refl n _
    | ok p =>
      cases value with
      | none => simpa only [Service.ask, hl] using .refl n _
      | some value =>
        rcases hp : p.room.line.put entryWants Waiter.key ⟨key, value⟩ with ⟨line, _ | w⟩
        · simpa only [Service.ask, hl, hp] using kept_set hl h line
        · simpa only [Service.ask, hl, hp, send_rooms] using kept_set hl h line
  | unsupported => exact .refl n _

/-- A want is for a room with the name in it. -/
theorem wanted_lookup {want : Option WantRequest} {rooms : List Room} {identifier : CStr}
    {p : Service.Place} {key : Option CStr}
    (h : Service.wanted want rooms = .ok (identifier, p, key)) :
    ∃ w name, want = some w ∧ w.queue = some name ∧
      Service.lookup (some name) none rooms = .ok p := by
  unfold Service.wanted at h
  split at h
  · cases h
  rename_i w
  split at h
  · cases h
  split at h
  · cases h
  rename_i name hname
  split at h
  · cases h
  · rename_i p' hl
    cases h
    exact ⟨w, name, rfl, hname, hl⟩

theorem note_kept {m : Note} (h : m.uses n = false) (c : Nat) (t : Service) :
    KeepsRoom n t.rooms (t.note c m).1.rooms := by
  cases m with
  | control => exact .refl n _
  | data want fate =>
    cases hw : Service.wanted want t.rooms with
    | error f => simpa only [Service.note, hw, send_rooms] using .refl n _
    | ok r =>
      obtain ⟨identifier, p, key⟩ := r
      obtain ⟨w, name, rfl, hname, hl⟩ := wanted_lookup hw
      have hother : (some name).any (strcaseEq · n) = false := by
        rw [← hname]
        exact h
      rcases ht : p.room.line.wait entryWants Waiter.key ⟨c, identifier, key⟩ with ⟨line, _ | x⟩
      · simpa only [Service.note, hw, ht] using kept_set hl hother line
      · simpa only [Service.note, hw, ht, send_rooms] using kept_set hl hother line

theorem notes_kept {ms : List Note} (h : ms.any (Note.uses n) = false) (c : Nat) (t : Service) :
    KeepsRoom n t.rooms ((Service.noteStep c).run t ms).rooms := by
  induction ms generalizing t with
  | nil => exact .refl n _
  | cons m ms ih =>
    rw [List.any_cons, Bool.or_eq_false_iff] at h
    exact (note_kept h.1 c t).trans (ih h.2 (Service.noteStep c t m).1)

theorem endRead_rooms (c : Nat) (fate : LinkFate) (t : Service) :
    (t.endRead c fate).rooms = t.rooms := by
  unfold Service.endRead
  split
  · split <;> rfl
  · rfl

/-- A call that does not use the queue leaves it. -/
theorem step_kept {call : ServiceCall} (h : call.uses n = false) (t : Service) :
    KeepsRoom n t.rooms (Service.step t call).1.rooms := by
  cases call with
  | ask a => exact ask_kept h t
  | opened => exact .refl n _
  | notes c ms fate =>
    unfold Service.step
    dsimp only
    split
    · rw [endRead_rooms]
      exact notes_kept h c t
    · exact .refl n _
  | drained c =>
    unfold Service.step
    dsimp only
    split
    · split <;> exact .refl n _
    · exact .refl n _
  | ended c => exact .refl n _

end DQ.Proof.Service
