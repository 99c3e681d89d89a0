import Disqueue.Proof.Network.Effects

/-!
# Numbers of connections

The number that the next connection gets is that of no link, and no waiter is of
a client with it (`Below`).
-/

namespace DQ.Proof.Network

open DQ.Model DQ.Spec DQ.Proof.Service

variable {t : Service} {W W' : List NamedWaiter} {S S' : List Item} {lost : List NamedWaiter}
  {msgs : List (Nat × Json)}

/-- Waiters and links are of connections that were numbered. -/
structure Below (t : Service) : Prop where
  waiters : ∀ v ∈ waiting t.rooms, v.2.client < t.next
  links : ∀ c, t.next ≤ c → t.link c = none

theorem Effect.mem (he : Effect W S W' S' lost msgs) {v : NamedWaiter} (hv : v ∈ W') : v ∈ W := by
  cases he with
  | quiet hs hw hm => exact hw.symm.subset (List.mem_append_right _ hv)
  | gives hwants hs hw => exact hw.symm.subset (List.mem_cons_of_mem _ hv)

/-! ## Links -/

theorem link_ne {c d : Nat} {l : Link} (h : t.link d = none) (hl : t.link c = some l) :
    d ≠ c := by
  rintro rfl
  rw [h] at hl
  cases hl

theorem send_link {d : Nat} (h : t.link d = none) (c : Nat) (fate : LinkFate) (json : Json) :
    (t.send c fate json).1.link d = none := by
  unfold Service.send
  split
  · rename_i l hl
    have hne := link_ne h hl
    split
    · cases fate with
      | lost => exact (Function.update_of_ne hne ..).trans h
      | closing => exact (Function.update_of_ne hne ..).trans h
      | kept => exact h
    · exact h
  · exact h

theorem ask_link {d : Nat} (h : t.link d = none) (a : Ask) : (t.ask a).1.link d = none := by
  cases a with
  | put name key value fate =>
    cases hl : Service.lookup name none t.rooms with
    | error e => simpa only [Service.ask, hl] using h
    | ok p =>
      cases value with
      | none => simpa only [Service.ask, hl] using h
      | some value =>
        rcases hp : p.room.line.put entryWants Waiter.key ⟨key, value⟩ with ⟨line, _ | w⟩
        · simpa only [Service.ask, hl, hp] using h
        · simpa only [Service.ask, hl, hp] using
            send_link (t := { t with rooms := p.set line }) h ..
  | _ =>
    unfold Service.ask
    dsimp only
    repeat' split
    all_goals exact h

theorem note_link {d : Nat} (h : t.link d = none) (c : Nat) (m : Note) :
    (t.note c m).1.link d = none := by
  cases m with
  | control => exact h
  | data want fate =>
    cases hw : Service.wanted want t.rooms with
    | error f => simpa only [Service.note, hw] using send_link h ..
    | ok r =>
      obtain ⟨identifier, p, key⟩ := r
      rcases hp : p.room.line.wait entryWants Waiter.key ⟨c, identifier, key⟩ with ⟨line, _ | x⟩
      · simpa only [Service.note, hw, hp] using h
      · simpa only [Service.note, hw, hp] using send_link (t := { t with rooms := p.set line }) h ..

theorem endRead_link {d : Nat} (h : t.link d = none) (c : Nat) (fate : LinkFate) :
    (t.endRead c fate).link d = none := by
  unfold Service.endRead
  split
  · rename_i l hl
    have hne := link_ne h hl
    cases fate with
    | lost => exact (Function.update_of_ne hne ..).trans h
    | closing => exact (Function.update_of_ne hne ..).trans h
    | kept => exact h
  · exact h

theorem endRead_next (c : Nat) (fate : LinkFate) (t : Service) :
    (t.endRead c fate).next = t.next := by
  unfold Service.endRead
  split
  · split <;> rfl
  · rfl

/-! ## Calls -/

theorem askers_client (c : Nat) (m : Note) : ∀ v ∈ askers c m, v.2.client = c := by
  intro v hv
  unfold askers at hv
  split at hv
  · rw [List.mem_singleton.mp hv]
  · cases hv

theorem note_below {c : Nat} (h : Below t) (hc : c < t.next) (m : Note) :
    Below (Service.noteStep c t m).1 := by
  obtain ⟨lost, he⟩ := note_effect c t m
  refine ⟨fun v hv => Nat.lt_succ_of_lt ?_, fun d hd => note_link (h.links d ?_) c m⟩
  · rcases List.mem_append.mp (he.mem hv) with hv | hv
    · rwa [askers_client c m v hv]
    · exact h.waiters v hv
  · exact Nat.le_of_succ_le hd

theorem notes_below {c : Nat} (ms : List Note) {t : Service} (h : Below t) (hc : c < t.next) :
    Below ((Service.noteStep c).run t ms) := by
  induction ms generalizing t with
  | nil => exact h
  | cons m ms ih => exact ih (note_below h hc m) (Nat.lt_succ_of_lt hc)

theorem step_below (h : Below t) (call : ServiceCall) : Below (Service.step t call).1 := by
  cases call with
  | ask a =>
    obtain ⟨lost, he⟩ := ask_effect t a
    exact ⟨fun v hv => Nat.lt_succ_of_lt (h.waiters v (he.mem hv)),
      fun d hd => ask_link (h.links d (Nat.le_of_succ_le hd)) a⟩
  | opened =>
    refine ⟨fun v hv => Nat.lt_succ_of_lt (h.waiters v hv), fun d hd => ?_⟩
    exact (Function.update_of_ne (Nat.ne_of_gt hd) ..).trans (h.links d (Nat.le_of_succ_le hd))
  | notes c ms fate =>
    dsimp only [Service.step]
    split
    · rename_i hlink
      have hc : c < t.next := by
        by_contra hc
        rw [h.links c (Nat.le_of_not_lt hc)] at hlink
        cases hlink
      have hms := notes_below ms h hc
      have hnext := endRead_next c fate ((Service.noteStep c).run t ms)
      refine ⟨fun v hv => ?_, fun d hd => endRead_link (hms.links d (hnext ▸ hd)) c fate⟩
      rw [endRead_rooms] at hv
      exact hnext ▸ hms.waiters v hv
    · exact h
  | drained c =>
    dsimp only [Service.step]
    split
    · rename_i l hl
      split
      · refine ⟨h.waiters, fun d hd => ?_⟩
        have hne := link_ne (h.links d hd) hl
        exact (Function.update_of_ne hne ..).trans (h.links d hd)
      · exact h
    · exact h
  | ended c =>
    refine ⟨h.waiters, fun d hd => ?_⟩
    by_cases hdc : d = c
    · rw [hdc]
      exact Function.update_self ..
    · exact (Function.update_of_ne hdc ..).trans (h.links d hd)

theorem below_empty : Below .empty := ⟨nofun, fun _ _ => rfl⟩

end DQ.Proof.Network
