import Disqueue.Proof.Clients.Layer
import Disqueue.Proof.Clients.TextQueue
import Disqueue.Proof.Network.Effects

/-!
# Requests on their way

A request of a client is on its way, or it is a waiter, or its answer is on its
way (`flights`), and what it is for is recorded (`Backed`). The items that a client
was given and that no handler was called with are `held`. What the server does
keeps the first, and the second grows by what is given to a waiter (`Backed.effect`,
`held_effect`).
-/

namespace DQ.Proof.Network

open DQ.Model DQ.Spec DQ.Proof.Service DQ.Proof.Clients

/-! ## Texts -/

theorem ofUtf8_bytes (s : String) : ofUtf8 (chars (utf8 s)) = some s := by
  have hbytes : (utf8 s).toByteArray = s.toByteArray := String.utf8Encode_toList
  have htext : String.fromUTF8? s.toByteArray = some s := dif_pos s.isValidUTF8
  have hchars := bytesOf_chars (utf8 s)
  unfold bytesOf at hchars
  rw [ofUtf8, hchars, hbytes, htext]
  simp

theorem bytes_ofUtf8 {s : CStr} {text : String} (h : ofUtf8 s = some text) :
    chars (utf8 text) = s := by
  simpa using (Option.filter_eq_some_iff.mp h).2

/-! ## Answers -/

/-- The item of an entry is read as texts of the entry. -/
theorem itemTexts_json {x : Entry} {item : Texts} (h : itemTexts x.json = some item) :
    textsEntry item = x := by
  obtain ⟨key, value⟩ := x
  have hvalue : (jsonMember valueKey (Entry.json ⟨key, value⟩)).bind stringText = ofUtf8 value := by
    cases key <;> rfl
  unfold itemTexts at h
  rw [hvalue] at h
  cases hv : ofUtf8 value with
  | none =>
    rw [hv] at h
    cases key <;> cases h
  | some text =>
    rw [hv] at h
    cases key with
    | none =>
      cases h
      rw [textsEntry, bytes_ofUtf8 hv]
      rfl
    | some k =>
      obtain ⟨ktext, hk, rfl⟩ := Option.map_eq_some_iff.mp h
      rw [textsEntry, bytes_ofUtf8 hv]
      exact congrArg (fun k => Entry.mk (some k) value) (bytes_ofUtf8 hk)

theorem payloadTexts_answer (w : Waiter) (x : Entry) : payloadTexts (answer w x) =
    match ofUtf8 w.identifier, itemTexts x.json with
    | some id, some item => some (id, item)
    | _, _ => none := rfl

/-- An answer that is read is to the waiter's identifier, with the entry. -/
theorem answer_texts {w : Waiter} {x : Entry} {id : String} {item : Texts}
    (h : payloadTexts (answer w x) = some (id, item)) :
    ofUtf8 w.identifier = some id ∧ textsEntry item = x := by
  rw [payloadTexts_answer] at h
  split at h
  · rename_i id' item' hid hitem
    cases h
    exact ⟨hid, itemTexts_json hitem⟩
  · cases h

/-! ## Requests -/

/-- Where a request is: it is on its way or it waits, or it was answered. -/
inductive Flight
  | asked (queue : CStr) (key : Option CStr)
  | answered (item : Texts)

/-- A request is for the queue and the key of a subscription, or its answer is an
item that the subscription wants. -/
def Flight.serves {η : Type} (w : Subscription η) : Flight → Prop
  | .asked queue key => queue = fold (received w.queue) ∧ key = w.key.map received
  | .answered item => entryWants (w.key.map received) (textsEntry item) = true

def askFlight (m : WantText) : String × Flight :=
  (m.identifier, .asked (fold (received m.queue)) (m.key.map received))

/-- A waiter of the client. -/
def waiterFlight (c : Nat) (v : NamedWaiter) : Option (String × Flight) :=
  if v.2.client = c then (ofUtf8 v.2.identifier).map fun id => (id, .asked v.1 v.2.key) else none

def answerFlight (json : Json) : Option (String × Flight) :=
  (payloadTexts json).map fun p => (p.1, .answered p.2)

/-- The requests of a client, by their identifiers. -/
def flights (W : List NamedWaiter) (c : Nat) (up : List WantText) (down : List Json) :
    List (String × Flight) :=
  up.map askFlight ++ (W.filterMap (waiterFlight c) ++ down.filterMap answerFlight)

/-- The messages to a connection. -/
def toConn (c : Nat) (msgs : List (Nat × Json)) : List Json :=
  msgs.filterMap fun m => if m.1 = c then some m.2 else none

variable {η : Type} {W W' : List NamedWaiter} {S S' : List Item} {lost : List NamedWaiter}
  {msgs : List (Nat × Json)} {c : Nat} {up : List WantText} {down : List Json}

theorem flights_perm (h : W.Perm W') (c : Nat) (up : List WantText) (down : List Json) :
    (flights W c up down).Perm (flights W' c up down) :=
  ((h.filterMap _).append_right _).append_left _

/-- Answers that are not read answer no request. -/
theorem toConn_noise (hm : ∀ m ∈ msgs, payloadTexts m.2 = none) :
    (toConn c msgs).filterMap answerFlight = [] := by
  refine List.filterMap_eq_nil_iff.mpr fun json hjson => ?_
  obtain ⟨m, hmem, hif⟩ := List.mem_filterMap.mp hjson
  split at hif
  · cases hif
    rw [answerFlight, hm m hmem]
    rfl
  · cases hif

theorem flights_sent (new : List Json) :
    flights W c up (down ++ new) = flights W c up down ++ new.filterMap answerFlight := by
  rw [flights, flights, List.filterMap_append, List.append_assoc, List.append_assoc]

theorem flights_quiet (c : Nat) (up : List WantText) (down : List Json)
    (hw : W.Perm (lost ++ W')) (hm : ∀ m ∈ msgs, payloadTexts m.2 = none) :
    (flights W c up down).Perm
      (lost.filterMap (waiterFlight c) ++ flights W' c up (down ++ toConn c msgs)) := by
  refine (flights_perm hw c up down).trans ?_
  rw [flights_sent, toConn_noise hm, List.append_nil, flights, flights, List.filterMap_append,
    List.append_assoc]
  exact List.perm_append_comm_assoc ..

/-- The request of a waiter among the others. -/
theorem flights_waiter (c : Nat) (up : List WantText) (down : List Json) {v : NamedWaiter}
    (hw : W.Perm (v :: W')) :
    (flights W c up down).Perm ((waiterFlight c v).toList ++ flights W' c up down) := by
  refine (flights_perm hw c up down).trans ?_
  rw [flights, List.filterMap_cons]
  cases waiterFlight c v with
  | none => exact List.Perm.refl _
  | some f => exact List.perm_middle

/-! ## What is recorded -/

/-- Every request is for what is recorded under its identifier. -/
structure Backed (W : List NamedWaiter) (c : Nat) (t : Taker η) (up : List WantText)
    (down : List Json) : Prop where
  plain : ∀ m ∈ up, Char.ofNat 0 ∉ m.identifier.toList
  nodup : ((flights W c up down).map (·.1)).Nodup
  serves : ∀ f ∈ flights W c up down, ∃ w ∈ t.record f.1, f.2.serves w

/-- An item, of the queue of a subscription. -/
def itemOf (w : Subscription η) (item : Texts) : Item :=
  (fold (received w.queue), textsEntry item)

/-- The item in a message, if the message answers a request. -/
def flying (t : Taker η) (json : Json) : Option Item :=
  (payloadTexts json).bind fun p => (t.record p.1).map fun w => itemOf w p.2

/-- The items of a client for which no handler was called yet. -/
def held (t : Taker η) (down : List Json) : List Item :=
  t.pending.map (fun q => itemOf q.1 q.2) ++ down.filterMap (flying t)

variable {t : Taker η} {n : CStr} {w : Waiter} {x : Entry}

theorem Backed.fewer {up' : List WantText} {down' : List Json} (h : Backed W c t up down)
    (hup : ∀ m ∈ up', m ∈ up) (gone : List (String × Flight))
    (hf : (flights W c up down).Perm (gone ++ flights W' c up' down')) :
    Backed W' c t up' down' where
  plain m hm := h.plain m (hup m hm)
  nodup := by
    have hnodup := (hf.map (·.1)).nodup_iff.mp h.nodup
    rw [List.map_append] at hnodup
    exact hnodup.of_append_right
  serves f hmem := h.serves f (hf.symm.subset (List.mem_append_right _ hmem))

/-- An answer to a client is to a request of it. -/
theorem Backed.answered (h : Backed W c t up down) (hw : W.Perm ((n, w) :: W'))
    (hc : w.client = c) {id : String} {item : Texts}
    (hp : payloadTexts (answer w x) = some (id, item)) :
    waiterFlight c (n, w) = some (id, .asked n w.key) ∧
      ∃ sub ∈ t.record id, Flight.serves sub (.asked n w.key) := by
  obtain ⟨hid, -⟩ := answer_texts hp
  have hflight : waiterFlight c (n, w) = some (id, .asked n w.key) := by
    simp [waiterFlight, hc, hid]
  refine ⟨hflight, h.serves (id, .asked n w.key) ((flights_waiter c up down hw).symm.subset ?_)⟩
  rw [hflight]
  exact List.mem_cons_self

theorem Backed.gives (h : Backed W c t up down) (hw : W.Perm ((n, w) :: W'))
    (hwants : entryWants w.key x = true) :
    Backed W' c t up (down ++ toConn c [(w.client, answer w x)]) := by
  have hothers := h.fewer (fun _ hm => hm) _ (flights_waiter c up down hw)
  by_cases hc : w.client = c
  · have hto : toConn c [(w.client, answer w x)] = [answer w x] := by simp [toConn, hc]
    cases hp : payloadTexts (answer w x) with
    | none =>
      refine hothers.fewer (fun _ hm => hm) [] ?_
      rw [flights_sent, toConn_noise (by simpa using hp), List.append_nil]
      exact List.Perm.refl _
    | some p =>
      obtain ⟨id, item⟩ := p
      obtain ⟨hflight, sub, hsub, -, hkey⟩ := h.answered hw hc hp
      have hnew : (toConn c [(w.client, answer w x)]).filterMap answerFlight =
          [(id, .answered item)] := by simp [hto, answerFlight, hp]
      have hperm := flights_waiter c up down hw
      rw [hflight] at hperm
      refine ⟨h.plain, ?_, fun f hf => ?_⟩
      · rw [flights_sent, hnew]
        have hnodup := (hperm.map (·.1)).nodup_iff.mp h.nodup
        rw [List.map_append] at hnodup ⊢
        exact (List.perm_append_comm).nodup_iff.mpr hnodup
      · rw [flights_sent, hnew] at hf
        rcases List.mem_append.mp hf with hf | hf
        · exact hothers.serves f hf
        · rw [List.mem_singleton.mp hf]
          refine ⟨sub, hsub, ?_⟩
          rw [Flight.serves, (answer_texts hp).2, ← hkey]
          exact hwants
  · have hto : toConn c [(w.client, answer w x)] = [] := by simp [toConn, hc]
    rw [hto, List.append_nil]
    exact hothers

/-- What the server does leaves the requests backed. -/
theorem Backed.effect (h : Backed W c t up down) (he : Effect W S W' S' lost msgs) :
    Backed W' c t up (down ++ toConn c msgs) := by
  cases he with
  | quiet hs hw hm => exact h.fewer (fun _ hm => hm) _ (flights_quiet c up down hw hm)
  | gives hwants hs hw => exact h.gives hw hwants

/-! ## Items on their way -/

theorem held_sent (t : Taker η) (down new : List Json) :
    held t (down ++ new) = held t down ++ new.filterMap (flying t) := by
  rw [held, held, List.filterMap_append, List.append_assoc]

theorem held_noise (t : Taker η) (down : List Json) (hm : ∀ m ∈ msgs, payloadTexts m.2 = none) :
    held t (down ++ toConn c msgs) = held t down := by
  have hnone : (toConn c msgs).filterMap (flying t) = [] := by
    refine List.filterMap_eq_nil_iff.mpr fun json hjson => ?_
    obtain ⟨m, hmem, hif⟩ := List.mem_filterMap.mp hjson
    split at hif
    · cases hif
      rw [flying, hm m hmem]
      rfl
    · cases hif
  rw [held_sent, hnone, List.append_nil]

theorem held_other (t : Taker η) (down : List Json) (hc : w.client ≠ c) :
    held t (down ++ toConn c [(w.client, answer w x)]) = held t down := by
  have hto : toConn c [(w.client, answer w x)] = [] := by simp [toConn, hc]
  rw [hto, List.append_nil]

/-- An item that is given to a client. -/
theorem held_gives (h : Backed W c t up down) (hw : W.Perm ((n, w) :: W')) (hc : w.client = c) :
    (held t (down ++ toConn c [(w.client, answer w x)])).Subperm ((n, x) :: held t down) := by
  have hto : toConn c [(w.client, answer w x)] = [answer w x] := by simp [toConn, hc]
  rw [held_sent, hto]
  cases hp : payloadTexts (answer w x) with
  | none =>
    rw [List.filterMap_cons_none (by rw [flying, hp]; rfl), List.filterMap_nil, List.append_nil]
    exact (List.sublist_cons_self _ _).subperm
  | some p =>
    obtain ⟨id, item⟩ := p
    obtain ⟨-, sub, hsub, hqueue, -⟩ := h.answered hw hc hp
    have hflying : flying t (answer w x) = some (n, x) := by
      rw [flying, hp, Option.bind_some, Option.mem_def.mp hsub, hqueue, ← (answer_texts hp).2]
      rfl
    rw [List.filterMap_cons_some hflying]
    exact (List.perm_append_singleton ..).subperm

end DQ.Proof.Network
