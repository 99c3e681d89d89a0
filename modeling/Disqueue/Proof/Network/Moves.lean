import Disqueue.Proof.Network.Flights

/-!
# What a client does with its requests

A message that answers a request of a client takes it out of the record, and a
handler waits or is called with the item (`notified_held`). The end of a handler
may make a new request (`ended_held`). What a handler is called with, it wants
(`Known`).
-/

namespace DQ.Proof.Network

open DQ.Model DQ.Spec

variable {η : Type} {W : List NamedWaiter} {c : Nat} {t t' : Taker η} {up : List WantText}
  {down : List Json} {json : Json} {out : List (Heard η)} {id : String} {w : Subscription η}

/-! ## Records that change -/

theorem flights_answer {item : Texts} (hp : payloadTexts json = some (id, item)) :
    (flights W c up (json :: down)).Perm ((id, .answered item) :: flights W c up down) := by
  rw [flights, List.filterMap_cons_some (by rw [answerFlight, hp]; rfl), flights,
    ← List.append_assoc, ← List.append_assoc]
  exact List.perm_middle

/-- The request that a message answers is not among the others. -/
theorem Backed.answered_new (h : Backed W c t up (json :: down)) {item : Texts}
    (hp : payloadTexts json = some (id, item)) :
    id ∉ (flights W c up down).map (·.1) := by
  have hnodup := ((flights_answer hp).map (·.1)).nodup_iff.mp h.nodup
  exact (List.nodup_cons.mp hnodup).1

theorem mem_flights (item : Texts) (hmem : json ∈ down)
    (hp : payloadTexts json = some (id, item)) :
    (id, .answered item) ∈ flights W c up down := by
  refine List.mem_append_right _ (List.mem_append_right _ ?_)
  exact List.mem_filterMap.mpr ⟨json, hmem, by rw [answerFlight, hp]; rfl⟩

/-- What is recorded for other identifiers says which items are on their way. -/
theorem flying_update {x : Option (Subscription η)}
    (hrec : t'.record = Function.update t.record id x)
    (hnew : id ∉ (flights W c up down).map (·.1)) :
    down.filterMap (flying t') = down.filterMap (flying t) := by
  refine List.filterMap_congr fun json hmem => ?_
  unfold flying
  cases hp : payloadTexts json with
  | none => rfl
  | some p =>
    have hne : p.1 ≠ id := by
      rintro rfl
      exact hnew (List.mem_map_of_mem (mem_flights p.2 hmem hp))
    rw [Option.bind_some, Option.bind_some, hrec, Function.update_of_ne hne]

theorem serves_update {x : Option (Subscription η)} {l : List (String × Flight)}
    (hrec : t'.record = Function.update t.record id x) (hnew : id ∉ l.map (·.1))
    (h : ∀ f ∈ l, ∃ w ∈ t.record f.1, f.2.serves w) :
    ∀ f ∈ l, ∃ w ∈ t'.record f.1, f.2.serves w := by
  intro f hf
  have hne : f.1 ≠ id := by
    rintro rfl
    exact hnew (List.mem_map_of_mem hf)
  rw [hrec, Function.update_of_ne hne]
  exact h f hf

/-- A request that is answered is not any more. -/
theorem Backed.takeOut (h : Backed W c t up (json :: down)) {item : Texts}
    (hp : payloadTexts json = some (id, item))
    (hrec : t'.record = Function.update t.record id none) : Backed W c t' up down := by
  have hothers : Backed W c t up down :=
    h.fewer (fun _ hm => hm) [(id, .answered item)] (flights_answer hp)
  exact ⟨hothers.plain, hothers.nodup, serves_update hrec (h.answered_new hp) hothers.serves⟩

/-- A new request. -/
theorem Backed.ask (h : Backed W c t up down) (t' : Taker η) (hnew : t.record id = none)
    (hplain : Char.ofNat 0 ∉ id.toList)
    (hrec : t'.record = Function.update t.record id (some w)) :
    Backed W c t' (up ++ [w.ask id]) down ∧
      down.filterMap (flying t') = down.filterMap (flying t) := by
  have hid : id ∉ (flights W c up down).map (·.1) := by
    intro hmem
    obtain ⟨f, hf, rfl⟩ := List.mem_map.mp hmem
    obtain ⟨w', hw', -⟩ := h.serves f hf
    rw [hnew] at hw'
    cases hw'
  have hperm : (flights W c (up ++ [w.ask id]) down).Perm
      (askFlight (w.ask id) :: flights W c up down) := by
    rw [flights, List.map_append, List.append_assoc]
    exact List.perm_middle
  refine ⟨⟨fun m hm => ?_, ?_, fun f hf => ?_⟩, flying_update hrec hid⟩
  · rcases List.mem_append.mp hm with hm | hm
    · exact h.plain m hm
    · rw [List.mem_singleton.mp hm]
      exact hplain
  · exact ((hperm.map (·.1)).nodup_iff).mpr (List.nodup_cons.mpr ⟨hid, h.nodup⟩)
  · rcases List.mem_cons.mp (hperm.subset hf) with rfl | hf
    · refine ⟨w, ?_, rfl, rfl⟩
      rw [hrec]
      exact Function.update_self ..
    · exact serves_update hrec hid h.serves f hf

/-- What a client has of a record is what matters. -/
theorem Backed.congr (h : Backed W c t up down) (hrec : t'.record = t.record) :
    Backed W c t' up down :=
  ⟨h.plain, h.nodup, by rw [hrec]; exact h.serves⟩

/-- What is asked for again is backed, and brings no item. -/
theorem again (h : Backed W c t up down) {returns : Bool}
    (ha : Taker.Again w t returns t' out) :
    Backed W c t' (up ++ out.filterMap Network.wantText) down ∧ held t' down = held t down := by
  cases ha with
  | lost => exact ⟨(List.append_nil up).symm ▸ h, rfl⟩
  | asked hnew hplain =>
    rename_i newId
    obtain ⟨hb, hf⟩ :=
      h.ask { t with record := Function.update t.record newId (some w) } hnew hplain rfl
    exact ⟨hb, congrArg _ hf⟩

/-! ## Handlers -/

section
variable (queueOf : η → String) (keyOf : η → Option String)

/-- A subscription as its handler knows it. An empty key may be left out. -/
def Meant (w : Subscription η) : Prop :=
  queueOf w.handler = w.queue ∧ (keyOf w.handler = some "" ∨ keyOf w.handler = w.key)

/-- All subscriptions are meant, and those that were answered want the items. -/
structure Known (t : Taker η) : Prop where
  record : ∀ id, ∀ w ∈ t.record id, Meant queueOf keyOf w
  pending : ∀ q ∈ t.pending, Meant queueOf keyOf q.1 ∧
    entryWants (q.1.key.map received) (textsEntry q.2) = true
  running : ∀ w ∈ t.running, Meant queueOf keyOf w

/-- A handler is called with an item that it is for. -/
def HeardMeant : Heard η → Prop
  | .want _ => True
  | .ran handler key value =>
    keyOf handler = some "" ∨
      entryWants ((keyOf handler).map received) (textsEntry (key, value)) = true

end

variable {queueOf : η → String} {keyOf : η → Option String} {k : Nat}

theorem Meant.heard (h : Meant queueOf keyOf w) {key : Option String} {value : String}
    (hwants : entryWants (w.key.map received) (textsEntry (key, value)) = true) :
    HeardMeant keyOf (.ran w.handler key value) := by
  rcases h.2 with hempty | hkey
  · exact .inl hempty
  · exact .inr (hkey ▸ hwants)

theorem Meant.item (h : Meant queueOf keyOf w) (key : Option String) (value : String) :
    itemsHandled queueOf [.ran k w.handler key value] = [itemOf w (key, value)] := by
  rw [itemOf, ← h.1]
  rfl

/-- A request made again calls no handler. -/
theorem Known.again (h : Known queueOf keyOf t) (hw : Meant queueOf keyOf w) {returns : Bool}
    (ha : Taker.Again w t returns t' out) :
    Known queueOf keyOf t' ∧ out.filterMap (Network.handlerRan k) = [] ∧
      ∀ x ∈ out, HeardMeant keyOf x := by
  cases ha with
  | lost => exact ⟨h, rfl, List.forall_mem_nil _⟩
  | asked hnew hplain =>
    rename_i newId
    refine ⟨⟨fun id' w' hw' => ?_, h.pending, h.running⟩, rfl, fun x hx => ?_⟩
    · dsimp only at hw'
      by_cases hid : id' = newId
      · subst hid
        rw [Function.update_self] at hw'
        cases hw'
        exact hw
      · rw [Function.update_of_ne hid] at hw'
        exact h.record id' w' hw'
    · rw [List.mem_singleton.mp hx]
      trivial

/-- A subscription is taken out. -/
theorem Known.takeOut (h : Known queueOf keyOf t) (id : String) :
    ∀ id', ∀ w ∈ (t.takeOut id).record id', Meant queueOf keyOf w := by
  intro id' w hw
  dsimp only [Taker.takeOut] at hw
  by_cases hid : id' = id
  · subst hid
    rw [Function.update_self] at hw
    cases hw
  · rw [Function.update_of_ne hid] at hw
    exact h.record id' w hw

/-- The item of an answer, which is wanted, before the items of the others. -/
theorem held_answer (hb : Backed W c t up (json :: down)) (t' : Taker η) {item : Texts}
    (hp : payloadTexts json = some (id, item)) (hrec : t.record id = some w)
    (ht : t'.record = Function.update t.record id none) :
    held t (json :: down) =
        t.pending.map (fun q => itemOf q.1 q.2) ++ itemOf w item :: down.filterMap (flying t') ∧
      entryWants (w.key.map received) (textsEntry item) = true := by
  have hflying : flying t json = some (itemOf w item) := by
    rw [flying, hp, Option.bind_some, hrec]
    rfl
  obtain ⟨w', hw', hserves⟩ :=
    hb.serves _ (mem_flights item List.mem_cons_self hp)
  cases hrec.symm.trans hw'
  exact ⟨by rw [held, List.filterMap_cons_some hflying, flying_update ht (hb.answered_new hp)],
    hserves⟩

/-- A message moves an item to a handler that waits, or the handler is called. -/
theorem notified_held (hb : Backed W c t up (json :: down)) (hk : Known queueOf keyOf t)
    (hn : Taker.Notified t (payloadTexts json) t' out) :
    Backed W c t' (up ++ out.filterMap Network.wantText) down ∧ Known queueOf keyOf t' ∧
      (itemsHandled queueOf (out.filterMap (Network.handlerRan k)) ++ held t' down).Perm
        (held t (json :: down)) ∧
      ∀ x ∈ out, HeardMeant keyOf x := by
  generalize hp : payloadTexts json = payload at hn
  cases hn with
  | ignored hnone =>
    cases payload with
    | none =>
      have hflights : flights W c up (json :: down) = flights W c up down := by
        rw [flights, List.filterMap_cons_none (by rw [answerFlight, hp]; rfl), flights]
      have hheld : held t (json :: down) = held t down := by
        rw [held, List.filterMap_cons_none (by rw [flying, hp]; rfl), held]
      rw [List.filterMap_nil, List.append_nil, hheld]
      refine ⟨hb.fewer (fun _ hm => hm) [] ?_, hk, List.Perm.refl _, List.forall_mem_nil _⟩
      rw [hflights]
      exact List.Perm.refl _
    | some p =>
      obtain ⟨w, hw, -⟩ := hb.serves _ (mem_flights p.2 List.mem_cons_self hp)
      rw [hnone p rfl] at hw
      cases hw
  | waits hrec =>
    rename_i id item w
    obtain ⟨hheld, hwants⟩ :=
      held_answer hb { t.takeOut id with pending := t.pending ++ [(w, item)] } hp hrec rfl
    rw [List.filterMap_nil, List.append_nil]
    refine ⟨hb.takeOut hp rfl, ⟨hk.takeOut id, fun q hq => ?_, hk.running⟩, ?_,
      List.forall_mem_nil _⟩
    · rcases List.mem_append.mp hq with hq | hq
      · exact hk.pending q hq
      · rw [List.mem_singleton.mp hq]
        exact ⟨hk.record id w hrec, hwants⟩
    · rw [hheld, held, List.map_append, List.append_assoc]
      exact List.Perm.refl _
  | called hrec =>
    rename_i id key value w
    obtain ⟨hheld, hwants⟩ :=
      held_answer hb { t.takeOut id with running := t.running ++ [w] } hp hrec rfl
    have hmeant := hk.record id w hrec
    have hwant : [Heard.ran w.handler key value].filterMap Network.wantText = [] := rfl
    rw [hwant, List.append_nil]
    refine ⟨hb.takeOut hp rfl, ⟨hk.takeOut id, hk.pending, fun v hv => ?_⟩, ?_, fun x hx => ?_⟩
    · rcases List.mem_append.mp hv with hv | hv
      · exact hk.running v hv
      · rw [List.mem_singleton.mp hv]
        exact hmeant
    · rw [hheld]
      refine List.Perm.trans ?_ List.perm_middle.symm
      rw [show itemsHandled queueOf ([Heard.ran w.handler key value].filterMap
        (Network.handlerRan k)) = _ from hmeant.item key value]
      exact List.Perm.refl _
    · rw [List.mem_singleton.mp hx]
      exact hmeant.heard hwants

/-- A handler ends, and one that waited is called. -/
theorem ended_held (hb : Backed W c t up down) (hk : Known queueOf keyOf t) {returns : Bool}
    (he : Taker.Ended t returns t' out) :
    Backed W c t' (up ++ out.filterMap Network.wantText) down ∧ Known queueOf keyOf t' ∧
      (itemsHandled queueOf (out.filterMap (Network.handlerRan k)) ++ held t' down).Perm
        (held t down) ∧
      ∀ x ∈ out, HeardMeant keyOf x := by
  cases he with
  | idle =>
    rw [List.filterMap_nil, List.append_nil]
    exact ⟨hb, hk, List.Perm.refl _, List.forall_mem_nil _⟩
  | waited hpending hagain =>
    rename_i pre w key value post out
    have hmem : (w, key, value) ∈ t.pending := by
      rw [hpending]
      exact List.mem_append_right _ List.mem_cons_self
    obtain ⟨hmeant, hwants⟩ := hk.pending _ hmem
    have hothers : ∀ q ∈ pre ++ post, q ∈ t.pending := by
      intro q hq
      rw [hpending]
      exact (List.perm_middle.symm.subset (List.mem_cons_of_mem _ hq))
    obtain ⟨hb', hheld⟩ := again (t := { t with pending := pre ++ post }) (hb.congr rfl) hagain
    obtain ⟨hk', hnone, hall⟩ := Known.again (k := k) (t := { t with pending := pre ++ post })
      ⟨hk.record, fun q hq => hk.pending q (hothers q hq), hk.running⟩ hmeant hagain
    refine ⟨hb', hk', ?_, List.forall_mem_cons.mpr ⟨hmeant.heard hwants, hall⟩⟩
    have hran : (Heard.ran w.handler key value :: out).filterMap (Network.handlerRan k) =
        [.ran k w.handler key value] := by
      rw [← List.singleton_append, List.filterMap_append, hnone]
      rfl
    rw [hran, hmeant.item, hheld]
    simp only [held, hpending, List.map_append, List.map_cons, List.append_assoc,
      List.cons_append, List.nil_append]
    exact List.perm_middle.symm
  | called hrunning hagain =>
    rename_i pre w post
    have hothers : ∀ v ∈ pre ++ post, v ∈ t.running := by
      intro v hv
      rw [hrunning]
      exact List.perm_middle.symm.subset (List.mem_cons_of_mem _ hv)
    have hmeant : Meant queueOf keyOf w := by
      refine hk.running w ?_
      rw [hrunning]
      exact List.mem_append_right _ List.mem_cons_self
    obtain ⟨hb', hheld⟩ := again (t := { t with running := pre ++ post }) (hb.congr rfl) hagain
    obtain ⟨hk', hnone, hall⟩ := Known.again (k := k) (t := { t with running := pre ++ post })
      ⟨hk.record, hk.pending, fun v hv => hk.running v (hothers v hv)⟩ hmeant hagain
    refine ⟨hb', hk', ?_, hall⟩
    rw [hnone, hheld]
    exact List.Perm.refl _

end DQ.Proof.Network
