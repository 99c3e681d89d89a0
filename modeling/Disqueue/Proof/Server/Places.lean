import Disqueue.Proof.Server.Delivery

/-!
# Places of items

An item that is taken without a reply that carries it, or given to a want that
does not answer, is nowhere. As long as neither happens, every item that was
put is in exactly one place (`none_lost`).
-/

namespace DQ.Proof.Server

open DQ.Model DQ.Spec

theorem notable_placeId (e : Event) (h : (placeId e).isSome) : notable e = true := by
  unfold placeId at h
  split at h
  · rfl
  · rfl
  · rfl
  · cases h

/-- An act that loses no item. -/
def Carries (l : Label) : Prop := l ≠ .took false ∧ l ≠ .matched false

/-- Every item put is stored or placed, and replies to puts are for items. -/
structure Placed (s : Server) : Prop where
  items : Accounted (said putId s.net) (storedIds s) (said placeId s.net) []
  lt : ∀ n ∈ said putId s.net, n < s.next
  replies : ∀ rid code b, Event.reply rid .put code b ∈ trace s.net → rid ∈ said putId s.net

variable {s s' : Server}

/-- Events that put nothing and place nothing. -/
theorem Placed.keep (h : Placed s) {es : List Event} (ht : trace s'.net = trace s.net ++ es)
    (hp : ∀ e ∈ es, putId e = none) (hc : ∀ e ∈ es, placeId e = none)
    (hr : ∀ rid code b, Event.reply rid .put code b ∈ es → rid ∈ said putId s.net)
    (hs : (stored s').Perm (stored s)) (hx : s.next ≤ s'.next) : Placed s' := by
  refine ⟨?_, fun n hn => ?_, fun rid code b hm => ?_⟩
  · rw [said_none ht hp, said_none ht hc]
    exact h.items.reorder (hs.map _)
  · rw [said_none ht hp] at hn
    exact Nat.lt_of_lt_of_le (h.lt n hn) hx
  · rw [said_none ht hp]
    rw [ht] at hm
    rcases List.mem_append.mp hm with hm | hm
    · exact h.replies rid code b hm
    · exact hr rid code b hm

/-- Items leave for the places that the events say. -/
theorem Placed.leave (h : Placed s) (items : List (Nat × QueueItem)) {es : List Event}
    (ht : trace s'.net = trace s.net ++ es) (hp : ∀ e ∈ es, putId e = none)
    (hc : es.filterMap placeId = items.map (·.2.id))
    (hr : ∀ rid code b, Event.reply rid .put code b ∉ es)
    (hs : (stored s).Perm (items ++ stored s')) (hx : s.next ≤ s'.next) : Placed s' := by
  refine ⟨?_, fun n hn => ?_, fun rid code b hm => ?_⟩
  · rw [said_none ht hp, said_concat ht, hc]
    refine h.items.goAll _ ?_
    rw [storedIds, storedIds, ← List.map_append]
    exact hs.map _
  · rw [said_none ht hp] at hn
    exact Nat.lt_of_lt_of_le (h.lt n hn) hx
  · rw [said_none ht hp]
    rw [ht] at hm
    rcases List.mem_append.mp hm with hm | hm
    · exact h.replies rid code b hm
    · exact absurd hm (hr rid code b)

/-- Every act that loses no item keeps the places. -/
theorem Placed.act (h : Placed s) {l : Label} (hl : Carries l) (ha : Act s l s') : Placed s' := by
  have one : ∀ {e : Event} {f : Event → Option Nat}, f e = none → ∀ e' ∈ [e], f e' = none := by
    intro e f hf e' he'
    rw [List.mem_singleton.mp he', hf]
  have noReply : ∀ {e : Event} {P : Nat → Prop}, (∀ rid code b, Event.reply rid .put code b ≠ e) →
      ∀ rid code b, Event.reply rid .put code b ∈ [e] → P rid := by
    intro e P he rid code b hm
    exact absurd (List.mem_singleton.mp hm) (he rid code b)
  cases ha with
  | calm hs hw hh hn hx =>
    exact h.keep (by rw [hn.trace, List.append_nil]) (List.forall_mem_nil _)
      (List.forall_mem_nil _) (fun _ _ _ hm => absurd hm List.not_mem_nil) (.of_eq hs) hx
  | connected hs hw hh hn ht hx =>
    exact h.keep (by rw [ht, List.append_nil]) (List.forall_mem_nil _)
      (List.forall_mem_nil _) (fun _ _ _ hm => absurd hm List.not_mem_nil) (.of_eq hs) hx
  | freed items cbs hs hw hc hf hn ha ht hx =>
    refine h.leave items ht (fun e he => ?_) ?_ (fun rid code b hm => ?_) hs hx
    · obtain ⟨p, -, rfl⟩ := List.mem_map.mp he
      rfl
    · rw [List.filterMap_map]
      exact List.filterMap_eq_map ▸ rfl
    · obtain ⟨p, -, hp⟩ := List.mem_map.mp hm
      cases hp
  | accepted i hi hs hw hh hn ha ht hx =>
    refine h.keep ht (one rfl) (one rfl) (fun rid code b hm => ?_) (.of_eq hs) hx
    cases List.mem_singleton.mp hm
    exact List.mem_filterMap.mpr ⟨_, hi, rfl⟩
  | put i hi hs hw hh hn ha ht hx =>
    have hp := said_one (f := putId) ht (x := s.next) (by rw [← hi]; rfl)
    refine ⟨?_, fun n hm => ?_, fun rid code b hm => ?_⟩
    · rw [hp, said_none ht (one rfl)]
      refine h.items.make (fun hm => Nat.lt_irrefl _ (h.lt _ hm)) ?_
      have := hs.map (·.2.id)
      rwa [List.map_cons, hi] at this
    · rw [hp] at hm
      rw [hx]
      rcases List.mem_append.mp hm with hm | hm
      · exact Nat.lt_succ_of_lt (h.lt n hm)
      · exact List.mem_singleton.mp hm ▸ Nat.lt_succ_self _
    · rw [hp]
      exact List.mem_append_left _ (h.replies rid code b (mem_of_concat ht hm nofun))
  | took a i replied rid hs hw hh hn ha ht hx =>
    cases replied with
    | false => exact absurd rfl hl.1
    | true =>
      exact h.leave [(a, i)] ht (one rfl) rfl
        (noReply (P := fun _ => False) fun _ _ _ => nofun) hs hx
  | refused w key hi hs hw hh hn ha ht hx =>
    exact h.keep ht (one rfl) (one rfl) (noReply fun _ _ _ => nofun) (.of_eq hs) (by omega)
  | waits w key hi hc hs hw hh hn ha ht hx =>
    exact h.keep ht (one rfl) (one rfl) (noReply fun _ _ _ => nofun) hs (by omega)
  | matched a i cb answered hk hs hw hh hn hx =>
    cases answered with
    | false => exact absurd rfl hl.2
    | true =>
      rcases hn.trace with ⟨-, hf⟩ | ⟨w, -, -, -, ht⟩
      · cases hf
      · exact h.leave [(a, i)] ht (one rfl) rfl
          (noReply (P := fun _ => False) fun _ _ _ => nofun) hs hx

theorem Acts.placed {ls : List Label} (h : Acts s ls s') (hl : ∀ l ∈ ls, Carries l)
    (hp : Placed s) : Placed s' := by
  induction h with
  | nil => exact hp
  | cons ha _ ih =>
    obtain ⟨h1, h2⟩ := List.forall_mem_cons.mp hl
    exact ih h2 (hp.act h1 ha)

/-! ## Runs -/

theorem carries_effects {ls : List Label} (h : ∀ l ∈ effects ls, Carries l) :
    ∀ l ∈ ls, Carries l := by
  intro l hl
  by_cases hc : l = .calm
  · subst hc
    exact ⟨nofun, nofun⟩
  · exact h l (mem_effects.mpr ⟨hl, hc⟩)

variable {dm : DataModel}

theorem carries_matched {o : Option Bool} (h : o ≠ some false) :
    ∀ l ∈ (o.map Label.matched).toList, Carries l := by
  intro l hl
  obtain ⟨b, hb, rfl⟩ : ∃ b, o = some b ∧ .matched b = l := by simpa using hl
  exact ⟨nofun, fun e => h (hb.trans (by rw [Label.matched.inj e]))⟩

theorem carries_took {o : Option Bool} (h : o ≠ some false) :
    ∀ l ∈ (o.map Label.took).toList, Carries l := by
  intro l hl
  obtain ⟨b, hb, rfl⟩ : ∃ b, o = some b ∧ .took b = l := by simpa using hl
  exact ⟨fun e => h (hb.trans (by rw [Label.took.inj e])), nofun⟩

theorem carries_read {c : Nat} {ms : List Message}
    (h : Meets (evwsWslayOnMsgCallback_ dm c) (fun s m => messageGives dm c s m ≠ some false) s ms) :
    ∀ l ∈ readGives dm c s ms, Carries l := by
  induction ms generalizing s with
  | nil => exact List.forall_mem_nil _
  | cons m ms ih =>
    intro l hl
    rw [readGives] at hl
    rcases List.mem_append.mp hl with hl | hl
    · exact carries_matched h.1 l hl
    · exact ih h.2 l hl

/-- Calls that meet the condition lose no item. -/
theorem carries_step {i : Input} (h : CarriesItems dm s i) : ∀ l ∈ stepGives dm s i, Carries l := by
  cases i with
  | http r =>
    obtain ⟨h1, h2⟩ := h
    simp only [stepGives, httpGives]
    cases hp : r.path with
    | put => exact carries_matched (h1 hp)
    | take => exact carries_took (h2 hp)
    | _ => exact List.forall_mem_nil _
  | opened =>
    intro l hl
    rw [List.mem_singleton.mp hl]
    exact ⟨by decide, by decide⟩
  | read c msgs recv e =>
    dsimp only [stepGives]
    split
    · rename_i hg
      simp only [Bool.and_eq_true, Bool.not_eq_true'] at hg
      exact carries_read (h hg.1 hg.2)
    · exact List.forall_mem_nil _
  | drained c => exact List.forall_mem_nil _
  | event c eof error e =>
    dsimp only [stepGives]
    split
    · intro l hl
      rw [List.mem_singleton.mp hl]
      exact ⟨by decide, by decide⟩
    · exact List.forall_mem_nil _

theorem placed_startup : Placed .startup :=
  ⟨Accounted.empty, List.forall_mem_nil _, fun _ _ _ hm => absurd hm List.not_mem_nil⟩

theorem placed_step (i : Input) (h : Good s ∧ Placed s) (hc : CarriesItems dm s i) :
    Good (s.step dm i) ∧ Placed (s.step dm i) := by
  obtain ⟨ls, ha, he, -⟩ := step_does dm h.1.1 h.1.2 i
  exact ⟨good_step i h.1, ha.placed (carries_effects (he ▸ carries_step hc)) h.2⟩

theorem storedCount_eq (id : Nat) (s : Server) : storedCount id s = (storedIds s).count id := by
  simp only [storedCount, storedIds, stored, List.map_flatMap, List.map_map]
  rfl

/-- An item whose put was replied to is in one place. -/
theorem Placed.noneLost (h : Placed s) : NoneLost s := by
  intro rid code b hm hb
  have ht : Event.reply rid .put code b ∈ trace s.net := List.mem_filter.mpr ⟨hm, hb⟩
  rw [places, storedCount_eq, filterMap_trace notable_placeId]
  exact h.items.count_eq_one (h.replies rid code b ht)

/-- In every state of a run whose calls carry the items that leave their
queues, every item whose put got a success reply is in exactly one place. -/
theorem none_lost (dm : DataModel) (is : List Input)
    (h : Meets (Server.step dm) (CarriesItems dm) .startup is) :
    ∀ js, js <+: is → NoneLost (run (Server.step dm) .startup js) := by
  intro js hjs
  exact (Meets.inv_prefix (I := fun s => Good s ∧ Placed s) (fun _ i h hc => placed_step i h hc)
    ⟨good_startup, placed_startup⟩ h hjs).2.noneLost

instance (dm : DataModel) (s : Server) : ∀ i, Decidable (CarriesItems dm s i)
  | .http r => inferInstanceAs (Decidable ((r.path = .put → putGives dm r s ≠ some false) ∧
      (r.path = .take → takeGives dm r s ≠ some false)))
  | .read c msgs _ _ => inferInstanceAs (Decidable ((s.net.conn c).alive = true →
      (s.net.conn c).closing = false → Meets (evwsWslayOnMsgCallback_ dm c)
        (fun s m => messageGives dm c s m ≠ some false) s msgs))
  | .opened | .drained _ | .event .. => inferInstanceAs (Decidable True)

theorem none_lost_waitThenPut : NoneLost (run (Server.step .lp64) .startup waitThenPut) :=
  none_lost .lp64 waitThenPut (by decide +kernel) waitThenPut (List.prefix_refl _)

/-- A client waits on a queue and closes its connection, and another puts an
item into the queue. -/
def waitCloseThenPut : List Input :=
  [postQueues, .opened, .read 1 [wantMessage] 0 wslayOk, .event 1 true false wslayOk, putValue]

/-- The item is given to the cancelled want, and is nowhere. -/
theorem item_lost :
    ¬ ∀ js, js <+: waitCloseThenPut → NoneLost (run (Server.step .lp64) .startup js) := by
  intro h
  have hp := h waitCloseThenPut (List.prefix_refl _) 3 200 putBody
  revert hp
  decide +kernel

end DQ.Proof.Server
