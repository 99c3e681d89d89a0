import Disqueue.Framework.Accounts
import Disqueue.Proof.Server.Released
import Disqueue.Spec.Deliveries

/-!
# Deliveries

Items and wants are accounted for: those made are stored or waiting, carried
or answered, or lost. Each want and each waiting callback comes from a want
that was made, and each stored item from a put, into the queue they are in. So
every delivery answers one want with one item, in every run (`traced_run`).
-/

namespace DQ.Proof.Server

open DQ.Model DQ.Spec

/-! ## Logs and traces -/

/-- The item put. -/
def putId : Event → Option Nat
  | .put i => some i.id
  | _ => none

/-- The want made. -/
def wantId : Event → Option Nat
  | .want w _ => some w.id
  | _ => none

/-- What only notable events say, the trace says. -/
theorem filterMap_trace {f : Event → Option Nat} (hf : ∀ e, (f e).isSome → notable e = true)
    (n : Net) : n.log.filterMap f = (trace n).filterMap f := by
  unfold trace
  rw [List.filterMap_filter]
  congr 1
  funext e
  cases he : f e with
  | none => simp
  | some x => rw [hf e (by rw [he]; rfl)]; rfl

theorem notable_putId (e : Event) (h : (putId e).isSome) : notable e = true := by
  unfold putId at h
  split at h
  · rfl
  · cases h

theorem notable_carriedId (e : Event) (h : (carriedId e).isSome) : notable e = true := by
  unfold carriedId at h
  split at h
  · rfl
  · rfl
  · cases h

theorem notable_answeredId (e : Event) (h : (answeredId e).isSome) : notable e = true := by
  unfold answeredId at h
  split at h
  · rfl
  · cases h

/-- What the events of the trace say. -/
def said (f : Event → Option Nat) (n : Net) : List Nat := (trace n).filterMap f

theorem said_concat {f : Event → Option Nat} {n n' : Net} {es : List Event}
    (ht : trace n' = trace n ++ es) : said f n' = said f n ++ es.filterMap f := by
  simp only [said, ht, List.filterMap_append]

theorem said_same {f : Event → Option Nat} {n n' : Net} (ht : trace n' = trace n) :
    said f n' = said f n := by
  simp only [said, ht]

/-- The ids of the stored items, and the wants of the waiting callbacks. -/
def storedIds (s : Server) : List Nat := (stored s).map (·.2.id)

def waitingIds (s : Server) : List Nat := (waiting s).map (·.2.arg)

/-! ## Accounts -/

/-- Items are stored, carried or lost. -/
def Items (s : Server) : Prop :=
  Numbered (said putId s.net) (storedIds s) (said carriedId s.net) s.next

/-- Wants wait, are answered or lost. -/
def Wants (s : Server) : Prop :=
  Numbered (said wantId s.net) (waitingIds s) (said answeredId s.net) s.next

variable {s s' : Server}

/-- Events that say nothing. -/
theorem said_none {f : Event → Option Nat} {n n' : Net} {es : List Event}
    (ht : trace n' = trace n ++ es) (hf : ∀ e ∈ es, f e = none) : said f n' = said f n := by
  rw [said_concat ht, List.filterMap_eq_nil_iff.mpr hf, List.append_nil]

theorem said_one {f : Event → Option Nat} {n n' : Net} {e : Event} {x : Nat}
    (ht : trace n' = trace n ++ [e]) (hf : f e = some x) : said f n' = said f n ++ [x] := by
  rw [said_concat ht, List.filterMap_cons, hf, List.filterMap_nil]

/-- Nothing is put, and nothing carried. -/
theorem Items.keep (h : Items s) {es : List Event} (ht : trace s'.net = trace s.net ++ es)
    (hp : ∀ e ∈ es, putId e = none) (hc : ∀ e ∈ es, carriedId e = none)
    (hs : (stored s').Perm (stored s)) (hx : s.next ≤ s'.next) : Items s' := by
  unfold Items
  rw [said_none ht hp, said_none ht hc]
  exact Numbered.keep h (hs.map _) hx

theorem Items.act (h : Items s) {l : Label} (ha : Act s l s') : Items s' := by
  have one : ∀ {e : Event} {f : Event → Option Nat}, f e = none → ∀ e' ∈ [e], f e' = none := by
    intro e f hf e' he'
    rw [List.mem_singleton.mp he', hf]
  cases ha with
  | calm hs hw hh hn hx =>
    exact h.keep (by rw [hn.trace, List.append_nil]) (List.forall_mem_nil _) (List.forall_mem_nil _)
      (.of_eq hs) hx
  | connected hs hw hh hn ht hx =>
    exact h.keep (by rw [ht, List.append_nil]) (List.forall_mem_nil _) (List.forall_mem_nil _)
      (.of_eq hs) hx
  | freed items cbs hs hw hc hf hn ha ht hx =>
    have discards : ∀ f : Event → Option Nat, (∀ i, f (.discard i) = none) →
        ∀ e ∈ items.map fun p => Event.discard p.2, f e = none := by
      intro f hf e he
      obtain ⟨p, -, rfl⟩ := List.mem_map.mp he
      exact hf p.2
    unfold Items
    rw [said_none ht (discards putId fun _ => rfl), said_none ht (discards carriedId fun _ => rfl)]
    refine Numbered.loseAll h (items.map (·.2.id)) ?_ hx
    rw [storedIds, storedIds, ← List.map_append]
    exact hs.map _
  | accepted i hi hs hw hh hn ha ht hx =>
    exact h.keep ht (one rfl) (one rfl) (.of_eq hs) hx
  | put i hi hs hw hh hn ha ht hx =>
    unfold Items
    rw [said_one ht (x := s.next) (by rw [← hi]; rfl), said_none ht (one rfl), hx]
    refine Numbered.make h ?_
    have := hs.map (·.2.id)
    rwa [List.map_cons, hi] at this
  | took a i replied rid hs hw hh hn ha ht hx =>
    unfold Items
    have hp := hs.map (·.2.id)
    cases replied with
    | true =>
      rw [said_none ht (one rfl), said_one ht rfl]
      exact Numbered.go h hp hx
    | false =>
      rw [said_none ht (List.forall_mem_nil _), said_none ht (List.forall_mem_nil _)]
      exact Numbered.lose h hp hx
  | refused w key hi hs hw hh hn ha ht hx =>
    exact h.keep ht (one rfl) (one rfl) (.of_eq hs) (by omega)
  | waits w key hi hc hs hw hh hn ha ht hx => exact h.keep ht (one rfl) (one rfl) hs (by omega)
  | matched a i cb answered hk hs hw hh hn hx =>
    unfold Items
    have hp := hs.map (·.2.id)
    rcases hn.trace with ⟨ht, -⟩ | ⟨w, -, -, -, ht⟩
    · rw [said_same ht, said_same ht]
      exact Numbered.lose h hp hx
    · rw [said_none ht (one rfl), said_one ht rfl]
      exact Numbered.go h hp hx

/-- No want is made, and none answered. -/
theorem Wants.keep (h : Wants s) {es : List Event} (ht : trace s'.net = trace s.net ++ es)
    (hp : ∀ e ∈ es, wantId e = none) (hc : ∀ e ∈ es, answeredId e = none)
    (hs : (waiting s').Perm (waiting s)) (hx : s.next ≤ s'.next) : Wants s' := by
  unfold Wants
  rw [said_none ht hp, said_none ht hc]
  exact Numbered.keep h (hs.map _) hx

theorem Wants.act (h : Wants s) {l : Label} (ha : Act s l s') : Wants s' := by
  have one : ∀ {e : Event} {f : Event → Option Nat}, f e = none → ∀ e' ∈ [e], f e' = none := by
    intro e f hf e' he'
    rw [List.mem_singleton.mp he', hf]
  cases ha with
  | calm hs hw hh hn hx =>
    exact h.keep (by rw [hn.trace, List.append_nil]) (List.forall_mem_nil _) (List.forall_mem_nil _)
      (.of_eq hw) hx
  | connected hs hw hh hn ht hx =>
    exact h.keep (by rw [ht, List.append_nil]) (List.forall_mem_nil _) (List.forall_mem_nil _)
      (.of_eq hw) hx
  | freed items cbs hs hw hc hf hn ha ht hx =>
    have discards : ∀ f : Event → Option Nat, (∀ i, f (.discard i) = none) →
        ∀ e ∈ items.map fun p => Event.discard p.2, f e = none := by
      intro f hf e he
      obtain ⟨p, -, rfl⟩ := List.mem_map.mp he
      exact hf p.2
    unfold Wants
    rw [said_none ht (discards wantId fun _ => rfl), said_none ht (discards answeredId fun _ => rfl)]
    refine Numbered.loseAll h (cbs.map (·.2.arg)) ?_ hx
    rw [waitingIds, waitingIds, ← List.map_append]
    exact hw.map _
  | accepted i hi hs hw hh hn ha ht hx =>
    exact h.keep ht (one rfl) (one rfl) (.of_eq hw) hx
  | put i hi hs hw hh hn ha ht hx => exact h.keep ht (one rfl) (one rfl) hw (by omega)
  | took a i replied rid hs hw hh hn ha ht hx =>
    refine h.keep ht ?_ ?_ hw.symm hx
    · cases replied <;> [exact List.forall_mem_nil _; exact one rfl]
    · cases replied <;> [exact List.forall_mem_nil _; exact one rfl]
  | refused w key hi hs hw hh hn ha ht hx =>
    unfold Wants
    rw [said_one ht (x := s.next) (by rw [← hi]; rfl), said_none ht (one rfl), hx, waitingIds, hw]
    exact Numbered.refuse h
  | waits w key hi hc hs hw hh hn ha ht hx =>
    unfold Wants
    rw [said_one ht (x := s.next) (by rw [← hi]; rfl), said_none ht (one rfl), hx]
    refine Numbered.make h ?_
    have := hw.map (·.2.arg)
    rwa [List.map_cons, hi] at this
  | matched a i cb answered hk hs hw hh hn hx =>
    unfold Wants
    have hp := hw.map (·.2.arg)
    rcases hn.trace with ⟨ht, -⟩ | ⟨w, -, hid, -, ht⟩
    · rw [said_same ht, said_same ht]
      exact Numbered.lose h hp hx
    · rw [said_none ht (one rfl), said_one ht (x := cb.arg) (by rw [← hid]; rfl)]
      exact Numbered.go h hp hx

/-! ## Origins -/

def isMessage : Event → Bool
  | .message .. => true
  | _ => false

/-- The body answers a want made before on the connection `c`, with its
identifier, and carries an item put before into the queue of the want, which
the want's key wants. -/
def AnswersMade (before : List Event) (c : Nat) (b : Body) : Prop :=
  ∃ w key i, b.payload = some (.answer w.id w.identifier i) ∧ Event.want w key ∈ before ∧
    w.client = c ∧ Event.put i ∈ before ∧ i.owner = w.queue ∧ wants key i = true

/-- A success message of the trace is justified by the events before it. -/
def Justified (t : List Event) : Prop :=
  ∀ pre post c b sent, t = pre ++ .message c b sent :: post → AnswersMade pre c b

theorem Justified.append {t : List Event} (h : Justified t) {es : List Event}
    (hes : ∀ e ∈ es, isMessage e = false) : Justified (t ++ es) := by
  intro pre post c b sent he
  have hnot : .message c b sent ∉ es := fun hm => Bool.noConfusion (hes _ hm)
  rcases List.append_eq_append_iff.mp he with ⟨l, rfl, hl⟩ | ⟨l, rfl, hl⟩
  · exact absurd (by rw [hl]; simp) hnot
  · cases l with
    | nil =>
      rw [List.nil_append] at hl
      exact absurd (by rw [← hl]; simp) hnot
    | cons e l =>
      obtain ⟨rfl, -⟩ := List.cons.inj hl
      exact h pre l c b sent rfl

theorem Justified.concat {t : List Event} (h : Justified t) {c : Nat} {b : Body} {sent : Bool}
    (hb : AnswersMade t c b) : Justified (t ++ [.message c b sent]) := by
  intro pre post c' b' sent' he
  rcases Line.concat_eq_split he with ⟨hm, rfl⟩ | ⟨post', rfl⟩
  · cases hm
    exact hb
  · exact h pre post' c' b' sent' rfl

/-- Stored items were put into their queues; waiting callbacks and wants come
from wants that were received; and answers are justified. -/
structure Origins (s : Server) : Prop where
  stored_put : ∀ p ∈ stored s, Event.put p.2 ∈ trace s.net ∧ p.2.owner = p.1
  waiting_want : ∀ p ∈ waiting s,
    ∃ w, Event.want w p.2.key ∈ trace s.net ∧ w.id = p.2.arg ∧ w.queue = p.1
  want_made : ∀ w ∈ s.net.wants, ∃ v key, Event.want v key ∈ trace s.net ∧ Eased v w
  justified : Justified (trace s.net)

/-- Two wants of the trace at one address are one want. -/
theorem want_unique {t : List Event} (hn : (t.filterMap wantId).Nodup) {v w : Want}
    {key key' : Option CStr} (hv : Event.want v key ∈ t) (hw : Event.want w key' ∈ t)
    (h : v.id = w.id) : v = w ∧ key = key' := by
  induction t with
  | nil => cases hv
  | cons e t ih =>
    have tail : (t.filterMap wantId).Nodup := by
      rw [List.filterMap_cons] at hn
      split at hn
      · exact hn
      · exact (List.nodup_cons.mp hn).2
    have fresh : ∀ {u k}, e = Event.want u k → ∀ {u' k'}, Event.want u' k' ∈ t → u'.id ≠ u.id := by
      rintro u k rfl u' k' hm he
      refine (List.nodup_cons.mp hn).1 (List.mem_filterMap.mpr ⟨_, hm, ?_⟩)
      simp only [wantId, he]
    rcases List.mem_cons.mp hv with hv | hv <;> rcases List.mem_cons.mp hw with hw | hw
    · obtain ⟨rfl, rfl⟩ := Event.want.inj (hv.trans hw.symm)
      exact ⟨rfl, rfl⟩
    · exact absurd h.symm (fresh hv.symm hw)
    · exact absurd h (fresh hw.symm hv)
    · exact ih tail hv hw

/-- An answer is justified by the want it answers and the item it carries. -/
theorem answers_want (h : Origins s) (hws : Wants s) {a : Nat} {i : QueueItem}
    {cb : QueueCallback Nat} {w : Want} (hi : (a, i) ∈ stored s) (hcb : (a, cb) ∈ waiting s)
    (hk : wants cb.key i = true) (hw : w ∈ s.net.wants) (hid : w.id = cb.arg) :
    AnswersMade (trace s.net) w.client (answerBody w i) := by
  obtain ⟨hput, howner⟩ := h.stored_put _ hi
  obtain ⟨v, hv, hvid, hvq⟩ := h.waiting_want _ hcb
  obtain ⟨u, key, hu, he⟩ := h.want_made w hw
  obtain ⟨lost, hacc⟩ := hws.accounted
  -- the want in the list and the want of the callback are one
  obtain ⟨rfl, rfl⟩ := want_unique hacc.nodup hu hv (by rw [← he.id, hid, hvid])
  refine ⟨u, cb.key, i, ?_, hv, he.client.symm, hput, howner.trans hvq.symm, hk⟩
  rcases he with rfl | rfl <;> rfl

/-- The origins where nothing is stored and no callback registered. -/
theorem Origins.keep (h : Origins s) {es : List Event} (ht : trace s'.net = trace s.net ++ es)
    (hes : ∀ e ∈ es, isMessage e = false)
    (hs : ∀ p ∈ stored s', p ∈ stored s) (hw : ∀ p ∈ waiting s', p ∈ waiting s)
    (hn : ∀ w' ∈ s'.net.wants, ∃ w ∈ s.net.wants, Eased w w') : Origins s' := by
  refine ⟨fun p hp => ?_, fun p hp => ?_, fun w hw' => ?_, ht ▸ h.justified.append hes⟩
  · obtain ⟨h1, h2⟩ := h.stored_put p (hs p hp)
    exact ⟨ht ▸ List.mem_append_left _ h1, h2⟩
  · obtain ⟨w, h1, h2⟩ := h.waiting_want p (hw p hp)
    exact ⟨w, ht ▸ List.mem_append_left _ h1, h2⟩
  · obtain ⟨w₀, hm, he⟩ := hn w hw'
    obtain ⟨v, key, h1, h2⟩ := h.want_made w₀ hm
    exact ⟨v, key, ht ▸ List.mem_append_left _ h1, h2.trans he⟩

/-- Every act keeps the origins. -/
theorem Origins.act (h : Origins s) (hws : Wants s) {l : Label} (ha : Act s l s') :
    Origins s' := by
  have one : ∀ {e : Event}, isMessage e = false → ∀ e' ∈ [e], isMessage e' = false := by
    intro e he e' he'
    rw [List.mem_singleton.mp he', he]
  have same : s'.net.wants = s.net.wants → ∀ w' ∈ s'.net.wants, ∃ w ∈ s.net.wants, Eased w w' :=
    fun hn w' hw' => ⟨w', hn ▸ hw', Eased.refl w'⟩
  cases ha with
  | calm hs hw hh hn hx =>
    exact h.keep (by rw [hn.trace, List.append_nil]) (List.forall_mem_nil _) (fun p hp => hs ▸ hp)
      (fun p hp => hw ▸ hp) fun w hm => eased_mem hn.wants hm
  | connected hs hw hh hn ht hx =>
    exact h.keep (by rw [ht, List.append_nil]) (List.forall_mem_nil _) (fun p hp => hs ▸ hp)
      (fun p hp => hw ▸ hp) fun w hm => eased_mem hn hm
  | freed items cbs hs hw hc hf hn ha ht hx =>
    refine h.keep ht (fun e he => ?_) (fun p hp => hs.mem_iff.mpr (List.mem_append_right _ hp))
      (fun p hp => hw.mem_iff.mpr (List.mem_append_right _ hp)) (same hn)
    obtain ⟨p, -, rfl⟩ := List.mem_map.mp he
    rfl
  | accepted i hi hs hw hh hn ha ht hx =>
    exact h.keep ht (one rfl) (fun p hp => hs ▸ hp) (fun p hp => hw ▸ hp) (same hn)
  | put i hi hs hw hh hn ha ht hx =>
    have hold : Origins { s with net := s'.net } :=
      h.keep ht (one rfl) (fun _ hp => hp) (fun _ hp => hp) (same hn)
    refine ⟨fun p hp => ?_, fun p hp => hold.waiting_want p (hw.mem_iff.mp hp), hold.want_made,
      hold.justified⟩
    rcases List.mem_cons.mp (hs.mem_iff.mp hp) with rfl | hp
    · exact ⟨by rw [ht]; simp, rfl⟩
    · exact hold.stored_put p hp
  | took a i replied rid hs hw hh hn ha ht hx =>
    refine h.keep ht ?_ (fun p hp => hs.mem_iff.mpr (List.mem_cons_of_mem _ hp))
      (fun p hp => hw.mem_iff.mpr hp) (same hn)
    cases replied <;> [exact List.forall_mem_nil _; exact one rfl]
  | refused w key hi hs hw hh hn ha ht hx =>
    exact h.keep ht (one rfl) (fun p hp => hs ▸ hp) (fun p hp => hw ▸ hp) (same hn)
  | waits w key hi hc hs hw hh hn ha ht hx =>
    have hold : Origins { s with net := { s'.net with wants := s.net.wants } } :=
      h.keep ht (one rfl) (fun _ hp => hp) (fun _ hp => hp) (fun w hw => ⟨w, hw, Eased.refl w⟩)
    have hmem : Event.want w key ∈ trace s'.net := by rw [ht]; simp
    refine ⟨fun p hp => hold.stored_put p (hs.mem_iff.mp hp), fun p hp => ?_, fun v hv => ?_,
      hold.justified⟩
    · rcases List.mem_cons.mp (hw.mem_iff.mp hp) with rfl | hp
      · exact ⟨w, hmem, rfl, rfl⟩
      · exact hold.waiting_want p hp
    · rw [hn] at hv
      rcases List.mem_append.mp hv with hv | hv
      · exact hold.want_made v hv
      · rw [List.mem_singleton.mp hv]
        exact ⟨w, key, hmem, Eased.refl w⟩
  | matched a i cb answered hk hs hw hh hn hx =>
    have hstored : ∀ p ∈ stored s', p ∈ stored s := fun p hp =>
      hs.mem_iff.mpr (List.mem_cons_of_mem _ hp)
    have hwaiting : ∀ p ∈ waiting s', p ∈ waiting s := fun p hp =>
      hw.mem_iff.mpr (List.mem_cons_of_mem _ hp)
    have hwants : ∀ w' ∈ s'.net.wants, ∃ w ∈ s.net.wants, Eased w w' := fun w' hw' => by
      obtain ⟨w, hm, he⟩ := eased_mem hn.wants hw'
      exact ⟨w, (List.mem_filter.mp hm).1, he⟩
    rcases hn.trace with ⟨ht, -⟩ | ⟨w, hm, hid, -, ht⟩
    · exact h.keep (by rw [ht, List.append_nil]) (List.forall_mem_nil _) hstored hwaiting hwants
    · have hjust := answers_want h hws (hs.mem_iff.mpr List.mem_cons_self)
        (hw.mem_iff.mpr List.mem_cons_self) hk hm hid
      have hgrow : ∀ {e}, e ∈ trace s.net → e ∈ trace s'.net := fun he =>
        ht ▸ List.mem_append_left _ he
      refine ⟨fun p hp => ?_, fun p hp => ?_, fun v hv => ?_, ht ▸ h.justified.concat hjust⟩
      · obtain ⟨h1, h2⟩ := h.stored_put p (hstored p hp)
        exact ⟨hgrow h1, h2⟩
      · obtain ⟨v, h1, h2⟩ := h.waiting_want p (hwaiting p hp)
        exact ⟨v, hgrow h1, h2⟩
      · obtain ⟨u, hu, he⟩ := hwants v hv
        obtain ⟨v', key, h1, h2⟩ := h.want_made u hu
        exact ⟨v', key, hgrow h1, h2.trans he⟩

/-! ## Runs -/

/-- The invariant of every run. -/
structure Traced (s : Server) : Prop where
  good : Good s
  items : Items s
  wants : Wants s
  origins : Origins s

theorem traced_startup : Traced .startup := by
  refine ⟨good_startup, Numbered.empty 0, Numbered.empty 0, ⟨nofun, nofun, nofun, ?_⟩⟩
  intro pre post c b sent h
  have : ([] : List Event) = pre ++ .message c b sent :: post := h
  simp at this

variable {dm : DataModel}

theorem traced_step (i : Input) (h : Traced s) : Traced (s.step dm i) := by
  obtain ⟨ls, ha, -, -⟩ := step_does dm h.good.1 h.good.2 i
  obtain ⟨h1, h2, h3⟩ := ha.inv (I := fun s => Items s ∧ Wants s ∧ Origins s)
    (fun _ _ _ ⟨h1, h2, h3⟩ ha => ⟨h1.act ha, h2.act ha, h3.act h2 ha⟩)
    ⟨h.items, h.wants, h.origins⟩
  exact ⟨good_step i h.good, h1, h2, h3⟩

/-- Every state of every run. -/
theorem traced_run (dm : DataModel) (is : List Input) : Traced (run (Server.step dm) .startup is) :=
  run_inv (fun _ i h => traced_step i h) traced_startup is

/-- A success message of the log answers a want made before it. -/
theorem Traced.answers_made (h : Traced s) {pre post : List Event} {c : Nat} {b : Body}
    {sent : Bool} (hl : s.net.log = pre ++ .message c b sent :: post) (hb : b.success = true) :
    AnswersMade pre c b := by
  have hn : notable (.message c b sent) = true := hb
  obtain ⟨w, key, i, h1, h2, h3, h4, h5⟩ :=
    h.origins.justified (pre.filter notable) (post.filter notable) c b sent (by
      rw [trace, hl, List.filter_append, List.filter_cons, if_pos hn])
  exact ⟨w, key, i, h1, (List.mem_filter.mp h2).1, h3, (List.mem_filter.mp h4).1, h5⟩

/-- No want is answered twice. -/
theorem Traced.answers_nodup (h : Traced s) : (s.net.log.filterMap answeredId).Nodup := by
  obtain ⟨lost, hw⟩ := h.wants.accounted
  rw [filterMap_trace notable_answeredId]
  exact hw.gone_nodup

/-- No item is carried twice. -/
theorem Traced.carried_nodup (h : Traced s) : (s.net.log.filterMap carriedId).Nodup := by
  obtain ⟨lost, hi⟩ := h.items.accounted
  rw [filterMap_trace notable_carriedId]
  exact hi.gone_nodup

/-- A stored item was put into its queue. -/
theorem Traced.stored_put (h : Traced s) :
    ∀ p ∈ stored s, Event.put p.2 ∈ s.net.log ∧ p.2.owner = p.1 :=
  fun p hp =>
    have ⟨hput, howner⟩ := h.origins.stored_put p hp
    ⟨(List.mem_filter.mp hput).1, howner⟩

end DQ.Proof.Server
