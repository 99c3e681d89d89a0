import Disqueue.Proof.Server.Steps
import Disqueue.Spec.Conditions

/-!
# Releases of items

An item that is matched with a want is released by the delivery callback and
again by the queue function that called it. So every item that left its queue
was released once, and none was used after its release, exactly as long as no
item is matched with a want (`released_once_iff`).
-/

namespace DQ.Proof.Server

open DQ.Model DQ.Spec

/-- No item was read or released after its release; stored items are not
released, and items that were put and are not stored were released once. -/
def ReleasedOnce (s : Server) : Prop :=
  s.heap.faults = [] ∧ (∀ p ∈ stored s, (s.heap.cell p.2.id).released = 0) ∧
    ∀ i, Event.put i ∈ s.net.log → (∀ p ∈ stored s, p.2.id ≠ i.id) →
      (s.heap.cell i.id).released = 1

/-- The releases of the items that were put and are not stored. -/
structure Releases (s : Server) : Prop where
  lt : ∀ i, .put i ∈ trace s.net → i.id < s.next
  left : ∀ i, .put i ∈ trace s.net → (∀ p ∈ stored s, p.2.id ≠ i.id) →
    (s.heap.cell i.id).released = 1 ∨ ((s.heap.cell i.id).released = 2 ∧ s.heap.faults ≠ [])

theorem releases_startup : Releases .startup := by
  constructor <;> simp [trace, Server.startup, Net.empty]

variable {s s' : Server}

theorem Releases.same (h : Releases s) (hs : stored s' = stored s) (hh : s'.heap = s.heap)
    (ht : ∀ i, .put i ∈ trace s'.net → .put i ∈ trace s.net) (hx : s.next ≤ s'.next) :
    Releases s' where
  lt i hi := Nat.lt_of_lt_of_le (h.lt i (ht i hi)) hx
  left i hi hn := by
    rw [hs] at hn
    rw [hh]
    exact h.left i (ht i hi) hn

/-- An item leaves, with its cell changed. -/
theorem Releases.leave (h : Releases s) {a : Nat} {j : QueueItem}
    (hs : (stored s).Perm ((a, j) :: stored s'))
    (hc : ∀ id, id ≠ j.id → s'.heap.cell id = s.heap.cell id)
    (hj : (s'.heap.cell j.id).released = 1 ∨
      ((s'.heap.cell j.id).released = 2 ∧ s'.heap.faults ≠ []))
    (hf : s.heap.faults ≠ [] → s'.heap.faults ≠ [])
    (ht : ∀ i, .put i ∈ trace s'.net → .put i ∈ trace s.net) (hx : s.next ≤ s'.next) :
    Releases s' where
  lt i hi := Nat.lt_of_lt_of_le (h.lt i (ht i hi)) hx
  left i hi hn := by
    by_cases hid : i.id = j.id
    · rw [hid]
      exact hj
    · rw [hc _ hid]
      refine (h.left i (ht i hi) fun p hp => ?_).imp id (And.imp_right hf)
      rcases List.mem_cons.mp (hs.mem_iff.mp hp) with rfl | hp
      · exact fun e => hid e.symm
      · exact hn p hp

theorem mem_of_concat {e e' : Event} {t t' : List Event} (ht : t' = t ++ [e']) (h : e ∈ t')
    (hne : e ≠ e') : e ∈ t := by
  rw [ht] at h
  rcases List.mem_append.mp h with h | h
  · exact h
  · exact absurd (List.mem_singleton.mp h) hne

/-- Every act keeps the releases right. -/
theorem Releases.act (h : Releases s) {l : Label} (ha : Act s l s') :
    Releases s' := by
  cases ha with
  | calm hs hw hh hn hx => exact h.same hs hh (fun i hi => hn.trace ▸ hi) hx
  | connected hs hw hh hn ht hx => exact h.same hs hh (fun i hi => ht ▸ hi) hx
  | freed items cbs hs hw hc hf hn ha ht hx =>
    have hold : ∀ i, Event.put i ∈ trace s'.net → Event.put i ∈ trace s.net := by
      intro i hi
      rw [ht] at hi
      rcases List.mem_append.mp hi with hi | hi
      · exact hi
      · obtain ⟨p, -, hp⟩ := List.mem_map.mp hi
        cases hp
    refine ⟨fun i hi => Nat.lt_of_lt_of_le (h.lt i (hold i hi)) hx, fun i hi hns => ?_⟩
    rw [hc, hf]
    split
    · exact .inl rfl
    · rename_i hni
      refine h.left i (hold i hi) fun p hp e => ?_
      rcases List.mem_append.mp (hs.mem_iff.mp hp) with hp | hp
      · exact hni (List.mem_map.mpr ⟨p, hp, e⟩)
      · exact hns p hp e
  | accepted i hi hs hw hh hn ha ht hx =>
    exact h.same hs hh (fun j hj => mem_of_concat ht hj nofun) hx
  | put j hj hs hw hh hn ha ht hx =>
    refine ⟨fun i hi => ?_, fun i hi hns => ?_⟩
    · rw [ht] at hi
      rcases List.mem_append.mp hi with hi | hi
      · have := h.lt i hi
        omega
      · obtain rfl : i = j := by simpa using hi
        omega
    · have hne : i.id ≠ j.id := fun e => hns _ (hs.mem_iff.mpr List.mem_cons_self) e.symm
      have hi' := mem_of_concat ht hi fun e => hne (by rw [Event.put.inj e])
      rw [hh, setCell_of_ne _ hne]
      exact h.left i hi' fun p hp => hns p (hs.mem_iff.mpr (List.mem_cons_of_mem _ hp))
  | took a j replied rid hs hw hh hn ha ht hx =>
    refine h.leave hs (fun id hid => by rw [hh, setCell_of_ne _ hid])
      (.inl (by rw [hh, setCell_self])) (fun hf => by rw [hh]; exact hf) (fun i hi => ?_) hx
    cases replied with
    | true => exact mem_of_concat ht hi nofun
    | false => simpa [ht] using hi
  | refused w key hi hs hw hh hn ha ht hx =>
    exact h.same hs hh (fun j hj => mem_of_concat ht hj nofun) (by omega)
  | waits w key hi hc hs hw hh hn ha ht hx =>
    refine ⟨fun i hm => ?_, fun i hm hns => ?_⟩
    · have := h.lt i (mem_of_concat ht hm nofun)
      omega
    · rw [hh]
      exact h.left i (mem_of_concat ht hm nofun) fun p hp => hns p (hs.mem_iff.mpr hp)
  | matched a j cb answered hk hs hw hh hn hx =>
    refine h.leave hs (fun id hid => by rw [hh]; exact setCell_of_ne _ hid _)
      (.inr ⟨by rw [hh]; exact congrArg Cell.released (setCell_self ..), by rw [hh]; nofun⟩)
      (fun _ => by rw [hh]; nofun) (fun i hi => ?_) hx
    rcases hn.trace with ⟨ht, -⟩ | ⟨w, -, -, -, ht⟩
    · exact ht ▸ hi
    · exact mem_of_concat ht hi nofun

/-- No act matches an item with a want. -/
def Unmatched (ls : List Label) : Prop := ∀ answered, Label.matched answered ∉ ls

theorem unmatched_effects {ls : List Label} : Unmatched (effects ls) ↔ Unmatched ls := by
  simp [Unmatched, mem_effects]

/-- Only a match uses a released item. -/
theorem Acts.faults {ls : List Label} (h : Acts s ls s') :
    s'.heap.faults = [] ↔ s.heap.faults = [] ∧ Unmatched ls := by
  induction h with
  | nil => simp [Unmatched]
  | @cons s l t ls u ha _ ih =>
    have hl : t.heap.faults = [] ↔ s.heap.faults = [] ∧ ∀ b, l ≠ .matched b := by
      cases ha with
      | matched a j cb answered hk hs hw hh hn hx =>
        rw [hh]
        simp [releaseTwice]
      | calm hs hw hh hn hx => simp [hh]
      | connected hs hw hh hn ht hx => simp [hh]
      | freed items cbs hs hw hc hf hn ha ht hx => simp [hf]
      | accepted i hi hs hw hh hn ha ht hx => simp [hh]
      | put j hj hs hw hh hn ha ht hx => simp [hh]
      | took a j replied rid hs hw hh hn ha ht hx => simp [hh]
      | refused w key hi hs hw hh hn ha ht hx => simp [hh]
      | waits w key hi hc hs hw hh hn ha ht hx => simp [hh]
    rw [ih, hl, and_assoc]
    refine and_congr_right fun _ => ?_
    simp only [Unmatched, List.mem_cons, not_or]
    exact ⟨fun ⟨h1, h2⟩ b => ⟨fun e => h1 b e.symm, h2 b⟩, fun h => ⟨fun b e => (h b).1 e.symm,
      fun b => (h b).2⟩⟩

/-! ## Runs -/

/-- The invariant of every run. -/
def Kept (s : Server) : Prop := Good s ∧ Releases s

theorem kept_startup : Kept .startup := ⟨good_startup, releases_startup⟩

theorem Acts.releases {ls : List Label} (h : Acts s ls s') (hr : Releases s) : Releases s' :=
  h.inv (fun _ _ _ hi ha => hi.act ha) hr

variable {dm : DataModel}

theorem kept_step (i : Input) (h : Kept s) : Kept (s.step dm i) := by
  obtain ⟨ls, ha, -, -⟩ := step_does dm h.1.1 h.1.2 i
  exact ⟨good_step i h.1, ha.releases h.2⟩

/-- Given the invariant, items are released once while nothing released was
used. -/
theorem releasedOnce_iff (h : Kept s) : ReleasedOnce s ↔ s.heap.faults = [] := by
  refine ⟨fun hr => hr.1, fun hf => ⟨hf, fun p hp => ?_, fun i hi hn => ?_⟩⟩
  · rw [h.1.1.live p hp]
  · have hi' : .put i ∈ trace s.net := List.mem_filter.mpr ⟨hi, rfl⟩
    exact (h.2.left i hi' hn).resolve_right fun h2 => h2.2 hf

theorem unmatched_toList (o : Option Bool) : Unmatched ((o.map .matched).toList) ↔ o = none := by
  cases o with
  | none => simp [Unmatched]
  | some b => simp [Unmatched]

theorem unmatched_append (ls ls' : List Label) :
    Unmatched (ls ++ ls') ↔ Unmatched ls ∧ Unmatched ls' := by
  simp only [Unmatched, List.mem_append, not_or, forall_and]

theorem unmatched_read (c : Nat) (ms : List Message) (s : Server) :
    Unmatched (readGives dm c s ms) ↔
      Meets (evwsWslayOnMsgCallback_ dm c) (fun s m => messageGives dm c s m = none) s ms := by
  induction ms generalizing s with
  | nil => simp [readGives, Unmatched, Meets]
  | cons m ms ih => rw [readGives, unmatched_append, unmatched_toList, ih, Meets]

theorem unmatched_step (s : Server) (i : Input) :
    Unmatched (stepGives dm s i) ↔ MatchesNothing dm s i := by
  cases i with
  | http r =>
    simp only [stepGives, httpGives, MatchesNothing]
    cases r.path with
    | put => simpa using unmatched_toList (putGives dm r s)
    | take => cases takeGives dm r s <;> simp [Unmatched]
    | _ => simp [Unmatched]
  | opened => simp [stepGives, MatchesNothing, Unmatched]
  | read c msgs recv e =>
    simp only [stepGives, MatchesNothing, ReadMeets]
    split
    · rename_i hg
      simp only [Bool.and_eq_true, Bool.not_eq_true'] at hg
      rw [unmatched_read]
      exact ⟨fun h _ _ => h, fun h => h hg.1 hg.2⟩
    · rename_i hg
      simp only [Bool.and_eq_true, Bool.not_eq_true'] at hg
      exact ⟨fun _ h1 h2 => absurd ⟨h1, h2⟩ hg, fun _ => by simp [Unmatched]⟩
  | drained c => simp [stepGives, MatchesNothing, Unmatched]
  | event c eof error e =>
    simp only [stepGives, MatchesNothing]
    split <;> simp [Unmatched]

/-- In every state of a run every item that left its queue was released once,
and none was used after its release, exactly if no call of the run matches an
item with a want. -/
theorem released_once_iff (dm : DataModel) (is : List Input) :
    (∀ js, js <+: is → ReleasedOnce (run (Server.step dm) .startup js)) ↔
      Meets (Server.step dm) (MatchesNothing dm) .startup is := by
  refine prefixes_iff_meets (I := Kept) (fun s i h => kept_step i h) (fun s i h hp => ?_)
    kept_startup ((releasedOnce_iff kept_startup).mpr rfl) is
  obtain ⟨ls, ha, he, -⟩ := step_does dm h.1.1 h.1.2 i
  rw [releasedOnce_iff (kept_step i h), ha.faults, ← unmatched_effects, he, unmatched_step]
  exact and_iff_right hp.1

/-- A client waits on a queue, and another puts an item into it: the item is
released twice. -/
def waitThenPut : List Input := [postQueues, .opened, .read 1 [wantMessage] 0 wslayOk, putValue]

theorem released_twice :
    ¬ ∀ js, js <+: waitThenPut → ReleasedOnce (run (Server.step .lp64) .startup js) := by
  intro h
  have hf : (run (Server.step .lp64) .startup waitThenPut).heap.faults = [] :=
    (h waitThenPut (List.prefix_refl _)).1
  revert hf
  decide +kernel

end DQ.Proof.Server
