import Disqueue.Proof.Server.Acts

/-!
# The invariant of the server's state

Stored items are live and have different addresses, callbacks have different
arguments, and each is the address of a want. Every act keeps this
(`Inv.act`), and so does every sequence of acts (`Acts.keeps`).
-/

namespace DQ.Proof.Server

open DQ.Model DQ.Spec

structure Inv (s : Server) : Prop where
  live : ∀ p ∈ stored s, s.heap.cell p.2.id = ⟨true, 0, 0⟩
  stored_nodup : ((stored s).map (·.2.id)).Nodup
  stored_lt : ∀ p ∈ stored s, p.2.id < s.next
  waiting_nodup : ((waiting s).map (·.2.arg)).Nodup
  waiting_want : ∀ p ∈ waiting s, ∃ w ∈ s.net.wants, w.id = p.2.arg
  wants_lt : ∀ w ∈ s.net.wants, w.id < s.next

theorem inv_startup : Inv .startup := by
  constructor <;> simp [stored, waiting, Server.startup, Net.empty]

/-- One element less in a list without repetitions. -/
theorem nodup_perm_cons {τ : Type} {f : τ → Nat} {l l' : List τ} {x : τ}
    (hn : (l.map f).Nodup) (hp : l.Perm (x :: l')) : (∀ y ∈ l', f y ≠ f x) ∧ (l'.map f).Nodup := by
  have := (hp.map f).nodup_iff.mp hn
  rw [List.map_cons, List.nodup_cons] at this
  exact ⟨fun y hy e => this.1 (List.mem_map.mpr ⟨y, hy, e⟩), this.2⟩

/-- One element more in a list without repetitions. -/
theorem nodup_of_perm_cons {τ : Type} {f : τ → Nat} {l l' : List τ} {x : τ}
    (hn : (l.map f).Nodup) (hp : l'.Perm (x :: l)) (hx : ∀ y ∈ l, f y ≠ f x) :
    (l'.map f).Nodup := by
  rw [(hp.map f).nodup_iff, List.map_cons, List.nodup_cons]
  exact ⟨fun hm => by
    obtain ⟨y, hy, e⟩ := List.mem_map.mp hm
    exact hx y hy e, hn⟩

theorem nodup_perm_append {τ : Type} {f : τ → Nat} {l l₁ l₂ : List τ}
    (hn : (l.map f).Nodup) (hp : l.Perm (l₁ ++ l₂)) :
    (∀ y ∈ l₂, f y ∉ l₁.map f) ∧ (l₂.map f).Nodup := by
  have := (hp.map f).nodup_iff.mp hn
  rw [List.map_append, List.nodup_append] at this
  exact ⟨fun y hy hm => this.2.2 _ hm _ (List.mem_map_of_mem hy) rfl, this.2.1⟩

variable {s s' : Server}

/-- The wants of waiting callbacks, after easing. -/
theorem waiting_want_eased (h : Inv s) (hw : waiting s' = waiting s)
    (hn : List.Forall₂ Eased s.net.wants s'.net.wants) :
    ∀ p ∈ waiting s', ∃ w ∈ s'.net.wants, w.id = p.2.arg := by
  intro p hp
  obtain ⟨w, hm, hi⟩ := h.waiting_want p (hw ▸ hp)
  obtain ⟨w', hm', he⟩ := eased_mem' hn hm
  exact ⟨w', hm', he.id.trans hi⟩

theorem wants_lt_eased (h : Inv s) (hn : List.Forall₂ Eased s.net.wants s'.net.wants)
    (hx : s.next ≤ s'.next) : ∀ w ∈ s'.net.wants, w.id < s'.next := by
  intro w hw
  obtain ⟨w₀, hm, he⟩ := eased_mem hn hw
  rw [he.id]
  exact Nat.lt_of_lt_of_le (h.wants_lt w₀ hm) hx

/-- The invariant where only wants were eased. -/
theorem Inv.eased (h : Inv s) (hs : stored s' = stored s) (hw : waiting s' = waiting s)
    (hh : s'.heap = s.heap) (hn : List.Forall₂ Eased s.net.wants s'.net.wants)
    (hx : s.next ≤ s'.next) : Inv s' where
  live := by rw [hs, hh]; exact h.live
  stored_nodup := by rw [hs]; exact h.stored_nodup
  stored_lt p hp := Nat.lt_of_lt_of_le (h.stored_lt p (hs ▸ hp)) hx
  waiting_nodup := by rw [hw]; exact h.waiting_nodup
  waiting_want := waiting_want_eased h hw hn
  wants_lt := wants_lt_eased h hn hx

/-- The part about stored items, when one leaves. -/
theorem Inv.leave (h : Inv s) {a : Nat} {i : QueueItem}
    (hs : (stored s).Perm ((a, i) :: stored s')) (hx : s.next ≤ s'.next)
    (hc : ∀ id, id ≠ i.id → s'.heap.cell id = s.heap.cell id) :
    (∀ p ∈ stored s', s'.heap.cell p.2.id = ⟨true, 0, 0⟩) ∧
      ((stored s').map (·.2.id)).Nodup ∧ ∀ p ∈ stored s', p.2.id < s'.next := by
  obtain ⟨hne, hn⟩ := nodup_perm_cons h.stored_nodup hs
  have hm : ∀ p ∈ stored s', p ∈ stored s := fun p hp => hs.mem_iff.mpr (List.mem_cons_of_mem _ hp)
  refine ⟨fun p hp => ?_, hn, fun p hp => Nat.lt_of_lt_of_le (h.stored_lt p (hm p hp)) hx⟩
  rw [hc _ (hne p hp)]
  exact h.live p (hm p hp)

theorem waiting_lt (h : Inv s) : ∀ p ∈ waiting s, p.2.arg < s.next := by
  intro p hp
  obtain ⟨w, hm, hi⟩ := h.waiting_want p hp
  exact hi ▸ h.wants_lt w hm

/-- Every act keeps the invariant. -/
theorem Inv.act (h : Inv s) {l : Label} (ha : Act s l s') : Inv s' := by
  cases ha with
  | calm hs hw hh hn hx => exact h.eased hs hw hh hn.wants hx
  | connected hs hw hh hn ht hx => exact h.eased hs hw hh hn hx
  | freed items cbs hs hw hc hf hn ha ht hx =>
    obtain ⟨hni, hnd⟩ := nodup_perm_append h.stored_nodup hs
    have hm : ∀ p ∈ stored s', p ∈ stored s := fun p hp => hs.mem_iff.mpr (List.mem_append_right _ hp)
    refine ⟨fun p hp => ?_, hnd, fun p hp => Nat.lt_of_lt_of_le (h.stored_lt p (hm p hp)) hx,
      (nodup_perm_append h.waiting_nodup hw).2, fun p hp => ?_, fun w hw => ?_⟩
    · rw [hc, if_neg (hni p hp)]
      exact h.live p (hm p hp)
    · rw [hn]
      exact h.waiting_want p (hw.mem_iff.mpr (List.mem_append_right _ hp))
    · exact Nat.lt_of_lt_of_le (h.wants_lt w (hn ▸ hw)) hx
  | accepted i hi hs hw hh hn ha ht hx => exact h.eased hs hw hh (hn ▸ eased_refl _) hx
  | put i hi hs hw hh hn ha ht hx =>
    have hne : ∀ p ∈ stored s, p.2.id ≠ i.id := fun p hp e => by
      have := h.stored_lt p hp
      omega
    refine ⟨fun p hp => ?_, nodup_of_perm_cons h.stored_nodup hs hne, fun p hp => ?_,
      (hw.map _).nodup_iff.mpr h.waiting_nodup, fun p hp => ?_, fun w hw => ?_⟩
    · rcases List.mem_cons.mp (hs.mem_iff.mp hp) with rfl | hp
      · rw [hh, setCell_self]
      · rw [hh, setCell_of_ne _ (hne p hp)]
        exact h.live p hp
    · rcases List.mem_cons.mp (hs.mem_iff.mp hp) with rfl | hp
      · dsimp only
        omega
      · have := h.stored_lt p hp
        omega
    · rw [hn]
      exact h.waiting_want p (hw.mem_iff.mp hp)
    · have := h.wants_lt w (hn ▸ hw)
      omega
  | took a i replied rid hs hw hh hn ha ht hx =>
    obtain ⟨h1, h2, h3⟩ := h.leave hs hx fun id hid => by rw [hh, setCell_of_ne _ hid]
    refine ⟨h1, h2, h3, (hw.map _).nodup_iff.mp h.waiting_nodup, fun p hp => ?_, fun w hw => ?_⟩
    · rw [hn]
      exact h.waiting_want p (hw.mem_iff.mpr hp)
    · exact Nat.lt_of_lt_of_le (h.wants_lt w (hn ▸ hw)) hx
  | refused w key hi hs hw hh hn ha ht hx =>
    exact h.eased hs hw hh (hn ▸ eased_refl _) (by omega)
  | waits w key hi hc hs hw hh hn ha ht hx =>
    refine ⟨fun p hp => ?_, (hs.map _).nodup_iff.mpr h.stored_nodup, fun p hp => ?_,
      nodup_of_perm_cons h.waiting_nodup hw fun p hp => ?_, fun p hp => ?_, fun v hv => ?_⟩
    · rw [hh]
      exact h.live p (hs.mem_iff.mp hp)
    · have := h.stored_lt p (hs.mem_iff.mp hp)
      omega
    · have := waiting_lt h p hp
      dsimp only
      omega
    · rw [hn]
      rcases List.mem_cons.mp (hw.mem_iff.mp hp) with rfl | hp
      · exact ⟨w, by simp, rfl⟩
      · obtain ⟨v, hv, he⟩ := h.waiting_want p hp
        exact ⟨v, List.mem_append_left _ hv, he⟩
    · rw [hn] at hv
      rcases List.mem_append.mp hv with hv | hv
      · have := h.wants_lt v hv
        omega
      · rw [List.mem_singleton.mp hv]
        omega
  | matched a i cb answered hk hs hw hh hn hx =>
    obtain ⟨h1, h2, h3⟩ := h.leave hs hx fun id hid => by
      rw [hh]
      exact setCell_of_ne _ hid _
    obtain ⟨hne, hnd⟩ := nodup_perm_cons h.waiting_nodup hw
    refine ⟨h1, h2, h3, hnd, fun p hp => ?_, fun v hv => ?_⟩
    · -- only the want of the callback that was called is gone
      obtain ⟨v, hv, he⟩ := h.waiting_want p (hw.mem_iff.mpr (List.mem_cons_of_mem _ hp))
      have hv' : v ∈ managerQueueWantFree cb.arg s.net.wants :=
        List.mem_filter.mpr ⟨hv, bne_iff_ne.mpr (he ▸ hne p hp)⟩
      obtain ⟨v', hm, hev⟩ := eased_mem' hn.wants hv'
      exact ⟨v', hm, hev.id.trans he⟩
    · obtain ⟨v₀, hm, he⟩ := eased_mem hn.wants hv
      rw [he.id]
      exact Nat.lt_of_lt_of_le (h.wants_lt v₀ (List.mem_filter.mp hm).1) hx

/-- Every sequence of acts keeps the invariant. -/
theorem Acts.keeps {ls : List Label} (h : Acts s ls s') (hi : Inv s) : Inv s' :=
  h.inv (fun _ _ _ hi ha => hi.act ha) hi

end DQ.Proof.Server
