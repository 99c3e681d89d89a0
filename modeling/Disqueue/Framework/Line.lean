import Mathlib.Data.List.Nodup

/-!
# Lines: who joined, who is in it and who has left

A line is kept with its history: everyone who joined, in order, those still in
it and those who left, in the order in which they left. `Line.Fifo` is the
invariant from which order follows: of two members that are alike, the one who
joined first leaves first. It holds of the empty line (`Line.fifo_empty`), and
the three ways a line changes keep it: joining at the end (`Line.Fifo.join`),
leaving from anywhere with nobody alike in front (`Line.Fifo.depart`), and
joining and leaving at once with nobody alike in the line (`Line.Fifo.pass`).
-/

namespace DQ

variable {τ : Type}

/-- A line with its history. -/
structure Line (τ : Type) where
  joined : List τ
  present : List τ
  gone : List τ

namespace Line

/-- `x` left before `y` did, if `y` left. -/
def LeavesBefore (l : Line τ) (x y : τ) : Prop :=
  ∀ pre post, l.gone = pre ++ y :: post → x ∈ pre

/-- The invariant of a line in which like members leave in the order they
joined. -/
structure Fifo (alike : τ → τ → Prop) (l : Line τ) : Prop where
  nodup : l.joined.Nodup
  present_sub : l.present.Sublist l.joined
  gone_joined : ∀ x ∈ l.gone, x ∈ l.joined
  accounted : ∀ x ∈ l.joined, x ∈ l.present ∨ x ∈ l.gone
  apart : ∀ x ∈ l.present, x ∉ l.gone
  ordered : ∀ x y, [x, y].Sublist l.joined → alike x y → l.LeavesBefore x y

theorem fifo_empty (alike : τ → τ → Prop) : Fifo alike (⟨[], [], []⟩ : Line τ) :=
  ⟨List.nodup_nil, .slnil, by simp, by simp, by simp, fun x y h => by simp at h⟩

/-- A pair in a list with one more element at the end. -/
theorem pair_sublist_concat {l : List τ} {a b x : τ} (h : [a, b].Sublist (l ++ [x])) :
    [a, b].Sublist l ∨ (a ∈ l ∧ b = x) := by
  obtain ⟨l₁, l₂, he, h₁, h₂⟩ := List.sublist_append_iff.mp h
  match l₁, he with
  | [], he =>
    rw [List.nil_append] at he
    simpa [← he] using h₂.length_le
  | [c], he =>
    obtain ⟨rfl, rfl⟩ : a = c ∧ l₂ = [b] := by simpa [eq_comm] using he
    exact .inr ⟨List.singleton_sublist.mp h₁, by simpa using h₂⟩
  | c :: d :: l₃, he =>
    obtain ⟨rfl, rfl, rfl, rfl⟩ : a = c ∧ b = d ∧ l₃ = [] ∧ l₂ = [] := by simpa [eq_comm] using he
    exact .inl h₁

/-- Two members of a list without repetitions are in one order only. -/
theorem pair_asymm {l : List τ} {a b : τ} (hl : l.Nodup) (hab : [a, b].Sublist l) :
    ¬ [b, a].Sublist l := by
  intro hba
  induction l with
  | nil => simp at hab
  | cons z zs ih =>
    obtain ⟨hz, hzs⟩ := List.nodup_cons.mp hl
    rcases List.sublist_cons_iff.mp hab with ha | ⟨r, he, hr⟩ <;>
      rcases List.sublist_cons_iff.mp hba with hb | ⟨r', he', hr'⟩
    · exact ih hzs ha hb
    · obtain ⟨rfl, rfl⟩ := List.cons.inj he'
      exact hz (ha.subset (by simp))
    · obtain ⟨rfl, rfl⟩ := List.cons.inj he
      exact hz (hb.subset (by simp))
    · obtain ⟨rfl, rfl⟩ := List.cons.inj he
      obtain ⟨rfl, rfl⟩ := List.cons.inj he'
      exact hz (hr.subset (by simp))

/-- Splitting a list with one more element at the end. -/
theorem concat_eq_split {l pre post : List τ} {x y : τ} (h : l ++ [x] = pre ++ y :: post) :
    (y = x ∧ pre = l) ∨ ∃ post', l = pre ++ y :: post' := by
  rcases List.eq_nil_or_concat post with rfl | ⟨post', z, rfl⟩
  · obtain ⟨hl, he⟩ := List.append_inj' h rfl
    exact .inl ⟨(List.cons.inj he).1.symm, hl.symm⟩
  · rw [List.concat_eq_append, ← List.cons_append, ← List.append_assoc] at h
    exact .inr ⟨post', (List.append_inj' h rfl).1⟩

variable {alike : τ → τ → Prop} {l : Line τ}

/-- Joining at the end. -/
theorem Fifo.join (h : Fifo alike l) {x : τ} (hx : x ∉ l.joined) :
    Fifo alike ⟨l.joined ++ [x], l.present ++ [x], l.gone⟩ where
  nodup := h.nodup.append (List.nodup_singleton x) (by simpa using hx)
  present_sub := h.present_sub.append_right [x]
  gone_joined y hy := List.mem_append_left _ (h.gone_joined y hy)
  accounted y hy := by
    rcases List.mem_append.mp hy with hy | hy
    · exact (h.accounted y hy).imp (List.mem_append_left _) id
    · exact .inl (List.mem_append_right _ hy)
  apart y hy hg := by
    rcases List.mem_append.mp hy with hy | hy
    · exact h.apart y hy hg
    · exact hx (List.mem_singleton.mp hy ▸ h.gone_joined y hg)
  ordered a b hab hal pre post hg := by
    rcases pair_sublist_concat hab with hab | ⟨-, rfl⟩
    · exact h.ordered a b hab hal pre post hg
    · have : b ∈ l.gone := hg ▸ List.mem_append_right _ List.mem_cons_self
      exact absurd (h.gone_joined b this) hx

/-- Leaving, with nobody alike in front. -/
theorem Fifo.depart {joined pre post gone : List τ} {x : τ}
    (h : Fifo alike ⟨joined, pre ++ x :: post, gone⟩) (hx : ∀ y ∈ pre, ¬ alike y x) :
    Fifo alike ⟨joined, pre ++ post, gone ++ [x]⟩ := by
  have hn := h.nodup.sublist h.present_sub
  obtain ⟨-, hxp, hd⟩ := List.nodup_append.mp hn
  have hxr : ∀ y, y ∈ pre ++ post → y ≠ x := by
    intro y hy
    rcases List.mem_append.mp hy with hy | hy
    · exact hd y hy x List.mem_cons_self
    · exact fun e => (List.nodup_cons.mp hxp).1 (e ▸ hy)
  have hxj : x ∈ joined := h.present_sub.subset (by simp)
  refine ⟨h.nodup, ?_, ?_, ?_, ?_, ?_⟩
  · exact ((List.Sublist.refl pre).append (List.sublist_cons_self x post)).trans h.present_sub
  · intro y hy
    rcases List.mem_append.mp hy with hy | hy
    · exact h.gone_joined y hy
    · exact List.mem_singleton.mp hy ▸ hxj
  · intro y hy
    rcases h.accounted y hy with hy | hy
    · simp only [List.mem_append, List.mem_cons] at hy
      rcases hy with hy | rfl | hy
      · exact .inl (List.mem_append_left _ hy)
      · exact .inr (List.mem_append_right _ (List.mem_singleton_self _))
      · exact .inl (List.mem_append_right _ hy)
    · exact .inr (List.mem_append_left _ hy)
  · intro y hy hg
    rcases List.mem_append.mp hg with hg | hg
    · refine h.apart y ?_ hg
      rcases List.mem_append.mp hy with hy | hy
      · exact List.mem_append_left _ hy
      · exact List.mem_append_right _ (List.mem_cons_of_mem _ hy)
    · exact hxr y hy (List.mem_singleton.mp hg)
  · intro a b hab hal p q hg
    rcases concat_eq_split hg with ⟨rfl, rfl⟩ | ⟨q', hg⟩
    · -- `b` leaves now, and `a` joined before it: `a` is not in front of `b`
      rcases h.accounted a (hab.subset (by simp)) with ha | ha
      · simp only [List.mem_append, List.mem_cons] at ha
        rcases ha with ha | rfl | ha
        · exact absurd hal (hx a ha)
        · exact absurd (h.nodup.sublist hab) (by simp)
        · have hba : [b, a].Sublist (pre ++ b :: post) :=
            ((List.singleton_sublist.mpr ha).cons_cons b).trans (List.sublist_append_right pre _)
          exact absurd (hba.trans h.present_sub) (pair_asymm h.nodup hab)
      · exact ha
    · exact h.ordered a b hab hal p q' hg

/-- Joining and leaving at once, with nobody alike in the line. -/
theorem Fifo.pass (h : Fifo alike l) {x : τ} (hx : x ∉ l.joined)
    (ha : ∀ y ∈ l.present, ¬ alike y x) :
    Fifo alike ⟨l.joined ++ [x], l.present, l.gone ++ [x]⟩ := by
  have hgone : Fifo alike ⟨l.joined ++ [x], l.present ++ [], l.gone ++ [x]⟩ :=
    (h.join hx).depart ha
  rwa [List.append_nil] at hgone

end Line

end DQ
