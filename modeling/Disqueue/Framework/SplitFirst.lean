import Mathlib.Data.List.Basic
import Mathlib.Data.List.Forall2

/-!
# The first element of a list that satisfies a test

`splitFirst p l` is a list traversal that stops at the first element
satisfying `p` and removes it: the elements before it, the element and the
elements after it.
-/

namespace DQ

variable {α : Type} {p : α → Bool}

/-- The list split at its first element that satisfies `p`. -/
def splitFirst (p : α → Bool) : List α → Option (List α × α × List α)
  | [] => none
  | x :: xs =>
    if p x then some ([], x, xs)
    else (splitFirst p xs).map fun (pre, y, post) => (x :: pre, y, post)

theorem splitFirst_eq_none {l : List α} : splitFirst p l = none ↔ ∀ x ∈ l, p x = false := by
  induction l with
  | nil => simp [splitFirst]
  | cons x xs ih =>
    simp only [splitFirst, List.mem_cons, forall_eq_or_imp]
    cases hx : p x with
    | true => simp
    | false => simpa using ih

theorem splitFirst_eq_some {l pre post : List α} {x : α} :
    splitFirst p l = some (pre, x, post) ↔
      l = pre ++ x :: post ∧ p x = true ∧ ∀ y ∈ pre, p y = false := by
  induction l generalizing pre with
  | nil => simp [splitFirst]
  | cons z zs ih =>
    simp only [splitFirst]
    cases hz : p z with
    | true =>
      simp only [ite_true, Option.some.injEq, Prod.mk.injEq]
      constructor
      · rintro ⟨rfl, rfl, rfl⟩
        simp [hz]
      · rintro ⟨hl, hx, hpre⟩
        cases pre with
        | nil => simpa [eq_comm] using hl
        | cons y ys =>
          rw [List.cons_append, List.cons.injEq] at hl
          have := hpre y List.mem_cons_self
          rw [← hl.1, hz] at this
          cases this
    | false =>
      simp only [Bool.false_eq_true, ite_false, Option.map_eq_some_iff, Prod.exists, Prod.mk.injEq]
      constructor
      · rintro ⟨pre', y, post', h, rfl, rfl, rfl⟩
        obtain ⟨rfl, hx, hpre⟩ := ih.mp h
        refine ⟨rfl, hx, ?_⟩
        simpa [hz] using hpre
      · rintro ⟨hl, hx, hpre⟩
        cases pre with
        | nil =>
          rw [List.nil_append, List.cons.injEq] at hl
          rw [← hl.1, hz] at hx
          cases hx
        | cons y ys =>
          rw [List.cons_append, List.cons.injEq] at hl
          obtain ⟨rfl, rfl⟩ := hl
          exact ⟨ys, x, post, ih.mpr ⟨rfl, hx, fun w hw => hpre w (List.mem_cons_of_mem _ hw)⟩,
            rfl, rfl, rfl⟩

theorem splitFirst_find (p : α → Bool) (l : List α) :
    (splitFirst p l).map (·.2.1) = l.find? p := by
  induction l with
  | nil => rfl
  | cons x xs ih =>
    simp only [splitFirst, List.find?_cons]
    cases p x with
    | true => rfl
    | false => simp only [Bool.false_eq_true, if_false, ← ih, Option.map_map]; rfl

/-- What the traversal looks at. -/
theorem splitFirst_looked {l pre post : List α} {x : α} (h : splitFirst p l = some (pre, x, post)) :
    pre ++ [x] <+: l :=
  ⟨post, by rw [(splitFirst_eq_some.mp h).1, List.append_assoc]; rfl⟩

theorem splitFirst_map {β : Type} (p : α → Bool) (f : β → α) (l : List β) :
    splitFirst p (l.map f) =
      (splitFirst (p ∘ f) l).map fun t => (t.1.map f, f t.2.1, t.2.2.map f) := by
  induction l with
  | nil => rfl
  | cons x xs ih =>
    simp only [List.map_cons, splitFirst, Function.comp_apply, ih]
    split
    · rfl
    · cases splitFirst (p ∘ f) xs <;> rfl

theorem splitFirst_congr {q : α → Bool} {l : List α} (h : ∀ x ∈ l, p x = q x) :
    splitFirst p l = splitFirst q l := by
  induction l with
  | nil => rfl
  | cons x xs ih =>
    rw [splitFirst, splitFirst, h x List.mem_cons_self, ih fun y hy => h y (List.mem_cons_of_mem _ hy)]

/-- Lists whose elements are related, by tests that agree on related elements,
are split at related elements. -/
theorem splitFirst_rel {β : Type} {q : β → Bool} {R : α → β → Prop} {l : List α} {m : List β}
    (h : List.Forall₂ R l m) (hp : ∀ x y, R x y → p x = q y) :
    (splitFirst p l = none ∧ splitFirst q m = none) ∨
      ∃ pre x post pre' y post', splitFirst p l = some (pre, x, post) ∧
        splitFirst q m = some (pre', y, post') ∧
        List.Forall₂ R pre pre' ∧ R x y ∧ List.Forall₂ R post post' := by
  induction h with
  | nil => exact .inl ⟨rfl, rfl⟩
  | @cons x y xs ys hxy hl ih =>
    simp only [splitFirst, ← hp x y hxy]
    cases p x with
    | true => exact .inr ⟨[], x, xs, [], y, ys, rfl, rfl, .nil, hxy, hl⟩
    | false =>
      rcases ih with ⟨hn, hn'⟩ | ⟨pre, z, post, pre', w, post', hs, hs', hpre, hzw, hpost⟩
      · exact .inl ⟨by simp [hn], by simp [hn']⟩
      · refine .inr ⟨x :: pre, z, post, y :: pre', w, post', ?_, ?_, .cons hxy hpre, hzw, hpost⟩
        · simp [hs]
        · simp [hs']

end DQ
