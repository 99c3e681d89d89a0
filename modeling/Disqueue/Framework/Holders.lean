import Mathlib.Algebra.BigOperators.Group.Finset.Basic

/-!
# How many hold a thing

`holders f x` is how many of finitely many parties have the value `x`, when
`f` gives each party's value. `holders_update` says what it becomes when one
party changes its value; the lemmas after it are its cases.
-/

namespace DQ

variable {ι κ : Type} [Fintype ι] [DecidableEq κ]

/-- The number of parties whose value is `x`. -/
def holders (f : ι → κ) (x : κ) : Nat := ∑ c, if f c = x then 1 else 0

variable {f : ι → κ} {x : κ}

theorem holders_eq_zero : holders f x = 0 ↔ ∀ c, f c ≠ x := by
  simp [holders]

theorem holders_pos {c : ι} (h : f c = x) : 0 < holders f x :=
  Nat.pos_of_ne_zero fun h0 => holders_eq_zero.mp h0 c h

theorem holders_congr {g : ι → κ} (h : ∀ c, g c = x ↔ f c = x) : holders g x = holders f x := by
  simp only [holders, h]

variable [DecidableEq ι]

theorem holders_update (f : ι → κ) (c : ι) (v x : κ) :
    holders (Function.update f c v) x + (if f c = x then 1 else 0) =
      holders f x + (if v = x then 1 else 0) := by
  have hrest : ∑ d ∈ Finset.univ.erase c, (if Function.update f c v d = x then 1 else 0) =
      ∑ d ∈ Finset.univ.erase c, if f d = x then 1 else 0 :=
    Finset.sum_congr rfl fun d hd => by rw [Function.update_of_ne (Finset.ne_of_mem_erase hd)]
  unfold holders
  rw [← Finset.sum_erase_add _ _ (Finset.mem_univ c), ← Finset.sum_erase_add _ (fun d =>
    if f d = x then 1 else 0) (Finset.mem_univ c), hrest, Function.update_self]
  omega

/-- A party that has another value before and after does not count. -/
theorem holders_other {c : ι} {v : κ} (h : f c ≠ x) (hv : v ≠ x) :
    holders (Function.update f c v) x = holders f x := by
  simpa [h, hv] using holders_update f c v x

/-- A party gets the value. -/
theorem holders_gain {c : ι} (h : f c ≠ x) :
    holders (Function.update f c x) x = holders f x + 1 := by
  simpa [h] using holders_update f c x x

/-- A party gives up the value. -/
theorem holders_drop {c : ι} {v : κ} (h : f c = x) (hv : v ≠ x) :
    holders (Function.update f c v) x + 1 = holders f x := by
  simpa [h, hv] using holders_update f c v x

end DQ
