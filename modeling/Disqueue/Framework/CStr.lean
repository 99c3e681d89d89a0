import Mathlib.Data.List.Basic

/-!
# C strings

A C string is the list of its characters, without the terminator. `strcaseEq`
is the test `!strcasecmp(a, b)` in the C locale: equality after folding the
ASCII letters. It is an equivalence.
-/

namespace DQ

/-- A NUL-terminated string, without its terminator. -/
abbrev CStr := List Char

/-- The string with its ASCII letters in lower case. -/
def fold (a : CStr) : CStr := a.map Char.toLower

/-- `!strcasecmp(a, b)`. -/
def strcaseEq (a b : CStr) : Bool := fold a == fold b

theorem strcaseEq_iff {a b : CStr} : strcaseEq a b = true ↔ fold a = fold b := beq_iff_eq

@[simp] theorem strcaseEq_refl (a : CStr) : strcaseEq a a = true := strcaseEq_iff.mpr rfl

theorem strcaseEq_comm (a b : CStr) : strcaseEq a b = strcaseEq b a := by
  rw [Bool.eq_iff_iff, strcaseEq_iff, strcaseEq_iff, eq_comm]

/-- Equal strings are told apart from the same strings. -/
theorem strcaseEq_congr {a b : CStr} (h : strcaseEq a b = true) (c : CStr) :
    strcaseEq c a = strcaseEq c b := by
  rw [Bool.eq_iff_iff, strcaseEq_iff, strcaseEq_iff, strcaseEq_iff.mp h]

/-- A character that is no letter is that of no other in lower case. -/
theorem eq_of_toLower_eq {c d : Char} (h : c.toLower = d) (hd : d.val.toNat < 97) : c = d := by
  unfold Char.toLower at h
  split at h
  · rename_i hupper
    have hlo : 65 ≤ c.val.toNat := UInt32.le_iff_toNat_le.mp hupper.1
    have hhi : c.val.toNat ≤ 90 := UInt32.le_iff_toNat_le.mp hupper.2
    have hadd : (c.val.toNat + 32) % 4294967296 = d.val.toNat :=
      congrArg (fun c => c.val.toNat) h
    omega
  · exact h

/-- Equal strings both have a character that is no letter, or neither. -/
theorem not_mem_of_strcaseEq {a b : CStr} (h : strcaseEq a b = true) {d : Char}
    (hd : d.val.toNat < 97) (hb : d ∉ b) (hfold : d.toLower = d) : d ∉ a := by
  intro ha
  have hm : d ∈ fold b := strcaseEq_iff.mp h ▸ List.mem_map.mpr ⟨d, ha, hfold⟩
  obtain ⟨c, hc, hcd⟩ := List.mem_map.mp hm
  exact hb (eq_of_toLower_eq hcd hd ▸ hc)

end DQ
