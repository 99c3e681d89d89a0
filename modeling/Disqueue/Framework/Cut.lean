import Mathlib.Data.List.DropRight
import Disqueue.Framework.CStr

/-!
# Cutting texts

A text is cut at a delimiter: at its first occurrence (`cut`), or after its last
one (`afterLast`); or a part is taken up to the first of several delimiters. Of
parts joined by a delimiter that they do not have, these find the parts again.
-/

namespace DQ

variable {s t : CStr} {c : Char}

/-- What is before the first such character, and after it. -/
def cut (c : Char) (s : CStr) : CStr × CStr :=
  (s.takeWhile (· != c), (s.dropWhile (· != c)).tail)

/-- What is after the last such character, or everything. -/
def afterLast (c : Char) (s : CStr) : CStr := s.rtakeWhile (· != c)

theorem ne_of_not_mem (h : c ∉ s) : ∀ d ∈ s, (d != c) = true :=
  fun _ hd => bne_iff_ne.mpr fun he => h (he ▸ hd)

theorem cut_append_cons (h : c ∉ s) : cut c (s ++ c :: t) = (s, t) := by
  rw [cut, List.takeWhile_append_of_pos (ne_of_not_mem h),
    List.dropWhile_append_of_pos (ne_of_not_mem h), List.takeWhile_cons_of_neg (by simp),
    List.dropWhile_cons_of_neg (by simp), List.append_nil]
  rfl

theorem cut_of_not_mem (h : c ∉ s) : cut c s = (s, []) := by
  rw [cut, List.takeWhile_eq_self_iff.mpr (ne_of_not_mem h),
    List.dropWhile_eq_nil_iff.mpr (ne_of_not_mem h)]
  rfl

theorem afterLast_of_not_mem (h : c ∉ s) : afterLast c s = s :=
  List.rtakeWhile_eq_self_iff.mpr (ne_of_not_mem h)

theorem afterLast_append_cons (h : c ∉ t) : afterLast c (s ++ c :: t) = t := by
  have hrev : ∀ d ∈ t.reverse, (d != c) = true :=
    fun d hd => ne_of_not_mem h d (List.mem_reverse.mp hd)
  rw [afterLast, List.rtakeWhile, List.reverse_append, List.reverse_cons, List.append_assoc,
    List.takeWhile_append_of_pos hrev]
  simp

/-- The part up to the first delimiter, where what follows starts with one. -/
theorem takeWhile_until {p : Char → Bool} (hs : ∀ d ∈ s, p d = true)
    (ht : ∀ d, t.head? = some d → p d = false) : (s ++ t).takeWhile p = s := by
  rw [List.takeWhile_append_of_pos hs]
  cases t with
  | nil => rw [List.takeWhile_nil, List.append_nil]
  | cons d t => rw [List.takeWhile_cons_of_neg (by simp [ht d rfl]), List.append_nil]

end DQ
