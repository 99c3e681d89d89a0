import Mathlib.Data.List.TakeWhile

/-!
# Tokens of a list

`strtok` skips delimiters, and then takes what is before the next one; the next
call continues after that. Called until it finds no token, it finds the parts of
the list that are not empty, in order (`parts_of_strtok_some`).
-/

namespace DQ

variable {α : Type} (delim : α → Bool)

/-- The first token, and what is left after the delimiter that ends it. -/
def strtok (s : List α) : Option (List α × List α) :=
  match s.dropWhile delim with
  | [] => none
  | c :: cs => some (c :: cs.takeWhile (!delim ·), (cs.dropWhile (!delim ·)).tail)

/-- The parts between the delimiters that are not empty. -/
def parts (s : List α) : List (List α) := (s.splitOnP delim).filter (!List.isEmpty ·)

variable {delim} {s token rest : List α} {c : α}

theorem strtok_delim (hc : delim c = true) : strtok delim (c :: s) = strtok delim s := by
  rw [strtok, List.dropWhile_cons_of_pos hc]
  rfl

theorem strtok_cons (hc : delim c = false) :
    strtok delim (c :: s) = some (c :: s.takeWhile (!delim ·), (s.dropWhile (!delim ·)).tail) := by
  rw [strtok, List.dropWhile_cons_of_neg (by simp [hc])]

/-- What is left gets shorter, so that the calls come to an end. -/
theorem strtok_length (h : strtok delim s = some (token, rest)) : rest.length < s.length := by
  induction s with
  | nil => cases h
  | cons c s ih =>
    rw [List.length_cons]
    cases hc : delim c with
    | true =>
      rw [strtok_delim hc] at h
      have := ih h
      omega
    | false =>
      rw [strtok_cons hc, Option.some.injEq, Prod.mk.injEq] at h
      rw [← h.2, List.length_tail]
      have := (List.dropWhile_sublist (l := s) (!delim ·)).length_le
      omega

@[simp] theorem parts_nil : parts delim [] = [] := rfl

theorem parts_delim (hc : delim c = true) : parts delim (c :: s) = parts delim s := by
  rw [parts, List.splitOnP_cons_eq_if_modifyHead, if_pos hc]
  rfl

/-- The part that a list begins with, and those after its delimiter. -/
theorem parts_cons (hc : delim c = false) :
    parts delim (c :: s) =
      (c :: s.takeWhile (!delim ·)) :: parts delim (s.dropWhile (!delim ·)).tail := by
  have hs := List.takeWhile_append_dropWhile (p := (!delim ·)) (l := s)
  have hbefore : ∀ x ∈ c :: s.takeWhile (!delim ·), delim x = false := by
    intro x hx
    rcases List.mem_cons.mp hx with rfl | hx
    · exact hc
    · simpa using List.mem_takeWhile_imp hx
  cases hrest : s.dropWhile (!delim ·) with
  | nil =>
    rw [hrest, List.append_nil] at hs
    rw [hs] at hbefore ⊢
    rw [parts, List.splitOnP_eq_singleton hbefore]
    rfl
  | cons d rest =>
    have hd : delim d = true := by
      have := List.head_dropWhile_not (!delim ·) (l := s) (by simp [hrest])
      simpa [hrest] using this
    have hsplit : c :: s = (c :: s.takeWhile (!delim ·)) ++ d :: rest := by
      rw [List.cons_append, ← hrest, hs]
    rw [parts, hsplit, List.splitOnP_append_cons_of_forall_mem hbefore d hd]
    rfl

theorem parts_of_strtok_none (h : strtok delim s = none) : parts delim s = [] := by
  induction s with
  | nil => rfl
  | cons c s ih =>
    cases hc : delim c with
    | true => exact (parts_delim hc).trans (ih (strtok_delim hc ▸ h))
    | false => rw [strtok_cons hc] at h; cases h

/-- One call takes the first part. -/
theorem parts_of_strtok_some (h : strtok delim s = some (token, rest)) :
    parts delim s = token :: parts delim rest := by
  induction s with
  | nil => cases h
  | cons c s ih =>
    cases hc : delim c with
    | true => exact (parts_delim hc).trans (ih (strtok_delim hc ▸ h))
    | false =>
      rw [strtok_cons hc, Option.some.injEq, Prod.mk.injEq] at h
      rw [parts_cons hc, h.1, h.2]

end DQ
