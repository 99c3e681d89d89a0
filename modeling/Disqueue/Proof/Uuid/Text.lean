import Mathlib.Data.List.Induction
import Mathlib.Tactic.IntervalCases
import Disqueue.Spec.Names

/-!
# Hexadecimal text

Scanning a group of hexadecimal digits with a conversion of its width takes
the group and gives its value (`scanHex_group`); printing the value at that
width gives the group in lower case (`printHex_value`).
-/

namespace DQ.Proof.Uuid

open DQ.Model DQ.Spec

/-- The hexadecimal digits. -/
def hexChars : List Char :=
  ['0', '1', '2', '3', '4', '5', '6', '7', '8', '9', 'a', 'b', 'c', 'd', 'e', 'f', 'A', 'B', 'C',
    'D', 'E', 'F']

theorem char_ofNat_toNat (c : Char) : Char.ofNat c.toNat = c := Char.ofNat_toNat c

/-- A character with a value is one of the digits. -/
theorem mem_hexChars {c : Char} (h : (hexVal c).isSome) : c ∈ hexChars := by
  rw [← char_ofNat_toNat c]
  unfold hexVal at h
  split at h
  · rename_i hr
    have h1 : 48 ≤ c.toNat := hr.1
    have h2 : c.toNat ≤ 57 := hr.2
    interval_cases c.toNat <;> decide
  · split at h
    · rename_i hr
      have h1 : 97 ≤ c.toNat := hr.1
      have h2 : c.toNat ≤ 102 := hr.2
      interval_cases c.toNat <;> decide
    · split at h
      · rename_i hr
        have h1 : 65 ≤ c.toNat := hr.1
        have h2 : c.toNat ≤ 70 := hr.2
        interval_cases c.toNat <;> decide
      · cases h

/-- What scanning and printing need to know of a digit. -/
theorem hexChars_facts : ∀ c ∈ hexChars, (hexVal c).getD 0 < 16 ∧
    hexDigit ((hexVal c).getD 0) = c.toLower ∧ isSpace c = false ∧
    c ≠ '-' ∧ c ≠ '+' ∧ c ≠ 'x' ∧ c ≠ 'X' := by
  have hall : hexChars.all fun c => decide ((hexVal c).getD 0 < 16 ∧
      hexDigit ((hexVal c).getD 0) = c.toLower ∧ isSpace c = false ∧
      c ≠ '-' ∧ c ≠ '+' ∧ c ≠ 'x' ∧ c ≠ 'X') := by decide +kernel
  exact fun c hc => of_decide_eq_true (List.all_eq_true.mp hall c hc)

/-- The digits that are printed. -/
theorem hexDigit_facts : ∀ d < 16, (hexVal (hexDigit d)).isSome ∧
    (hexDigit d).toLower = hexDigit d := by
  decide

/-- A character is in lower case, or an upper case letter. -/
theorem toLower_cases (c : Char) : c.toLower = c ∨ ∃ k < 26, c = Char.ofNat (65 + k) := by
  by_cases hr : 65 ≤ c.toNat ∧ c.toNat ≤ 90
  · refine .inr ⟨c.toNat - 65, by omega, ?_⟩
    rw [show 65 + (c.toNat - 65) = c.toNat by omega, char_ofNat_toNat]
  · apply Or.inl
    unfold Char.toLower
    exact dif_neg hr

/-- Only digits are digits in lower case. -/
theorem hexVal_of_toLower {c : Char} (h : (hexVal c.toLower).isSome) : (hexVal c).isSome := by
  have upper : ∀ k < 26, (hexVal (Char.ofNat (65 + k)).toLower).isSome →
      (hexVal (Char.ofNat (65 + k))).isSome := by decide
  rcases toLower_cases c with hc | ⟨k, hk, rfl⟩
  · rwa [hc] at h
  · exact upper k hk h

theorem isHex_of_fold {a : CStr} (h : IsHex (fold a)) : IsHex a :=
  fun _ hc => hexVal_of_toLower (h _ (List.mem_map_of_mem hc))

/-- A string of hyphens and zeros is folded from itself only. -/
theorem eq_of_fold {a z : CStr} (hz : z.all fun c => c == '-' || c == '0') (h : fold a = z) :
    a = z := by
  have upper : ∀ k < 26, (Char.ofNat (65 + k)).toLower ≠ '-' ∧
      (Char.ofNat (65 + k)).toLower ≠ '0' := by decide
  have hlower : ∀ c ∈ a, c.toLower = c := by
    intro c hc
    have hm : c.toLower ∈ z := h ▸ List.mem_map_of_mem hc
    rcases toLower_cases c with hc | ⟨k, hk, rfl⟩
    · exact hc
    · have hmark := List.all_eq_true.mp hz _ hm
      rw [Bool.or_eq_true, beq_iff_eq, beq_iff_eq] at hmark
      rcases hmark with h' | h'
      · exact absurd h' (upper k hk).1
      · exact absurd h' (upper k hk).2
  rw [← h]
  exact ((List.map_congr_left hlower).trans (List.map_id' _)).symm

/-- The value of a string of digits, after digits of value `acc`. -/
def hexValue (acc : Nat) (a : CStr) : Nat := a.foldl (fun n c => 16 * n + (hexVal c).getD 0) acc

variable {a rest : CStr}

theorem scanDigits_group (ha : IsHex a) (acc : Nat) :
    scanDigits a.length acc (a ++ rest) = (a.length, hexValue acc a, rest) := by
  induction a generalizing acc with
  | nil => simp [scanDigits, hexValue]
  | cons c a ih =>
    obtain ⟨h1, h2⟩ := List.forall_mem_cons.mp ha
    obtain ⟨d, hd⟩ := Option.isSome_iff_exists.mp h1
    simp only [List.length_cons, List.cons_append, scanDigits, hd, ih h2, hexValue, List.foldl_cons,
      Option.getD_some]

theorem scanUnsigned_group (ha : IsHex a) (hne : a ≠ []) :
    scanUnsigned a.length (a ++ rest) = some (hexValue 0 a, rest) := by
  have hplain : (if a.length = 0 then none else some (hexValue 0 a, rest)) =
      some (hexValue 0 a, rest) := if_neg (by simpa using hne)
  unfold scanUnsigned
  split
  rename_i w s hws
  obtain ⟨rfl, rfl⟩ : w = a.length ∧ s = a ++ rest := by
    split at hws
    · rename_i x s' he
      rw [if_neg] at hws
      · simp_all
      · rintro ⟨hlen, hx⟩
        match a, he with
        | [_], _ => simp at hlen
        | _ :: y :: _, he =>
          obtain ⟨-, rfl, -⟩ : _ ∧ y = x ∧ _ := by simpa using he
          have := (hexChars_facts y (mem_hexChars (ha y (by simp)))).2.2.2.2.2
          rcases hx with hx | hx
          · exact this.1 hx
          · exact this.2 hx
    · simp_all
  rw [scanDigits_group ha]
  exact hplain

/-- A conversion whose width is the group's takes the group. -/
theorem scanHex_group (ha : IsHex a) (hne : a ≠ []) :
    scanHex a.length (a ++ rest) = some ((hexValue 0 a : Int), rest) := by
  obtain ⟨c, a', rfl⟩ := List.exists_cons_of_ne_nil hne
  obtain ⟨-, -, hsp, hm, hp, -⟩ := hexChars_facts c (mem_hexChars (ha c List.mem_cons_self))
  have hdrop : ((c :: a') ++ rest).dropWhile isSpace = (c :: a') ++ rest := by
    rw [List.cons_append, List.dropWhile_cons, hsp]
    rfl
  unfold scanHex
  rw [hdrop, List.cons_append]
  split
  · rename_i he
    exact absurd (List.cons.inj he).1 hm
  · rename_i he
    exact absurd (List.cons.inj he).1 hp
  · rw [← List.cons_append, scanUnsigned_group ha hne]
    rfl

theorem hexValue_concat (acc : Nat) (a : CStr) (c : Char) :
    hexValue acc (a ++ [c]) = 16 * hexValue acc a + (hexVal c).getD 0 := by
  simp only [hexValue, List.foldl_append, List.foldl_cons, List.foldl_nil]

theorem hexValue_lt (ha : IsHex a) : hexValue 0 a < 16 ^ a.length := by
  induction a using List.reverseRecOn with
  | nil => exact Nat.one_pos
  | append_singleton a c ih =>
    have h1 := ih fun x hx => ha x (List.mem_append_left _ hx)
    have h2 := (hexChars_facts c (mem_hexChars (ha c (by simp)))).1
    rw [hexValue_concat, List.length_append, List.length_singleton, Nat.pow_succ]
    omega

/-- Printing the value of a group gives the group in lower case. -/
theorem printHex_value (ha : IsHex a) : printHex a.length (hexValue 0 a) = fold a := by
  induction a using List.reverseRecOn with
  | nil => rfl
  | append_singleton a c ih =>
    obtain ⟨h1, h2, -⟩ := hexChars_facts c (mem_hexChars (ha c (by simp)))
    rw [hexValue_concat, List.length_append, List.length_singleton, printHex,
      show (16 * hexValue 0 a + (hexVal c).getD 0) / 16 = hexValue 0 a by omega,
      show (16 * hexValue 0 a + (hexVal c).getD 0) % 16 = (hexVal c).getD 0 by omega,
      ih fun x hx => ha x (List.mem_append_left _ hx), h2]
    simp only [fold, List.map_append, List.map_cons, List.map_nil]

theorem printHex_length (w n : Nat) : (printHex w n).length = w := by
  induction w generalizing n with
  | zero => rfl
  | succ w ih => rw [printHex, List.length_append, ih, List.length_singleton]

theorem printHex_mem {w n : Nat} {c : Char} (h : c ∈ printHex w n) : ∃ d < 16, c = hexDigit d := by
  induction w generalizing n with
  | zero => cases h
  | succ w ih =>
    rw [printHex] at h
    rcases List.mem_append.mp h with h | h
    · exact ih h
    · exact ⟨n % 16, Nat.mod_lt _ (by decide), List.mem_singleton.mp h⟩

/-- What is printed is in lower case. -/
theorem fold_printHex (w n : Nat) : fold (printHex w n) = printHex w n := by
  have h : ∀ c ∈ printHex w n, c.toLower = c := by
    intro c hc
    obtain ⟨d, hd, rfl⟩ := printHex_mem hc
    exact (hexDigit_facts d hd).2
  exact (List.map_congr_left h).trans (List.map_id' _)

end DQ.Proof.Uuid
