import Mathlib.Data.List.DropRight
import Disqueue.Framework.CStr

/-!
# Scans of strings

At an index of a string there is one of its characters, or its terminator, and
before and after them nothing is (`readAt`). A computation that reads strings
(`Scan`) is done, has read outside of one, or runs out of fuel. Two loops are
read here: `skip` goes forward over the characters of a class, and ends inside
the string exactly if another character is left (`skip_done_iff`), if the
terminator is of the class. `back` goes back over them, and always stays inside
(`back_eq`).
-/

namespace DQ

/-- What a computation that reads strings comes to. -/
inductive Scan (α : Type)
  | done (a : α)
  | outside
  | running
deriving DecidableEq

namespace Scan

variable {α β : Type}

instance : Monad Scan where
  pure := done
  bind x f :=
    match x with
    | done a => f a
    | outside => outside
    | running => running

@[simp] theorem pure_eq (a : α) : (pure a : Scan α) = done a := rfl

@[simp] theorem done_bind (a : α) (f : α → Scan β) : done a >>= f = f a := rfl

theorem bind_eq_done {x : Scan α} {f : α → Scan β} {b : β} :
    x >>= f = done b ↔ ∃ a, x = done a ∧ f a = done b := by
  cases x with
  | done a => simp
  | outside => exact ⟨(nomatch ·), fun ⟨_, h, _⟩ => nomatch h⟩
  | running => exact ⟨(nomatch ·), fun ⟨_, h, _⟩ => nomatch h⟩

end Scan

/-- The character at an index of a string. -/
def readAt (s : CStr) (i : Int) : Scan Char :=
  if 0 ≤ i ∧ i ≤ s.length then .done (s[i.toNat]?.getD '\x00') else .outside

/-- Writing at an index of a buffer. -/
def writeAt (size : Nat) (i : Int) : Scan Unit :=
  if 0 ≤ i ∧ i < size then .done () else .outside

variable (p : Char → Bool) (s : CStr)

/-- `while (p(s[i])) i++`. -/
def skip : Nat → Nat → Scan Nat
  | 0, _ => .running
  | fuel + 1, i => do
    let c ← readAt s i
    if p c then skip fuel (i + 1) else return i

/-- `while (n > 0 && p(s[n - 1])) n--`. -/
def back : Nat → Scan Nat
  | 0 => return 0
  | n + 1 => do
    let c ← readAt s n
    if p c then back n else return n + 1

variable {p s}

theorem readAt_char {i : Nat} (h : i < s.length) : readAt s i = .done s[i] := by
  rw [readAt, if_pos ⟨by omega, by omega⟩, Int.toNat_natCast, List.getElem?_eq_getElem h,
    Option.getD_some]

theorem readAt_end : readAt s s.length = .done '\x00' := by
  rw [readAt, if_pos ⟨by omega, by omega⟩, Int.toNat_natCast,
    List.getElem?_eq_none (Nat.le_refl _), Option.getD_none]

theorem readAt_past {i : Int} (h : s.length < i) : readAt s i = .outside :=
  if_neg fun hi => by omega

/-! ## Forward -/

theorem skip_past {fuel i j : Nat} (h : s.length < i) : skip p s fuel i ≠ .done j := by
  cases fuel with
  | zero => exact (nomatch ·)
  | succ fuel =>
    rw [skip, readAt_past (by omega)]
    exact (nomatch ·)

/-- A skip ends at the first character of another class. -/
theorem skip_spec (h0 : p '\x00' = true) {fuel i j : Nat} (hi : i ≤ s.length)
    (h : skip p s fuel i = .done j) :
    (∃ c ∈ s.drop i, p c = false) ∧ s.drop j = (s.drop i).dropWhile p := by
  induction fuel generalizing i with
  | zero => cases h
  | succ fuel ih =>
    rw [skip] at h
    rcases Nat.lt_or_eq_of_le hi with hlt | rfl
    · rw [readAt_char hlt, Scan.done_bind] at h
      rw [List.drop_eq_getElem_cons hlt]
      split at h
      · rename_i hp
        obtain ⟨⟨c, hc, hpc⟩, hdrop⟩ := ih hlt h
        exact ⟨⟨c, List.mem_cons_of_mem _ hc, hpc⟩, by rw [hdrop, List.dropWhile_cons_of_pos hp]⟩
      · rename_i hp
        cases h
        refine ⟨⟨_, List.mem_cons_self, Bool.eq_false_iff.mpr hp⟩, ?_⟩
        rw [List.dropWhile_cons_of_neg hp, List.drop_eq_getElem_cons hlt]
    · -- the terminator is skipped
      rw [readAt_end, Scan.done_bind, if_pos h0] at h
      exact absurd h (skip_past (Nat.lt_succ_self _))

/-- A skip that finds a character of another class ends. -/
theorem skip_done {fuel i : Nat} (hf : (s.drop i).length < fuel) (h : ∃ c ∈ s.drop i, p c = false) :
    ∃ j, skip p s fuel i = .done j := by
  induction fuel generalizing i with
  | zero => omega
  | succ fuel ih =>
    have hlt : i < s.length := by
      by_contra hge
      rw [List.drop_eq_nil_of_le (by omega)] at h
      obtain ⟨c, hc, -⟩ := h
      cases hc
    rw [List.drop_eq_getElem_cons hlt] at h hf
    rw [skip, readAt_char hlt, Scan.done_bind]
    split
    · rename_i hp
      refine ih (Nat.lt_of_succ_lt_succ hf) ?_
      obtain ⟨c, hc, hpc⟩ := h
      rcases List.mem_cons.mp hc with rfl | hc
      · rw [hp] at hpc
        cases hpc
      · exact ⟨c, hc, hpc⟩
    · exact ⟨i, rfl⟩

/-- A skip over the class of the terminator stays in the string exactly if a
character of another class is left. -/
theorem skip_done_iff (h0 : p '\x00' = true) {i : Nat} (hi : i ≤ s.length) :
    (∃ fuel j, skip p s fuel i = .done j) ↔ ∃ c ∈ s.drop i, p c = false :=
  ⟨fun ⟨_, _, h⟩ => (skip_spec h0 hi h).1, fun h => ⟨_, skip_done (Nat.lt_succ_self _) h⟩⟩

/-! ## Back -/

/-- A loop back stays in the string, and trims it. -/
theorem back_eq {n : Nat} (h : n ≤ s.length) :
    back p s n = .done ((s.take n).rdropWhile p).length := by
  induction n with
  | zero => rfl
  | succ n ih =>
    rw [back, readAt_char (by omega), Scan.done_bind, List.take_add_one,
      List.getElem?_eq_getElem (by omega), Option.toList_some, List.rdropWhile_concat]
    split
    · exact ih (by omega)
    · rw [Scan.pure_eq, List.length_append, List.length_take, Nat.min_eq_left (by omega)]
      rfl

end DQ
