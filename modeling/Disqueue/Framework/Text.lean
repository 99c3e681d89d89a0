import Mathlib.Data.List.DropRight
import Disqueue.Framework.CStr

/-!
# Lines of text

The lines of a text (`textLines`), and `fgets`, which reads a line in chunks
of a buffer's size. Trimming a line is removing the characters at its end that
are not graphic (`trimEnd`). A chunk can be trimmed before the rest of its
line is read only where it ends with a graphic character, or nothing graphic
follows (`trimEnd_append`): `Unbroken` says so of a line, and then it may be
trimmed chunk by chunk (`trimChunks_eq_iff`).
-/

namespace DQ

/-- `isgraph`, in the C locale. -/
def isGraph (c : Char) : Bool := 33 ≤ c.toNat && c.toNat ≤ 126

/-- The string without the characters at its end that are not graphic. -/
def trimEnd (a : CStr) : CStr := a.rdropWhile fun c => !isGraph c

/-- The lines of a text, without the newlines that end them. The last one may
have none. -/
def textLines : List Char → List CStr
  | [] => []
  | c :: s =>
    if c = '\n' then [] :: textLines s
    else
      match textLines s with
      | [] => [[c]]
      | l :: ls => (c :: l) :: ls

/-- At most `n` characters, up to and with a newline, and the rest. -/
def takeLine : Nat → List Char → List Char × List Char
  | 0, s => ([], s)
  | _, [] => ([], [])
  | n + 1, c :: s =>
    if c = '\n' then ([c], s)
    else
      let (a, b) := takeLine n s
      (c :: a, b)

/-- `fgets`, into a buffer of `size` characters: what is read, and the rest of
the file. -/
def fgets (size : Nat) (s : List Char) : Option (List Char × List Char) :=
  if s = [] then none else some (takeLine (size - 1) s)

/-- Wherever `n` characters of a line, or twice or more times as many, are
followed by a graphic one, the last of them is graphic. -/
def Unbroken (n : Nat) (l : CStr) : Prop :=
  ∀ pre c post, l = pre ++ c :: post → n ∣ (pre ++ [c]).length → (∃ g ∈ post, isGraph g = true) →
    isGraph c = true

/-- The string in chunks of `n` characters, each trimmed. -/
def trimChunks (n : Nat) (l : CStr) : CStr :=
  if _h : 0 < n ∧ n ≤ l.length then trimEnd (l.take n) ++ trimChunks n (l.drop n) else trimEnd l
termination_by l.length
decreasing_by simp only [List.length_drop]; omega

/-! ## Trimming -/

/-- What is trimmed of a string with more after it. -/
theorem trimEnd_append_nil (a : CStr) {b : CStr} (hb : trimEnd b = []) :
    trimEnd (a ++ b) = trimEnd a := by
  have hb : List.dropWhile (fun c => !isGraph c) b.reverse = [] := List.reverse_eq_nil_iff.mp hb
  rw [trimEnd, List.rdropWhile, List.reverse_append, List.dropWhile_append, hb]
  rfl

theorem trimEnd_append {a b : CStr} (hb : trimEnd b ≠ []) : trimEnd (a ++ b) = a ++ trimEnd b := by
  have hb : ¬ (List.dropWhile (fun c => !isGraph c) b.reverse).isEmpty = true :=
    fun h => hb (List.reverse_eq_nil_iff.mpr (List.isEmpty_iff.mp h))
  rw [trimEnd, List.rdropWhile, List.reverse_append, List.dropWhile_append, if_neg hb,
    List.reverse_append, List.reverse_reverse]
  rfl

theorem trimEnd_eq_nil {a : CStr} : trimEnd a = [] ↔ ∀ c ∈ a, isGraph c = false := by
  rw [trimEnd, List.rdropWhile_eq_nil_iff]
  simp

theorem trimEnd_newline (a : CStr) : trimEnd (a ++ ['\n']) = trimEnd a :=
  trimEnd_append_nil a (by decide)

/-- Trimming a chunk before the rest of its line is read. -/
theorem trimEnd_chunk {a b : CStr}
    (h : (∃ g ∈ b, isGraph g = true) → ∀ pre c, a = pre ++ [c] → isGraph c = true) :
    trimEnd a ++ trimEnd b = trimEnd (a ++ b) := by
  by_cases hb : trimEnd b = []
  · rw [trimEnd_append_nil a hb, hb, List.append_nil]
  · have hg : ∃ g ∈ b, isGraph g = true := by
      by_contra hno
      exact hb (trimEnd_eq_nil.mpr fun c hc =>
        Bool.eq_false_iff.mpr fun hc' => hno ⟨c, hc, hc'⟩)
    rw [trimEnd_append hb]
    congr 1
    refine List.rdropWhile_eq_self_iff.mpr fun hne => ?_
    rw [h hg _ _ (List.dropLast_append_getLast hne).symm]
    decide

/-! ## Chunks -/

theorem trimChunks_short {n : Nat} {l : CStr} (h : l.length < n) : trimChunks n l = trimEnd l := by
  rw [trimChunks, dif_neg (by omega)]

theorem trimChunks_chunk {n : Nat} {l : CStr} (hn : 0 < n) (h : n ≤ l.length) :
    trimChunks n l = trimEnd (l.take n) ++ trimChunks n (l.drop n) := by
  rw [trimChunks, dif_pos ⟨hn, h⟩]

theorem trimEnd_isPrefix (a : CStr) : trimEnd a <+: a := List.rdropWhile_prefix _ a

theorem length_trimEnd_le (a : CStr) : (trimEnd a).length ≤ a.length := (trimEnd_isPrefix a).length_le

/-- A line that fits the buffer is not broken. -/
theorem unbroken_short {n : Nat} {l : CStr} (h : l.length < n) : Unbroken n l := by
  rintro pre c post rfl hd -
  have := Nat.le_of_dvd (by simp) hd
  simp only [List.length_append, List.length_cons, List.length_nil] at this h
  omega

/-- A line is broken at the end of its first chunk, or in the rest. -/
theorem unbroken_chunk_iff {n : Nat} {a b : CStr} (ha : a.length = n) :
    Unbroken n (a ++ b) ↔
      ((∃ g ∈ b, isGraph g = true) → ∀ pre c, a = pre ++ [c] → isGraph c = true) ∧ Unbroken n b := by
  constructor
  · intro h
    constructor
    · rintro hg pre c rfl
      exact h pre c b (by simp) ⟨1, by rw [ha, Nat.mul_one]⟩ hg
    · rintro pre c post rfl hd hg
      refine h (a ++ pre) c post (by simp) ?_ hg
      rw [List.append_assoc, List.length_append, ha]
      exact Nat.dvd_add (Nat.dvd_refl n) hd
  · rintro ⟨hfirst, hrest⟩ pre c post hl hd hg
    rcases List.append_eq_append_iff.mp hl with ⟨m, rfl, hb⟩ | ⟨m, rfl, hm⟩
    · rw [List.append_assoc, List.length_append, ha, Nat.dvd_add_right (Nat.dvd_refl n)] at hd
      exact hrest m c post hb hd hg
    · cases m with
      | nil =>
        rw [List.nil_append] at hm
        rw [List.append_nil] at ha
        exact hrest [] c post hm.symm (by
          rw [List.length_append, ha, Nat.dvd_add_right (Nat.dvd_refl n)] at hd
          exact hd) hg
      | cons d m =>
        obtain ⟨rfl, rfl⟩ := List.cons.inj hm
        have hm : m = [] := by
          have hle := Nat.le_of_dvd (by simp) hd
          simp only [List.length_append, List.length_cons, List.length_nil] at hle ha
          exact List.length_eq_zero_iff.mp (by omega)
        subst hm
        exact hfirst hg pre c rfl

/-- Trimming chunk by chunk removes what trimming the end does, and maybe more. -/
theorem trimChunks_sublist (n : Nat) (l : CStr) : (trimChunks n l).Sublist (trimEnd l) := by
  induction l using trimChunks.induct n with
  | case1 l h ih =>
    have hl := List.take_append_drop n l
    rw [trimChunks_chunk h.1 h.2]
    by_cases hb : trimEnd (l.drop n) = []
    · rw [hb] at ih
      rw [List.sublist_nil.mp ih, List.append_nil, ← trimEnd_append_nil _ hb, hl]
    · have happend := (trimEnd_isPrefix (l.take n)).sublist.append ih
      rwa [← trimEnd_append hb, hl] at happend
  | case2 l h => rw [trimChunks, dif_neg h]

/-- A line keeps what it says when its chunks are trimmed exactly if it is not
broken. -/
theorem trimChunks_eq_iff {n : Nat} (hn : 0 < n) {l : CStr} :
    trimChunks n l = trimEnd l ↔ Unbroken n l := by
  induction l using trimChunks.induct n with
  | case1 l h ih =>
    have hl := List.take_append_drop n l
    have hlen : (l.take n).length = n := by rw [List.length_take, Nat.min_eq_left h.2]
    have hle := (trimChunks_sublist n (l.drop n)).length_le
    rw [trimChunks_chunk hn h.2]
    generalize l.take n = a at hl hlen
    generalize l.drop n = b at hl ih hle
    rw [← hl, unbroken_chunk_iff hlen, ← ih]
    by_cases hb : trimEnd b = []
    · -- nothing graphic follows
      have hnil : trimChunks n b = [] := by
        rwa [hb, List.length_nil, Nat.le_zero, List.length_eq_zero_iff] at hle
      rw [hnil, hb, trimEnd_append_nil a hb, List.append_nil]
      refine iff_of_true rfl ⟨fun ⟨g, hg, hgraph⟩ => ?_, rfl⟩
      rw [trimEnd_eq_nil.mp hb g hg] at hgraph
      cases hgraph
    · rw [trimEnd_append hb]
      constructor
      · intro heq
        have hlens := congrArg List.length heq
        simp only [List.length_append] at hlens
        have hlea := length_trimEnd_le a
        obtain ⟨ha, hrest⟩ := List.append_inj heq (by omega)
        refine ⟨fun _ pre c hc => ?_, hrest⟩
        have hlast := List.rdropWhile_eq_self_iff.mp ha (by simp [hc])
        simpa [hc] using hlast
      · rintro ⟨hfirst, hrest⟩
        rw [hrest, trimEnd_chunk hfirst, trimEnd_append hb]
  | case2 l h =>
    have hlt : l.length < n := by omega
    exact iff_of_true (trimChunks_short hlt) (unbroken_short hlt)

theorem length_trimChunks_lt {n : Nat} (hn : 0 < n) {l : CStr} (h : ¬ Unbroken n l) :
    (trimChunks n l).length < (trimEnd l).length := by
  have hsub := trimChunks_sublist n l
  refine Nat.lt_of_le_of_ne hsub.length_le fun hlen => h ?_
  exact (trimChunks_eq_iff hn).mp (hsub.eq_of_length hlen)

/-- What is trimmed has no graphic character. -/
theorem trimEnd_rest (a : CStr) : ∃ b, a = trimEnd a ++ b ∧ ∀ c ∈ b, isGraph c = false := by
  refine ⟨a.rtakeWhile fun c => !isGraph c, List.rdropWhile_append_rtakeWhile.symm, fun c hc => ?_⟩
  simpa using List.mem_rtakeWhile_imp hc

/-- Whether a line is broken does not depend on what is trimmed of it. -/
theorem unbroken_trimEnd {n : Nat} {l : CStr} : Unbroken n (trimEnd l) ↔ Unbroken n l := by
  obtain ⟨b, hl, hb⟩ := trimEnd_rest l
  constructor
  · rintro h pre c post rfl hd ⟨g, hg, hgraph⟩
    have hpost : trimEnd post ≠ [] := fun hnil => by
      rw [trimEnd_eq_nil.mp hnil g hg] at hgraph
      cases hgraph
    have hcpost : trimEnd (c :: post) = c :: trimEnd post := trimEnd_append (a := [c]) hpost
    obtain ⟨b', hpost', hb'⟩ := trimEnd_rest post
    refine h pre c (trimEnd post) ?_ hd ⟨g, ?_, hgraph⟩
    · rw [trimEnd_append (by rw [hcpost]; simp), hcpost]
    · rw [hpost', List.mem_append] at hg
      refine hg.resolve_right fun hg' => ?_
      rw [hb' g hg'] at hgraph
      cases hgraph
  · rintro h pre c post htrim hd ⟨g, hg, hgraph⟩
    refine h pre c (post ++ b) ?_ hd ⟨g, List.mem_append_left _ hg, hgraph⟩
    rw [hl, htrim, List.append_assoc]
    rfl

/-- Where each line trimmed at its end is a line trimmed chunk by chunk, none
is broken: for one that is broken there would be ever longer ones. -/
theorem unbroken_of_trimmed {n m : Nat} (hn : 0 < n) {lines : List CStr}
    (hm : ∀ l ∈ lines, l.length ≤ m)
    (h : ∀ l ∈ lines, ∃ l' ∈ lines, trimEnd l = trimChunks n l') : ∀ l ∈ lines, Unbroken n l := by
  by_contra hno
  push Not at hno
  have hgrow : ∀ k, ∃ l ∈ lines, ¬ Unbroken n l ∧ k ≤ (trimEnd l).length := by
    intro k
    induction k with
    | zero =>
      obtain ⟨l, hl, hbroken⟩ := hno
      exact ⟨l, hl, hbroken, Nat.zero_le _⟩
    | succ k ih =>
      obtain ⟨l, hl, hbroken, hk⟩ := ih
      obtain ⟨l', hl', heq⟩ := h l hl
      have hbroken' : ¬ Unbroken n l' := fun hu => by
        rw [(trimChunks_eq_iff hn).mpr hu] at heq
        exact hbroken (unbroken_trimEnd.mp (heq ▸ unbroken_trimEnd.mpr hu))
      have := length_trimChunks_lt hn hbroken'
      rw [← heq] at this
      exact ⟨l', hl', hbroken', by omega⟩
  obtain ⟨l, hl, -, hk⟩ := hgrow (m + 1)
  have := length_trimEnd_le l
  have := hm l hl
  omega

/-! ## Lines -/

section
variable {l rest : List Char}

theorem textLines_append (hl : '\n' ∉ l) : textLines (l ++ '\n' :: rest) = l :: textLines rest := by
  induction l with
  | nil => rfl
  | cons c l ih =>
    obtain ⟨hc, hl⟩ := not_or.mp (fun h => hl (List.mem_cons.mpr h))
    rw [List.cons_append, textLines, if_neg (Ne.symm hc), ih hl]

theorem textLines_last (hl : '\n' ∉ l) (hne : l ≠ []) : textLines l = [l] := by
  induction l with
  | nil => exact absurd rfl hne
  | cons c l ih =>
    obtain ⟨hc, hl⟩ := not_or.mp (fun h => hl (List.mem_cons.mpr h))
    rw [textLines, if_neg (Ne.symm hc)]
    cases l with
    | nil => rfl
    | cons d l => rw [ih hl (by simp)]

theorem textLines_ne_nil {s : List Char} (h : s ≠ []) : textLines s ≠ [] := by
  cases s with
  | nil => exact absurd rfl h
  | cons c s =>
    rw [textLines]
    split
    · simp
    · split <;> simp

/-- A line that fits, with its newline. -/
theorem takeLine_line {n : Nat} (hl : '\n' ∉ l) (h : l.length < n) :
    takeLine n (l ++ '\n' :: rest) = (l ++ ['\n'], rest) := by
  induction l generalizing n with
  | nil =>
    obtain ⟨n, rfl⟩ := Nat.exists_eq_succ_of_ne_zero (Nat.ne_of_gt h)
    rw [List.nil_append, takeLine, if_pos rfl]
    rfl
  | cons c l ih =>
    obtain ⟨hc, hl⟩ := not_or.mp (fun h => hl (List.mem_cons.mpr h))
    obtain ⟨n, rfl⟩ := Nat.exists_eq_succ_of_ne_zero (Nat.ne_zero_of_lt h)
    rw [List.cons_append, takeLine, if_neg (Ne.symm hc), ih hl (Nat.lt_of_succ_lt_succ h)]
    rfl

/-- A line that does not fit. -/
theorem takeLine_chunk {n : Nat} (hl : '\n' ∉ l) (h : n ≤ l.length) :
    takeLine n (l ++ rest) = (l.take n, l.drop n ++ rest) := by
  induction l generalizing n with
  | nil =>
    obtain rfl := Nat.le_zero.mp h
    rfl
  | cons c l ih =>
    obtain ⟨hc, hl⟩ := not_or.mp (fun h => hl (List.mem_cons.mpr h))
    cases n with
    | zero => rfl
    | succ n =>
      rw [List.cons_append, takeLine, if_neg (Ne.symm hc), ih hl (Nat.le_of_succ_le_succ h)]
      rfl

/-- The end of a last line without a newline. -/
theorem takeLine_last {n : Nat} (hl : '\n' ∉ l) (h : l.length < n) : takeLine n l = (l, []) := by
  induction l generalizing n with
  | nil =>
    obtain ⟨n, rfl⟩ := Nat.exists_eq_succ_of_ne_zero (Nat.ne_of_gt h)
    rfl
  | cons c l ih =>
    obtain ⟨hc, hl⟩ := not_or.mp (fun h => hl (List.mem_cons.mpr h))
    obtain ⟨n, rfl⟩ := Nat.exists_eq_succ_of_ne_zero (Nat.ne_zero_of_lt h)
    rw [takeLine, if_neg (Ne.symm hc), ih hl (Nat.lt_of_succ_lt_succ h)]

theorem takeLine_append (n : Nat) (s : List Char) : (takeLine n s).1 ++ (takeLine n s).2 = s := by
  induction s generalizing n with
  | nil => cases n <;> rfl
  | cons c s ih =>
    cases n with
    | zero => rfl
    | succ n =>
      rw [takeLine]
      split
      · rfl
      · exact congrArg (c :: ·) (ih n)

/-- `fgets` takes at least a character. -/
theorem fgets_some {size : Nat} (hsize : 2 ≤ size) {s chunk rest : List Char}
    (h : fgets size s = some (chunk, rest)) : s = chunk ++ rest ∧ chunk ≠ [] := by
  unfold fgets at h
  split at h
  · cases h
  · rename_i hne
    obtain ⟨n, hn⟩ : ∃ n, size - 1 = n + 1 := ⟨size - 2, by omega⟩
    have happend := takeLine_append (size - 1) s
    rw [Option.some.inj h] at happend
    refine ⟨happend.symm, ?_⟩
    rintro rfl
    rw [hn] at h
    cases s with
    | nil => exact hne rfl
    | cons c s =>
      rw [takeLine] at h
      split at h <;> cases h

/-- A text is empty, or a last line, or a line and more text. -/
theorem text_cases (s : List Char) :
    s = [] ∨ ('\n' ∉ s ∧ s ≠ []) ∨ ∃ l rest, '\n' ∉ l ∧ s = l ++ '\n' :: rest := by
  by_cases h : '\n' ∈ s
  · obtain ⟨l, rest, hs, hl⟩ := List.eq_append_cons_of_mem h
    exact .inr (.inr ⟨l, rest, hl, hs⟩)
  · by_cases hs : s = []
    · exact .inl hs
    · exact .inr (.inl ⟨h, hs⟩)

end

end DQ
