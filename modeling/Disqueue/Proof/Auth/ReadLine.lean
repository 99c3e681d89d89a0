import Disqueue.Spec.Lines

/-!
# Reading lines

Where nothing fails, `auth_read_line` gives the lines of a text, each trimmed
chunk by chunk (`authReadLines_eq`). So a line is read as it stands exactly if
no chunk of it is broken off at white space (`lines_read_iff`).
-/

namespace DQ.Proof.Auth

open DQ.Model DQ.Spec

variable {size : Nat} {v : Verification} {i : Nat} {l rest : List Char}

theorem takeWhile_noNul {s : List Char} (h : '\x00' ∉ s) : s.takeWhile (· != '\x00') = s :=
  List.takeWhile_eq_self_iff.mpr fun _ hc => bne_iff_ne.mpr (ne_of_mem_of_not_mem hc h)

/-- A chunk that does not end a line. -/
theorem authReadChunks_chunk (hsize : 2 ≤ size) (hext : ∀ i k, v.ok (.extend i k) = true)
    (hl : '\n' ∉ l) (h0 : '\x00' ∉ l) (hn : size - 1 ≤ l.length) (fuel k : Nat)
    (line : Option CStr) (rest : List Char) :
    authReadChunks size v i (fuel + 1) k line (l ++ rest) =
      authReadChunks size v i fuel (k + 1) (some (line.getD [] ++ trimEnd (l.take (size - 1))))
        (l.drop (size - 1) ++ rest) := by
  have hne : l ++ rest ≠ [] := by
    intro he
    obtain rfl := (List.append_eq_nil_iff.mp he).1
    simp at hn
    omega
  have hbuf : (l.take (size - 1)).takeWhile (· != '\x00') = l.take (size - 1) :=
    takeWhile_noNul fun h => h0 (List.mem_of_mem_take h)
  have hlast : (l.take (size - 1)).getLast?.getD v.before ≠ '\n' := by
    intro he
    cases hg : (l.take (size - 1)).getLast? with
    | none =>
      have := List.getLast?_eq_none_iff.mp hg
      rw [List.take_eq_nil_iff] at this
      rcases this with h | rfl
      · omega
      · simp at hn
        omega
    | some c =>
      rw [hg] at he
      obtain rfl : c = '\n' := he
      exact hl (List.mem_of_mem_take (List.mem_of_getLast? hg))
  rw [authReadChunks, fgets, if_neg hne, takeLine_chunk hl hn]
  dsimp only
  rw [hbuf, authStringExtend, if_pos (hext i k)]
  dsimp only
  rw [if_neg hlast]

theorem authReadChunks_line (hsize : 2 ≤ size) (hext : ∀ i k, v.ok (.extend i k) = true)
    (hl : '\n' ∉ l) (h0 : '\x00' ∉ l) {fuel : Nat} (hf : l.length < fuel) (k : Nat)
    (line : Option CStr) :
    authReadChunks size v i fuel k line (l ++ '\n' :: rest) =
      some (some (line.getD [] ++ trimChunks (size - 1) l), rest) := by
  induction fuel generalizing l k line with
  | zero => omega
  | succ fuel ih =>
    by_cases hn : size - 1 ≤ l.length
    · -- the newline is in a later chunk
      have hlen : (l.drop (size - 1)).length < fuel := by
        rw [List.length_drop]
        omega
      rw [authReadChunks_chunk hsize hext hl h0 hn,
        ih (fun h => hl (List.mem_of_mem_drop h)) (fun h => h0 (List.mem_of_mem_drop h)) hlen,
        Option.getD_some, List.append_assoc, ← trimChunks_chunk (by omega) hn]
    · have hbuf : (l ++ ['\n']).takeWhile (· != '\x00') = l ++ ['\n'] :=
        takeWhile_noNul (by simpa using h0)
      rw [authReadChunks, fgets, if_neg (by simp), takeLine_line hl (by omega)]
      dsimp only
      rw [hbuf, authStringExtend, if_pos (hext i k)]
      dsimp only
      rw [if_pos (by simp), trimEnd_newline, trimChunks_short (by omega)]

theorem authReadChunks_last (hsize : 2 ≤ size) (hext : ∀ i k, v.ok (.extend i k) = true)
    (hl : '\n' ∉ l) (h0 : '\x00' ∉ l) {fuel : Nat} (hf : l.length ≤ fuel) (k : Nat)
    (line : Option CStr) (hsome : l = [] → line.isSome) :
    authReadChunks size v i fuel k line l =
      some (some (line.getD [] ++ trimChunks (size - 1) l), []) := by
  have hnil : ∀ {fuel k : Nat} {line : CStr},
      authReadChunks size v i fuel k (some line) [] = some (some line, []) := by
    intro fuel k line
    cases fuel <;> rfl
  have htrim : trimChunks (size - 1) [] = [] := by
    rw [trimChunks_short (by simp; omega)]
    rfl
  induction fuel generalizing l k line with
  | zero =>
    obtain rfl := List.length_eq_zero_iff.mp (Nat.le_zero.mp hf)
    obtain ⟨x, rfl⟩ := Option.isSome_iff_exists.mp (hsome rfl)
    rw [hnil, Option.getD_some, htrim, List.append_nil]
  | succ fuel ih =>
    by_cases hl0 : l = []
    · subst hl0
      obtain ⟨x, rfl⟩ := Option.isSome_iff_exists.mp (hsome rfl)
      rw [hnil, Option.getD_some, htrim, List.append_nil]
    by_cases hn : size - 1 ≤ l.length
    · have hlen : (l.drop (size - 1)).length ≤ fuel := by
        rw [List.length_drop]
        omega
      have hchunk := authReadChunks_chunk (i := i) hsize hext hl h0 hn fuel k line []
      rw [List.append_nil, List.append_nil] at hchunk
      rw [hchunk, ih (fun h => hl (List.mem_of_mem_drop h)) (fun h => h0 (List.mem_of_mem_drop h))
          hlen _ _ fun _ => rfl, Option.getD_some, List.append_assoc,
        ← trimChunks_chunk (by omega) hn]
    · have hlast : l.getLast?.getD v.before ≠ '\n' := by
        rw [List.getLast?_eq_some_getLast hl0, Option.getD_some]
        exact fun he => hl (he ▸ List.getLast_mem hl0)
      rw [authReadChunks, fgets, if_neg hl0, takeLine_last hl (by omega)]
      dsimp only
      rw [takeWhile_noNul h0, authStringExtend, if_pos (hext i k)]
      dsimp only
      rw [if_neg hlast, hnil, trimChunks_short (by omega)]

/-! ## Lines -/

variable (hget : ∀ i, v.ok (.getpos i) = true) (hext : ∀ i k, v.ok (.extend i k) = true)

include hget in
/-- At the end of the file. -/
theorem authReadLine_nil (i : Nat) : authReadLine size v i [] = (none, []) := by
  rw [authReadLine, hget]
  rfl

include hget hext in
/-- A line, with its newline. -/
theorem authReadLine_line (hsize : 2 ≤ size) (hl : '\n' ∉ l) (h0 : '\x00' ∉ l) (i : Nat) :
    authReadLine size v i (l ++ '\n' :: rest) = (some (trimChunks (size - 1) l), rest) := by
  rw [authReadLine, hget, authReadChunks_line hsize hext hl h0
    (by rw [List.length_append, List.length_cons]; omega)]
  rfl

include hget hext in
/-- The last line, without a newline. -/
theorem authReadLine_last (hsize : 2 ≤ size) (hl : '\n' ∉ l) (h0 : '\x00' ∉ l) (hne : l ≠ [])
    (i : Nat) : authReadLine size v i l = (some (trimChunks (size - 1) l), []) := by
  rw [authReadLine, hget, authReadChunks_last hsize hext hl h0 (Nat.le_succ _) 0 none
    fun h => absurd h hne]
  rfl

include hget hext in
/-- The lines of a text, trimmed chunk by chunk. -/
theorem authReadLines_eq (hsize : 2 ≤ size) {fuel i : Nat} {s : List Char} (hf : s.length < fuel)
    (h0 : '\x00' ∉ s) :
    authReadLines size v fuel i s = (textLines s).map (trimChunks (size - 1)) := by
  have hnil : ∀ {fuel i : Nat}, authReadLines size v fuel i [] = [] := by
    intro fuel i
    cases fuel with
    | zero => rfl
    | succ fuel => rw [authReadLines, authReadLine_nil hget]
  induction fuel generalizing i s with
  | zero => omega
  | succ fuel ih =>
    rcases text_cases s with rfl | ⟨hl, hne⟩ | ⟨l, rest, hl, rfl⟩
    · exact hnil
    · rw [authReadLines, authReadLine_last hget hext hsize hl h0 hne, textLines_last hl hne]
      dsimp only
      rw [hnil]
      rfl
    · have h0l : '\x00' ∉ l := fun hm => h0 (List.mem_append_left _ hm)
      have h0r : '\x00' ∉ rest := fun hm => h0 (by simp [hm])
      have hlen : rest.length < fuel := by
        simp only [List.length_append, List.length_cons] at hf
        omega
      rw [authReadLines, authReadLine_line hget hext hsize hl h0l, textLines_append hl]
      dsimp only
      rw [ih hlen h0r]
      rfl

/-! ## The size of the buffer -/

theorem fileLines_eq (hv : Succeeds v) (hsize : 2 ≤ size) {content : List Char}
    (h0 : '\x00' ∉ content) :
    fileLines size v content = (textLines content).map (trimChunks (size - 1)) :=
  authReadLines_eq (fun _ => hv _) (fun _ _ => hv _) hsize (Nat.lt_succ_self _) h0

/-- The lines of a text are read as they stand exactly if none is broken. -/
theorem readsLines_iff {content : List Char} (h0 : '\x00' ∉ content) (hsize : 2 ≤ size) :
    ReadsLines size content ↔ ∀ l ∈ textLines content, Unbroken (size - 1) l := by
  have hlines : ∀ v, Succeeds v → (fileLines size v content = (textLines content).map trimEnd ↔
      ∀ l ∈ textLines content, Unbroken (size - 1) l) := by
    intro v hv
    rw [fileLines_eq hv hsize h0, List.map_inj_left]
    exact forall₂_congr fun l _ => trimChunks_eq_iff (by omega)
  constructor
  · intro h
    exact (hlines ⟨[], fun _ => true, 'x', []⟩ fun _ => rfl).mp (h _ fun _ => rfl)
  · intro h v hv
    exact (hlines v hv).mpr h

theorem unbroken_one {n : Nat} {l : CStr} (h : Unbroken 1 l) : Unbroken n l :=
  fun pre c post hl _ hg => h pre c post hl ⟨_, (Nat.one_mul _).symm⟩ hg

theorem length_of_mem_textLines {s l : List Char} (h : l ∈ textLines s) : l.length ≤ s.length := by
  induction s using textLines.induct generalizing l with
  | case1 => simp [textLines] at h
  | case2 s ih =>
    rw [textLines, if_pos rfl] at h
    rcases List.mem_cons.mp h with rfl | h
    · exact Nat.zero_le _
    · exact Nat.le_succ_of_le (ih h)
  | case3 c s hc hs ih =>
    rw [textLines, if_neg hc, hs] at h
    rw [List.mem_singleton.mp h]
    exact Nat.succ_le_succ (Nat.zero_le _)
  | case4 c s hc l' ls hs ih =>
    rw [textLines, if_neg hc, hs] at h
    rcases List.mem_cons.mp h with rfl | h
    · exact Nat.succ_le_succ (ih (hs ▸ List.mem_cons_self))
    · exact Nat.le_succ_of_le (ih (hs ▸ List.mem_cons_of_mem _ h))

/-- The size of the buffer does not matter exactly if no line has a graphic
character after one that is not. -/
theorem sameForSizes_iff {content : List Char} (h0 : '\x00' ∉ content) :
    SameForSizes content ↔ ∀ l ∈ textLines content, Unbroken 1 l := by
  constructor
  · intro h
    refine (readsLines_iff h0 (Nat.le_refl 2)).mp fun v hv => ?_
    have hlarge : ReadsLines (content.length + 2) content := by
      refine (readsLines_iff h0 (by omega)).mpr fun l hl => unbroken_short ?_
      have := length_of_mem_textLines hl
      omega
    rw [h v hv 2 (content.length + 2) (Nat.le_refl 2) (by omega), hlarge v hv]
  · intro h v hv size size' hsize hsize'
    rw [(readsLines_iff h0 hsize).mpr (fun l hl => unbroken_one (h l hl)) v hv,
      (readsLines_iff h0 hsize').mpr (fun l hl => unbroken_one (h l hl)) v hv]

/-- The lines of a file are read as they stand exactly if no chunk that fills
the buffer ends with a character that is not graphic and has a graphic one
after it in its line. The size of the buffer does not matter exactly if no line
has such a character anywhere. -/
theorem lines_read_iff (content : List Char) (h0 : '\x00' ∉ content) :
    (∀ size, 2 ≤ size →
      (ReadsLines size content ↔ ∀ l ∈ textLines content, Unbroken (size - 1) l)) ∧
      (SameForSizes content ↔ ∀ l ∈ textLines content, Unbroken 1 l) :=
  ⟨fun _ hsize => readsLines_iff h0 hsize, sameForSizes_iff h0⟩

theorem lines_read_iff_words : (∀ size, 2 ≤ size → (ReadsLines size ['a', ' ', 'b'] ↔
      ∀ l ∈ textLines ['a', ' ', 'b'], Unbroken (size - 1) l)) ∧
    (SameForSizes ['a', ' ', 'b'] ↔ ∀ l ∈ textLines ['a', ' ', 'b'], Unbroken 1 l) :=
  lines_read_iff ['a', ' ', 'b'] (by decide)

/-- A space that is the 127th character of a line. -/
def longLine : CStr := List.replicate 126 'x' ++ [' ', 'x']

theorem space_is_lost : ¬ ReadsLines lineSize longLine ∧ ¬ SameForSizes longLine := by
  have h0 : '\x00' ∉ longLine := by decide
  have hline : textLines longLine = [longLine] := textLines_last (by decide) (by decide)
  have hbroken : ∀ n, n ∣ 127 → ¬ Unbroken n longLine := by
    intro n hn h
    have := h (List.replicate 126 'x') ' ' ['x'] rfl (by simpa using hn) ⟨'x', by simp, by decide⟩
    revert this
    decide
  rw [readsLines_iff h0 (by decide), sameForSizes_iff h0, hline]
  simp only [List.mem_singleton, forall_eq]
  exact ⟨hbroken _ (by decide), hbroken _ (by decide)⟩

end DQ.Proof.Auth
