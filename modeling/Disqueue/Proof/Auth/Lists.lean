import Disqueue.Model.HeaderContains
import Disqueue.Spec.Upgrade

/-!
# What header_contains finds

The spaces before an element are all that `header_contains` removes from it, so
what it compares is the trimmed element unless there is a tab before it or a
blank after it (`trimBlanks_of_not_padded`). A token without blanks equals what
is compared only where that is the case, so it is found exactly if it is listed
otherwise than padded (`headerContains_iff`).
-/

namespace DQ.Proof.Auth

open DQ.Model DQ.Spec

/-- What is compared is the trimmed element, unless that is padded. -/
theorem trimBlanks_of_not_padded {element : CStr} (h : ¬ Padded element) :
    trimBlanks element = element.dropWhile (· == ' ') := by
  obtain ⟨-, hblanks⟩ := not_or.mp h
  obtain ⟨hhead, hlast⟩ := not_or.mp hblanks
  generalize hx : element.dropWhile (· == ' ') = x at hhead hlast
  have hdrop : element.dropWhile isBlank = x := by
    rw [← List.takeWhile_append_dropWhile (p := (· == ' ')) (l := element), hx,
      List.dropWhile_append_of_pos fun c hc => ?_]
    · cases x with
      | nil => rfl
      | cons c cs =>
        have hspace : (c == ' ') = false := by
          have := List.head_dropWhile_not (· == ' ') (l := element) (by simp [hx])
          simpa [hx] using this
        have htab : (c == '\t') = false := by simpa using hhead
        rw [List.dropWhile_cons_of_neg (by simp [isBlank, hspace, htab])]
    · rw [isBlank, List.mem_takeWhile_imp hc, Bool.true_or]
  rw [trimBlanks, hdrop, List.rdropWhile_eq_self_iff]
  exact fun hl hblank => hlast ⟨_, List.getLast?_eq_some_getLast hl, hblank⟩

variable {value look element : CStr}

/-- The token equals what is compared only where nothing is left around it. -/
theorem not_padded_of_strcaseEq (hspace : ' ' ∉ look) (htab : '\t' ∉ look) (hne : element ≠ [])
    (h : strcaseEq (element.dropWhile (· == ' ')) look = true) : ¬ Padded element := by
  have hblank : ∀ c ∈ element.dropWhile (· == ' '), isBlank c = false := by
    intro c hc
    rw [isBlank, Bool.or_eq_false_iff, beq_eq_false_iff_ne, beq_eq_false_iff_ne]
    constructor
    · exact fun hb => not_mem_of_strcaseEq h (by decide) hspace (by decide) (hb ▸ hc)
    · exact fun hb => not_mem_of_strcaseEq h (by decide) htab (by decide) (hb ▸ hc)
  rintro (hnil | hhead | ⟨c, hlast, hc⟩)
  · exact hne hnil
  · exact absurd (hblank _ (List.mem_of_head? hhead)) (by decide)
  · exact absurd (hblank _ (List.mem_of_getLast? hlast)) (by simp [hc])

/-- An element is found if it equals the token, and is not padded. -/
theorem compared_iff (hspace : ' ' ∉ look) (htab : '\t' ∉ look) :
    element ≠ [] ∧ strcaseEq (element.dropWhile (· == ' ')) look = true ↔
      strcaseEq (trimBlanks element) look = true ∧ ¬ Padded element := by
  constructor
  · rintro ⟨hne, heq⟩
    have hplain := not_padded_of_strcaseEq hspace htab hne heq
    exact ⟨by rwa [trimBlanks_of_not_padded hplain], hplain⟩
  · rintro ⟨heq, hplain⟩
    rw [trimBlanks_of_not_padded hplain] at heq
    exact ⟨fun hnil => hplain (.inl hnil), heq⟩

/-- `header_contains` finds the elements that equal the token and are not
padded. -/
theorem headerContains_iff (hspace : ' ' ∉ look) (htab : '\t' ∉ look) :
    headerContains value look = true ↔
      ∃ element ∈ value.splitOn ',',
        strcaseEq (trimBlanks element) look = true ∧ ¬ Padded element := by
  simp only [headerContains, tokens, List.any_eq_true, List.mem_filter, bne_iff_ne, and_assoc]
  exact exists_congr fun element => and_congr_right fun _ => compared_iff hspace htab

/-- What `header_contains` finds in a value is an element of its list. -/
theorem lists_of_headerContains (hspace : ' ' ∉ look) (htab : '\t' ∉ look)
    (h : headerContains value look = true) : Lists value look := by
  obtain ⟨element, hmem, heq, -⟩ := (headerContains_iff hspace htab).mp h
  exact ⟨element, hmem, heq⟩

/-- `header_contains` decides whether the token is listed, unless it is listed
only padded. -/
theorem headerContains_exact_iff (hspace : ' ' ∉ look) (htab : '\t' ∉ look) :
    (Strtok.headerContains value look = true ↔ Lists value look) ↔ ¬ ListsPadded value look := by
  rw [Strtok.headerContains_eq]
  constructor
  · rintro hexact ⟨hlists, hpadded⟩
    obtain ⟨element, hmem, heq, hplain⟩ := (headerContains_iff hspace htab).mp (hexact.mpr hlists)
    exact hplain (hpadded element hmem heq)
  · intro h
    refine ⟨lists_of_headerContains hspace htab, fun hlists => ?_⟩
    by_contra hnot
    refine h ⟨hlists, fun element hmem heq => by_contra fun hplain => hnot ?_⟩
    exact (headerContains_iff hspace htab).mpr ⟨element, hmem, heq, hplain⟩

theorem headerContains_exact_upgrade :
    (Strtok.headerContains "keep-alive, Upgrade".toList upgradeHeader = true ↔
      Lists "keep-alive, Upgrade".toList upgradeHeader) ↔
    ¬ ListsPadded "keep-alive, Upgrade".toList upgradeHeader :=
  headerContains_exact_iff (by decide) (by decide)

/-- `Connection: Upgrade , keep-alive`. -/
theorem headerContains_padded :
    ¬ (Strtok.headerContains "Upgrade , keep-alive".toList upgradeHeader = true ↔
      Lists "Upgrade , keep-alive".toList upgradeHeader) := by
  have hlists : Lists "Upgrade , keep-alive".toList upgradeHeader :=
    ⟨"Upgrade ".toList, by decide, by decide⟩
  rw [Strtok.headerContains_eq]
  exact fun hexact => absurd (hexact.mpr hlists) (by decide)

end DQ.Proof.Auth
