import Disqueue.Proof.Server.Found
import Disqueue.Proof.Uuid.Named
import Disqueue.Spec.Scanned

/-!
# Printing an id and parsing it

The name that is printed for 16 bytes, in either letter case, is scanned to
the integers that were printed (`scanned_first` to `scanned_byte`), and the
swaps give the bytes again, except that where `unsigned long` has 8 bytes the
first swap clears the fifth to the eighth (`makesId_iff`).
-/

namespace DQ.Proof.Uuid

open DQ.Model DQ.Spec DQ.Proof.Server

/-! ## Reading what was printed -/

theorem hexDigit_inj : ∀ d < 16, ∀ d' < 16, hexDigit d = hexDigit d' → d = d' := by
  decide +kernel

theorem printHex_inj {w v v' : Nat} (hv : v < 16 ^ w) (hv' : v' < 16 ^ w)
    (h : printHex w v = printHex w v') : v = v' := by
  induction w generalizing v v' with
  | zero =>
    rw [Nat.pow_zero] at hv hv'
    omega
  | succ w ih =>
    rw [Nat.pow_succ] at hv hv'
    obtain ⟨h1, h2⟩ := List.append_inj' h rfl
    have hquot := ih (show v / 16 < 16 ^ w by omega) (show v' / 16 < 16 ^ w by omega) h1
    have hrem := hexDigit_inj (v % 16) (Nat.mod_lt _ (by decide)) (v' % 16)
      (Nat.mod_lt _ (by decide)) (List.cons.inj h2).1
    omega

/-- A group that reads as printed, in either letter case. -/
theorem group_of_printHex {a : CStr} {w v : Nat} (hv : v < 16 ^ w) (h : fold a = printHex w v) :
    Group w a ∧ hexValue 0 a = v := by
  have hhex : IsHex a := isHex_of_fold fun c hc => by
    rw [h] at hc
    obtain ⟨d, hd, rfl⟩ := printHex_mem hc
    exact (hexDigit_facts d hd).1
  have hlen : a.length = w := by
    have := congrArg List.length h
    rwa [fold, List.length_map, printHex_length] at this
  have hg : Group w a := ⟨hhex, hlen⟩
  exact ⟨hg, printHex_inj hg.value_lt hv (hg.print.trans h)⟩

theorem fold_hyphen {n y : CStr} (h : fold n = '-' :: y) : ∃ b, n = '-' :: b ∧ fold b = y := by
  obtain ⟨c, b, rfl, hc, hb⟩ := List.map_eq_cons_iff.mp h
  have hfold : fold [c] = ['-'] := congrArg (· :: []) hc
  obtain rfl : c = '-' := (List.cons.inj (eq_of_fold rfl hfold)).1
  exact ⟨b, rfl, hb⟩

theorem fold_flatten {n : CStr} {parts : List CStr} (h : fold n = parts.flatten) :
    ∃ es : List CStr, n = es.flatten ∧ es.map fold = parts := by
  induction parts generalizing n with
  | nil => exact ⟨[], List.map_eq_nil_iff.mp h, rfl⟩
  | cons p parts ih =>
    obtain ⟨a, b, rfl, ha, hb⟩ := List.map_eq_append_iff.mp h
    obtain ⟨es, rfl, hes⟩ := ih hb
    exact ⟨a :: es, rfl, by rw [List.map_cons, hes, fold, ha]⟩

/-- The last bytes of an id, printed. -/
def lastParts (b : Bytes) : List CStr := [10, 11, 12, 13, 14, 15].map fun i => printHex 2 (b i).toNat

/-- A name that was printed, in either letter case, by its groups. -/
theorem printed_split {dm : DataModel} {b : Bytes} {n : CStr} (h : fold n = queueGetUuid dm b) :
    ∃ g₁ g₂ g₃ g₄ es, n = idText g₁ g₂ g₃ g₄ es ∧
      fold g₁ = printHex 8 (htonl (peekInt b 0 dm.longBytes)) ∧
      fold g₂ = printHex 4 (htons (peekInt b 4 2)) ∧
      fold g₃ = printHex 4 (htons (peekInt b 6 2)) ∧
      fold g₄ = printHex 4 (htons (peekInt b 8 2)) ∧ es.map fold = lastParts b := by
  have hlast : ([10, 11, 12, 13, 14, 15].flatMap fun i => printHex 2 (b i).toNat) =
      (lastParts b).flatten := rfl
  rw [queueGetUuid, hlast] at h
  simp only [List.append_assoc, List.cons_append] at h
  obtain ⟨g₁, t₁, rfl, h₁, hr₁⟩ := List.map_eq_append_iff.mp h
  obtain ⟨s₁, rfl, hs₁⟩ := fold_hyphen hr₁
  obtain ⟨g₂, t₂, rfl, h₂, hr₂⟩ := List.map_eq_append_iff.mp hs₁
  obtain ⟨s₂, rfl, hs₂⟩ := fold_hyphen hr₂
  obtain ⟨g₃, t₃, rfl, h₃, hr₃⟩ := List.map_eq_append_iff.mp hs₂
  obtain ⟨s₃, rfl, hs₃⟩ := fold_hyphen hr₃
  obtain ⟨g₄, t₄, rfl, h₄, hr₄⟩ := List.map_eq_append_iff.mp hs₃
  obtain ⟨s₄, rfl, hs₄⟩ := fold_hyphen hr₄
  obtain ⟨es, rfl, h₅⟩ := fold_flatten hs₄
  exact ⟨g₁, g₂, g₃, g₄, es, rfl, h₁, h₂, h₃, h₄, h₅⟩

/-! ## The memory after the conversions and the swaps -/

variable {dm : DataModel} {n : CStr} {r m b u : Bytes} {g₁ g₂ g₃ g₄ e₀ e₁ e₂ e₃ e₄ e₅ : CStr}

/-- The bytes of an integer are those of the memory it is read from. -/
theorem peekInt_inj {m m' : Bytes} {off n : Nat} (h : peekInt m off n = peekInt m' off n) :
    ∀ i < n, m (off + i) = m' (off + i) := by
  induction n generalizing off with
  | zero => exact fun i hi => absurd hi (Nat.not_lt_zero i)
  | succ n ih =>
    have h1 := (m off).toNat_lt
    have h2 := (m' off).toNat_lt
    rw [peekInt, peekInt] at h
    intro i hi
    cases i with
    | zero => exact UInt8.toNat.inj (by rw [Nat.add_zero]; omega)
    | succ i =>
      have hrest : peekInt m (off + 1) n = peekInt m' (off + 1) n := by omega
      have := ih hrest i (by omega)
      rwa [Nat.add_assoc, Nat.add_comm 1 i] at this

/-- The second group is where it was stored. -/
theorem scanned_second (hg : Group 4 g₂) :
    peekInt (scanned dm r g₁ g₂ g₃ g₄ e₀ e₁ e₂ e₃ e₄ e₅) 4 2 = hexValue 0 g₂ := by
  have hlong : 2 ≤ dm.longBytes := by cases dm <;> decide
  unfold scanned
  iterate 8 rw [peekInt_pokeInt_of_disjoint (.inl (by decide))]
  rw [peekInt_pokeInt hlong]
  exact Nat.mod_eq_of_lt hg.value_lt

theorem scanned_third (hg : Group 4 g₃) :
    peekInt (scanned dm r g₁ g₂ g₃ g₄ e₀ e₁ e₂ e₃ e₄ e₅) 6 2 = hexValue 0 g₃ := by
  have hlong : 2 ≤ dm.longBytes := by cases dm <;> decide
  unfold scanned
  iterate 7 rw [peekInt_pokeInt_of_disjoint (.inl (by decide))]
  rw [peekInt_pokeInt hlong]
  exact Nat.mod_eq_of_lt hg.value_lt

theorem parseUuid_reordered (h : sscanf (uuidFormat dm) n r = (m, 10)) :
    parseUuid dm r n = some (reordered dm m) := by
  unfold parseUuid
  rw [h]
  rfl

/-- Where `unsigned long` has 4 bytes, the second and third groups are
swapped. -/
theorem reordered_middle (m : Bytes) :
    peekInt (reordered .llp64 m) 4 2 = htons (peekInt m 4 2) ∧
      peekInt (reordered .llp64 m) 6 2 = htons (peekInt m 6 2) := by
  unfold reordered
  rw [DataModel.longBytes]
  constructor
  · iterate 2 rw [peekInt_pokeInt_of_disjoint (.inl (by decide))]
    rw [peekInt_pokeInt (by decide), peekInt_pokeInt_of_disjoint (.inr (by decide))]
    exact Nat.mod_eq_of_lt (htons_lt _)
  · rw [peekInt_pokeInt_of_disjoint (.inl (by decide)), peekInt_pokeInt (by decide)]
    iterate 2 rw [peekInt_pokeInt_of_disjoint (.inr (by decide))]
    exact Nat.mod_eq_of_lt (htons_lt _)

/-! ## The round trip -/

/-- Parsing what was printed for `b` gives these integers and bytes. -/
structure Parsed (dm : DataModel) (b u : Bytes) : Prop where
  first : peekInt u 0 4 = peekInt b 0 4
  middle : dm = .llp64 → peekInt u 4 2 = peekInt b 4 2 ∧ peekInt u 6 2 = peekInt b 6 2
  zeros : dm = .lp64 → peekInt u 4 2 = 0 ∧ peekInt u 6 2 = 0
  fourth : peekInt u 8 2 = peekInt b 8 2
  last : ∀ i, 10 ≤ i → i < 16 → u i = b i

theorem parse_printed (h : fold n = queueGetUuid dm b) :
    ∃ u, parseUuid dm r n = some u ∧ Parsed dm b u := by
  obtain ⟨g₁, g₂, g₃, g₄, es, rfl, h₁, h₂, h₃, h₄, h₅⟩ := printed_split h
  have hshort : ∀ off, htons (peekInt b off 2) < 16 ^ 4 := fun off => htons_lt _
  obtain ⟨hg₁, hv₁⟩ := group_of_printHex (htonl_lt _) h₁
  obtain ⟨hg₂, hv₂⟩ := group_of_printHex (hshort 4) h₂
  obtain ⟨hg₃, hv₃⟩ := group_of_printHex (hshort 6) h₃
  obtain ⟨hg₄, hv₄⟩ := group_of_printHex (hshort 8) h₄
  obtain ⟨e₀, e₁, e₂, e₃, e₄, e₅, rfl⟩ : ∃ e₀ e₁ e₂ e₃ e₄ e₅, es = [e₀, e₁, e₂, e₃, e₄, e₅] := by
    have hlen : es.length = 6 := by
      have := congrArg List.length h₅
      rwa [List.length_map] at this
    match es, hlen with
    | [e₀, e₁, e₂, e₃, e₄, e₅], _ => exact ⟨e₀, e₁, e₂, e₃, e₄, e₅, rfl⟩
  have hpart : ∀ {e : CStr} {i : Nat}, fold e = printHex 2 (b i).toNat →
      Group 2 e ∧ hexValue 0 e = (b i).toNat :=
    fun he => group_of_printHex (UInt8.toNat_lt _) he
  simp only [lastParts, List.map_cons, List.map_nil, List.cons.injEq, and_true] at h₅
  obtain ⟨k₀, k₁, k₂, k₃, k₄, k₅⟩ := h₅
  have he : ∀ x ∈ [e₀, e₁, e₂, e₃, e₄, e₅], Group 2 x := by
    simp only [List.forall_mem_cons]
    exact ⟨(hpart k₀).1, (hpart k₁).1, (hpart k₂).1, (hpart k₃).1, (hpart k₄).1, (hpart k₅).1,
      List.forall_mem_nil _⟩
  refine ⟨_, parseUuid_reordered (sscanf_idText hg₁ hg₂ hg₃ hg₄ he), ?_, ?_, ?_, ?_, ?_⟩
  · rw [reordered_first, scanned_first hg₁, hv₁, htonl_long, htonl_htonl (peekInt_lt b 0 4)]
  · rintro rfl
    obtain ⟨m4, m6⟩ := reordered_middle (scanned .llp64 r g₁ g₂ g₃ g₄ e₀ e₁ e₂ e₃ e₄ e₅)
    rw [m4, m6, scanned_second hg₂, scanned_third hg₃, hv₂, hv₃, htons_htons (peekInt_lt b 4 2),
      htons_htons (peekInt_lt b 6 2)]
    exact ⟨rfl, rfl⟩
  · rintro rfl
    exact swapped_zeros _
  · rw [reordered_fourth, scanned_fourth hg₄, hv₄, htons_htons (peekInt_lt b 8 2)]
  · have hbytes : [10, 11, 12, 13, 14, 15].map (fun i =>
        (scanned dm r g₁ g₂ g₃ g₄ e₀ e₁ e₂ e₃ e₄ e₅ i).toNat) =
        [10, 11, 12, 13, 14, 15].map fun i => (b i).toNat := by
      rw [scanned_bytes he]
      simp only [List.map_cons, List.map_nil, (hpart k₀).2, (hpart k₁).2, (hpart k₂).2,
        (hpart k₃).2, (hpart k₄).2, (hpart k₅).2]
    intro i hi hi'
    rw [reordered_last _ hi]
    exact UInt8.toNat.inj (List.map_inj_left.mp hbytes i (by simp; omega))

/-- The text of an id depends on its 16 bytes. -/
theorem queueGetUuid_congr (h : ∀ i < 16, u i = b i) : queueGetUuid dm u = queueGetUuid dm b := by
  have hint : ∀ off len, off + len ≤ 16 → peekInt u off len = peekInt b off len :=
    fun off len hle => peekInt_congr fun i hi => h _ (by omega)
  have hlong : 0 + dm.longBytes ≤ 16 := by cases dm <;> decide
  have hlast : ([10, 11, 12, 13, 14, 15].flatMap fun i => printHex 2 (u i).toNat) =
      [10, 11, 12, 13, 14, 15].flatMap fun i => printHex 2 (b i).toNat :=
    List.flatMap_congr fun i hi => by rw [h i (by revert hi; simp; omega)]
  rw [queueGetUuid, queueGetUuid, hint 0 _ hlong, hint 4 2 (by decide), hint 6 2 (by decide),
    hint 8 2 (by decide), hlast]

/-- All bytes are the same where `unsigned long` has 4 bytes. Where it has 8,
the fifth to the eighth are zero. -/
theorem Parsed.bytes_iff (h : Parsed dm b u) :
    (∀ i < 16, u i = b i) ↔ dm = .llp64 ∨ ∀ i, 4 ≤ i → i < 8 → b i = 0 := by
  have hends : ∀ i < 16, i < 4 ∨ 8 ≤ i → u i = b i := by
    intro i hi hside
    rcases hside with hlow | hhigh
    · simpa using peekInt_inj h.first i hlow
    · by_cases hfour : i < 10
      · obtain ⟨k, rfl⟩ := Nat.exists_eq_add_of_le hhigh
        exact peekInt_inj h.fourth k (by omega)
      · exact h.last i (by omega) hi
  have hzero : ∀ {m : Bytes} {off : Nat}, peekInt m off 2 = 0 ↔ m off = 0 ∧ m (off + 1) = 0 := by
    intro m off
    simp only [peekInt, Nat.mul_zero, Nat.add_zero, Nat.add_eq_zero_iff, Nat.mul_eq_zero,
      ← UInt8.toNat_inj, UInt8.toNat_zero]
    omega
  cases dm with
  | llp64 =>
    refine iff_of_true (fun i hi => ?_) (.inl rfl)
    obtain ⟨h4, h6⟩ := h.middle rfl
    by_cases hside : i < 4 ∨ 8 ≤ i
    · exact hends i hi hside
    · obtain rfl | rfl | rfl | rfl : i = 4 ∨ i = 5 ∨ i = 6 ∨ i = 7 := by omega
      · exact peekInt_inj h4 0 (by decide)
      · exact peekInt_inj h4 1 (by decide)
      · exact peekInt_inj h6 0 (by decide)
      · exact peekInt_inj h6 1 (by decide)
  | lp64 =>
    obtain ⟨h4, h6⟩ := h.zeros rfl
    rw [hzero] at h4 h6
    have hmid : ∀ i, 4 ≤ i → i < 8 → u i = 0 := by
      intro i hi hi'
      obtain rfl | rfl | rfl | rfl : i = 4 ∨ i = 5 ∨ i = 6 ∨ i = 7 := by omega
      · exact h4.1
      · exact h4.2
      · exact h6.1
      · exact h6.2
    constructor
    · exact fun hall => .inr fun i hi hi' => (hall i (by omega)).symm.trans (hmid i hi hi')
    · rintro (h' | hall) i hi
      · cases h'
      · by_cases hside : i < 4 ∨ 8 ≤ i
        · exact hends i hi hside
        · rw [hmid i (by omega) (by omega), hall i (by omega) (by omega)]

end DQ.Proof.Uuid
