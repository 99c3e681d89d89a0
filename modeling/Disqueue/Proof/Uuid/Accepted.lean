import Disqueue.Proof.Uuid.Named
import Disqueue.Spec.Scanned

/-!
# What `sscanf` accepts as an id

A conversion takes exactly what `Takes` says (`scanHex_iff`), and so all ten
are done exactly if the string starts with the parts of an id
(`sscanf_iff`). The text of an id does (`scans_isUuid`).
-/

namespace DQ.Proof.Uuid

open DQ.Model DQ.Spec

variable {w : Nat} {s t rest base digits : CStr}

/-! ## Digits -/

theorem scanDigits_some {acc n v : Nat} (h : scanDigits w acc t = (n, v, rest)) :
    ∃ digits, t = digits ++ rest ∧ digits.length = n ∧ IsHex digits ∧ n ≤ w ∧
      (n < w → ∀ c ∈ rest.head?, hexVal c = none) := by
  induction w generalizing t acc n with
  | zero =>
    cases h
    exact ⟨[], rfl, rfl, nofun, le_refl _, nofun⟩
  | succ w ih =>
    cases t with
    | nil =>
      cases h
      exact ⟨[], rfl, rfl, nofun, Nat.zero_le _, fun _ => nofun⟩
    | cons c t =>
      rw [scanDigits] at h
      cases hc : hexVal c with
      | none =>
        rw [hc] at h
        cases h
        refine ⟨[], rfl, rfl, nofun, Nat.zero_le _, fun _ x hx => ?_⟩
        obtain rfl : c = x := Option.some.inj hx
        exact hc
      | some d =>
        rw [hc] at h
        rcases hs : scanDigits w (16 * acc + d) t with ⟨n', v', rest'⟩
        simp only [hs] at h
        cases h
        obtain ⟨ds, rfl, hl, hh, hw, hm⟩ := ih hs
        refine ⟨c :: ds, rfl, by rw [List.length_cons, hl], ?_, Nat.succ_le_succ hw,
          fun hlt => hm (Nat.lt_of_succ_lt_succ hlt)⟩
        exact List.forall_mem_cons.mpr ⟨by rw [hc]; rfl, hh⟩

/-- Scanning takes all the digits it can. -/
theorem scanDigits_most (hh : IsHex digits) (hw : digits.length ≤ w)
    (hm : digits.length < w → ∀ c ∈ rest.head?, hexVal c = none) (acc : Nat) :
    ∃ v, scanDigits w acc (digits ++ rest) = (digits.length, v, rest) := by
  induction digits generalizing w acc with
  | nil =>
    cases w with
    | zero => exact ⟨acc, rfl⟩
    | succ w =>
      cases rest with
      | nil => exact ⟨acc, rfl⟩
      | cons c rest =>
        have hc := hm (Nat.succ_pos w) c rfl
        exact ⟨acc, by rw [List.nil_append, scanDigits, hc]; rfl⟩
  | cons c ds ih =>
    obtain ⟨hc, hh⟩ := List.forall_mem_cons.mp hh
    obtain ⟨d, hd⟩ := Option.isSome_iff_exists.mp hc
    cases w with
    | zero => cases hw
    | succ w =>
      obtain ⟨v, hv⟩ := ih hh (Nat.le_of_succ_le_succ hw)
        (fun hlt => hm (Nat.succ_lt_succ hlt)) (16 * acc + d)
      exact ⟨v, by rw [List.cons_append, scanDigits, hd]; simp only [hv, List.length_cons]⟩

/-- What `scanUnsigned` takes. -/
structure Digits (w : Nat) (t rest base digits : CStr) : Prop where
  text : t = base ++ (digits ++ rest)
  isBase : base = [] ∨ base = ['0', 'x'] ∨ base = ['0', 'X']
  isHex : IsHex digits
  ne_nil : digits ≠ []
  width : (base ++ digits).length ≤ w
  most : (base ++ digits).length < w → ∀ c ∈ rest.head?, hexVal c = none
  whole : base = [] → digits = ['0'] → 2 ≤ w → ∀ c ∈ rest.head?, c ≠ 'x' ∧ c ≠ 'X'

theorem not_hex_x : hexVal 'x' = none ∧ hexVal 'X' = none := by decide

/-- Without a `0x`, `scanUnsigned` scans digits. -/
theorem scanUnsigned_plain (h : ∀ x s', t = '0' :: x :: s' → 2 ≤ w → x ≠ 'x' ∧ x ≠ 'X') :
    scanUnsigned w t =
      if (scanDigits w 0 t).1 = 0 then none
      else some ((scanDigits w 0 t).2.1, (scanDigits w 0 t).2.2) := by
  unfold scanUnsigned
  split
  rename_i w' t' hwt
  obtain ⟨rfl, rfl⟩ : w' = w ∧ t' = t := by
    split at hwt
    · rename_i x s'
      rw [if_neg] at hwt
      · exact ⟨(Prod.mk.inj hwt).1.symm, (Prod.mk.inj hwt).2.symm⟩
      · rintro ⟨hw, hx⟩
        obtain ⟨h1, h2⟩ := h x s' rfl hw
        rcases hx with hx | hx
        · exact h1 hx
        · exact h2 hx
    · exact ⟨(Prod.mk.inj hwt).1.symm, (Prod.mk.inj hwt).2.symm⟩
  rfl

/-- After a `0x`, it scans digits in what is left of its width. -/
theorem scanUnsigned_base {x : Char} (hx : x = 'x' ∨ x = 'X') (hw : 2 ≤ w) :
    scanUnsigned w ('0' :: x :: t) =
      if (scanDigits (w - 2) 0 t).1 = 0 then none
      else some ((scanDigits (w - 2) 0 t).2.1, (scanDigits (w - 2) 0 t).2.2) := by
  unfold scanUnsigned
  simp only [hw, hx, and_self, if_true]

theorem scanUnsigned_some {v : Nat} (h : scanUnsigned w t = some (v, rest)) :
    ∃ base digits, Digits w t rest base digits := by
  by_cases hx : ∃ x s', t = '0' :: x :: s' ∧ 2 ≤ w ∧ (x = 'x' ∨ x = 'X')
  · obtain ⟨x, s', rfl, hw, hx⟩ := hx
    rw [scanUnsigned_base hx hw] at h
    rcases hs : scanDigits (w - 2) 0 s' with ⟨n, v', rest'⟩
    simp only [hs] at h
    split at h <;> [cases h; skip]
    rename_i hn
    cases h
    obtain ⟨ds, rfl, hl, hh, hle, hm⟩ := scanDigits_some hs
    refine ⟨['0', x], ds, rfl, by rcases hx with rfl | rfl <;> simp, hh, ?_, ?_, ?_, nofun⟩
    · rintro rfl
      exact hn hl.symm
    · simp only [List.length_append, List.length_cons, List.length_nil]
      omega
    · intro hlt
      simp only [List.length_append, List.length_cons, List.length_nil] at hlt
      exact hm (by omega)
  · rw [scanUnsigned_plain fun x s' ht hw => ⟨fun e => hx ⟨x, s', ht, hw, .inl e⟩,
      fun e => hx ⟨x, s', ht, hw, .inr e⟩⟩] at h
    rcases hs : scanDigits w 0 t with ⟨n, v', rest'⟩
    simp only [hs] at h
    split at h <;> [cases h; skip]
    rename_i hn
    cases h
    obtain ⟨ds, rfl, hl, hh, hle, hm⟩ := scanDigits_some hs
    refine ⟨[], ds, rfl, .inl rfl, hh, ?_, ?_, ?_, ?_⟩
    · rintro rfl
      exact hn hl.symm
    · rw [List.nil_append, hl]
      exact hle
    · rw [List.nil_append, hl]
      exact hm
    · rintro - rfl hw c hc
      cases rest with
      | nil => cases hc
      | cons c' rest =>
        obtain rfl : c' = c := Option.some.inj hc
        exact ⟨fun e => hx ⟨c', rest, rfl, hw, .inl e⟩, fun e => hx ⟨c', rest, rfl, hw, .inr e⟩⟩

theorem Digits.scan (h : Digits w t rest base digits) :
    ∃ v, scanUnsigned w t = some (v, rest) := by
  obtain ⟨rfl, hbase, hh, hne, hw, hm, hwhole⟩ := h
  have hpos : digits.length ≠ 0 := fun e => hne (List.length_eq_zero_iff.mp e)
  have based : ∀ x, x = 'x' ∨ x = 'X' → base = ['0', x] →
      ∃ v, scanUnsigned w (base ++ (digits ++ rest)) = some (v, rest) := by
    rintro x hx rfl
    simp only [List.length_append, List.length_cons, List.length_nil] at hw hm
    obtain ⟨v, hv⟩ := scanDigits_most (w := w - 2) hh (by omega) (fun hlt => hm (by omega)) 0
    refine ⟨v, ?_⟩
    rw [List.cons_append, List.cons_append, List.nil_append, scanUnsigned_base hx (by omega), hv,
      if_neg hpos]
  rcases hbase with rfl | hb | hb
  · rw [List.nil_append] at hw hm ⊢
    obtain ⟨v, hv⟩ := scanDigits_most hh hw hm 0
    refine ⟨v, ?_⟩
    rw [scanUnsigned_plain, hv, if_neg hpos]
    intro x s' ht hw2
    -- an `x` after the first digit is not a digit, so it starts the rest
    match digits, hne with
    | [d], _ =>
      obtain ⟨rfl, hr⟩ := List.cons.inj ht
      exact hwhole rfl rfl hw2 x (congrArg List.head? (show rest = x :: s' from hr))
    | d :: y :: ds, _ =>
      obtain ⟨-, hr⟩ := List.cons.inj ht
      obtain ⟨rfl, -⟩ := List.cons.inj hr
      have hy := hh y (by simp)
      constructor <;> rintro rfl
      · rw [not_hex_x.1] at hy
        cases hy
      · rw [not_hex_x.2] at hy
        cases hy
  · exact based 'x' (.inl rfl) hb
  · exact based 'X' (.inr rfl) hb

/-! ## Conversions -/

variable {space sign : CStr}

/-- A sign and digits, after white space, are a conversion. -/
theorem Digits.field (sign : CStr) (h : Digits (w - sign.length) t rest base digits)
    (hspace : ∀ c ∈ space, isSpace c = true) (hsign : sign = [] ∨ sign = ['-'] ∨ sign = ['+']) :
    Takes w (space ++ (sign ++ t)) rest := by
  obtain ⟨rfl, hbase, hh, hne, hw, hm, hwhole⟩ := h
  have hpos : 0 < digits.length := List.length_pos_of_ne_nil hne
  simp only [List.length_append] at hw hm
  refine ⟨space, sign, base, digits, rfl, hspace, hsign, hbase, hh, hne, ?_, ?_, ?_⟩
  · simp only [List.length_append]
    omega
  · simp only [List.length_append]
    exact fun hlt => hm (by omega)
  · exact fun hb hd hlt => hwhole hb hd (by omega)

theorem field_unsigned (h : Field w s rest space sign base digits) :
    Digits (w - sign.length) (base ++ (digits ++ rest)) rest base digits := by
  obtain ⟨-, -, -, hbase, hh, hne, hw, hm, hwhole⟩ := h
  simp only [List.length_append] at hw hm
  refine ⟨rfl, hbase, hh, hne, ?_, ?_, ?_⟩
  · simp only [List.length_append]
    omega
  · simp only [List.length_append]
    exact fun hlt => hm (by omega)
  · exact fun hb hd hlt => hwhole hb hd (by omega)

/-- What follows the sign starts with a digit. -/
theorem field_head (h : Field w s rest space sign base digits) :
    ∃ c u, base ++ (digits ++ rest) = c :: u ∧ (hexVal c).isSome = true := by
  obtain ⟨-, -, -, hbase, hh, hne, -⟩ := h
  have zero : (hexVal '0').isSome = true := by decide
  rcases hbase with rfl | rfl | rfl
  · obtain ⟨d, ds, rfl⟩ := List.exists_cons_of_ne_nil hne
    exact ⟨d, ds ++ rest, rfl, hh d List.mem_cons_self⟩
  · exact ⟨'0', _, rfl, zero⟩
  · exact ⟨'0', _, rfl, zero⟩

theorem scanHex_some {v : Int} (h : scanHex w s = some (v, rest)) : Takes w s rest := by
  have hs : s = s.takeWhile isSpace ++ s.dropWhile isSpace := List.takeWhile_append_dropWhile.symm
  have hspace : ∀ c ∈ s.takeWhile isSpace, isSpace c = true :=
    List.all_eq_true.mp List.all_takeWhile
  unfold scanHex at h
  rw [hs]
  generalize s.takeWhile isSpace = space at hspace ⊢
  generalize s.dropWhile isSpace = t at h
  have unsigned : ∀ {w' t'} {g : Nat × CStr → Int × CStr}, (∀ p, (g p).2 = p.2) →
      (scanUnsigned w' t').map g = some (v, rest) → ∃ base digits, Digits w' t' rest base digits := by
    intro w' t' g hg hm
    obtain ⟨⟨n, rest'⟩, hscan, hp⟩ := Option.map_eq_some_iff.mp hm
    have hrest := hg (n, rest')
    rw [hp] at hrest
    obtain rfl : rest = rest' := hrest
    exact scanUnsigned_some hscan
  split at h
  · rename_i t'
    obtain ⟨base, digits, hd⟩ := unsigned (fun _ => rfl) h
    exact Digits.field ['-'] hd hspace (.inr (.inl rfl))
  · rename_i t'
    obtain ⟨base, digits, hd⟩ := unsigned (fun _ => rfl) h
    exact Digits.field ['+'] hd hspace (.inr (.inr rfl))
  · obtain ⟨base, digits, hd⟩ := unsigned (fun _ => rfl) h
    exact Digits.field [] hd hspace (.inl rfl)

theorem scanHex_of_takes (h : Takes w s rest) : ∃ v, scanHex w s = some (v, rest) := by
  obtain ⟨space, sign, base, digits, hf⟩ := h
  obtain ⟨c, u, hu, hc⟩ := field_head hf
  obtain ⟨-, -, hnsp, hminus, hplus, -⟩ := hexChars_facts c (mem_hexChars hc)
  obtain ⟨v, hv⟩ := (field_unsigned hf).scan
  have hdrop : ∀ {x y}, isSpace x = false →
      (space ++ x :: y).dropWhile isSpace = x :: y := by
    intro x y hx
    rw [List.dropWhile_append_of_pos hf.isSpace, List.dropWhile_cons, hx]
    rfl
  rw [hu] at hv
  unfold scanHex
  rw [hf.text, hu]
  rcases hf.isSign with rfl | rfl | rfl
  · rw [List.nil_append, hdrop hnsp]
    split
    · rename_i he
      exact absurd (List.cons.inj he).1 hminus
    · rename_i he
      exact absurd (List.cons.inj he).1 hplus
    · exact ⟨v, congrArg (Option.map fun p : Nat × CStr => ((p.1 : Int), p.2)) hv⟩
  · rw [List.singleton_append, hdrop (by decide)]
    exact ⟨-v, congrArg (Option.map fun p : Nat × CStr => (-(p.1 : Int), p.2)) hv⟩
  · rw [List.singleton_append, hdrop (by decide)]
    exact ⟨v, congrArg (Option.map fun p : Nat × CStr => ((p.1 : Int), p.2)) hv⟩

/-! ## The format -/

/-- `sscanf` does all `k` conversions of a format exactly on the strings that
start with the parts. -/
def Counts (ds : List Directive) (k : Nat) (ps : List Part) : Prop :=
  ∀ s m, (sscanf ds s m).2 = k ↔ Scans ps s

theorem counts_nil : Counts [] 0 [] := fun _ _ => iff_of_true rfl trivial

theorem Counts.hex {ds : List Directive} {k : Nat} {ps : List Part} (h : Counts ds k ps)
    (w bytes off : Nat) : Counts (.hex w bytes off :: ds) (k + 1) (.field w :: ps) := by
  intro s m
  rw [sscanf, Scans]
  cases hs : scanHex w s with
  | none =>
    refine iff_of_false (Nat.succ_ne_zero k).symm ?_
    rintro ⟨rest, htake, -⟩
    obtain ⟨v, hv⟩ := scanHex_of_takes htake
    rw [hs] at hv
    cases hv
  | some p =>
    obtain ⟨v, rest⟩ := p
    dsimp only
    rw [Nat.add_right_cancel_iff, h]
    constructor
    · exact fun hm => ⟨rest, scanHex_some hs, hm⟩
    · rintro ⟨rest', htake, hm⟩
      obtain ⟨v', hv⟩ := scanHex_of_takes htake
      obtain rfl : rest = rest' := (Prod.mk.inj (Option.some.inj (hs.symm.trans hv))).2
      exact hm

theorem Counts.lit {ds : List Directive} {k : Nat} {ps : List Part} (h : Counts ds (k + 1) ps) :
    Counts (.lit '-' :: ds) (k + 1) (.hyphen :: ps) := by
  intro s m
  rw [Scans]
  cases s with
  | nil =>
    refine iff_of_false (Nat.succ_ne_zero k).symm ?_
    rintro ⟨rest, he, -⟩
    cases he
  | cons c s =>
    rw [sscanf]
    split
    · rename_i hc
      subst hc
      rw [h]
      constructor
      · exact fun hm => ⟨s, rfl, hm⟩
      · rintro ⟨rest, he, hm⟩
        exact (List.cons.inj he).2 ▸ hm
    · rename_i hc
      refine iff_of_false (Nat.succ_ne_zero k).symm ?_
      rintro ⟨rest, he, -⟩
      exact hc (List.cons.inj he).1

/-- All ten conversions are done exactly if the string starts with the parts
of an id. -/
theorem sscanf_iff (dm : DataModel) (n : CStr) (r : Bytes) :
    (sscanf (uuidFormat dm) n r).2 = 10 ↔ Scans idParts n := by
  have hlast := (((((counts_nil.hex 2 1 15).hex 2 1 14).hex 2 1 13).hex 2 1 12).hex 2 1 11).hex 2 1 10
  have hgroups := ((((hlast.lit.hex 4 dm.longBytes 8).lit.hex 4 dm.longBytes 6).lit.hex 4
    dm.longBytes 4).lit.hex 8 8 0)
  exact hgroups n r

/-! ## Texts of ids -/

theorem isUuid_split {n : CStr} (h : IsUuid n) :
    ∃ a b c d e, Group 8 a ∧ Group 4 b ∧ Group 4 c ∧ Group 4 d ∧ Group 12 e ∧
      n = a ++ '-' :: (b ++ '-' :: (c ++ '-' :: (d ++ '-' :: e))) := by
  obtain ⟨hlen, h0, m8, h9, m13, h14, m18, h19, m23, h24⟩ := h
  refine ⟨group n 0 8, group n 9 4, group n 14 4, group n 19 4, group n 24 12, ⟨h0, ?_⟩, ⟨h9, ?_⟩,
    ⟨h14, ?_⟩, ⟨h19, ?_⟩, ⟨h24, ?_⟩, ?_⟩
  · simp [group, hlen]
  · simp [group, hlen]
  · simp [group, hlen]
  · simp [group, hlen]
  · simp [group, hlen]
  · have hend : n.drop 36 = [] := List.drop_eq_nil_of_le (by rw [hlen])
    have := drop_group n 0 8
    rw [drop_group n (0 + 8) 1, drop_group n (0 + 8 + 1) 4, drop_group n (0 + 8 + 1 + 4) 1,
      drop_group n (0 + 8 + 1 + 4 + 1) 4, drop_group n (0 + 8 + 1 + 4 + 1 + 4) 1,
      drop_group n (0 + 8 + 1 + 4 + 1 + 4 + 1) 4, drop_group n (0 + 8 + 1 + 4 + 1 + 4 + 1 + 4) 1,
      drop_group n (0 + 8 + 1 + 4 + 1 + 4 + 1 + 4 + 1) 12, hend, m8, m13, m18, m23,
      List.append_nil] at this
    exact this

/-- The text of an id starts with the parts of one. -/
theorem scans_isUuid {n : CStr} (h : IsUuid n) : Scans idParts n := by
  obtain ⟨a, b, c, d, e, ha, hb, hc, hd, he, rfl⟩ := isUuid_split h
  obtain ⟨hpairs, hpair⟩ := he.pairs
  have hscan : sscanf (uuidFormat .lp64) (idText a b c d _) (fun _ => 0) = _ :=
    sscanf_idText ha hb hc hd hpair
  rw [idText, ← hpairs] at hscan
  rw [← sscanf_iff .lp64 _ fun _ => 0, hscan]

end DQ.Proof.Uuid
