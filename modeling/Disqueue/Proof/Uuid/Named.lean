import Disqueue.Proof.Uuid.Memory
import Disqueue.Proof.Uuid.Text

/-!
# The id made of a name

Where `unsigned long` has 8 bytes, swapping the first group writes zeros over
the two after it: every id made of a name has zeros there
(`parseUuid_zeros`). The id is the name, ignoring case, exactly when the name
is an id's text with zeros there (`named_id_iff`).
-/

namespace DQ.Proof.Uuid

open DQ.Model DQ.Spec

/-- A group of digits of a given width. -/
structure Group (w : Nat) (a : CStr) : Prop where
  hex : IsHex a
  length : a.length = w

variable {a b c d rest : CStr} {m : Bytes} {w bytes off : Nat} {ds : List Directive}

/-- A conversion of a group stores its value. -/
theorem sscanf_group (ha : Group w a) (hw : 0 < w) (hb : w ≤ 2 * bytes) :
    sscanf (.hex w bytes off :: ds) (a ++ rest) m =
      ((sscanf ds rest (pokeInt m off bytes (hexValue 0 a))).1,
        (sscanf ds rest (pokeInt m off bytes (hexValue 0 a))).2 + 1) := by
  have hne : a ≠ [] := by
    rintro rfl
    have := ha.length
    simp at this
    omega
  have hscan : scanHex w (a ++ rest) = some ((hexValue 0 a : Int), rest) := by
    rw [← ha.length]
    exact scanHex_group ha.hex hne
  have hlt : hexValue 0 a < 256 ^ bytes := by
    refine Nat.lt_of_lt_of_le (hexValue_lt ha.hex) ?_
    rw [ha.length, show (256 : Nat) = 16 ^ 2 by rfl, ← Nat.pow_mul]
    exact Nat.pow_le_pow_right (by decide) hb
  have hv : ((hexValue 0 a : Int) % 256 ^ bytes).toNat = hexValue 0 a := by
    have : ((hexValue 0 a : Int) % 256 ^ bytes) = ((hexValue 0 a % 256 ^ bytes : Nat) : Int) := by
      push_cast
      rfl
    rw [this, Int.toNat_natCast, Nat.mod_eq_of_lt hlt]
  rw [sscanf, hscan]
  dsimp only
  rw [hv]

theorem sscanf_lit (x : Char) : sscanf (.lit x :: ds) (x :: rest) m = sscanf ds rest m := by
  rw [sscanf, if_pos rfl]

/-- The text of an id, by its groups. The last one is in six parts, one for
each byte. -/
def idText (a b c d : CStr) (e : List CStr) : CStr :=
  a ++ '-' :: (b ++ '-' :: (c ++ '-' :: (d ++ '-' :: e.flatten)))

/-- The memory after the conversions. -/
def scanned (dm : DataModel) (r : Bytes) (a b c d e₀ e₁ e₂ e₃ e₄ e₅ : CStr) : Bytes :=
  let r := pokeInt r 0 8 (hexValue 0 a)
  let r := pokeInt r 4 dm.longBytes (hexValue 0 b)
  let r := pokeInt r 6 dm.longBytes (hexValue 0 c)
  let r := pokeInt r 8 dm.longBytes (hexValue 0 d)
  let r := pokeInt r 10 1 (hexValue 0 e₀)
  let r := pokeInt r 11 1 (hexValue 0 e₁)
  let r := pokeInt r 12 1 (hexValue 0 e₂)
  let r := pokeInt r 13 1 (hexValue 0 e₃)
  let r := pokeInt r 14 1 (hexValue 0 e₄)
  pokeInt r 15 1 (hexValue 0 e₅)

variable {e₀ e₁ e₂ e₃ e₄ e₅ : CStr}

/-- Scanning an id's text. -/
theorem sscanf_idText {dm : DataModel} {r : Bytes} (ha : Group 8 a) (hb : Group 4 b)
    (hc : Group 4 c) (hd : Group 4 d) (he : ∀ x ∈ [e₀, e₁, e₂, e₃, e₄, e₅], Group 2 x) :
    sscanf (uuidFormat dm) (idText a b c d [e₀, e₁, e₂, e₃, e₄, e₅]) r =
      (scanned dm r a b c d e₀ e₁ e₂ e₃ e₄ e₅, 10) := by
  have hlong : 4 ≤ 2 * dm.longBytes := by cases dm <;> decide
  simp only [List.forall_mem_cons] at he
  obtain ⟨h0, h1, h2, h3, h4, h5, -⟩ := he
  have hlast : [e₀, e₁, e₂, e₃, e₄, e₅].flatten = e₀ ++ (e₁ ++ (e₂ ++ (e₃ ++ (e₄ ++ (e₅ ++ []))))) := by
    simp only [List.flatten_cons, List.flatten_nil]
  rw [uuidFormat, idText, hlast, sscanf_group ha, sscanf_lit, sscanf_group hb, sscanf_lit,
    sscanf_group hc, sscanf_lit, sscanf_group hd, sscanf_lit, sscanf_group h0, sscanf_group h1,
    sscanf_group h2, sscanf_group h3, sscanf_group h4, sscanf_group h5]
  · rfl
  all_goals omega

/-- The byte swaps of `manager_queue_get`. -/
def reordered (dm : DataModel) (m : Bytes) : Bytes :=
  let r := pokeInt m 0 dm.longBytes (htonl (peekInt m 0 dm.longBytes))
  let r := pokeInt r 4 2 (htons (peekInt r 4 2))
  let r := pokeInt r 6 2 (htons (peekInt r 6 2))
  pokeInt r 8 2 (htons (peekInt r 8 2))

variable {dm : DataModel}

theorem htonl_long (m : Bytes) : htonl (peekInt m 0 dm.longBytes) = htonl (peekInt m 0 4) := by
  cases dm with
  | llp64 => rfl
  | lp64 => exact htonl_eight m 0

theorem reordered_first (m : Bytes) : peekInt (reordered dm m) 0 4 = htonl (peekInt m 0 4) := by
  have hlong : 4 ≤ dm.longBytes := by cases dm <;> decide
  unfold reordered
  iterate 3 rw [peekInt_pokeInt_of_disjoint (.inl (by decide))]
  rw [peekInt_pokeInt hlong, htonl_long]
  exact Nat.mod_eq_of_lt (htonl_lt _)

theorem reordered_fourth (m : Bytes) : peekInt (reordered dm m) 8 2 = htons (peekInt m 8 2) := by
  have hlong : dm.longBytes ≤ 8 := by cases dm <;> decide
  unfold reordered
  rw [peekInt_pokeInt (by decide)]
  iterate 2 rw [peekInt_pokeInt_of_disjoint (.inr (by decide))]
  rw [peekInt_pokeInt_of_disjoint (.inr (by omega))]
  exact Nat.mod_eq_of_lt (htons_lt _)

theorem reordered_last (m : Bytes) {i : Nat} (hi : 10 ≤ i) : reordered dm m i = m i := by
  have hlong : dm.longBytes ≤ 8 := by cases dm <;> decide
  unfold reordered
  rw [pokeInt_of_not (by omega), pokeInt_of_not (by omega), pokeInt_of_not (by omega),
    pokeInt_of_not (by omega)]

/-- The byte swaps of `manager_queue_get`, where `unsigned long` has 8 bytes. -/
def swapped (m : Bytes) : Bytes :=
  let r := pokeInt m 0 8 (htonl (peekInt m 0 8))
  let r := pokeInt r 4 2 (htons (peekInt r 4 2))
  let r := pokeInt r 6 2 (htons (peekInt r 6 2))
  pokeInt r 8 2 (htons (peekInt r 8 2))

theorem parseUuid_eq_some {r u : Bytes} {n : CStr} :
    parseUuid .lp64 r n = some u ↔
      ∃ m, sscanf (uuidFormat .lp64) n r = (m, 10) ∧ swapped m = u := by
  unfold parseUuid
  generalize sscanf (uuidFormat .lp64) n r = p
  obtain ⟨m, k⟩ := p
  by_cases hk : k = 10
  · subst hk
    simp [swapped, DataModel.longBytes]
  · simp [hk]

theorem swapped_eq (m : Bytes) : swapped m = reordered .lp64 m := rfl

/-- The first group survives the swap. -/
theorem swapped_first (m : Bytes) : htonl (peekInt (swapped m) 0 8) = peekInt m 0 4 := by
  rw [htonl_eight, swapped_eq, reordered_first, htonl_htonl (peekInt_lt m 0 4)]

/-- The swap of the first group writes zeros over the two after it. -/
theorem swapped_zeros (m : Bytes) : peekInt (swapped m) 4 2 = 0 ∧ peekInt (swapped m) 6 2 = 0 := by
  have hhigh : ∀ j, 4 ≤ j → htonl (peekInt m 0 8) / 256 ^ j % 256 ^ 2 = 0 := by
    intro j hj
    have : 256 ^ 4 ≤ 256 ^ j := Nat.pow_le_pow_right (by decide) hj
    rw [Nat.div_eq_of_lt (Nat.lt_of_lt_of_le (htonl_lt _) this), Nat.zero_mod]
  have h4 : peekInt (pokeInt m 0 8 (htonl (peekInt m 0 8))) 4 2 = 0 :=
    (peekInt_pokeInt_rest (j := 4) (by decide)).trans (hhigh 4 (by decide))
  have h6 : peekInt (pokeInt m 0 8 (htonl (peekInt m 0 8))) 6 2 = 0 :=
    (peekInt_pokeInt_rest (j := 6) (by decide)).trans (hhigh 6 (by decide))
  unfold swapped
  constructor
  · rw [peekInt_pokeInt_of_disjoint (.inl (by decide)), peekInt_pokeInt_of_disjoint
      (.inl (by decide)), peekInt_pokeInt (by decide), h4]
    rfl
  · rw [peekInt_pokeInt_of_disjoint (.inl (by decide)), peekInt_pokeInt (by decide),
      peekInt_pokeInt_of_disjoint (.inr (by decide)), h6]
    rfl

theorem swapped_fourth (m : Bytes) : htons (peekInt (swapped m) 8 2) = peekInt m 8 2 := by
  rw [swapped_eq, reordered_fourth, htons_htons (peekInt_lt m 8 2)]

/-- The id that the swap makes. -/
theorem queueGetUuid_swapped (m : Bytes) :
    queueGetUuid .lp64 (swapped m) =
      printHex 8 (peekInt m 0 4) ++ (zeroGroups ++ (printHex 4 (peekInt m 8 2) ++ '-' ::
        [10, 11, 12, 13, 14, 15].flatMap fun i => printHex 2 (m i).toNat)) := by
  obtain ⟨h4, h6⟩ := swapped_zeros m
  have hlast : ([10, 11, 12, 13, 14, 15].flatMap fun i => printHex 2 (swapped m i).toNat) =
      [10, 11, 12, 13, 14, 15].flatMap fun i => printHex 2 (m i).toNat := by
    refine List.flatMap_congr fun i hi => ?_
    rw [swapped_eq, reordered_last m (by revert hi; simp; omega)]
  unfold queueGetUuid
  rw [DataModel.longBytes, swapped_first, h4, h6, swapped_fourth, hlast]
  rfl

/-! ## What is scanned of an id's text -/

theorem Group.value_lt (h : Group w a) : hexValue 0 a < 16 ^ w := h.length ▸ hexValue_lt h.hex

theorem Group.print (h : Group w a) : printHex w (hexValue 0 a) = fold a := by
  rw [← printHex_value h.hex, h.length]

/-- The byte of a group of two digits. -/
theorem Group.byte (h : Group 2 a) : (UInt8.ofNat (hexValue 0 a / 256 ^ 0)).toNat = hexValue 0 a := by
  have hlt := h.value_lt
  rw [Nat.pow_zero, Nat.div_one]
  exact UInt8.toNat_ofNat_of_lt' hlt

theorem scanned_first {dm : DataModel} {r : Bytes} (ha : Group 8 a) :
    peekInt (scanned dm r a b c d e₀ e₁ e₂ e₃ e₄ e₅) 0 4 = hexValue 0 a := by
  unfold scanned
  iterate 9 rw [peekInt_pokeInt_of_disjoint (.inl (by decide))]
  rw [peekInt_pokeInt (by decide)]
  exact Nat.mod_eq_of_lt ha.value_lt

theorem scanned_fourth {dm : DataModel} {r : Bytes} (hd : Group 4 d) :
    peekInt (scanned dm r a b c d e₀ e₁ e₂ e₃ e₄ e₅) 8 2 = hexValue 0 d := by
  have hlong : 2 ≤ dm.longBytes := by cases dm <;> decide
  unfold scanned
  iterate 6 rw [peekInt_pokeInt_of_disjoint (.inl (by decide))]
  rw [peekInt_pokeInt hlong]
  exact Nat.mod_eq_of_lt hd.value_lt

/-- The bytes of the last group. -/
theorem scanned_bytes {r : Bytes} (he : ∀ x ∈ [e₀, e₁, e₂, e₃, e₄, e₅], Group 2 x) :
    [10, 11, 12, 13, 14, 15].map (fun i =>
      (scanned dm r a b c d e₀ e₁ e₂ e₃ e₄ e₅ i).toNat) =
      [e₀, e₁, e₂, e₃, e₄, e₅].map (hexValue 0) := by
  simp only [List.forall_mem_cons] at he
  obtain ⟨h0, h1, h2, h3, h4, h5, -⟩ := he
  have hb : ∀ {m : Bytes} {off : Nat} {x : CStr}, Group 2 x →
      (pokeInt m off 1 (hexValue 0 x) off).toNat = hexValue 0 x := by
    intro m off x hx
    have hput : pokeInt m off 1 (hexValue 0 x) (off + 0) = UInt8.ofNat (hexValue 0 x / 256 ^ 0) :=
      pokeInt_byte Nat.one_pos
    rw [Nat.add_zero] at hput
    rw [hput, hx.byte]
  have hn : ∀ {m : Bytes} {off v i : Nat}, i < off → pokeInt m off 1 v i = m i :=
    fun h => pokeInt_of_not (by omega)
  simp (disch := omega) only [List.map_cons, List.map_nil, scanned, hn, hb h0, hb h1, hb h2, hb h3,
    hb h4, hb h5]

theorem scanned_last {r : Bytes} (he : ∀ x ∈ [e₀, e₁, e₂, e₃, e₄, e₅], Group 2 x) :
    ([10, 11, 12, 13, 14, 15].flatMap fun i =>
      printHex 2 (scanned .lp64 r a b c d e₀ e₁ e₂ e₃ e₄ e₅ i).toNat) =
      fold [e₀, e₁, e₂, e₃, e₄, e₅].flatten := by
  have hprint : ([e₀, e₁, e₂, e₃, e₄, e₅].map fun x => printHex 2 (hexValue 0 x)) =
      [e₀, e₁, e₂, e₃, e₄, e₅].map fold := List.map_congr_left fun x hx => (he x hx).print
  have hflat (f : Nat → Nat) (is : List Nat) :
      (is.flatMap fun i => printHex 2 (f i)) = (is.map f).flatMap (printHex 2) :=
    (List.flatMap_map ..).symm
  rw [hflat, scanned_bytes he, List.flatMap_map, List.flatMap_def, hprint, fold, List.map_flatten]
  rfl

/-! ## Names with the form of an id -/

theorem Group.part (h : Group w a) {off len : Nat} (hk : off + len ≤ w) :
    Group len (group a off len) := by
  refine ⟨fun x hx => h.hex x (List.mem_of_mem_drop (List.mem_of_mem_take hx)), ?_⟩
  have := h.length
  rw [group, List.length_take, List.length_drop]
  omega

theorem drop_group (n : CStr) (off len : Nat) :
    n.drop off = group n off len ++ n.drop (off + len) := by
  rw [group, ← List.drop_drop, List.take_append_drop]

/-- A group of twelve digits, as six of two. -/
theorem Group.pairs (h : Group 12 a) :
    a = [group a 0 2, group a 2 2, group a 4 2, group a 6 2, group a 8 2, group a 10 2].flatten ∧
      ∀ x ∈ [group a 0 2, group a 2 2, group a 4 2, group a 6 2, group a 8 2, group a 10 2],
        Group 2 x := by
  constructor
  · have hend : a.drop 12 = [] := List.drop_eq_nil_of_le (by rw [h.length])
    have := drop_group a 0 2
    rw [drop_group a (0 + 2) 2, drop_group a (0 + 2 + 2) 2, drop_group a (0 + 2 + 2 + 2) 2,
      drop_group a (0 + 2 + 2 + 2 + 2) 2, drop_group a (0 + 2 + 2 + 2 + 2 + 2) 2, hend] at this
    exact this
  · intro x hx
    simp only [List.mem_cons, List.not_mem_nil, or_false] at hx
    rcases hx with rfl | rfl | rfl | rfl | rfl | rfl <;> exact h.part (by decide)

variable {n : CStr}

/-- A name of an id's form, by its groups. -/
theorem zeroNamed_split (h : ZeroNamed n) :
    ∃ a d e, Group 8 a ∧ Group 4 d ∧ Group 12 e ∧ n = a ++ (zeroGroups ++ (d ++ '-' :: e)) := by
  obtain ⟨hlen, ha, hz, hd, hh, he⟩ := h
  refine ⟨group n 0 8, group n 19 4, group n 24 12, ⟨ha, ?_⟩, ⟨hd, ?_⟩, ⟨he, ?_⟩, ?_⟩
  · simp [group, hlen]
  · simp [group, hlen]
  · simp [group, hlen]
  · have hend : n.drop 36 = [] := List.drop_eq_nil_of_le (by rw [hlen])
    have := drop_group n 0 8
    rw [drop_group n (0 + 8) 11, drop_group n (0 + 8 + 11) 4, drop_group n (0 + 8 + 11 + 4) 1,
      drop_group n (0 + 8 + 11 + 4 + 1) 12, hend, hz, hh, List.append_nil] at this
    exact this

/-- A name of an id's form, with zeros where every id made of a name has
them, is accepted, and is the id. -/
theorem named_id (h : ZeroNamed n) (r : Bytes) :
    ∃ u, parseUuid .lp64 r n = some u ∧ queueGetUuid .lp64 u = fold n := by
  obtain ⟨a, d, e, ha, hd, he, rfl⟩ := zeroNamed_split h
  obtain ⟨hpairs, hpair⟩ := he.pairs
  have hzero : Group 4 ['0', '0', '0', '0'] := ⟨by decide, rfl⟩
  have hscan : sscanf (uuidFormat .lp64) (idText a _ _ d _) r = _ :=
    sscanf_idText ha hzero hzero hd hpair
  rw [idText, ← hpairs] at hscan
  refine ⟨_, parseUuid_eq_some.mpr ⟨_, hscan, rfl⟩, ?_⟩
  rw [queueGetUuid_swapped, scanned_first ha, scanned_fourth hd, scanned_last hpair, ← hpairs,
    ha.print, hd.print]
  simp only [fold, List.map_append, List.map_cons]
  rfl

/-! ## Which names the ids are -/

theorem fold_append (a b : CStr) : fold (a ++ b) = fold a ++ fold b := List.map_append

theorem fold_cons (x : Char) (a : CStr) : fold (x :: a) = x.toLower :: fold a := rfl

/-- Ids are in lower case. -/
theorem fold_queueGetUuid (dm : DataModel) (u : Bytes) :
    fold (queueGetUuid dm u) = queueGetUuid dm u := by
  have hlast : ∀ is : List Nat, fold (is.flatMap fun i => printHex 2 (u i).toNat) =
      is.flatMap fun i => printHex 2 (u i).toNat := by
    intro is
    induction is with
    | nil => rfl
    | cons i is ih => rw [List.flatMap_cons, fold_append, fold_printHex, ih]
  unfold queueGetUuid
  simp only [fold_append, fold_cons, fold_printHex, hlast]
  rfl

/-- The id made of a name has zeros for its second and third group. -/
theorem parseUuid_zeros {r u : Bytes} (h : parseUuid .lp64 r n = some u) :
    ∃ a d e, Group 8 a ∧ Group 4 d ∧ Group 12 e ∧
      queueGetUuid .lp64 u = a ++ (zeroGroups ++ (d ++ '-' :: e)) := by
  obtain ⟨m, -, rfl⟩ := parseUuid_eq_some.mp h
  have hhex : ∀ w v, Group w (printHex w v) := fun w v => ⟨fun c hc => by
    obtain ⟨d, hd, rfl⟩ := printHex_mem hc
    exact (hexDigit_facts d hd).1, printHex_length w v⟩
  refine ⟨_, _, _, hhex 8 _, hhex 4 _, ⟨fun c hc => ?_, ?_⟩, queueGetUuid_swapped m⟩
  · obtain ⟨i, -, hi⟩ := List.mem_flatMap.mp hc
    exact (hhex 2 _).hex c hi
  · simp only [List.flatMap_cons, List.flatMap_nil, List.length_append, printHex_length]
    rfl

/-- An id's text, by its groups. -/
theorem zeroNamed_join (ha : Group 8 a) (hd : Group 4 d) {e : CStr} (he : Group 12 e)
    (hn : fold n = a ++ (zeroGroups ++ (d ++ '-' :: e))) : ZeroNamed n := by
  have hfold : ∀ off len, fold (group n off len) =
      group (a ++ (zeroGroups ++ (d ++ '-' :: e))) off len := by
    intro off len
    rw [← hn, group, group, fold, fold, List.map_take, List.map_drop]
  have la := ha.length
  have ld := hd.length
  have le := he.length
  have lz : zeroGroups.length = 11 := rfl
  have h0 : fold (group n 0 8) = a := by
    rw [hfold, group, List.drop_zero, List.take_left' la]
  have h8 : fold (group n 8 11) = zeroGroups := by
    rw [hfold, group, List.drop_left' la, List.take_left' lz]
  have h19 : fold (group n 19 4) = d := by
    rw [hfold, group, show 19 = 8 + 11 by rfl, ← List.drop_drop, List.drop_left' la,
      List.drop_left' lz, List.take_left' ld]
  have h23 : fold (group n 23 1) = ['-'] := by
    rw [hfold, group, show 23 = 8 + (11 + 4) by rfl, ← List.drop_drop, List.drop_left' la,
      ← List.drop_drop, List.drop_left' lz, List.drop_left' ld]
    rfl
  have h24 : fold (group n 24 12) = e := by
    rw [hfold, group, show 24 = 8 + (11 + (4 + 1)) by rfl, ← List.drop_drop, List.drop_left' la,
      ← List.drop_drop, List.drop_left' lz, ← List.drop_drop, List.drop_left' ld,
      List.drop_succ_cons, List.drop_zero, List.take_of_length_le le.le]
  refine ⟨?_, isHex_of_fold (h0 ▸ ha.hex), eq_of_fold (by decide +kernel) h8, isHex_of_fold (h19 ▸ hd.hex),
    eq_of_fold (by decide +kernel) h23, isHex_of_fold (h24 ▸ he.hex)⟩
  have := congrArg List.length hn
  simpa [fold, la, ld, le, lz] using this

/-- The id made of a name is the name, ignoring case, exactly when the name
is an id's text with zeros for its second and third group. -/
theorem named_id_iff {r u : Bytes} (h : parseUuid .lp64 r n = some u) :
    strcaseEq (queueGetUuid .lp64 u) n = true ↔ ZeroNamed n := by
  constructor
  · intro heq
    obtain ⟨a, d, e, ha, hd, he, hid⟩ := parseUuid_zeros h
    rw [strcaseEq_iff, fold_queueGetUuid] at heq
    exact zeroNamed_join ha hd he (heq.symm.trans hid)
  · intro hz
    obtain ⟨u', hp, hid⟩ := named_id hz r
    obtain rfl : u = u' := Option.some.inj (h.symm.trans hp)
    rw [strcaseEq_iff, fold_queueGetUuid, hid]

/-! ## Ids made of names and random ones -/

/-- The character of an id that says its version. -/
def version (id : CStr) : Option Char := id[14]?

/-- An id made of a name has no version. -/
theorem version_parsed {r u : Bytes} (h : parseUuid .lp64 r n = some u) :
    version (queueGetUuid .lp64 u) = some '0' := by
  obtain ⟨a, d, e, ha, hd, he, hid⟩ := parseUuid_zeros h
  have la := ha.length
  rw [version, hid, List.getElem?_append_right (by omega), la]
  rfl

/-- The first digit of four. -/
theorem printHex_four (v : Nat) : (printHex 4 v)[0]? = some (hexDigit (v / 16 / 16 / 16 % 16)) := by
  simp [printHex]

/-- The version is the high half of a byte. -/
theorem version_eq (dm : DataModel) (u : Bytes) :
    version (queueGetUuid dm u) = some (hexDigit ((u 6).toNat / 16)) := by
  have hswap : htons (peekInt u 6 2) = (u 7).toNat + 256 * (u 6).toNat :=
    htons_bytes (u 6).toNat_lt (u 7).toNat_lt
  have h6 := (u 6).toNat_lt
  have h7 := (u 7).toNat_lt
  have hdigit : ((u 7).toNat + 256 * (u 6).toNat) / 16 / 16 / 16 % 16 = (u 6).toNat / 16 := by omega
  rw [version, queueGetUuid]
  simp only [List.append_assoc, List.cons_append]
  rw [List.getElem?_append_right (by rw [printHex_length]; decide), printHex_length,
    List.getElem?_cons_succ, List.getElem?_append_right (by rw [printHex_length]; decide),
    printHex_length, List.getElem?_cons_succ,
    List.getElem?_append_left (by rw [printHex_length]; decide), printHex_four, hswap, hdigit]

/-- A random id is of version 4. -/
theorem version_random (dm : DataModel) (r : Bytes) :
    version (queueGetUuid dm (randomUuid r)) = some '4' := by
  have hbyte : (randomUuid r 6).toNat / 16 = 4 := by
    have hlow : (r 6).toNat &&& 15 < 2 ^ 4 := Nat.and_lt_two_pow _ (by decide)
    rw [randomUuid, if_pos rfl, UInt8.toNat_or, UInt8.toNat_and, ← Nat.shiftRight_eq_div_pow _ 4,
      Nat.shiftRight_or_distrib, Nat.shiftRight_eq_div_pow]
    exact congrArg (· ||| 4) (Nat.div_eq_of_lt hlow)
  rw [version_eq, hbyte]
  rfl

end DQ.Proof.Uuid
