import Mathlib.Data.List.Perm.Subperm
import Mathlib.Logic.Function.Basic

/-!
# Objects with counted references

An object has a count of references and members, which it refers to once each.
`new` makes an object with one reference, `add` gives a reference to a container,
and `release` gives one up: with the last, the object releases its members and is
freed. A program that gives up a reference that it does not have frees an object
again, and each free is counted.

`Grown` is what a program has to keep account of: the references that it holds
(`roots`) are those of trees of objects that are not shared (`Owns`), and
everything else that was made is freed. Each operation has a rule
(`Grown.new`, `Grown.add`, `Grown.release`, `Grown.releaseAgain`); at the end
everything was freed once exactly if no reference is held and none was released
again (`Grown.releasedOnce_iff`).
-/

namespace DQ

/-- An object: its references, its members and how often it was freed. -/
structure Object where
  count : Int := 1
  members : List Nat := []
  freed : Nat := 0
deriving DecidableEq

/-- The objects by their addresses, and the next address. -/
@[ext] structure Objects where
  get : Nat → Object
  next : Nat

namespace Objects

/-- No object. -/
def empty : Objects := ⟨fun _ => {}, 0⟩

def set (o : Objects) (id : Nat) (x : Object) : Objects := { o with get := Function.update o.get id x }

/-- A new object, at the next address. -/
def new (o : Objects) : Objects := { o.set o.next {} with next := o.next + 1 }

/-- The container's reference to `m`. -/
def add (o : Objects) (c m : Nat) : Objects :=
  o.set c { o.get c with members := (o.get c).members ++ [m] }

/-- A reference less; `fuel` bounds how deep the objects are. -/
def put : Nat → Objects → Nat → Objects
  | 0, o, _ => o
  | fuel + 1, o, id =>
    let x := o.get id
    let o := o.set id { x with count := x.count - 1 }
    if 1 < x.count then o
    else
      let o := x.members.foldl (put fuel) o
      o.set id { o.get id with freed := (o.get id).freed + 1 }

/-- A reference less. No object is deeper than there are objects. -/
def release (o : Objects) (id : Nat) : Objects := put o.next o id

/-- The objects `ids` freed once. -/
def free (o : Objects) (ids : List Nat) : Objects :=
  { o with get := fun id => if id ∈ ids then ⟨0, (o.get id).members, 1⟩ else o.get id }

variable {o o' : Objects}

@[simp] theorem set_next (id : Nat) (x : Object) : (o.set id x).next = o.next := rfl

@[simp] theorem set_get_self (id : Nat) (x : Object) : (o.set id x).get id = x :=
  Function.update_self ..

@[simp] theorem set_get_of_ne {id id' : Nat} (h : id' ≠ id) (x : Object) :
    (o.set id x).get id' = o.get id' := Function.update_of_ne h ..

@[simp] theorem free_next (ids : List Nat) : (o.free ids).next = o.next := rfl

theorem free_get (ids : List Nat) (id : Nat) :
    (o.free ids).get id = if id ∈ ids then ⟨0, (o.get id).members, 1⟩ else o.get id := rfl

theorem free_free (ids ids' : List Nat) : (o.free ids).free ids' = o.free (ids ++ ids') := by
  ext id
  · simp only [free_get, List.mem_append]
    by_cases h : id ∈ ids <;> by_cases h' : id ∈ ids' <;> simp [h, h']
  · rfl

/-! ## Trees -/

/-- The references `roots` are the only ones to trees of the objects `ids`. -/
inductive Owns (o : Objects) : List Nat → List Nat → Prop
  | nil : Owns o [] []
  | cons {id ms ids rest ids'} (hc : o.get id = ⟨1, ms, 0⟩) (hm : Owns o ms ids)
    (hr : Owns o rest ids') : Owns o (id :: rest) (id :: (ids ++ ids'))

variable {roots roots' ids ids' : List Nat}

theorem Owns.get (h : Owns o roots ids) : ∀ id ∈ ids, ∃ ms, o.get id = ⟨1, ms, 0⟩ := by
  induction h with
  | nil => exact fun _ h => absurd h List.not_mem_nil
  | cons hc _ _ ihm ihr =>
    intro id hid
    rcases List.mem_cons.mp hid with rfl | hid
    · exact ⟨_, hc⟩
    · exact (List.mem_append.mp hid).elim (ihm id) (ihr id)

/-- The roots are objects of their trees. -/
theorem Owns.roots_mem (h : Owns o roots ids) : roots ⊆ ids := by
  induction h with
  | nil => exact List.Subset.refl _
  | cons _ _ _ _ ihr =>
    intro id hid
    rcases List.mem_cons.mp hid with rfl | hid
    · exact List.mem_cons_self
    · exact List.mem_cons_of_mem _ (List.mem_append_right _ (ihr hid))

/-- So are the members of their objects. -/
theorem Owns.members_mem (h : Owns o roots ids) :
    ∀ id ∈ ids, ∀ m ∈ (o.get id).members, m ∈ ids := by
  induction h with
  | nil => exact fun _ h => absurd h List.not_mem_nil
  | cons hc hm _ ihm ihr =>
    intro id hid m hmem
    refine List.mem_cons_of_mem _ (List.mem_append.mpr ?_)
    rcases List.mem_cons.mp hid with rfl | hid
    · rw [hc] at hmem
      exact .inl (hm.roots_mem hmem)
    · exact (List.mem_append.mp hid).imp (fun h => ihm id h m hmem) fun h => ihr id h m hmem

theorem Owns.frame (h : Owns o roots ids) (hs : ∀ id ∈ ids, o'.get id = o.get id) :
    Owns o' roots ids := by
  induction h with
  | nil => exact .nil
  | cons hc _ _ ihm ihr =>
    refine .cons ((hs _ List.mem_cons_self).trans hc) (ihm fun id hid => ?_) (ihr fun id hid => ?_)
    · exact hs id (List.mem_cons_of_mem _ (List.mem_append_left _ hid))
    · exact hs id (List.mem_cons_of_mem _ (List.mem_append_right _ hid))

theorem Owns.append (h : Owns o roots ids) (h' : Owns o roots' ids') :
    Owns o (roots ++ roots') (ids ++ ids') := by
  induction h with
  | nil => exact h'
  | cons hc hm _ _ ihr =>
    rw [List.cons_append, List.cons_append, List.append_assoc]
    exact .cons hc hm ihr

theorem Owns.perm (h : Owns o roots ids) (hp : roots.Perm roots') :
    ∃ ids', ids.Perm ids' ∧ Owns o roots' ids' := by
  induction hp generalizing ids with
  | nil => exact ⟨ids, .refl _, h⟩
  | cons x _ ih =>
    cases h with
    | cons hc hm hr =>
      obtain ⟨ids', hp, hr'⟩ := ih hr
      exact ⟨_, (hp.append_left _).cons _, .cons hc hm hr'⟩
  | swap x y _ =>
    cases h with
    | @cons _ _ ids₁ _ _ hc hm hr =>
      cases hr with
      | @cons _ _ ids₂ _ ids₃ hc' hm' hr' =>
        refine ⟨_, List.perm_iff_count.mpr fun a => ?_, .cons hc' hm' (.cons hc hm hr')⟩
        simp only [List.count_cons, List.count_append]
        omega
  | trans _ _ ih ih' =>
    obtain ⟨ids₁, hp₁, h₁⟩ := ih h
    obtain ⟨ids₂, hp₂, h₂⟩ := ih' h₁
    exact ⟨ids₂, hp₁.trans hp₂, h₂⟩

/-- To give up the references to trees frees each of their objects once. -/
theorem Owns.put (h : Owns o roots ids) (hn : ids.Nodup) (hs : ∀ id ∈ ids, o'.get id = o.get id)
    {fuel : Nat} (hf : ids.length ≤ fuel) : roots.foldl (Objects.put fuel) o' = o'.free ids := by
  induction h generalizing o' fuel with
  | nil =>
    ext id
    · simp [free_get]
    · rfl
  | @cons id ms ids rest ids' hc hm hr ihm ihr =>
    obtain ⟨hid, hn⟩ := List.nodup_cons.mp hn
    obtain ⟨hnm, hnr, hdisj⟩ := List.nodup_append.mp hn
    rw [List.length_cons, List.length_append] at hf
    obtain ⟨fuel, rfl⟩ : ∃ k, fuel = k + 1 := ⟨fuel - 1, by omega⟩
    have hget : o'.get id = ⟨1, ms, 0⟩ := (hs id List.mem_cons_self).trans hc
    have hmembers : ms.foldl (Objects.put fuel) (o'.set id ⟨0, ms, 0⟩) =
        (o'.set id ⟨0, ms, 0⟩).free ids := by
      refine ihm hnm (fun i hi => ?_) (by omega)
      have hne : i ≠ id := fun he => hid (he ▸ List.mem_append_left _ hi)
      rw [set_get_of_ne hne]
      exact hs i (List.mem_cons_of_mem _ (List.mem_append_left _ hi))
    have hroot : Objects.put (fuel + 1) o' id = o'.free (id :: ids) := by
      have hids : id ∉ ids := fun hi => hid (List.mem_append_left _ hi)
      simp only [Objects.put, hget, Int.lt_irrefl, if_false, Int.sub_self, hmembers]
      ext i
      · by_cases hi : i = id
        · subst hi
          simp [free_get, hids, hget]
        · simp [free_get, hi]
      · rfl
    rw [List.foldl_cons, hroot, ihr hnr (fun i hi => ?_) (by omega), free_free, List.cons_append]
    have hne : i ∉ id :: ids := by
      rintro (_ | ⟨_, hm⟩)
      · exact hid (List.mem_append_right _ hi)
      · exact hdisj i hm i hi rfl
    rw [free_get, if_neg hne]
    exact hs i (List.mem_cons_of_mem _ (List.mem_append_right _ hi))

/-- Objects in `D` may have been released and freed more often. -/
structure Worn (D : Nat → Prop) (o o' : Objects) : Prop where
  next : o'.next = o.next
  other : ∀ id, ¬ D id → o'.get id = o.get id
  members : ∀ id, (o'.get id).members = (o.get id).members
  count : ∀ id, (o'.get id).count ≤ (o.get id).count
  freed : ∀ id, (o.get id).freed ≤ (o'.get id).freed

variable {D : Nat → Prop} {o'' : Objects}

theorem Worn.refl (D : Nat → Prop) (o : Objects) : Worn D o o :=
  ⟨rfl, fun _ _ => rfl, fun _ => rfl, fun _ => Int.le_refl _, fun _ => Nat.le_refl _⟩

theorem Worn.trans (h : Worn D o o') (h' : Worn D o' o'') : Worn D o o'' :=
  ⟨h'.next.trans h.next, fun id hid => (h'.other id hid).trans (h.other id hid),
    fun id => (h'.members id).trans (h.members id),
    fun id => Int.le_trans (h'.count id) (h.count id),
    fun id => Nat.le_trans (h.freed id) (h'.freed id)⟩

theorem worn_set {id : Nat} (hid : D id) {x : Object} (hm : x.members = (o.get id).members)
    (hc : x.count ≤ (o.get id).count) (hf : (o.get id).freed ≤ x.freed) : Worn D o (o.set id x) := by
  refine ⟨rfl, fun id' hid' => ?_, fun id' => ?_, fun id' => ?_, fun id' => ?_⟩
  · exact set_get_of_ne (fun he : id' = id => hid' (by rw [he]; exact hid)) x
  all_goals
    by_cases he : id' = id
    · subst he
      rwa [set_get_self]
    · simp [set_get_of_ne he]

/-- A set of objects without references that has the members of its objects. -/
def Dead (D : Nat → Prop) (o : Objects) : Prop :=
  ∀ id, D id → (o.get id).count ≤ 0 ∧ ∀ m ∈ (o.get id).members, D m

theorem Dead.worn (h : Dead D o) (hw : Worn D o o') : Dead D o' := by
  intro id hid
  obtain ⟨hc, hm⟩ := h id hid
  exact ⟨Int.le_trans (hw.count id) hc, hw.members id ▸ hm⟩

/-- To release a dead object wears dead objects, and frees it again. -/
theorem Dead.put (h : Dead D o) {id : Nat} (hid : D id) (fuel : Nat) :
    Worn D o (Objects.put fuel o id) ∧
      (0 < fuel → (o.get id).freed < ((Objects.put fuel o id).get id).freed) := by
  induction fuel generalizing o id with
  | zero => exact ⟨.refl D o, fun h => absurd h (Nat.lt_irrefl 0)⟩
  | succ fuel ih =>
    obtain ⟨hc, hm⟩ := h id hid
    have members : ∀ {ms : List Nat} {o₁ : Objects}, (∀ m ∈ ms, D m) → Dead D o₁ →
        Worn D o₁ (ms.foldl (Objects.put fuel) o₁) := by
      intro ms
      induction ms with
      | nil => exact fun _ _ => .refl D _
      | cons m ms ihm =>
        intro o₁ hms h₁
        obtain ⟨hm, hms⟩ := List.forall_mem_cons.mp hms
        have hw := (ih h₁ hm).1
        exact hw.trans (ihm hms (h₁.worn hw))
    have hfirst : Worn D o (o.set id { o.get id with count := (o.get id).count - 1 }) :=
      worn_set hid rfl (by dsimp only; omega) (Nat.le_refl _)
    have hrest := hfirst.trans (members hm (h.worn hfirst))
    simp only [Objects.put, if_neg (show ¬ 1 < (o.get id).count by omega), set_get_self]
    exact ⟨hrest.trans (worn_set hid rfl (Int.le_refl _) (Nat.le_succ _)),
      fun _ => Nat.lt_succ_of_le (hrest.freed id)⟩

/-! ## Keeping account -/

/-- The object was made since `o`, and is not one of `ids`. -/
def Gone (o o' : Objects) (ids : List Nat) (id : Nat) : Prop :=
  (o.next ≤ id ∧ id < o'.next) ∧ id ∉ ids

/-- What a program that has made objects since `o` has in `o'`: it holds the
references `roots`, to the trees of `ids`, has released `dead`, and everything it
has made and does not hold was freed, once if `once`. -/
structure Accounts (o o' : Objects) (roots dead ids : List Nat) (once : Bool) : Prop where
  next_le : o.next ≤ o'.next
  owns : Owns o' roots ids
  nodup : ids.Nodup
  mem : ∀ id ∈ ids, o.next ≤ id ∧ id < o'.next
  old : ∀ id < o.next, o'.get id = o.get id
  dead_gone : ∀ id ∈ dead, Gone o o' ids id
  gone : Dead (Gone o o' ids) o'
  freed : ∀ id, Gone o o' ids id → 1 ≤ (o'.get id).freed
  once_iff : once = true ↔ ∀ id, Gone o o' ids id → (o'.get id).freed = 1

/-- As `Accounts`, for some objects. -/
def Grown (o o' : Objects) (roots dead : List Nat) (once : Bool) : Prop :=
  ∃ ids, Accounts o o' roots dead ids once

/-- Every object made since `o` was freed once. -/
def ReleasedOnce (o o' : Objects) : Prop :=
  ∀ id, o.next ≤ id → id < o'.next → (o'.get id).freed = 1

variable {o₁ o₂ : Objects} {dead dead' : List Nat} {once : Bool}

/-- A step that leaves what is gone. -/
theorem Accounts.step (h : Accounts o o₁ roots dead ids once) (hnext : o₁.next ≤ o₂.next)
    (howns : Owns o₂ roots' ids') (hnodup : ids'.Nodup)
    (hgone : ∀ id, Gone o o₂ ids' id ↔ Gone o o₁ ids id)
    (hmem : ∀ id ∈ ids', o.next ≤ id ∧ id < o₂.next)
    (hold : ∀ id < o.next, o₂.get id = o₁.get id)
    (hsame : ∀ id, Gone o o₁ ids id → o₂.get id = o₁.get id) :
    Accounts o o₂ roots' dead ids' once := by
  have hD : Gone o o₂ ids' = Gone o o₁ ids := funext fun id => propext (hgone id)
  refine ⟨Nat.le_trans h.next_le hnext, howns, hnodup, hmem,
    fun id hid => (hold id hid).trans (h.old id hid), ?_, ?_, ?_, ?_⟩
  · rw [hD]
    exact h.dead_gone
  · rw [hD]
    intro id hid
    rw [hsame id hid]
    exact h.gone id hid
  · rw [hD]
    intro id hid
    rw [hsame id hid]
    exact h.freed id hid
  · rw [hD, h.once_iff]
    exact forall₂_congr fun id hid => by rw [hsame id hid]

/-- Nothing was made. -/
theorem grown_start (o : Objects) : Grown o o [] [] true := by
  have hnone : ∀ id, ¬ Gone o o [] id := fun id hid => by
    have := hid.1
    omega
  refine ⟨[], Nat.le_refl _, .nil, .nil, ?_, fun _ _ => rfl, ?_, ?_, ?_, ?_⟩
  · exact List.forall_mem_nil _
  · exact List.forall_mem_nil _
  · exact fun id hid => absurd hid (hnone id)
  · exact fun id hid => absurd hid (hnone id)
  · exact iff_of_true rfl fun id hid => absurd hid (hnone id)

/-- The references held are in no order. -/
theorem Grown.perm (h : Grown o o' roots dead once) (hp : roots.Perm roots') :
    Grown o o' roots' dead once := by
  obtain ⟨ids, h⟩ := h
  obtain ⟨ids', hids, howns⟩ := h.owns.perm hp
  refine ⟨ids', h.step (Nat.le_refl _) howns (hids.nodup_iff.mp h.nodup) (fun id => ?_)
    (fun id hid => h.mem id (hids.mem_iff.mpr hid)) (fun _ _ => rfl) fun _ _ => rfl⟩
  rw [Gone, Gone, hids.mem_iff]

/-- A new object's reference is held. -/
theorem Grown.new (h : Grown o o' roots dead once) :
    Grown o o'.new (o'.next :: roots) dead once := by
  obtain ⟨ids, h⟩ := h
  have hlt : ∀ id ∈ ids, id ≠ o'.next := fun id hid => Nat.ne_of_lt (h.mem id hid).2
  have hnot : o'.next ∉ ids := fun hid => hlt _ hid rfl
  have hget : ∀ id, id ≠ o'.next → o'.new.get id = o'.get id := fun id hid => set_get_of_ne hid _
  have hnext : o'.new.next = o'.next + 1 := rfl
  refine ⟨o'.next :: ([] ++ ids), h.step (Nat.le_succ _) (.cons (set_get_self ..) .nil
    (h.owns.frame fun id hid => hget id (hlt id hid))) (List.nodup_cons.mpr ⟨hnot, h.nodup⟩)
    (fun id => ?_) (fun id hid => ?_)
    (fun id hid => hget id (Nat.ne_of_lt (Nat.lt_of_lt_of_le hid h.next_le)))
    fun id hid => hget id (Nat.ne_of_lt hid.1.2)⟩
  · simp only [Gone, hnext, List.nil_append, List.mem_cons, not_or]
    constructor
    · rintro ⟨⟨h1, h2⟩, hne, hid⟩
      exact ⟨⟨h1, by omega⟩, hid⟩
    · rintro ⟨⟨h1, h2⟩, hid⟩
      exact ⟨⟨h1, by omega⟩, by omega, hid⟩
  · rw [hnext]
    rcases List.mem_cons.mp hid with rfl | hid
    · exact ⟨h.next_le, Nat.lt_succ_self _⟩
    · have := h.mem id hid
      omega

/-- A reference that is held is given to a container. -/
theorem Grown.add {c m : Nat} (h : Grown o o' (c :: m :: roots) dead once) :
    Grown o (o'.add c m) (c :: roots) dead once := by
  obtain ⟨ids, h⟩ := h
  have howns := h.owns
  cases howns with
  | @cons _ ms idsc _ _ hc hms hr =>
    cases hr with
    | @cons _ _ idsm _ idsr hcm hmm hrest =>
      have hnot := (List.nodup_cons.mp h.nodup).1
      have hget : ∀ id, id ≠ c → (o'.add c m).get id = o'.get id :=
        fun id hid => set_get_of_ne hid _
      have hcc : (o'.add c m).get c = ⟨1, ms ++ [m], 0⟩ := by
        rw [Objects.add, set_get_self, hc]
      have hne : ∀ id ∈ idsc ++ m :: (idsm ++ idsr), (o'.add c m).get id = o'.get id :=
        fun id hid => hget id fun he => hnot (he ▸ hid)
      have hcm' : Owns o' [m] (m :: (idsm ++ [])) := .cons hcm hmm .nil
      have hassoc : c :: ((idsc ++ m :: (idsm ++ [])) ++ idsr) =
          c :: (idsc ++ m :: (idsm ++ idsr)) := by simp
      refine ⟨c :: ((idsc ++ m :: (idsm ++ [])) ++ idsr), h.step (Nat.le_refl _) ?_ ?_ ?_ ?_ ?_ ?_⟩
      · refine .cons hcc ((hms.append hcm').frame fun id hid => hne id ?_)
          (hrest.frame fun id hid => hne id ?_)
        · rw [List.append_nil] at hid
          simp only [List.mem_append, List.mem_cons] at hid ⊢
          tauto
        · simp only [List.mem_append, List.mem_cons]
          exact .inr (.inr (.inr hid))
      · exact hassoc ▸ h.nodup
      · intro id
        rw [hassoc]
        exact Iff.rfl
      · exact hassoc ▸ h.mem
      · exact fun id hid => hget id fun he => by
          have := h.mem c List.mem_cons_self
          omega
      · exact fun id hid => hget id fun he => hid.2 (he ▸ List.mem_cons_self)

/-- As many objects as there are different addresses below a bound. -/
theorem length_le_of_nodup {n : Nat} {ids : List Nat} (hn : ids.Nodup) (h : ∀ id ∈ ids, id < n) :
    ids.length ≤ n := by
  have hsub : ids.Subperm (List.range n) :=
    List.subperm_of_subset hn fun id hid => List.mem_range.mpr (h id hid)
  simpa using hsub.length_le

/-- A reference that is held is given up: its tree is freed. -/
theorem Grown.release {r : Nat} (h : Grown o o' (r :: roots) dead once) :
    Grown o (o'.release r) roots (r :: dead) once := by
  obtain ⟨ids, h⟩ := h
  have howns := h.owns
  cases howns with
  | @cons _ ms idsr _ ids hr hms hrest =>
    have hnodup : (r :: idsr ++ ids).Nodup := h.nodup
    obtain ⟨hn, hnids, hdisj⟩ := List.nodup_append.mp hnodup
    have hmem : ∀ id ∈ r :: idsr ++ ids, o.next ≤ id ∧ id < o'.next := h.mem
    have htree : Owns o' [r] (r :: (idsr ++ [])) := .cons hr hms .nil
    rw [List.append_nil] at htree
    have hfree : o'.release r = o'.free (r :: idsr) :=
      htree.put hn (fun _ _ => rfl)
        (length_le_of_nodup hn fun id hid => (hmem id (List.mem_append_left _ hid)).2)
    have hgone : ∀ id, Gone o (o'.free (r :: idsr)) ids id ↔
        id ∈ r :: idsr ∨ Gone o o' (r :: (idsr ++ ids)) id := by
      intro id
      have hcons : id ∈ r :: (idsr ++ ids) ↔ id ∈ r :: idsr ∨ id ∈ ids := by
        rw [← List.cons_append, List.mem_append]
      rw [Gone, Gone, free_next, hcons]
      constructor
      · rintro ⟨hrange, hid⟩
        by_cases htree : id ∈ r :: idsr
        · exact .inl htree
        · exact .inr ⟨hrange, fun h => h.elim htree hid⟩
      · rintro (htree | ⟨hrange, hid⟩)
        · exact ⟨hmem id (List.mem_append_left _ htree), fun hid => hdisj id htree id hid rfl⟩
        · exact ⟨hrange, fun h => hid (.inr h)⟩
    have hget : ∀ id, id ∉ r :: idsr → (o'.free (r :: idsr)).get id = o'.get id :=
      fun id hid => by rw [free_get, if_neg hid]
    have hget' : ∀ id, Gone o o' (r :: (idsr ++ ids)) id →
        (o'.free (r :: idsr)).get id = o'.get id :=
      fun id hid => hget id fun htree => hid.2 (List.mem_append_left ids htree)
    have hfreed : ∀ id ∈ r :: idsr, (o'.free (r :: idsr)).get id = ⟨0, (o'.get id).members, 1⟩ :=
      fun id hid => by rw [free_get, if_pos hid]
    rw [hfree]
    refine ⟨ids, h.next_le, ?_, hnids, fun id hid => hmem id (List.mem_append_right _ hid), ?_, ?_,
      ?_, ?_, ?_⟩
    · exact hrest.frame fun id hid => hget id fun htree => hdisj id htree id hid rfl
    · intro id hid
      rw [hget id fun htree => ?_]
      · exact h.old id hid
      · have := hmem id (List.mem_append_left _ htree)
        omega
    · intro d hd
      rcases List.mem_cons.mp hd with rfl | hd
      · exact (hgone d).mpr (.inl List.mem_cons_self)
      · exact (hgone d).mpr (.inr (h.dead_gone d hd))
    · intro id hid
      rcases (hgone id).mp hid with htree' | hid
      · rw [hfreed id htree']
        exact ⟨Int.le_refl 0, fun m hm => (hgone m).mpr (.inl (htree.members_mem id htree' m hm))⟩
      · rw [hget' id hid]
        obtain ⟨hc, hm⟩ := h.gone id hid
        exact ⟨hc, fun m hmem => (hgone m).mpr (.inr (hm m hmem))⟩
    · intro id hid
      rcases (hgone id).mp hid with htree' | hid
      · exact Nat.le_of_eq (congrArg Object.freed (hfreed id htree')).symm
      · rw [hget' id hid]
        exact h.freed id hid
    · rw [h.once_iff]
      constructor
      · intro hall id hid
        rcases (hgone id).mp hid with htree' | hid
        · rw [hfreed id htree']
        · rw [hget' id hid]
          exact hall id hid
      · intro hall id hid
        rw [← hget' id hid]
        exact hall id ((hgone id).mpr (.inr hid))

/-- A reference that was given up is given up again: an object is freed twice. -/
theorem Grown.releaseAgain {r : Nat} (h : Grown o o' roots dead once) (hr : r ∈ dead) :
    Grown o (o'.release r) roots dead false := by
  obtain ⟨ids, h⟩ := h
  have hgone := h.dead_gone r hr
  obtain ⟨hw, hlt⟩ := h.gone.put hgone o'.next
  have hlt := hlt (by have := hgone.1; omega)
  have hnext : (o'.release r).next = o'.next := hw.next
  have hD : Gone o (o'.release r) ids = Gone o o' ids := by
    funext id
    rw [Gone, Gone, hnext]
  have hlive : ∀ id ∈ ids, (o'.release r).get id = o'.get id :=
    fun id hid => hw.other id fun hg => hg.2 hid
  refine ⟨ids, hnext ▸ h.next_le, h.owns.frame hlive, h.nodup, hnext ▸ h.mem, ?_, ?_, ?_, ?_, ?_⟩
  · intro id hid
    rw [← h.old id hid]
    refine hw.other id fun hg => ?_
    have := hg.1
    omega
  · rw [hD]
    exact h.dead_gone
  · rw [hD]
    exact h.gone.worn hw
  · rw [hD]
    exact fun id hid => Nat.le_trans (h.freed id hid) (hw.freed id)
  · rw [hD]
    refine iff_of_false Bool.false_ne_true fun hall => ?_
    have hfreed := h.freed r hgone
    have hone := hall r hgone
    have hmore : (o'.get r).freed < ((o'.release r).get r).freed := hlt
    omega

/-- What was released may be forgotten. -/
theorem Grown.forget (h : Grown o o' roots dead once) (hd : dead' ⊆ dead) :
    Grown o o' roots dead' once := by
  obtain ⟨ids, h⟩ := h
  exact ⟨ids, { h with dead_gone := fun id hid => h.dead_gone id (hd hid) }⟩

/-- Everything was freed once exactly if no reference is held, and none was given
up again. -/
theorem Grown.releasedOnce_iff (h : Grown o o' roots dead once) :
    ReleasedOnce o o' ↔ roots = [] ∧ once = true := by
  obtain ⟨ids, h⟩ := h
  constructor
  · intro hall
    constructor
    · refine List.eq_nil_iff_forall_not_mem.mpr fun r hr => ?_
      have hid := h.owns.roots_mem hr
      obtain ⟨ms, hget⟩ := h.owns.get r hid
      have hone := hall r (h.mem r hid).1 (h.mem r hid).2
      rw [hget] at hone
      cases hone
    · exact h.once_iff.mpr fun id hid => hall id hid.1.1 hid.1.2
  · rintro ⟨rfl, honce⟩ id hlo hhi
    cases h.owns
    exact h.once_iff.mp honce id ⟨⟨hlo, hhi⟩, List.not_mem_nil⟩

/-- What was there before is unchanged. -/
theorem Grown.old (h : Grown o o' roots dead once) :
    o.next ≤ o'.next ∧ ∀ id < o.next, o'.get id = o.get id := by
  obtain ⟨ids, h⟩ := h
  exact ⟨h.next_le, h.old⟩

end Objects

end DQ
