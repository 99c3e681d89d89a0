import Mathlib.Data.List.Nodup

/-!
# Accounts of tokens

Tokens are made, each once; a token that was made is present, or it is gone,
or it was lost. `Accounted` says so of four lists. The ways the lists change
keep it: a token is made (`make`), or made and lost at once (`refuse`); a
present one goes (`go`) or is lost (`lose`). With no token lost, each is in
exactly one place, once (`count_eq_one`). Tokens that are numbered as they are
made are each made once (`Numbered`).
-/

namespace DQ

variable {τ : Type}

/-- Every token made is present, gone or lost, once. -/
structure Accounted (made present gone lost : List τ) : Prop where
  nodup : made.Nodup
  perm : (present ++ (gone ++ lost)).Perm made

namespace Accounted

variable {made present gone lost present' : List τ} {x : τ}

theorem empty : Accounted ([] : List τ) [] [] [] := ⟨List.nodup_nil, List.Perm.refl _⟩

theorem mem_made (h : Accounted made present gone lost) :
    (∀ y ∈ present, y ∈ made) ∧ ∀ y ∈ gone, y ∈ made :=
  ⟨fun _ hy => h.perm.subset (List.mem_append_left _ hy),
    fun _ hy => h.perm.subset (List.mem_append_right _ (List.mem_append_left _ hy))⟩

theorem reorder (h : Accounted made present gone lost) (hp : present'.Perm present) :
    Accounted made present' gone lost :=
  ⟨h.nodup, (hp.append_right _).trans h.perm⟩

private theorem nodup_concat (h : Accounted made present gone lost) (hx : x ∉ made) :
    (made ++ [x]).Nodup :=
  h.nodup.append (List.nodup_singleton x) (by simpa using hx)

/-- A token is made, and present. -/
theorem make (h : Accounted made present gone lost) (hx : x ∉ made)
    (hp : present'.Perm (x :: present)) : Accounted (made ++ [x]) present' gone lost :=
  ⟨h.nodup_concat hx, (hp.append_right _).trans
    ((List.perm_append_singleton x made).trans (h.perm.symm.cons x)).symm⟩

/-- A token is made, and lost. -/
theorem refuse (h : Accounted made present gone lost) (hx : x ∉ made) :
    Accounted (made ++ [x]) present gone (x :: lost) := by
  refine ⟨h.nodup_concat hx, ?_⟩
  calc present ++ (gone ++ x :: lost)
    _ = (present ++ gone) ++ x :: lost := (List.append_assoc ..).symm
    List.Perm _ (x :: ((present ++ gone) ++ lost)) := List.perm_middle
    List.Perm _ (x :: made) := by rw [List.append_assoc]; exact h.perm.cons x
    List.Perm _ (made ++ [x]) := (List.perm_append_singleton x made).symm

/-- Present tokens go. -/
theorem goAll (h : Accounted made present gone lost) (xs : List τ)
    (hp : present.Perm (xs ++ present')) : Accounted made present' (gone ++ xs) lost := by
  refine ⟨h.nodup, List.Perm.trans ?_ ((hp.symm.append_right _).trans h.perm)⟩
  calc present' ++ ((gone ++ xs) ++ lost)
    List.Perm _ (present' ++ ((xs ++ gone) ++ lost)) :=
      (List.perm_append_comm.append_right lost).append_left present'
    _ = present' ++ (xs ++ (gone ++ lost)) := by rw [List.append_assoc]
    List.Perm _ (xs ++ (present' ++ (gone ++ lost))) := List.perm_append_comm_assoc ..
    _ = xs ++ present' ++ (gone ++ lost) := (List.append_assoc ..).symm

/-- Present tokens are lost. -/
theorem loseAll (h : Accounted made present gone lost) (xs : List τ)
    (hp : present.Perm (xs ++ present')) : Accounted made present' gone (xs ++ lost) := by
  refine ⟨h.nodup, List.Perm.trans ?_ ((hp.symm.append_right _).trans h.perm)⟩
  calc present' ++ (gone ++ (xs ++ lost))
    List.Perm _ (present' ++ (xs ++ (gone ++ lost))) :=
      (List.perm_append_comm_assoc ..).append_left present'
    List.Perm _ (xs ++ (present' ++ (gone ++ lost))) := List.perm_append_comm_assoc ..
    _ = xs ++ present' ++ (gone ++ lost) := (List.append_assoc ..).symm

/-- A present token goes. -/
theorem go (h : Accounted made present gone lost) (hp : present.Perm (x :: present')) :
    Accounted made present' (gone ++ [x]) lost := h.goAll [x] hp

/-- A present token is lost. -/
theorem lose (h : Accounted made present gone lost) (hp : present.Perm (x :: present')) :
    Accounted made present' gone (x :: lost) := h.loseAll [x] hp

/-- No token goes twice. -/
theorem gone_nodup (h : Accounted made present gone lost) : gone.Nodup := by
  have := h.perm.nodup_iff.mpr h.nodup
  exact (List.nodup_append.mp (List.nodup_append.mp this).2.1).1

/-- With none lost, a token that was made is in one place. -/
theorem count_eq_one [DecidableEq τ] (h : Accounted made present gone []) (hx : x ∈ made) :
    present.count x + gone.count x = 1 := by
  have h1 := List.count_eq_one_of_mem h.nodup hx
  rw [← h.perm.count_eq, List.append_nil, List.count_append] at h1
  exact h1

end Accounted

/-! ## Numbered tokens -/

/-- Tokens that are numbers, each made with the next number. -/
structure Numbered (made present gone : List Nat) (next : Nat) : Prop where
  accounted : ∃ lost, Accounted made present gone lost
  lt : ∀ x ∈ made, x < next

namespace Numbered

variable {made present gone present' : List Nat} {next next' x : Nat}

theorem empty (next : Nat) : Numbered [] [] [] next := ⟨⟨[], .empty⟩, nofun⟩

theorem keep (h : Numbered made present gone next) (hp : present'.Perm present)
    (hx : next ≤ next') : Numbered made present' gone next' := by
  obtain ⟨⟨lost, ha⟩, hlt⟩ := h
  exact ⟨⟨lost, ha.reorder hp⟩, fun y hy => Nat.lt_of_lt_of_le (hlt y hy) hx⟩

theorem fresh (h : Numbered made present gone next) : next ∉ made :=
  fun hm => Nat.lt_irrefl _ (h.lt next hm)

theorem lt_concat (h : Numbered made present gone next) : ∀ x ∈ made ++ [next], x < next + 1 := by
  intro x hx
  rcases List.mem_append.mp hx with hx | hx
  · exact Nat.lt_succ_of_lt (h.lt x hx)
  · exact List.mem_singleton.mp hx ▸ Nat.lt_succ_self next

theorem make (h : Numbered made present gone next) (hp : present'.Perm (next :: present)) :
    Numbered (made ++ [next]) present' gone (next + 1) := by
  obtain ⟨lost, ha⟩ := h.accounted
  exact ⟨⟨lost, ha.make h.fresh hp⟩, h.lt_concat⟩

theorem refuse (h : Numbered made present gone next) :
    Numbered (made ++ [next]) present gone (next + 1) := by
  obtain ⟨lost, ha⟩ := h.accounted
  exact ⟨⟨next :: lost, ha.refuse h.fresh⟩, h.lt_concat⟩

theorem go (h : Numbered made present gone next) (hp : present.Perm (x :: present'))
    (hx : next ≤ next') : Numbered made present' (gone ++ [x]) next' := by
  obtain ⟨⟨lost, ha⟩, hlt⟩ := h
  exact ⟨⟨lost, ha.go hp⟩, fun y hy => Nat.lt_of_lt_of_le (hlt y hy) hx⟩

theorem loseAll (h : Numbered made present gone next) (xs : List Nat)
    (hp : present.Perm (xs ++ present')) (hx : next ≤ next') :
    Numbered made present' gone next' := by
  obtain ⟨⟨lost, ha⟩, hlt⟩ := h
  exact ⟨⟨xs ++ lost, ha.loseAll xs hp⟩, fun y hy => Nat.lt_of_lt_of_le (hlt y hy) hx⟩

theorem lose (h : Numbered made present gone next) (hp : present.Perm (x :: present'))
    (hx : next ≤ next') : Numbered made present' gone next' := h.loseAll [x] hp hx

end Numbered

end DQ
