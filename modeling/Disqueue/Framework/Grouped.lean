import Mathlib.Data.List.Basic

/-!
# Elements grouped by keys

A list of groups, each with its key. `pushGroup` puts an element into the group
of its key; what it does to the elements, with their keys, is to add this one
(`ungroup_pushGroup`).
-/

namespace DQ

variable {κ α : Type}

/-- The element is put last in the group, which is made if there is none. -/
def pushGroup [DecidableEq κ] (key : κ) (x : α) : List (κ × List α) → List (κ × List α)
  | [] => [(key, [x])]
  | group :: groups =>
    if group.1 = key then (group.1, group.2 ++ [x]) :: groups else group :: pushGroup key x groups

/-- The elements, with their keys. -/
def ungroup (groups : List (κ × List α)) : List (κ × α) :=
  groups.flatMap fun group => group.2.map fun x => (group.1, x)

theorem ungroup_perm {groups groups' : List (κ × List α)} (h : groups.Perm groups') :
    (ungroup groups).Perm (ungroup groups') := h.flatMap_right _

theorem ungroup_pushGroup [DecidableEq κ] (key : κ) (x : α) (groups : List (κ × List α)) :
    (ungroup (pushGroup key x groups)).Perm (ungroup groups ++ [(key, x)]) := by
  induction groups with
  | nil => exact List.Perm.refl _
  | cons group groups ih =>
    unfold pushGroup
    by_cases hkey : group.1 = key
    · rw [if_pos hkey]
      simp only [ungroup, List.flatMap_cons, List.map_append, List.append_assoc, List.map_cons,
        List.map_nil, hkey]
      exact List.perm_append_comm.append_left _
    · rw [if_neg hkey]
      simp only [ungroup, List.flatMap_cons, List.append_assoc] at ih ⊢
      exact ih.append_left _

end DQ
