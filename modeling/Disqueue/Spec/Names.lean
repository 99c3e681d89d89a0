import Disqueue.Model.Uuid

/-!
# Names of queues

A name of 36 characters is the text of an id if it has the groups of
hexadecimal digits of one. On a machine whose `unsigned long` has 8 bytes, the
ids made of names are those whose second and third groups are zero.
-/

namespace DQ.Spec

open DQ.Model

/-- A string of hexadecimal digits. -/
def IsHex (a : CStr) : Prop := ∀ c ∈ a, (hexVal c).isSome

instance (a : CStr) : Decidable (IsHex a) :=
  List.decidableBAll (fun c => (hexVal c).isSome = true) a

/-- The `len` characters of a name from `off` on. -/
def group (n : CStr) (off len : Nat) : CStr := (n.drop off).take len

/-- The second and third groups of an id that has zeros there, with the
hyphens around them. -/
def zeroGroups : CStr := ['-', '0', '0', '0', '0', '-', '0', '0', '0', '0', '-']

/-- The name is the text of an id, with zeros for its second and third
group. -/
def ZeroNamed (n : CStr) : Prop :=
  n.length = 36 ∧ IsHex (group n 0 8) ∧ group n 8 11 = zeroGroups ∧ IsHex (group n 19 4) ∧
    group n 23 1 = ['-'] ∧ IsHex (group n 24 12)

instance (n : CStr) : Decidable (ZeroNamed n) := by
  unfold ZeroNamed
  infer_instance

end DQ.Spec
