import Disqueue.Model.Manager
import Disqueue.Spec.Names

/-!
# Names that are ids, and names that are accepted

The text of an id is five groups of hexadecimal digits with hyphens between
them (`IsUuid`). What `sscanf` accepts for it is more (`Scans idParts`): each
of the ten conversions skips white space and takes a sign, a `0x` and digits,
up to its width, and what follows the last one does not matter.
-/

namespace DQ.Spec

open DQ.Model

/-- The name is the text of an id. -/
def IsUuid (n : CStr) : Prop :=
  n.length = 36 ∧ IsHex (group n 0 8) ∧ group n 8 1 = ['-'] ∧ IsHex (group n 9 4) ∧
    group n 13 1 = ['-'] ∧ IsHex (group n 14 4) ∧ group n 18 1 = ['-'] ∧ IsHex (group n 19 4) ∧
    group n 23 1 = ['-'] ∧ IsHex (group n 24 12)

instance (n : CStr) : Decidable (IsUuid n) := by
  unfold IsUuid
  infer_instance

/-- What a `%x` conversion of width `w` takes of `s`, if it leaves `rest`:
white space, a sign or none, `0x` or none, and digits. It takes all it can
within its width: no digit follows, and the `x` of a `0x` does not. -/
structure Field (w : Nat) (s rest space sign base digits : CStr) : Prop where
  text : s = space ++ (sign ++ (base ++ (digits ++ rest)))
  isSpace : ∀ c ∈ space, isSpace c = true
  isSign : sign = [] ∨ sign = ['-'] ∨ sign = ['+']
  isBase : base = [] ∨ base = ['0', 'x'] ∨ base = ['0', 'X']
  isHex : IsHex digits
  ne_nil : digits ≠ []
  width : (sign ++ base ++ digits).length ≤ w
  most : (sign ++ base ++ digits).length < w → ∀ c ∈ rest.head?, hexVal c = none
  whole : base = [] → digits = ['0'] → sign.length + 2 ≤ w →
    ∀ c ∈ rest.head?, c ≠ 'x' ∧ c ≠ 'X'

/-- A conversion of width `w` takes the start of `s` and leaves `rest`. -/
def Takes (w : Nat) (s rest : CStr) : Prop :=
  ∃ space sign base digits, Field w s rest space sign base digits

/-- The parts of an id's format. -/
inductive Part
  | field (w : Nat)
  | hyphen
deriving DecidableEq

/-- A string starts with the parts. -/
def Scans : List Part → CStr → Prop
  | [], _ => True
  | .field w :: ps, s => ∃ rest, Takes w s rest ∧ Scans ps rest
  | .hyphen :: ps, s => ∃ rest, s = '-' :: rest ∧ Scans ps rest

/-- The parts of `"%8llx-%4lx-%4lx-%4lx-%2hhx%2hhx%2hhx%2hhx%2hhx%2hhx"`. -/
def idParts : List Part :=
  [.field 8, .hyphen, .field 4, .hyphen, .field 4, .hyphen, .field 4, .hyphen, .field 2, .field 2,
    .field 2, .field 2, .field 2, .field 2]

section
variable (dm : DataModel) (e : QueueSupply) (qs : List ManagerQueue)

/-- Asked to make a queue with the name, `manager_queue_get` makes one at the
end of the registry, whose id is the bytes `b` and their text. -/
def MakesId (n : CStr) (b : Bytes) : Prop :=
  ∃ f, managerQueueGet dm e (some n) true qs = some f ∧ f.registry = qs ++ [f.mq] ∧
    (∀ i < 16, f.mq.q.uuid i = b i) ∧ f.mq.id = queueGetUuid dm b

/-- Asked to make a queue with the name, `manager_queue_get` makes one at the
end of the registry if the name is an id's text, and none otherwise. -/
structure OnlyUuids (n : CStr) : Prop where
  made : IsUuid n → ∃ f, managerQueueGet dm e (some n) true qs = some f ∧ f.registry = qs ++ [f.mq]
  refused : ¬ IsUuid n → managerQueueGet dm e (some n) true qs = none

end

end DQ.Spec
