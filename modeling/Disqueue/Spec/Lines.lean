import Disqueue.Model.AuthPlaintext

/-!
# The lines of a password file

The successive results of `auth_read_line` are the lines of a file
(`fileLines`), and an update adds each of them (`authAddEach`). `ReadsLines`
says that they are those of the text, and `SameForSizes` that the size of the
buffer does not matter.
-/

namespace DQ.Spec

open DQ.Model

/-- No call of a verification fails. -/
def Succeeds (v : Verification) : Prop := ∀ c, v.ok c = true

/-- The successive results of `auth_read_line`, from the `i`-th line on, until
it gives none. -/
def authReadLines (size : Nat) (v : Verification) : Nat → Nat → List Char → List CStr
  | 0, _, _ => []
  | fuel + 1, i, s =>
    match authReadLine size v i s with
    | (none, _) => []
    | (some line, rest) => line :: authReadLines size v fuel (i + 1) rest

/-- The lines that are read of a file, with a buffer of `size` characters. -/
def fileLines (size : Nat) (v : Verification) (content : List Char) : List CStr :=
  authReadLines size v (content.length + 1) 0 content

/-- Lines added one after another, from the `i`-th on, until one is refused;
and whether none is. -/
def authAddEach (ok : AuthCall → Bool) : Nat → List CStr → AuthPlaintext → AuthPlaintext × Bool
  | _, [], auth => (auth, true)
  | i, line :: lines, auth =>
    match authEntryPlaintextAdd_ ok i line auth with
    | (auth, false) => (auth, false)
    | (auth, true) => authAddEach ok (i + 1) lines auth

/-- What is read are the lines of the text, each without the characters at its
end that are not graphic. -/
def ReadsLines (size : Nat) (content : List Char) : Prop :=
  ∀ v, Succeeds v → fileLines size v content = (textLines content).map trimEnd

/-- What is read is the same for every size of the buffer. -/
def SameForSizes (content : List Char) : Prop :=
  ∀ v, Succeeds v → ∀ size size', 2 ≤ size → 2 ≤ size' →
    fileLines size v content = fileLines size' v content

end DQ.Spec
