import Disqueue.Model.AuthScanned

/-!
# Scans that stay inside

Decoding a header, and reading a password file, end without a read outside of
a string (`HeaderStays`, `FileStays`). Those of a file are the chunks that
`fgets` gives (`fileChunks`).
-/

namespace DQ.Spec

open DQ.Model

/-- `BIO_read` gives at most as many bytes as it is asked for. -/
def DecodesWithin (bioRead : CStr → List Char) : Prop :=
  ∀ text, (bioRead text).length ≤ text.length

/-- The chunks that `fgets` gives of a file, which is not longer than `fuel`. -/
def fgetsChunks (size : Nat) : Nat → List Char → List (List Char)
  | 0, _ => []
  | fuel + 1, s =>
    match fgets size s with
    | none => []
    | some (chunk, rest) => chunk :: fgetsChunks size fuel rest

/-- The chunks that `fgets` gives of a file. -/
def fileChunks (size : Nat) (content : List Char) : List (List Char) :=
  fgetsChunks size content.length content

/-- No chunk begins with NUL. -/
def NoneNul (chunks : List (List Char)) : Prop := ∀ chunk ∈ chunks, chunk.head? ≠ some '\x00'

/-- The scheme is there, and nothing graphic after it. -/
def NothingFollows (header : CStr) : Prop :=
  strcaseEq (header.take 6) basicScheme = true ∧ ∀ c ∈ header.drop 6, isGraph c = false

/-- Decoding a header ends, whatever calls fail. -/
def HeaderStays (bioRead : CStr → List Char) (header : CStr) : Prop :=
  ∀ ok, ∃ fuel r, Scanned.authPlaintextDecode_ fuel bioRead ok header = .done r

/-- Reading the lines of a file ends, whatever calls fail. -/
def FileStays (content : List Char) : Prop :=
  ∀ ok, ∃ fuel lines, Scanned.authReadLines lineSize ok fuel 0 content = .done lines

end DQ.Spec
