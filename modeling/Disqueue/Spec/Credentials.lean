import Disqueue.Framework.Base64
import Disqueue.Spec.Lines

/-!
# Credentials

A client sends `Basic` and the base64 text of a user name, a colon and a
password (`basicAuthorization`). A line has the form of a user name and a
password of the type `plain` (`HasForm`), and a header is accepted if an entry
has what it says (`acceptsHeader`).
-/

namespace DQ.Spec

open DQ.Model

/-- `BIO_read` gives all that a base64 text says. -/
def DecodesFully (bioRead : CStr → List Char) : Prop :=
  ∀ bytes, bioRead (base64 bytes) = chars bytes

/-- A colon. -/
def colon : UInt8 := 58

/-- The header that a client sends for a user name and a password. -/
def basicAuthorization (username password : List UInt8) : CStr :=
  basicScheme ++ base64 (username ++ colon :: password)

/-- The line says that the user has the password. -/
def HasForm (username password line : CStr) : Prop :=
  ∃ type, line = username ++ ':' :: '$' :: (type ++ '$' :: password) ∧
    strcaseEq type plainType = true

/-- What `auth_plaintext_verify_` finds after the update: whether an entry has
what the header says. -/
def acceptsHeader (bioRead : CStr → List Char) (v : Verification) (auth : AuthPlaintext) : Bool :=
  match authPlaintextDecode_ bioRead v with
  | none => false
  | some (username, password) =>
    auth.passwords.any fun entry =>
      strcaseEq entry.username username && entry.codecVerify.verify entry.password password

end DQ.Spec
