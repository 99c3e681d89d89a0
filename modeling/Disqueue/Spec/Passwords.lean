import Disqueue.Framework.Run
import Disqueue.Model.AuthPlaintext

/-!
# What password files are for

A line of a password file is a user name, a colon and `$plain$password`
(`IsLine`). A verification that reads the file leaves exactly the entries of
its lines, and accepts exactly what they say (`Replaced`). `LinesKept` is the
condition under which it does: nothing that is stored was removed from the
file.
-/

namespace DQ.Spec

open DQ.Model

/-- The line says the entry. -/
def IsLine (e : AuthPlaintextEntry) (line : CStr) : Prop :=
  ∃ type secret, line = e.username ++ ':' :: e.password ∧ ':' ∉ e.username ∧
    e.password = '$' :: (type ++ '$' :: secret) ∧ strcaseEq type plainType = true

/-- Some line of the file says the entry. -/
def Listed (content : List Char) (e : AuthPlaintextEntry) : Prop :=
  ∃ l ∈ textLines content, IsLine e (trimEnd l)

/-- Every line of the file says an entry. -/
def WellFormed (content : List Char) : Prop :=
  '\x00' ∉ content ∧ ∀ l ∈ textLines content, ∃ e, IsLine e (trimEnd l)

/-- Files are well formed, and are written at increasing times. -/
def Edits (s : AuthState) : AuthInput → Prop
  | .write name file =>
    WellFormed file.content ∧ ∀ old, s.files name = some old → old.mtime < file.mtime
  | _ => True

/-- The file that a verification reads: that at the source, if it was modified
since it was last read. -/
def readsFile (v : Verification) (s : AuthState) : Option File :=
  match sourceFile v s.files s.auth with
  | none => none
  | some file =>
    if s.auth.sourceLastRead ≠ 0 ∧ file.mtime ≤ s.auth.sourceLastRead then none
    else if v.ok .open then some file
    else none

/-- A verification reads the file, and succeeds to. -/
def Reloads (v : Verification) (s : AuthState) (file : File) : Prop :=
  readsFile v s = some file ∧ (authPlaintextUpdate_ v s.files s.auth).2 = true

/-- The file was not modified since a file was last read. -/
def NotModified (file : File) (auth : AuthPlaintext) : Prop :=
  auth.sourceLastRead ≠ 0 ∧ file.mtime ≤ auth.sourceLastRead

/-- The password file is set, and then files are written. -/
def switched (bioRead : CStr → List Char) (s : AuthState) (name : CStr)
    (writes : List (CStr × File)) : AuthState :=
  run (AuthState.step bioRead) (s.step bioRead (.setPasswordFile true name))
    (writes.map fun w => .write w.1 w.2)

/-- After a verification the entries are exactly those of the file's lines,
and it accepts a header exactly if a line has its user name and password. -/
structure Replaced (bioRead : CStr → List Char) (v : Verification) (s : AuthState) (file : File) :
    Prop where
  entries : ∀ e, e ∈ (s.step bioRead (.verify v)).auth.passwords ↔ Listed file.content e
  accepts : (authPlaintextVerify_ bioRead v s.files s.auth).2 = true ↔
    ∃ username password, authPlaintextDecode_ bioRead v = some (username, password) ∧
      ∃ e, Listed file.content e ∧ strcaseEq e.username username = true ∧
        ∃ type, strcaseEq type plainType = true ∧ e.password = '$' :: (type ++ '$' :: password)

/-- A verification that reloads the file finds a line for every entry it has
already. It has the memory to read the lines, and no character that is not
graphic is the last of a full buffer before a graphic one. -/
def LinesKept (s : AuthState) : AuthInput → Prop
  | .verify v =>
    ∀ file, Reloads v s file →
      (∀ e ∈ s.auth.passwords, Listed file.content e) ∧
        (∀ i, v.ok (.getpos i) = true) ∧ (∀ i k, v.ok (.extend i k) = true) ∧
        ∀ l ∈ textLines file.content, Unbroken (lineSize - 1) l
  | _ => True

end DQ.Spec
