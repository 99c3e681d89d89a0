import Disqueue.Spec.Lines
import Disqueue.Spec.Passwords

/-!
# Malformed password files

A file is malformed if some line that is read of it says no entry
(`Malformed`). `KeepsEntries` says that updates that fail, and verifications
one after another, leave the entries as they were. They do where the file is
not read, or where its first line is malformed (`MalformedFirst`).
-/

namespace DQ.Spec

open DQ.Model

/-- A verification during which no call fails. -/
def succeeding (before : Char) : Verification := ⟨[], fun _ => true, before, []⟩

/-- The lines that are read of a password file. -/
def linesRead (before : Char) (content : List Char) : List CStr :=
  fileLines lineSize (succeeding before) content

/-- Some line of the file says no entry. -/
def Malformed (content : List Char) : Prop :=
  ∀ before, ∃ line ∈ linesRead before content, ¬ ∃ e, IsLine e line

/-- The first line of the file says no entry. -/
def MalformedFirst (content : List Char) : Prop :=
  ∀ before, ∃ line ∈ (linesRead before content).head?, ¬ ∃ e, IsLine e line

/-- An update that fails leaves the entries as they were, and so do any number
of verifications. -/
structure KeepsEntries (bioRead : CStr → List Char) (s : AuthState) : Prop where
  update : ∀ v, (authPlaintextUpdate_ v s.files s.auth).2 = false →
    (authPlaintextUpdate_ v s.files s.auth).1.passwords = s.auth.passwords
  repeated : ∀ vs : List Verification,
    (run (AuthState.step bioRead) s (vs.map .verify)).auth.passwords = s.auth.passwords

end DQ.Spec
