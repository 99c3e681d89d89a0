import Disqueue.Model.Start

/-!
# The command line (`getopt.c`, `main.c`)

`getopt` keeps its place in the arguments between calls (`Getopt`): the rest of
the argument that it reads letters from, or nothing, and the number of the next
argument. The loop of `command_line` is run for a bounded number of iterations.
`mainProgram` is `main`, up to what the event loop does.

`getopt.c` is only compiled where the C library has no `getopt`
(`HAVE_GETOPT`). That of glibc differs: it takes options that stand after
operands too, and words its messages differently.
-/

namespace DQ.Model

/-- The variables of `getopt`, and the lines printed to `stderr`. -/
structure Getopt where
  /-- `place`, up to the end of the argument. -/
  place : CStr
  optind : Nat
  optarg : Option CStr
  optopt : Char
  stderr : List CStr

/-- Before the first call. -/
def Getopt.startup : Getopt := ⟨[], 1, none, Char.ofNat 0, []⟩

section
variable (nargv : List CStr) (ostr : CStr)

/-- What follows a letter in the list of options, if it is in the list. -/
def afterLetter (c : Char) : Option CStr :=
  match if c = ':' then [] else ostr.dropWhile (· != c) with
  | [] => none
  | _ :: rest => some rest

end

/-! ## `command_line` -/

section
variable (c : JsonC) (loadOk : LoadCall → Bool) (startOk : Nat → StartCall → Bool) (baseOk : Bool)
  (files : CStr → Option Json)

end

end DQ.Model
