import Disqueue.Framework.Options
import Disqueue.Model.Main

/-!
# What a command line asks for

The options of a command line are `-c`, with a file, and `-h` (`mainTakes`).
`mainOf` says how the program ends with some options, however they were written:
any refusal or `-h` shows the usage, and the last file is the one that is loaded.
-/

namespace DQ.Spec

open DQ.Model

section
variable (c : JsonC) (loadOk : LoadCall → Bool) (startOk : Nat → StartCall → Bool) (baseOk : Bool)
  (files : CStr → Option Json)

end

end DQ.Spec
