import Mathlib.Algebra.Group.Int.Defs
import Mathlib.Algebra.Group.Nat.Defs
import Disqueue.Framework.CStr

/-!
# Queue ids (`queue_get_uuid` and the parser of `manager_queue_get`)

An id is 16 bytes. Its text is printed with `sprintf` and parsed with
`sscanf`, through pointers to `unsigned long` and `unsigned short`, whose
sizes the data model gives; the machine is little-endian. `sscanf` is that of
the C standard: a `%x` conversion skips white space, then takes at most its
width of characters, a sign, a `0x` and hexadecimal digits.
-/

namespace DQ.Model

/-- Bytes, by their offsets. -/
abbrev Bytes := Nat → UInt8

/-- The data models: `unsigned long` has 4 or 8 bytes. -/
inductive DataModel
  | llp64 | lp64
deriving DecidableEq

/-- `sizeof(unsigned long)`. -/
def DataModel.longBytes : DataModel → Nat
  | .llp64 => 4
  | .lp64 => 8

/-- The integer of `n` bytes at `off`, lowest first. -/
def peekInt (m : Bytes) (off : Nat) : Nat → Nat
  | 0 => 0
  | n + 1 => (m off).toNat + 256 * peekInt m (off + 1) n

/-- The integer `v` stored in `n` bytes at `off`, lowest first. -/
def pokeInt (m : Bytes) (off n v : Nat) : Bytes := fun i =>
  if off ≤ i ∧ i < off + n then UInt8.ofNat (v / 256 ^ (i - off)) else m i

/-- `htonl`, whose argument and result have 32 bits. -/
def htonl (v : Nat) : Nat :=
  v % 256 * 256 ^ 3 + v / 256 % 256 * 256 ^ 2 + v / 256 ^ 2 % 256 * 256 + v / 256 ^ 3 % 256

/-- `htons`, whose argument and result have 16 bits. -/
def htons (v : Nat) : Nat := v % 256 * 256 + v / 256 % 256

/-! ## Printing -/

/-- A hexadecimal digit, in lower case. -/
def hexDigit (n : Nat) : Char :=
  if n < 10 then Char.ofNat (48 + n) else Char.ofNat (87 + n)

/-- `%0<w>x`, for an integer of at most `w` digits. -/
def printHex : Nat → Nat → CStr
  | 0, _ => []
  | w + 1, n => printHex w (n / 16) ++ [hexDigit (n % 16)]

/-- `queue_get_uuid`. -/
def queueGetUuid (dm : DataModel) (uuid : Bytes) : CStr :=
  printHex 8 (htonl (peekInt uuid 0 dm.longBytes)) ++ '-' ::
  printHex 4 (htons (peekInt uuid 4 2)) ++ '-' ::
  printHex 4 (htons (peekInt uuid 6 2)) ++ '-' ::
  printHex 4 (htons (peekInt uuid 8 2)) ++ '-' ::
  ([10, 11, 12, 13, 14, 15].flatMap fun i => printHex 2 (uuid i).toNat)

/-! ## Parsing -/

/-- `isspace`. -/
def isSpace (c : Char) : Bool := c == ' ' || (9 ≤ c.toNat && c.toNat ≤ 13)

/-- The value of a hexadecimal digit. -/
def hexVal (c : Char) : Option Nat :=
  if '0' ≤ c ∧ c ≤ '9' then some (c.toNat - 48)
  else if 'a' ≤ c ∧ c ≤ 'f' then some (c.toNat - 87)
  else if 'A' ≤ c ∧ c ≤ 'F' then some (c.toNat - 55)
  else none

/-- At most `w` hexadecimal digits, after digits of value `acc`: how many,
their value and the rest. -/
def scanDigits : Nat → Nat → CStr → Nat × Nat × CStr
  | 0, acc, s => (0, acc, s)
  | _, acc, [] => (0, acc, [])
  | w + 1, acc, c :: s =>
    match hexVal c with
    | some d =>
      let (n, v, rest) := scanDigits w (16 * acc + d) s
      (n + 1, v, rest)
    | none => (0, acc, c :: s)

/-- At least one and at most `w` digits, which may follow a `0x` that counts
in `w`. A `0x` with no digit after it does not match. -/
def scanUnsigned (w : Nat) (s : CStr) : Option (Nat × CStr) :=
  let (w, s) :=
    match s with
    | '0' :: x :: s' => if 2 ≤ w ∧ (x = 'x' ∨ x = 'X') then (w - 2, s') else (w, s)
    | _ => (w, s)
  let (n, v, rest) := scanDigits w 0 s
  if n = 0 then none else some (v, rest)

/-- `%<w>x`. -/
def scanHex (w : Nat) (s : CStr) : Option (Int × CStr) :=
  match s.dropWhile isSpace with
  | '-' :: s => (scanUnsigned (w - 1) s).map fun (v, rest) => (-(v : Int), rest)
  | '+' :: s => (scanUnsigned (w - 1) s).map fun (v, rest) => ((v : Int), rest)
  | s => (scanUnsigned w s).map fun (v, rest) => ((v : Int), rest)

/-- A directive of a format: a `%x` conversion of a width, stored in an
integer of some bytes at an offset, or a character. -/
inductive Directive
  | hex (width bytes off : Nat)
  | lit (c : Char)

/-- `sscanf`: the memory, and the number of conversions done before the first
directive that fails. -/
def sscanf : List Directive → CStr → Bytes → Bytes × Nat
  | [], _, m => (m, 0)
  | .lit c :: ds, s, m =>
    match s with
    | c' :: s => if c' = c then sscanf ds s m else (m, 0)
    | [] => (m, 0)
  | .hex width bytes off :: ds, s, m =>
    match scanHex width s with
    | some (v, s) =>
      let (m, n) := sscanf ds s (pokeInt m off bytes (v % 256 ^ bytes).toNat)
      (m, n + 1)
    | none => (m, 0)

/-- The format of an id, with the addresses its parts are stored at. -/
def uuidFormat (dm : DataModel) : List Directive :=
  [.hex 8 8 0, .lit '-', .hex 4 dm.longBytes 4, .lit '-', .hex 4 dm.longBytes 6, .lit '-',
    .hex 4 dm.longBytes 8, .lit '-', .hex 2 1 10, .hex 2 1 11, .hex 2 1 12, .hex 2 1 13,
    .hex 2 1 14, .hex 2 1 15]

/-- The parser of `manager_queue_get`: `r` is what the bytes on the stack were
before. -/
def parseUuid (dm : DataModel) (r : Bytes) (name : CStr) : Option Bytes :=
  let (r, n) := sscanf (uuidFormat dm) name r
  if n ≠ 10 then none
  else
    let r := pokeInt r 0 dm.longBytes (htonl (peekInt r 0 dm.longBytes))
    let r := pokeInt r 4 2 (htons (peekInt r 4 2))
    let r := pokeInt r 6 2 (htons (peekInt r 6 2))
    let r := pokeInt r 8 2 (htons (peekInt r 8 2))
    some r

/-- The id that `queue_new` makes of random bytes: a version 4 uuid. -/
def randomUuid (r : Bytes) : Bytes := fun i =>
  if i = 6 then r 6 &&& 0x0f ||| 0x40
  else if i = 8 then r 8 &&& 0x3f ||| 0x80
  else r i

end DQ.Model
