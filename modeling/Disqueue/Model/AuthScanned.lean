import Disqueue.Framework.Scan
import Disqueue.Model.AuthPlaintext

/-!
# Reads of headers and password files (`auth-plaintext.c`)

The functions of `AuthPlaintext` that scan strings, with each index that they
read or write. `strlen`, `strchr` and `strncasecmp` stop at the terminator.
Loops have fuel.
-/

namespace DQ.Model.Scanned

/-- `auth_string_extend`, whose allocation succeeds or not. -/
def authStringExtend (ok : Bool) (original : Option CStr) (extension : CStr) :
    Scan (Option CStr) := do
  let length ← back (!isGraph ·) extension extension.length
  return if ok then some (original.getD [] ++ extension.take length) else none

section
variable (size : Nat) (ok : AuthCall → Bool)

/-- The loop of `auth_read_line`, at the `k`-th chunk of the `i`-th line. -/
def authReadChunks (i : Nat) : Nat → Nat → Option CStr → List Char →
    Scan (Option (Option CStr × List Char))
  | 0, _, _, _ => .running
  | fuel + 1, k, line, s =>
    match fgets size s with
    | none => return some (line, s)
    | some (chunk, rest) => do
      let buffer := chunk.takeWhile (· != '\x00')
      match ← authStringExtend (ok (.extend i k)) line buffer with
      | none => return none
      | some line =>
        let last ← readAt buffer ((buffer.length : Int) - 1)
        if last = '\n' then return some (some line, rest)
        else authReadChunks i fuel (k + 1) (some line) rest

/-- `auth_read_line`: the line, if one is read, and the rest of the file. -/
def authReadLine (fuel i : Nat) (s : List Char) : Scan (Option CStr × List Char) :=
  if !ok (.getpos i) then return (none, s)
  else do return (← authReadChunks size ok i fuel 0 none s).getD (none, s)

/-- The successive results of `auth_read_line`, from the `i`-th line on, until
it gives none. -/
def authReadLines : Nat → Nat → List Char → Scan (List CStr)
  | 0, _, _ => .running
  | fuel + 1, i, s => do
    match ← authReadLine size ok (fuel + 1) i s with
    | (none, _) => return []
    | (some line, rest) => return line :: (← authReadLines fuel (i + 1) rest)

end

/-- `auth_skip_basic`: the index where it ends. -/
def authSkipBasic (fuel : Nat) (header : CStr) : Scan (Option Nat) :=
  if !strcaseEq (header.take 6) basicScheme then return none
  else do return some (← skip (!isGraph ·) header fuel 6)

/-- `auth_plaintext_decode_`: the username and the password. -/
def authPlaintextDecode_ (fuel : Nat) (bioRead : CStr → List Char) (ok : AuthCall → Bool)
    (header : CStr) : Scan (Option (CStr × CStr)) := do
  match ← authSkipBasic fuel header with
  | none => return none
  | some start =>
    let header := header.drop start
    if !ok .decoded then return none
    else if bioRead header = [] then return none
    else
      writeAt (header.length + 1) (bioRead header).length
      match splitFirst (· == ':') ((bioRead header).takeWhile (· != '\x00')) with
      | none => return none
      | some (username, _, password) =>
        return if ok .decodedUsername && ok .decodedPassword then some (username, password)
          else none

end DQ.Model.Scanned
