import Disqueue.Framework.SplitFirst
import Disqueue.Framework.Text

/-!
# Password files (`auth-plaintext.c`)

An authenticator keeps the entries of a password file in a list, and reads the
file again when its modification time is later than that of the last time it
was read. A verification first updates the entries, then decodes the header
and looks for an entry. Decoding base64 is OpenSSL's: `bioRead` gives the
bytes that `BIO_read` decodes, none where it fails.
-/

namespace DQ.Model

/-- The calls that can fail during a verification. Lines of the file, and the
chunks of a line, are counted from 0. -/
inductive AuthCall
  | stat | open
  | getpos (line : Nat) | extend (line chunk : Nat)
  | entry (line : Nat) | username (line : Nat) | password (line : Nat)
  | decoded | decodedUsername | decodedPassword
deriving DecidableEq

/-- `LINE_SIZE`. -/
def lineSize : Nat := 128

/-- The functions that verify a password. -/
inductive Codec
  | plain
deriving DecidableEq

/-- `struct auth_plaintext_entry`. -/
structure AuthPlaintextEntry where
  username : CStr
  password : CStr
  codecVerify : Codec
deriving DecidableEq

/-- `struct auth_plaintext`. The time last read is 0 if it was not. -/
structure AuthPlaintext where
  source : Option CStr
  sourceLastRead : Int
  passwords : List AuthPlaintextEntry
deriving DecidableEq

/-- A file. -/
structure File where
  mtime : Int
  content : List Char

/-- A verification: the header, which calls succeed, the byte before the
buffer of `auth_read_line` and the bytes after the header's terminator. -/
structure Verification where
  header : CStr
  ok : AuthCall → Bool
  before : Char
  beyond : List Char

/-! ## Reading lines -/

/-- `auth_string_extend`, whose allocation succeeds or not. -/
def authStringExtend (ok : Bool) (original : Option CStr) (extension : CStr) : Option CStr :=
  if ok then some (original.getD [] ++ trimEnd extension) else none

section
variable (size : Nat) (v : Verification)

/-- The loop of `auth_read_line`, at the `k`-th chunk of the `i`-th line: the
line and the rest of the file, unless an allocation fails. The length of the
file is enough for `fuel`. -/
def authReadChunks (i : Nat) : Nat → Nat → Option CStr → List Char →
    Option (Option CStr × List Char)
  | 0, _, line, s => some (line, s)
  | fuel + 1, k, line, s =>
    match fgets size s with
    | none => some (line, s)
    | some (chunk, rest) =>
      let buffer := chunk.takeWhile (· != '\x00')
      match authStringExtend (v.ok (.extend i k)) line buffer with
      | none => none
      | some line =>
        if buffer.getLast?.getD v.before = '\n' then some (some line, rest)
        else authReadChunks i fuel (k + 1) (some line) rest

/-- `auth_read_line`, for a buffer of `size` characters: the line, if one is
read, and the rest of the file. -/
def authReadLine (i : Nat) (s : List Char) : Option CStr × List Char :=
  if !v.ok (.getpos i) then (none, s)
  else (authReadChunks size v i (s.length + 1) 0 none s).getD (none, s)

end

/-! ## Entries -/

/-- `auth_plaintext_plain_codec_`; the length of `"$plain$"` is 7. -/
def authPlaintextPlainCodec_ (file provided : CStr) : Bool := file.drop 7 == provided

/-- A codec's function. -/
def Codec.verify : Codec → CStr → CStr → Bool
  | .plain => authPlaintextPlainCodec_

/-- The name of the type `plain`. -/
def plainType : CStr := ['p', 'l', 'a', 'i', 'n']

/-- The entry that `auth_entry_plaintext_add_` makes of a line. -/
def authEntryPlaintext (ok : AuthCall → Bool) (i : Nat) (line : CStr) : Option AuthPlaintextEntry :=
  match splitFirst (· == ':') line with
  | none => none
  | some (username, _, password) =>
    match password with
    | '$' :: salt =>
      match splitFirst (· == '$') salt with
      | none => none
      | some (type, _, _) =>
        if type = [] then none
        else if !ok (.entry i) then none
        else if !ok (.username i) then none
        else if !ok (.password i) then none
        else if type.length = 5 ∧ strcaseEq type plainType then some ⟨username, password, .plain⟩
        else none
    | _ => none

/-- `auth_entry_plaintext_add_`, and whether it succeeds. -/
def authEntryPlaintextAdd_ (ok : AuthCall → Bool) (i : Nat) (line : CStr) (auth : AuthPlaintext) :
    AuthPlaintext × Bool :=
  match authEntryPlaintext ok i line with
  | some entry => ({ auth with passwords := entry :: auth.passwords }, true)
  | none => (auth, false)

/-! ## Updating -/

/-- The loop of `auth_plaintext_update_`, at the `i`-th line, and whether it
adds every line. The length of the file is enough for `fuel`. -/
def authAddLines (v : Verification) : Nat → Nat → List Char → AuthPlaintext → AuthPlaintext × Bool
  | 0, _, _, auth => (auth, true)
  | fuel + 1, i, s, auth =>
    match authReadLine lineSize v i s with
    | (none, _) => (auth, true)
    | (some line, rest) =>
      match authEntryPlaintextAdd_ v.ok i line auth with
      | (auth, false) => (auth, false)
      | (auth, true) => authAddLines v fuel (i + 1) rest auth

/-- The file at the source, if it can be accessed. -/
def sourceFile (v : Verification) (files : CStr → Option File) (auth : AuthPlaintext) :
    Option File :=
  match auth.source with
  | none => none
  | some source => if v.ok .stat then files source else none

/-- `auth_plaintext_update_`, and whether it succeeds. -/
def authPlaintextUpdate_ (v : Verification) (files : CStr → Option File) (auth : AuthPlaintext) :
    AuthPlaintext × Bool :=
  match sourceFile v files auth with
  | none => (auth, auth.sourceLastRead != 0)
  | some file =>
    if auth.sourceLastRead ≠ 0 ∧ file.mtime ≤ auth.sourceLastRead then (auth, true)
    else if !v.ok .open then (auth, false)
    else
      match authAddLines v (file.content.length + 1) 0 file.content auth with
      | (auth, true) => ({ auth with sourceLastRead := file.mtime }, true)
      | (auth, false) => (auth, false)

/-! ## Verifying -/

/-- `"Basic "`. -/
def basicScheme : CStr := ['B', 'a', 's', 'i', 'c', ' ']

/-- `auth_skip_basic`. White space up to the terminator is skipped past it. -/
def authSkipBasic (beyond : List Char) (header : CStr) : Option CStr :=
  if !strcaseEq (header.take 6) basicScheme then none
  else
    match (header.drop 6).dropWhile (!isGraph ·) with
    | [] => some ((beyond.dropWhile (!isGraph ·)).takeWhile (· != '\x00'))
    | header => some header

section
variable (bioRead : CStr → List Char) (v : Verification)

/-- `auth_plaintext_decode_`: the username and the password. -/
def authPlaintextDecode_ : Option (CStr × CStr) :=
  match authSkipBasic v.beyond v.header with
  | none => none
  | some header =>
    if !v.ok .decoded then none
    else if bioRead header = [] then none
    else
      match splitFirst (· == ':') ((bioRead header).takeWhile (· != '\x00')) with
      | none => none
      | some (username, _, password) =>
        if v.ok .decodedUsername && v.ok .decodedPassword then some (username, password) else none

/-- `auth_plaintext_verify_`, and whether it accepts the header. -/
def authPlaintextVerify_ (files : CStr → Option File) (auth : AuthPlaintext) :
    AuthPlaintext × Bool :=
  match authPlaintextUpdate_ v files auth with
  | (auth, false) => (auth, false)
  | (auth, true) =>
    match authPlaintextDecode_ bioRead v with
    | none => (auth, false)
    | some (username, password) =>
      (auth, auth.passwords.any fun entry =>
        strcaseEq entry.username username && entry.codecVerify.verify entry.password password)

end

/-- `auth_plaintext_set_password_file_`, and whether it succeeds: whether the
name can be copied. -/
def authPlaintextSetPasswordFile_ (ok : Bool) (file : CStr) (auth : AuthPlaintext) :
    AuthPlaintext × Bool :=
  if ok then ({ auth with passwords := [], source := some file }, true)
  else ({ auth with passwords := [], source := none }, false)

/-- `auth_plaintext_new_`. -/
def authPlaintextNew_ : AuthPlaintext := ⟨none, 0, []⟩

/-! ## An authenticator and its files -/

/-- An authenticator, and the files there are. -/
structure AuthState where
  auth : AuthPlaintext
  files : CStr → Option File

/-- Writing a file, or a call of the authenticator. -/
inductive AuthInput
  | write (name : CStr) (file : File)
  | setPasswordFile (ok : Bool) (name : CStr)
  | verify (v : Verification)

/-- What follows an input. -/
def AuthState.step (bioRead : CStr → List Char) (s : AuthState) : AuthInput → AuthState
  | .write name file => { s with files := Function.update s.files name (some file) }
  | .setPasswordFile ok name => { s with auth := (authPlaintextSetPasswordFile_ ok name s.auth).1 }
  | .verify v => { s with auth := (authPlaintextVerify_ bioRead v s.files s.auth).1 }

/-- A new authenticator, before there are files. -/
def AuthState.startup : AuthState := ⟨authPlaintextNew_, fun _ => none⟩

end DQ.Model
