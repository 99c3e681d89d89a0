import Disqueue.Framework.Cut

/-!
# The address of the WebSocket

`_create_websocket_address` in both libraries, and what of a URL the two
languages read for it: Python's `urlparse`, and the parser of the URL Standard
in Node.js (`new URL`), for URLs of the schemes http, https, ws and wss. Both
first remove white space and control characters from the ends of a URL, and tabs
and newlines from all of it; a URL has none here, and no character outside ASCII.

The host parser of the URL Standard, and the package `ws`, which connects to an
address, are parameters, with what their documentation says (`WebPlatform`).
-/

namespace DQ.Model

def httpScheme : CStr := "http".toList
def httpsScheme : CStr := "https".toList
def wsScheme : CStr := "ws".toList
def wssScheme : CStr := "wss".toList

/-- What joins a scheme and an authority. -/
def schemeEnd : CStr := "://".toList

/-- The path of the WebSocket. -/
def takePath : CStr := "/take/ws".toList

/-- The number that decimal digits are. -/
def portNumber (digits : CStr) : Nat := Nat.ofDigitChars 10 digits 0

/-! ## Python -/

namespace Python

/-- `scheme_chars`. -/
def isSchemeChar (c : Char) : Bool := c.isAlphanum || c == '+' || c == '-' || c == '.'

/-- The characters where `_splitnetloc` ends the network location. -/
def endsNetloc (c : Char) : Bool := c == '/' || c == '?' || c == '#'

/-- `scheme` and `netloc` of `urlparse(url)`, where brackets are matched. -/
def urlparse (url : CStr) : CStr × CStr :=
  let scheme := url.takeWhile (· != ':')
  let (scheme, url) :=
    if ':' ∈ url ∧ (scheme.head?.any Char.isAlpha && scheme.all isSchemeChar) = true then
      (fold scheme, (cut ':' url).2)
    else ([], url)
  match url with
  | '/' :: '/' :: url => (scheme, url.takeWhile (!endsNetloc ·))
  | _ => (scheme, [])

/-- `_hostinfo`: the host, without brackets, and the port's text. -/
def hostinfo (netloc : CStr) : CStr × CStr :=
  let hostinfo := afterLast '@' netloc
  if '[' ∈ hostinfo then
    let (hostname, port) := cut ']' (cut '[' hostinfo).2
    (hostname, (cut ':' port).2)
  else cut ':' hostinfo

/-- `hostname`. What follows a `%` stays as it is. -/
def hostname (netloc : CStr) : Option CStr :=
  let host := (hostinfo netloc).1
  if host = [] then none
  else some (fold (host.takeWhile (· != '%')) ++ host.dropWhile (· != '%'))

/-- `port`, which raises an exception (`none`) if there is something else than
the number of a port. -/
def port (netloc : CStr) : Option (Option Nat) :=
  let port := (hostinfo netloc).2
  if port = [] then some none
  else if port.all Char.isDigit && portNumber port ≤ 65535 then some (some (portNumber port))
  else none

/-- `_create_websocket_address`: the address, and the host and the port to
connect to. The port is `parse.port or 80 if parse.scheme == 'http' else 443`. -/
def createWebsocketAddress (url : CStr) : Option (CStr × Option CStr × Nat) :=
  let (scheme, netloc) := urlparse url
  let connection : Option Nat :=
    if scheme = httpScheme then (port netloc).map fun p => (p.filter (· ≠ 0)).getD 80 else some 443
  let newScheme := if scheme = httpScheme then wsScheme else wssScheme
  connection.map fun p => (newScheme ++ schemeEnd ++ netloc ++ takePath, hostname netloc, p)

end Python

/-! ## TypeScript -/

namespace TypeScript

/-- What is read of a `URL`; its port is null if it is the scheme's default. -/
structure Url where
  scheme : CStr
  hostname : CStr
  port : Option Nat
deriving DecidableEq

/-- The default ports of the schemes. -/
def defaultPort (scheme : CStr) : Option Nat :=
  if scheme = httpScheme ∨ scheme = wsScheme then some 80
  else if scheme = httpsScheme ∨ scheme = wssScheme then some 443
  else none

def isSlash (c : Char) : Bool := c == '/' || c == '\\'

/-- The characters that end an authority. -/
def endsAuthority (c : Char) : Bool := isSlash c || c == '?' || c == '#'

/-- The host, up to the first colon that is not between brackets, and the port. -/
def splitPort (insideBrackets : Bool) : CStr → CStr × CStr
  | [] => ([], [])
  | c :: rest =>
    if c = ':' ∧ insideBrackets = false then ([], rest)
    else
      let (host, port) :=
        splitPort (if c = '[' then true else if c = ']' then false else insideBrackets) rest
      (c :: host, port)

section
variable (hostParser : CStr → Option CStr)

/-- `new URL(url)`, unless it throws. -/
def newUrl (url : CStr) : Option Url :=
  let (scheme, rest) := cut ':' url
  let authority := (rest.dropWhile isSlash).takeWhile (!endsAuthority ·)
  let (host, port) := splitPort false (afterLast '@' authority)
  match defaultPort (fold scheme), hostParser host with
  | some default, some hostname =>
    if host = [] || !port.all Char.isDigit || 65535 < portNumber port then none
    else if port = [] || portNumber port == default then some ⟨fold scheme, hostname, none⟩
    else some ⟨fold scheme, hostname, some (portNumber port)⟩
  | _, _ => none

/-- The property `host` of a `URL`. -/
def Url.host (u : Url) : CStr :=
  u.hostname ++ match u.port with
  | none => []
  | some n => ':' :: Nat.toDigits 10 n

/-- `_createWebSocketAddress`. -/
def createWebSocketAddress (url : CStr) : Option CStr :=
  (newUrl hostParser url).map fun parsed =>
    (if parsed.scheme = httpScheme then wsScheme else wssScheme) ++ schemeEnd ++ parsed.host ++
      takePath

end

/-- The host that is connected to for a host name. -/
def withoutBrackets (hostname : CStr) : CStr :=
  if hostname.head? = some '[' then hostname.tail.dropLast else hostname

/-- The host and the port of an address. -/
def Url.endpoint (u : Url) : CStr × Nat :=
  (withoutBrackets u.hostname, u.port.getD (if u.scheme = wssScheme then 443 else 80))

end TypeScript

/-! ## Hosts -/

/-- The delimiters of a URL, but the colon. -/
def isDelimiter (c : Char) : Bool :=
  c == '/' || c == '\\' || c == '?' || c == '#' || c == '@' || c == '[' || c == ']'

/-- The text of a host: a name or number without delimiters, or an address in
brackets. -/
inductive IsHost : CStr → Prop
  | name {s : CStr} (hne : s ≠ []) (hs : ∀ c ∈ s, isDelimiter c = false ∧ c ≠ ':') : IsHost s
  | address {s : CStr} (hne : s ≠ []) (hs : ∀ c ∈ s, isDelimiter c = false) :
    IsHost ('[' :: (s ++ [']']))

/-- The host parser, with its serialiser, and the package `ws`. -/
structure WebPlatform where
  hostParser : CStr → Option CStr
  /-- What `new WebSocket(address)` connects to. -/
  connects : CStr → Option (CStr × Nat)
  /-- A host is serialised to the text of one. -/
  isHost : ∀ {s h}, hostParser s = some h → IsHost h
  /-- Parsed again, this is the same host. -/
  stable : ∀ {s h}, hostParser s = some h → hostParser h = some h
  /-- The connection is to the host and the port of the address. -/
  connects_eq : ∀ address,
    connects address = (TypeScript.newUrl hostParser address).map TypeScript.Url.endpoint

end DQ.Model
