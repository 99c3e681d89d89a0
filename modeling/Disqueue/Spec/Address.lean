import Disqueue.Model.Url

/-!
# The server of a base URL

A base URL is written from its parts (`UrlParts`), of which a URL of the scheme
http or https consists (`BaseUrl`). Both libraries should connect to the same
host, and to the URL's port (`SameEndpoint`).
-/

namespace DQ.Spec

open DQ.Model

/-- The parts of a URL with an authority. -/
structure UrlParts where
  scheme : CStr
  userinfo : Option CStr
  host : CStr
  port : Option CStr
  /-- The path, the query and the fragment. -/
  rest : CStr

namespace UrlParts

def authority (u : UrlParts) : CStr :=
  (u.userinfo.elim [] (· ++ ['@'])) ++ (u.host ++ u.port.elim [] (':' :: ·))

/-- The URL. -/
def text (u : UrlParts) : CStr := u.scheme ++ schemeEnd ++ (u.authority ++ u.rest)

/-- The parts can be told apart, and the port is the number of one. -/
structure WellFormed (u : UrlParts) : Prop where
  scheme : ':' ∉ u.scheme
  userinfo : ∀ s ∈ u.userinfo, ∀ c ∈ s, isDelimiter c = false
  host : IsHost u.host
  port : ∀ s ∈ u.port, s.all Char.isDigit = true ∧ portNumber s ≤ 65535
  rest : ∀ c, u.rest.head? = some c → c = '/' ∨ c = '?' ∨ c = '#'

/-- The port that is written, if one is. -/
def explicitPort (u : UrlParts) : Option Nat :=
  u.port.bind fun s => if s = [] then none else some (portNumber s)

end UrlParts

/-- A URL of the scheme http or https, written with the characters of URLs. -/
structure BaseUrl extends UrlParts where
  wellFormed : toUrlParts.WellFormed
  isHttp : fold scheme = httpScheme ∨ fold scheme = httpsScheme
  plain : ∀ c ∈ toUrlParts.text, '!' ≤ c ∧ c ≤ '~'

namespace BaseUrl

/-- The explicit port, or the scheme's default. -/
def serverPort (u : BaseUrl) : Nat :=
  u.explicitPort.getD (if fold u.scheme = httpScheme then 80 else 443)

/-- The text of the host, without brackets, in lower case up to a `%`. -/
def lowerHost (u : BaseUrl) : CStr :=
  let host := TypeScript.withoutBrackets u.host
  fold (host.takeWhile (· != '%')) ++ host.dropWhile (· != '%')

end BaseUrl

section
variable {H : Type} (p : WebPlatform) (named : CStr → H) (u : BaseUrl)

/-- Where the Python library opens the WebSocket. -/
def pythonEndpoint (url : CStr) : Option (CStr × Nat) :=
  (Python.createWebsocketAddress url).bind fun r => r.2.1.map fun host => (host, r.2.2)

/-- Where the TypeScript library opens it. -/
def typeScriptEndpoint (url : CStr) : Option (CStr × Nat) :=
  (TypeScript.createWebSocketAddress p.hostParser url).bind p.connects

/-- Both libraries open the WebSocket to the same host, and to the URL's port. -/
def SameEndpoint : Prop :=
  ∃ host host', pythonEndpoint u.text = some (host, u.serverPort) ∧
    typeScriptEndpoint p u.text = some (host', u.serverPort) ∧ named host = named host'

/-- The host parser accepts the host, and what it makes of it names the same host
as its text in lower case. -/
def HostFits : Prop :=
  ∃ h, p.hostParser u.host = some h ∧ named u.lowerHost = named (TypeScript.withoutBrackets h)

/-- An explicit port is not 0, and is 443 if the scheme is https. -/
def PortFits : Prop :=
  ∀ n, u.explicitPort = some n → if fold u.scheme = httpScheme then n ≠ 0 else n = 443

end

end DQ.Spec
