import Disqueue.Model.Upgrade
import Disqueue.Spec.Once

/-!
# What an upgrade should do

A request for an upgrade should pass the tests of the opening handshake
(`PassesTests`), and be approved by the upgrade callback (`approves`), before it
is answered with 101; it gets one reply, and no string is used that is missing or
was freed (`ExactUpgrade`). `FitsUpgrade` is the condition under which that is
so.
-/

namespace DQ.Spec

open DQ.Model DQ.Model.Watched

/-! ## Header lists -/

/-- Spaces and tabs. -/
def isBlank (c : Char) : Bool := c == ' ' || c == '\t'

/-- The string without the blanks around it. -/
def trimBlanks (s : CStr) : CStr := (s.dropWhile isBlank).rdropWhile isBlank

/-- The comma-separated list has the token, ignoring case, as an element. -/
def Lists (value token : CStr) : Prop :=
  ∃ element ∈ value.splitOn ',', strcaseEq (trimBlanks element) token = true

/-- The element is empty, or starts with spaces and a tab, or ends with a blank
after something else than spaces. -/
def Padded (element : CStr) : Prop :=
  element = [] ∨ (element.dropWhile (· == ' ')).head? = some '\t' ∨
    ∃ c, (element.dropWhile (· == ' ')).getLast? = some c ∧ isBlank c = true

/-- The list has the token, but only padded. -/
def ListsPadded (value token : CStr) : Prop :=
  Lists value token ∧
    ∀ element ∈ value.splitOn ',', strcaseEq (trimBlanks element) token = true → Padded element

/-! ## Requests -/

/-- The header is present, and its value is as required. -/
def HasHeader (r : Asked) (name : CStr) (P : CStr → Prop) : Prop :=
  ∃ value, evhttpFindHeader r.headers name = some value ∧ P value

/-- The tests of an upgrade: the method, the version and the headers. -/
structure PassesTests (r : Asked) : Prop where
  method : r.request.method = .get
  version : 1 < r.version.1 ∨ r.version.1 = 1 ∧ 1 ≤ r.version.2
  upgrade : HasHeader r upgradeHeader (Lists · websocketToken)
  connection : HasHeader r connectionHeader (Lists · upgradeHeader)
  wsVersion : HasHeader r versionHeader (· = ['1', '3'])
  key : HasHeader r keyHeader fun _ => True

/-- What a call of the handler should leave, with the strings that it used. -/
structure ExactReply (approved : Bool) (r : Asked) (p : Program) (t : Program × List StringPtr) :
    Prop where
  missing : .missing ∉ t.2
  freed : .freed ∉ t.2
  reply : ∃ code body, repliesSent true p t.1 = [(code, body)] ∧
    (code = 101 → PassesTests r ∧ approved = true) ∧ (¬ PassesTests r → 400 ≤ code)

section
variable (dm : DataModel) (bioRead : CStr → List Char) (g : Guard) (a : Option Nat)

/-- The upgrade callback, if there is one, accepts the credentials of the
request. -/
def approves (r : Asked) (p : Program) : Bool :=
  match g, a with
  | .open, _ => true
  | .authenticated _ _, some a =>
    (evhttpFindHeader r.headers authorizationHeader).any fun authstring =>
      (authVerify bioRead { r.verification with header := authstring } p.files (p.auths a)).2
  | _, _ => false

/-- The strings used are there, and the request gets one reply: 101 only if it
passes the tests and is approved, and an error if it does not pass them. -/
def ExactUpgrade (r : Asked) (p : Program) : Prop :=
  ExactReply (approves bioRead g a r p) r p (Watched.evwsUpgradeHttpCb_ dm bioRead g a r p)

/-- The key is present, the callback has its parameters, and either the upgrade
is refused, or the reply's key cannot be made, or the version is exactly 13 and
the connection is made. -/
def FitsKey (r : Asked) (p : Program) : Prop :=
  HasHeader r keyHeader (fun _ => True) ∧ HasParams g a ∧
    (approves bioRead g a r p = false ∨ r.upgrade .acceptKey = false ∨
      HasHeader r versionHeader (· = ['1', '3']) ∧ r.upgrade .connection = true ∧
        r.upgrade .takeOwnership = true ∧ r.upgrade .wslayContext = true)

/-- The headers `Upgrade` and `Connection` are present, and neither can be
copied, or both are, and list what they have to, and the method or the version of
HTTP is not right, or the version header is present, and no number 13, or it and
the rest fit. -/
def FitsUpgrade (r : Asked) (p : Program) : Prop :=
  ∃ upgrade connection, evhttpFindHeader r.headers upgradeHeader = some upgrade ∧
    evhttpFindHeader r.headers connectionHeader = some connection ∧
    (r.upgrade .upgradeHeader = false ∧ r.upgrade .connectionHeader = false ∨
      (r.upgrade .upgradeHeader = true ∧ r.upgrade .connectionHeader = true ∧
        headerContains upgrade websocketToken = true ∧
        headerContains connection upgradeHeader = true) ∧
      (r.request.method ≠ .get ∨ reqVersionBefore r.version (1, 1) = true ∨
        HasHeader r versionHeader fun v => atoi dm v ≠ 13 ∨ FitsKey bioRead g a r p))

end

end DQ.Spec
