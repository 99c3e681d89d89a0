import Mathlib.Logic.Function.Basic
import Disqueue.Model.Server
import Disqueue.Model.Start

/-!
# The program and its servers

libevent calls, for a request that comes to a server, what
`manager_add_server` set for its path: the handler, behind
`connection_http_authenticated` if the server has an authentication method, or
`evws_upgrade_http_cb_`, which asks `connection_ws_authenticated` first. The
authentication methods are designated by addresses, since servers may share
one. As in `Server.step`, what libevent and the allocator answer is part of
the input.
-/

namespace DQ.Model

/-- `struct manager_server`, with the address of its method. -/
structure AddedServer where
  manager : ManagerServer
  auth : Option Nat

/-- What is sent to a client other than by `connection_http_json_`, by the
number of its request. -/
inductive Answer
  /-- The header `WWW-Authenticate` of a reply. -/
  | challenge (rid : Nat) (value : CStr)
  /-- `evhttp_send_error`. -/
  | error (rid : Nat) (code : Nat)
  /-- The reply to an upgrade. -/
  | switching (rid : Nat)
deriving DecidableEq

/-- The calls that can fail during an upgrade: the copies of two headers, the
key, and those of `evws_connection_new_`. -/
inductive UpgradeCall
  | upgradeHeader | connectionHeader | acceptKey | connection | takeOwnership | wslayContext
deriving DecidableEq

/-- A request that comes to a server. -/
structure Asked where
  /-- The server's number, in the order in which they were added. -/
  server : Nat
  /-- One of the paths of a server, or another. -/
  path : Option ServerPath
  headers : List (CStr × CStr)
  /-- The major and the minor version. -/
  version : Int × Int
  /-- What the verification of the credentials finds, but the header. -/
  verification : Verification
  /-- Whether the header `WWW-Authenticate` is allocated. -/
  challenge : Bool
  upgrade : UpgradeCall → Bool
  /-- What the path's handler reads. -/
  request : Request

/-- The program: the manager's state, its servers, the authentication methods,
the files, and whether the program still runs. -/
structure Program where
  server : Server
  servers : List AddedServer
  auths : Nat → Auth
  files : CStr → Option File
  answers : List Answer
  running : Bool

namespace Program

/-- The program before a server is added. -/
def startup (auths : Nat → Auth) (files : CStr → Option File) : Program :=
  ⟨.startup, [], auths, files, [], true⟩

/-- A null pointer is dereferenced. -/
def nullPointer (p : Program) : Program := { p with running := false }

/-- `evhttp_send_error`. -/
def sendError (code : Nat) (p : Program) : Program :=
  { p with
    answers := p.answers ++ [.error p.server.next code]
    server := { p.server with next := p.server.next + 1 } }

/-- `connection_http_error_`, for a request that does not reach a handler. -/
def refuse (r : Asked) (code : Nat) (message : Failure) (p : Program) : Program :=
  { p with
    server := { connectionHttpError_ r.request .authenticated false code message p.server with
      next := p.server.next + 1 } }

end Program

/-! ## Credentials -/

/-- `auth_verify`. -/
def authVerify (bioRead : CStr → List Char) (v : Verification) (files : CStr → Option File)
    (auth : Auth) : Auth × Bool :=
  match auth.method with
  | .plaintext =>
    let (data, r) := authPlaintextVerify_ bioRead v files auth.methoddata
    ({ auth with methoddata := data }, r)

def authorizationHeader : CStr := ['A', 'u', 't', 'h', 'o', 'r', 'i', 'z', 'a', 't', 'i', 'o', 'n']

/-- `BASIC_HEADER`. -/
def basicHeader : CStr :=
  ['B', 'a', 's', 'i', 'c', ' ', 'r', 'e', 'a', 'l', 'm', '=', '"']

/-- `connection_http_auth_required_`. The realm of `BASIC_DEFAULT` is
`auth`. -/
def connectionHttpAuthRequired_ (r : Asked) (realm : CStr) (p : Program) : Program :=
  let value := basicHeader ++ (if r.challenge then realm else ['a', 'u', 't', 'h']) ++ ['"']
  { p with answers := p.answers ++ [.challenge p.server.next value] }

section
variable (dm : DataModel) (bioRead : CStr → List Char)

/-- `connection_ws_authenticated`, with the method at `a`: whether the upgrade
goes on. -/
def connectionWsAuthenticated (a : Nat) (realm : CStr) (r : Asked) (p : Program) :
    Program × Bool :=
  match evhttpFindHeader r.headers authorizationHeader with
  | none =>
    ((connectionHttpAuthRequired_ r realm p).refuse r 401 .authenticationRequired, false)
  | some authstring =>
    let (auth, verified) :=
      authVerify bioRead { r.verification with header := authstring } p.files (p.auths a)
    let p := { p with auths := Function.update p.auths a auth }
    if !verified then (p.refuse r 403 .authenticationFailed, false) else (p, true)

/-- `connection_http_authenticated`: the same, and then the handler. -/
def connectionHttpAuthenticated (a : Nat) (realm : CStr) (cb : Program → Program) (r : Asked)
    (p : Program) : Program :=
  match connectionWsAuthenticated bioRead a realm r p with
  | (p, true) => cb p
  | (p, false) => p

/-! ## Upgrades -/

/-- The tokens that `strtok` gives for `","`. -/
def tokens (value : CStr) : List CStr := (value.splitOn ',').filter (· != [])

/-- `header_contains`. -/
def headerContains (value look : CStr) : Bool :=
  (tokens value).any fun token => strcaseEq (token.dropWhile (· == ' ')) look

/-- The decimal number that a string starts with. -/
def decimal (s : CStr) : Int :=
  (s.takeWhile Char.isDigit).foldl (fun n c => 10 * n + (c.toNat - '0'.toNat : Nat)) 0

/-- `strtol`, base 10: a number that a `long` does not hold is the closest that
it holds. -/
def strtol (s : CStr) : Int :=
  let n :=
    match s.dropWhile isSpace with
    | '-' :: s => - decimal s
    | '+' :: s => decimal s
    | s => decimal s
  let bound : Int := 2 ^ (8 * dm.longBytes - 1)
  max (-bound) (min n (bound - 1))

/-- `atoi`: `strtol`, cut to an `int`. -/
def atoi (s : CStr) : Int := (strtol dm s).bmod (2 ^ 32)

def upgradeHeader : CStr := ['U', 'p', 'g', 'r', 'a', 'd', 'e']
def connectionHeader : CStr := ['C', 'o', 'n', 'n', 'e', 'c', 't', 'i', 'o', 'n']
def websocketToken : CStr := ['w', 'e', 'b', 's', 'o', 'c', 'k', 'e', 't']
def versionHeader : CStr :=
  ['S', 'e', 'c', '-', 'W', 'e', 'b', 'S', 'o', 'c', 'k', 'e', 't', '-', 'V', 'e', 'r', 's', 'i',
    'o', 'n']
def keyHeader : CStr :=
  ['S', 'e', 'c', '-', 'W', 'e', 'b', 'S', 'o', 'c', 'k', 'e', 't', '-', 'K', 'e', 'y']

/-- `REQ_VERSION_BEFORE`. -/
def reqVersionBefore (version before : Int × Int) : Bool :=
  version.1 < before.1 || (version.1 == before.1 && version.2 < before.2)

/-- The upgrade callback of a server whose path is guarded so, if it has
one. -/
def upgradecb (g : Guard) (a : Option Nat) (r : Asked) (p : Program) : Program × Bool :=
  match g, a with
  | .open, _ => (p, true)
  | .authenticated _ realm, some a => connectionWsAuthenticated bioRead a realm r p
  | _, _ => (p.nullPointer, false)

/-- `evws_upgrade_http_cb_`. -/
def evwsUpgradeHttpCb_ (g : Guard) (a : Option Nat) (r : Asked) (p : Program) : Program :=
  match evhttpFindHeader r.headers upgradeHeader, evhttpFindHeader r.headers connectionHeader with
  | some upgrade, some connection =>
    if !r.upgrade .upgradeHeader || !r.upgrade .connectionHeader ||
        !headerContains upgrade websocketToken || !headerContains connection upgradeHeader then
      p.sendError 400
    else if r.request.method != .get || reqVersionBefore r.version (1, 1) then p.sendError 400
    else if !(evhttpFindHeader r.headers versionHeader).any (atoi dm · == 13) then p.sendError 400
    else if (evhttpFindHeader r.headers keyHeader).isNone then p.sendError 400
    else
      match upgradecb bioRead g a r p with
      | (p, false) => p
      | (p, true) =>
        if !r.upgrade .acceptKey then p.sendError 500
        else
          let p : Program := { p with answers := p.answers ++ [.switching p.server.next] }
          if r.upgrade .connection && r.upgrade .takeOwnership && r.upgrade .wslayContext then
            { p with server := p.server.step dm .opened }
          else p.sendError 500
  | _, _ => p.nullPointer -- `strdup` of a missing header

/-! ## Servers -/

/-- The handler of a path, if it is not that of WebSocket connections. -/
def ServerPath.handler : ServerPath → Option Path
  | .queues => some .queues
  | .queue => some .queue
  | .take => some .take
  | .peek => some .peek
  | .put => some .put
  | .takeWs => none

/-- The handler's call. -/
def callHandler (path : Path) (r : Asked) (p : Program) : Program :=
  { p with server := p.server.step dm (.http { r.request with path }) }

/-- The callback of a path that is guarded so. -/
def pathCallback (g : Guard) (a : Option Nat) (path : ServerPath) (r : Asked) (p : Program) :
    Program :=
  match path.handler with
  | none => evwsUpgradeHttpCb_ dm bioRead g a r p
  | some path =>
    match g, a with
    | .open, _ => callHandler dm path r p
    | .authenticated _ realm, some a =>
      connectionHttpAuthenticated bioRead a realm (callHandler dm path r) r p
    | _, _ => p.nullPointer

namespace Program

/-- A request. libevent answers one for a path that is not registered. -/
def ask (r : Asked) (p : Program) : Program :=
  match p.servers[r.server]? with
  | none => p
  | some v =>
    match r.path.bind fun path => (v.manager.guard path).map fun g => (path, g) with
    | none => p.sendError 404
    | some (path, g) => pathCallback dm bioRead g v.auth path r p

/-- `manager_add_server`, with the method at an address. -/
def addServer (ok : StartCall → Bool) (auth : Option Nat) (realm : Option CStr) (p : Program) :
    Program :=
  match managerAddServer ok (auth.map p.auths) realm with
  | none => p
  | some m => { p with servers := p.servers ++ [⟨m, auth⟩] }

end Program

/-- What happens to the program. -/
inductive ProgramInput
  | addServer (ok : StartCall → Bool) (auth : Option Nat) (realm : Option CStr)
  /-- A file is written. -/
  | write (name : CStr) (file : File)
  | ask (r : Asked)
  /-- The events of a WebSocket connection. -/
  | read (c : Nat) (msgs : List Message) (recv : Int) (e : Wslay)
  | drained (c : Nat)
  | event (c : Nat) (eof error : Bool) (e : Wslay)

namespace Program

/-- What follows an input, while the program runs. -/
def next (p : Program) : ProgramInput → Program
  | .addServer ok auth realm => p.addServer ok auth realm
  | .write name file => { p with files := Function.update p.files name (some file) }
  | .ask r => p.ask dm bioRead r
  | .read c msgs recv e => { p with server := p.server.step dm (.read c msgs recv e) }
  | .drained c => { p with server := p.server.step dm (.drained c) }
  | .event c eof error e => { p with server := p.server.step dm (.event c eof error e) }

def step (p : Program) (i : ProgramInput) : Program := if p.running then p.next dm bioRead i else p

end Program

end

end DQ.Model
