import Disqueue.Model.Config

/-!
# Starting the servers (`main.c`, `ssl.c` and `manager_add_server`)

Each server of the configuration is started by `create_server`, in the order
of the configuration's list, until one fails. What a start leaves is how the
requests for each path are guarded.
-/

namespace DQ.Model

/-- The paths of a server. -/
inductive ServerPath
  | queues | queue | take | peek | put | takeWs
deriving DecidableEq

/-- The calls that can fail while a server is started. -/
inductive StartCall
  | http | bindSocket | ws
  | sslContext | certificate | privatekey
  | managerServer
  /-- `connection_http_auth_callback`, and the registration of a path. -/
  | params (p : ServerPath) | setCb (p : ServerPath)
deriving DecidableEq

/-- What the requests for a path go through. -/
inductive Guard
  /-- The path's own callback. -/
  | open
  /-- `connection_http_authenticated` or `connection_ws_authenticated`, with a
  method and a realm. -/
  | authenticated (auth : Auth) (realm : CStr)
  /-- One of these, without parameters. -/
  | noParams
deriving DecidableEq

/-- `struct manager_server`: how each path is guarded, if it is registered. -/
structure ManagerServer where
  guard : ServerPath → Option Guard

/-- `struct ssl_context`: the files that were loaded into the context, and how
many were. -/
structure SslContext where
  sslInitialised : Bool
  keypairLoaded : Nat
  certificate : Option CStr
  privatekey : Option CStr
deriving DecidableEq

/-- What starting a server comes to. -/
inductive Start
  | started (m : ManagerServer)
  | failed
  /-- A null pointer was dereferenced. -/
  | nullPointer

/-! ## Keys and certificates -/

section
variable (ok : StartCall → Bool)

/-- `ssl_setup`. -/
def sslSetup (ssl : SslContext) : Option SslContext :=
  if ssl.sslInitialised then some ssl
  else if !ok .sslContext then none
  else some ⟨true, 0, none, none⟩

/-- `ssl_destroy`. -/
def sslDestroy (ssl : SslContext) : SslContext :=
  if ssl.sslInitialised then { ssl with sslInitialised := false, keypairLoaded := 0 } else ssl

/-- `ssl_load_certificate`. -/
def sslLoadCertificate (filename : CStr) (ssl : SslContext) : Option SslContext :=
  if ssl.keypairLoaded ≠ 0 then some ssl
  else if !ok .certificate then none
  else some { ssl with certificate := some filename, keypairLoaded := ssl.keypairLoaded + 1 }

/-- `ssl_load_privatekey`. -/
def sslLoadPrivatekey (filename : CStr) (ssl : SslContext) : Option SslContext :=
  if ssl.keypairLoaded = 2 then some ssl
  else if !ok .privatekey then none
  else some { ssl with privatekey := some filename, keypairLoaded := ssl.keypairLoaded + 1 }

/-- The part of `create_server` for a server that has security. -/
def startSecurity (server : ConfigServer) (ssl : SslContext) : SslContext × Bool :=
  match server.certificate, server.privatekey with
  | some certificate, some privatekey =>
    match sslSetup ok ssl with
    | none => (ssl, false)
    | some ssl =>
      match sslLoadCertificate ok certificate ssl with
      | none => (ssl, false)
      | some ssl =>
        match sslLoadPrivatekey ok privatekey ssl with
        | none => (ssl, false)
        | some ssl => (ssl, true)
  | _, _ => (ssl, true)

/-! ## Servers -/

/-- `manager_add_server`. -/
def managerAddServer (auth : Option Auth) (authRealm : Option CStr) : Option ManagerServer :=
  if !ok .managerServer then none
  else
    match auth, authRealm with
    | some auth, some realm =>
      some ⟨fun p =>
        if !ok (.setCb p) then none
        else if ok (.params p) then some (.authenticated auth realm)
        else some .noParams⟩
    | _, _ => some ⟨fun p => if !ok (.setCb p) then none else some .open⟩

/-- `config_server_get_authentication`, unless a null pointer is
dereferenced. -/
def configServerGetAuthentication (server : ConfigServer) : Option Auth :=
  server.authentication.map (·.auth)

/-- `config_server_get_realm`, unless a null pointer is dereferenced. -/
def configServerGetRealm (server : ConfigServer) : Option CStr :=
  server.authentication.map (·.name)

/-- The calls of `create_server` up to `config_server_get_authentication`, and
whether they succeed. -/
def createListener (server : ConfigServer) (ssl : SslContext) : SslContext × Bool :=
  if ok .http && ok .bindSocket && ok .ws then startSecurity ok server ssl else (ssl, false)

/-- `create_server`. -/
def createServer (server : ConfigServer) (ssl : SslContext) : Start × SslContext :=
  match createListener ok server ssl with
  | (ssl, false) => (.failed, sslDestroy ssl)
  | (ssl, true) =>
    match configServerGetAuthentication server with
    | none => (.nullPointer, ssl)
    | some auth =>
      match configServerGetRealm server with
      | none => (.nullPointer, ssl)
      | some realm =>
        match managerAddServer ok (some auth) (some realm) with
        | none => (.failed, sslDestroy ssl)
        | some m => (.started m, ssl)

end

/-- `ssl_global_context_`, at first. -/
def sslGlobalContext_ : SslContext := ⟨false, 0, none, none⟩

/-- The loop of `main` over the servers, from the `i`-th on: how the start of
each ends, up to the first that fails. -/
def startServers (ok : Nat → StartCall → Bool) : Nat → List ConfigServer → SslContext → List Start
  | _, [], _ => []
  | i, server :: servers, ssl =>
    match createServer (ok i) server ssl with
    | (.started m, ssl) => .started m :: startServers ok (i + 1) servers ssl
    | (r, _) => [r]

end DQ.Model
