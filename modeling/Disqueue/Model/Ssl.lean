import Disqueue.Model.Start

/-!
# Connections of started servers (`ssl.c`)

When all servers are started, `main` runs the event loop, and each connection
that a server accepts gets a bufferevent: libevent's own, or one made by
`ssl_create_bufferevent` if the server uses it. The files of an SSL object are
those of the global context when it is made.
-/

namespace DQ.Model

/-- The calls of `ssl_create_bufferevent` that can fail: `SSL_new` and
`bufferevent_openssl_socket_new`. -/
inductive SslCall
  | connection | bufferevent
deriving DecidableEq

/-- The bufferevent of a connection. -/
inductive Bufferevent
  | socket
  /-- With the certificate and private key of its SSL object. -/
  | ssl (certificate privatekey : Option CStr)
deriving DecidableEq

section
variable (ok : SslCall → Bool)

/-- `ssl_create_connection`: the files of the object. -/
def sslCreateConnection (ssl : SslContext) : Option (Option CStr × Option CStr) :=
  if !ssl.sslInitialised || ssl.keypairLoaded < 2 then none
  else if !ok .connection then none
  else some (ssl.certificate, ssl.privatekey)

/-- `ssl_create_bufferevent`. -/
def sslCreateBufferevent (ssl : SslContext) : Option Bufferevent :=
  match sslCreateConnection ok ssl with
  | none => none
  | some (certificate, privatekey) =>
    if ok .bufferevent then some (.ssl certificate privatekey) else none

/-- `config_server_has_security`. -/
def configServerHasSecurity (server : ConfigServer) : Bool :=
  server.certificate.isSome && server.privatekey.isSome

/-- The bufferevent that a connection of the server is set up with:
`create_server` has called `ssl_use` for a server with security. -/
def acceptConnection (server : ConfigServer) (ssl : SslContext) : Option Bufferevent :=
  if configServerHasSecurity server then sslCreateBufferevent ok ssl else some .socket

end

/-- The loop of `main`: the context in which the event loop runs, if all
servers are started. -/
def startedContext (ok : Nat → StartCall → Bool) : Nat → List ConfigServer → SslContext →
    Option SslContext
  | _, [], ssl => some ssl
  | i, server :: servers, ssl =>
    match createServer (ok i) server ssl with
    | (.started _, ssl) => startedContext ok (i + 1) servers ssl
    | _ => none

end DQ.Model
