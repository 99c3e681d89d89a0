import Disqueue.Model.Ssl

/-!
# The key pairs of servers

A server with a security section has a certificate and a private key of its
own (`OwnPairs`). The code has room for one pair, that of the first such server
(`FirstPairs`).
-/

namespace DQ.Spec

open DQ.Model

/-- A connection: the number of the server that accepts it, and which calls
made for it succeed. -/
abbrev Accepted := Nat × (SslCall → Bool)

/-- The files of the server's security section. -/
def pairOf (server : ConfigServer) : Option (CStr × CStr) :=
  match server.certificate, server.privatekey with
  | some certificate, some privatekey => some (certificate, privatekey)
  | _, _ => none

/-- The connections of servers with a security section are set up with the
server's own files. -/
def OwnPairs (servers : List ConfigServer) (ssl : SslContext) (conns : List Accepted) : Prop :=
  ∀ conn ∈ conns, ∀ server, servers[conn.1]? = some server → ∀ pair, pairOf server = some pair →
    acceptConnection conn.2 server ssl = some (.ssl (some pair.1) (some pair.2))

/-- The connections of servers with a security section are made without a
failure, and the server names the files that the first server with a security
section names. -/
def FirstPairs (servers : List ConfigServer) (conns : List Accepted) : Prop :=
  ∀ conn ∈ conns, ∀ server, servers[conn.1]? = some server → ∀ pair, pairOf server = some pair →
    (conn.2 .connection = true ∧ conn.2 .bufferevent = true) ∧
      servers.findSome? pairOf = some pair

end DQ.Spec
