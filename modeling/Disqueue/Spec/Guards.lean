import Disqueue.Model.Start

/-!
# What a configuration says

A configuration describes servers, and the authentication of each
(`StartsDescribed`). `NamesMethod` is the condition on a server's object under
which its server is guarded as it says.
-/

namespace DQ.Spec

open DQ.Model

/-- The objects of the servers. -/
def serverObjects (config : Json) : List Json :=
  match jsonObjectObjectGet serversKey config with
  | .array servers => servers
  | _ => []

/-- The members that define authentication methods. -/
def methodMembers (config : Json) : List (CStr × Json) :=
  match jsonObjectObjectGet authenticationKey config with
  | .object members => members
  | _ => []

/-- The method of a password file, before the file is read. -/
def plaintextAuth (file : CStr) : Auth := ⟨.plaintext, ⟨some file, 0, []⟩⟩

section
variable (c : JsonC)

/-- The server has the address that the object gives. -/
structure Describes (obj : Json) (server : ConfigServer) : Prop where
  hostname : stringAt c [hostnameKey] obj = some server.hostname
  port : ∃ port, jsonPointerGet [portKey] obj = some port ∧ jsonObjectGetInt c port = server.port

/-- The start of a server dereferences no null pointer, and the paths of a
server that was started require credentials exactly if its object has an
authentication member: those of the method defined under the name it gives. -/
def GuardedAs (config obj : Json) : Start → Prop
  | .nullPointer => False
  | .failed => True
  | .started m =>
    match jsonPointerGet [authenticationKey] obj with
    | none => ∀ p, m.guard p = some .open
    | some a =>
      ∃ name method file, jsonObjectGetString c a = some name ∧
        (name, method) ∈ methodMembers config ∧ stringAt c [fileKey] method = some file ∧
        ∀ p, m.guard p = some (.authenticated (plaintextAuth file) name)

/-- The last name of a method that is the name, ignoring case. -/
def lastNamed (name : CStr) (config : Json) : Option CStr :=
  (((methodMembers config).map (·.1)).filter fun key => strcaseEq key name).getLast?

/-- The object has an authentication member. If memory is there, it is there
for the callbacks of all paths, and the last name that is the one it gives,
ignoring case, is the one it gives. -/
def NamesMethod (ok : StartCall → Bool) (config obj : Json) : Prop :=
  ∃ a name, jsonPointerGet [authenticationKey] obj = some a ∧
    jsonObjectGetString c a = some name ∧
    (ok .managerServer = true →
      lastNamed name config = some name ∧
        ∀ p, ok (.setCb p) = true ∧ ok (.params p) = true)

end

/-- The servers that are loaded, the last one first, have the addresses of the
objects, and each server that `main` starts is guarded as its object says. -/
structure StartsDescribed (c : JsonC) (ok : Nat → StartCall → Bool) (config : Json)
    (ctx : ConfigContext) : Prop where
  described : List.Forall₂ (Describes c) (serverObjects config).reverse ctx.servers
  guarded : ∀ p ∈ (serverObjects config).reverse.zip
    (startServers ok 0 ctx.servers sslGlobalContext_), GuardedAs c config p.1 p.2

/-- Each server that `main` starts, from the `i`-th on, and whose listener is
made, has a method by its name. -/
def StartsNamed (c : JsonC) (ok : Nat → StartCall → Bool) (config : Json) :
    Nat → List (Json × ConfigServer) → SslContext → Prop
  | _, [], _ => True
  | i, (obj, server) :: rest, ssl =>
    ((createListener (ok i) server ssl).2 = true → NamesMethod c (ok i) config obj) ∧
      ∀ m ssl', createServer (ok i) server ssl = (.started m, ssl') →
        StartsNamed c ok config (i + 1) rest ssl'

end DQ.Spec
