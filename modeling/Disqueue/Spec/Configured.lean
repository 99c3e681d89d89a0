import Disqueue.Model.Ssl

/-!
# Objects of servers that are valid

What an object says of a server, one condition for each member, and
`ValidServer`, which has all of them. `ConfiguredExactly` says that exactly
the valid objects are accepted, and that what is stored is what they say.
-/

namespace DQ.Spec

open DQ.Model

/-- A member of an object. -/
def member (key : CStr) (obj : Json) : Option Json := jsonPointerGet [key] obj

/-- The object has the member, and it is not null. -/
def HasValue (key : CStr) (obj : Json) : Prop := ∃ value ∈ member key obj, value ≠ .null

section
variable (c : JsonC)

/-- The port converts to an integer from 1 to `n`. -/
def PortUpTo (n : Int) (obj : Json) : Prop :=
  ∃ port ∈ member portKey obj, 1 ≤ jsonObjectGetInt c port ∧ jsonObjectGetInt c port ≤ n

/-- An authentication member names a method that is loaded. -/
def NamesLoaded (methods : List ConfigAuthentication) (obj : Json) : Prop :=
  ∀ a ∈ member authenticationKey obj, ∃ name, jsonObjectGetString c a = some name ∧
    ∃ method ∈ methods, strcaseEq method.name name = true

/-- A security section has a certificate and a private key. -/
def SecurityComplete (obj : Json) : Prop :=
  ∀ security ∈ member securityKey obj, HasValue certificateKey security ∧
    HasValue privatekeyKey security

/-- A server whose object is valid. -/
structure ValidServer (methods : List ConfigAuthentication) (obj : Json) : Prop where
  hostname : HasValue hostnameKey obj
  port : PortUpTo c 65535 obj
  method : NamesLoaded c methods obj
  security : SecurityComplete obj

/-- An object is accepted exactly if it is valid. The server that is stored is
secured exactly if the object has a security section, and has its port. -/
structure ConfiguredExactly (i : Nat) (obj : Json) (ctx : ConfigContext) : Prop where
  accepted : (configProcessServer_ c (fun _ => true) i obj ctx).isSome = true ↔
    ValidServer c ctx.authentications obj
  stored : ∀ ctx' ∈ configProcessServer_ c (fun _ => true) i obj ctx,
    ∃ server port, ctx' = { ctx with servers := server :: ctx.servers } ∧
      (configServerHasSecurity server = true ↔ (member securityKey obj).isSome = true) ∧
      member portKey obj = some port ∧ jsonObjectGetInt c port = server.port

/-- The object is accepted, and its security section has no certificate. -/
def HalfWritten (methods : List ConfigAuthentication) (obj : Json) : Prop :=
  HasValue hostnameKey obj ∧ PortUpTo c 32767 obj ∧ NamesLoaded c methods obj ∧
    ∃ security ∈ member securityKey obj, member certificateKey security = none

end

end DQ.Spec
