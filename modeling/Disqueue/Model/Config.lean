import Disqueue.Model.AuthPlaintext

/-!
# The configuration (`config.c`)

A configuration is a JSON object. Its `authentication` member defines
authentication methods by their names, and each element of its `servers`
member describes a server, which may name a method. What is loaded is kept in
lists, the last element first. json-c's conversions of values that are not
strings or integers are parameters.
-/

namespace DQ.Model

/-- A `struct json_object`. Numbers are kept by their text. json-c keeps one
value for each key of an object. -/
inductive Json
  | null
  | bool (b : Bool)
  | number (text : CStr)
  | string (s : CStr)
  | array (elems : List Json)
  | object (members : List (CStr × Json))

/-- The conversions of json-c: the text of a value that is not a string, and
the integer of a value. -/
structure JsonC where
  text : Json → CStr
  int : Json → Int

/-- `json_object_object_get`, where a missing member is a null. -/
def jsonObjectObjectGet (key : CStr) : Json → Json
  | .object members => (members.lookup key).getD .null
  | _ => .null

/-- `json_pointer_get`, for a path of keys. -/
def jsonPointerGet : List CStr → Json → Option Json
  | [], j => some j
  | key :: path, .object members => (members.lookup key).bind (jsonPointerGet path)
  | _ :: _, _ => none

/-- `json_object_get_string`. -/
def jsonObjectGetString (c : JsonC) : Json → Option CStr
  | .null => none
  | .string s => some s
  | j => some (c.text j)

/-- `json_object_get_int`. -/
def jsonObjectGetInt (c : JsonC) : Json → Int
  | .null => 0
  | j => c.int j

/-! ## Authentication methods (`auth.c`) -/

/-- `enum auth_method`. -/
inductive AuthMethod
  | plaintext
deriving DecidableEq

/-- `struct auth`. -/
structure Auth where
  method : AuthMethod
  methoddata : AuthPlaintext
deriving DecidableEq

/-- The calls that can fail while a configuration is loaded, for the `i`-th
method or server. -/
inductive LoadCall
  | authentication (i : Nat) | auth (i : Nat) | methoddata (i : Nat) | source (i : Nat)
  | server (i : Nat)
deriving DecidableEq

/-- `auth_methods_list`. -/
def authMethodsList : List (CStr × AuthMethod) :=
  [(['p', 'l', 'a', 'i', 'n', 't', 'e', 'x', 't'], .plaintext)]

/-- `auth_new_`, for the `i`-th method of a configuration. -/
def authNew_ (ok : LoadCall → Bool) (i : Nat) (method : AuthMethod) : Option Auth :=
  if !ok (.auth i) then none
  else if !ok (.methoddata i) then none
  else some ⟨method, authPlaintextNew_⟩

/-- `auth_method_from_string`. -/
def authMethodFromString (ok : LoadCall → Bool) (i : Nat) (method : CStr) : Option Auth :=
  match authMethodsList.find? fun m => strcaseEq m.1 method with
  | none => none
  | some m => authNew_ ok i m.2

/-- `auth_set_password_file`. -/
def authSetPasswordFile (ok : Bool) (file : CStr) (auth : Auth) : Auth × Bool :=
  let (data, r) := authPlaintextSetPasswordFile_ ok file auth.methoddata
  ({ auth with methoddata := data }, r)

/-! ## Loading -/

/-- `struct config_authentication`. -/
structure ConfigAuthentication where
  name : CStr
  type : CStr
  file : CStr
  auth : Auth
deriving DecidableEq

/-- `struct config_server`. -/
structure ConfigServer where
  hostname : CStr
  port : Nat
  certificate : Option CStr
  privatekey : Option CStr
  authentication : Option ConfigAuthentication
deriving DecidableEq

/-- `struct config_context`. -/
structure ConfigContext where
  servers : List ConfigServer
  authentications : List ConfigAuthentication

/-- Why a configuration is not loaded: it is refused, or a null pointer is
dereferenced. -/
inductive LoadError
  | refused | nullPointer
deriving DecidableEq

def hostnameKey : CStr := ['h', 'o', 's', 't', 'n', 'a', 'm', 'e']
def portKey : CStr := ['p', 'o', 'r', 't']
def securityKey : CStr := ['s', 'e', 'c', 'u', 'r', 'i', 't', 'y']
def certificateKey : CStr := ['c', 'e', 'r', 't', 'i', 'f', 'i', 'c', 'a', 't', 'e']
def privatekeyKey : CStr := ['p', 'r', 'i', 'v', 'a', 't', 'e', 'k', 'e', 'y']
def authenticationKey : CStr :=
  ['a', 'u', 't', 'h', 'e', 'n', 't', 'i', 'c', 'a', 't', 'i', 'o', 'n']
def serversKey : CStr := ['s', 'e', 'r', 'v', 'e', 'r', 's']
def typeKey : CStr := ['t', 'y', 'p', 'e']
def fileKey : CStr := ['f', 'i', 'l', 'e']

section
variable (c : JsonC) (ok : LoadCall → Bool)

/-- `json_pointer_get` with `json_object_get_string`: a string at a path. -/
def stringAt (path : List CStr) (config : Json) : Option CStr :=
  (jsonPointerGet path config).bind (jsonObjectGetString c)

/-- `config_authentication_get_`. -/
def configAuthenticationGet_ (name : CStr) (ctx : ConfigContext) : Option ConfigAuthentication :=
  ctx.authentications.find? fun a => strcaseEq a.name name

/-- `config_process_authentication_`, for the `i`-th method. The clean-up of a
method that could not be allocated dereferences it. -/
def configProcessAuthentication_ (i : Nat) (name : CStr) (config : Json) (ctx : ConfigContext) :
    Except LoadError ConfigContext :=
  if !ok (.authentication i) then .error .nullPointer
  else
    match stringAt c [typeKey] config with
    | none => .error .refused
    | some type =>
      match stringAt c [fileKey] config with
      | none => .error .refused
      | some file =>
        match authMethodFromString ok i type with
        | none => .error .refused
        | some auth =>
          match authSetPasswordFile (ok (.source i)) file auth with
          | (_, false) => .error .refused
          | (auth, true) =>
            .ok { ctx with authentications := ⟨name, type, file, auth⟩ :: ctx.authentications }

/-- The security section of `config_process_server_`: the certificate and the
private key, if both are there or both are not looked for. -/
def configSecurity (config : Json) : Option (Option CStr × Option CStr) :=
  match jsonPointerGet [securityKey, certificateKey] config with
  | none => some (none, none)
  | some obj =>
    match jsonObjectGetString c obj, stringAt c [securityKey, privatekeyKey] config with
    | some certificate, some privatekey => some (some certificate, some privatekey)
    | _, _ => none

/-- The authentication of `config_process_server_`: a method that is defined,
if one is named. -/
def configMethod (config : Json) (ctx : ConfigContext) : Option (Option ConfigAuthentication) :=
  match jsonPointerGet [authenticationKey] config with
  | none => some none
  | some obj =>
    match jsonObjectGetString c obj with
    | none => none
    | some name => (configAuthenticationGet_ name ctx).map some

/-- `config_process_server_`, for the `i`-th server. `SHRT_MAX` is 32767. -/
def configProcessServer_ (i : Nat) (config : Json) (ctx : ConfigContext) : Option ConfigContext :=
  if !ok (.server i) then none
  else
    match stringAt c [hostnameKey] config with
    | none => none
    | some hostname =>
      match jsonPointerGet [portKey] config with
      | none => none
      | some obj =>
        let port := jsonObjectGetInt c obj
        if port = 0 then none
        else if port ≤ 0 ∨ 32767 < port then none
        else
          match configSecurity c config with
          | none => none
          | some (certificate, privatekey) =>
            match configMethod c config ctx with
            | none => none
            | some authentication =>
              let server : ConfigServer :=
                { hostname, port := port.toNat, certificate, privatekey, authentication }
              some { ctx with servers := server :: ctx.servers }

/-- The loop of `config_load_file` over the methods. -/
def processAuthentications : Nat → List (CStr × Json) → ConfigContext →
    Except LoadError ConfigContext
  | _, [], ctx => .ok ctx
  | i, (name, config) :: members, ctx =>
    match configProcessAuthentication_ c ok i name config ctx with
    | .error e => .error e
    | .ok ctx => processAuthentications (i + 1) members ctx

/-- The loop of `config_load_file` over the servers. -/
def processServers : Nat → List Json → ConfigContext → Except LoadError ConfigContext
  | _, [], ctx => .ok ctx
  | _, .null :: _, _ => .error .refused
  | i, server :: servers, ctx =>
    match configProcessServer_ c ok i server ctx with
    | none => .error .refused
    | some ctx => processServers (i + 1) servers ctx

/-- `config_load_file`, of a file whose text has a JSON value or not. The loop
over the members of what is not an object dereferences a null pointer. -/
def configLoadFile (object : Option Json) : Except LoadError ConfigContext :=
  match object with
  | none | some .null => .error .refused
  | some object =>
    let authentications : Except LoadError ConfigContext :=
      match jsonObjectObjectGet authenticationKey object with
      | .null => .ok ⟨[], []⟩
      | .object members => processAuthentications c ok 0 members ⟨[], []⟩
      | _ => .error .nullPointer
    match authentications with
    | .error e => .error e
    | .ok ctx =>
      match jsonObjectObjectGet serversKey object with
      | .array servers => processServers c ok 0 servers ctx
      | _ => .error .refused

end

end DQ.Model
