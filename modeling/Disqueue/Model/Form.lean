import Disqueue.Framework.Percent
import Disqueue.Model.Wire

/-!
# From a call to a request, and back (`client.py`, `client.ts`)

What is between a library's call and the server's handlers. TypeScript's
`_request` encodes the parameters itself; Python's leaves that to `requests`.
The server's side is libevent's. What is not in the repository is an
`HttpLayer`, with what it is documented to do; the server is reached at the root
of the URL. A parameter that the server reads is a C string: it ends at a NUL.
-/

namespace DQ.Model

/-- The bytes of a text. -/
def utf8 (s : String) : List UInt8 := s.toList.flatMap String.utf8EncodeChar

/-- A C string in a buffer. -/
def untilNul (s : CStr) : CStr := s.takeWhile fun c => c.toNat != 0

/-- The parameter that the server reads for a text. -/
def received (s : String) : CStr := untilNul (chars (utf8 s))

/-- The fields `name=value`, with `&` between them. -/
def formFields (fields : List (CStr × CStr)) : CStr :=
  List.intercalate ['&'] (fields.map fun p => p.1 ++ '=' :: p.2)

/-! ## The body of a request -/

/-- The characters that `encodeURIComponent` leaves. -/
def TypeScript.uriPlain (c : Char) : Bool :=
  c.isAlphanum || ['-', '_', '.', '!', '~', '*', Char.ofNat 39, '(', ')'].contains c

def TypeScript.encodeURIComponent (s : String) : CStr := percentEncode false uriPlain (utf8 s)

/-- The body of `_request`. -/
def TypeScript.requestBody (params : List (String × String)) : CStr :=
  formFields (params.map fun p => (encodeURIComponent p.1, encodeURIComponent p.2))

/-- The characters that `urllib.parse.quote_plus` leaves. -/
def Python.quotePlain (c : Char) : Bool := c.isAlphanum || ['_', '.', '-', '~'].contains c

/-- `urllib.parse.quote_plus`. -/
def Python.quotePlus (s : String) : CStr := percentEncode true quotePlain (utf8 s)

/-- `urllib.parse.urlencode`. -/
def Python.urlencode (params : List (String × String)) : CStr :=
  formFields (params.map fun p => (quotePlus p.1, quotePlus p.2))

/-! ## Libraries outside the repository -/

/-- The text of a value with all strings changed. -/
def Json.mapText (f : CStr → CStr) : Json → Json
  | .string s => .string (f s)
  | .array elems => .array (mapElems f elems)
  | .object members => .object (mapMembers f members)
  | j => j
where
  mapElems (f : CStr → CStr) : List Json → List Json
    | [] => []
    | j :: elems => j.mapText f :: mapElems f elems
  mapMembers (f : CStr → CStr) : List (CStr × Json) → List (CStr × Json)
    | [] => []
    | (k, j) :: members => (f k, j.mapText f) :: mapMembers f members

structure HttpLayer where
  /-- `evhttp_parse_query_str`, with the parameters as `evhttp_find_header` finds
  them. -/
  parseQueryStr : CStr → List (CStr × CStr)
  /-- It splits the fields, and decodes their values. -/
  parses : ∀ fields : List (CStr × CStr),
    (∀ p ∈ fields, p.1 ≠ [] ∧ (∀ c ∈ p.1, c.isAlpha = true) ∧ ∀ c ∈ p.2, c ≠ '&' ∧ c ≠ '=') →
      parseQueryStr (formFields fields) =
        fields.map fun p => (p.1, untilNul (percentDecode p.2))
  /-- The body that `requests` sends for `data`. -/
  requestsBody : List (String × String) → CStr
  urlencodes : ∀ params, requestsBody params = Python.urlencode params
  /-- The text of a body. -/
  decode : CStr → CStr
  decodes : ∀ s, decode (chars (utf8 s)) = s.toList

/-! ## Requests -/

inductive Library
  | python | typeScript
deriving DecidableEq

/-- The path that `evhttp_set_cb` was called with. -/
def pathOf : String → Option Path
  | "/queues" => some .queues
  | "/queue" => some .queue
  | "/take" => some .take
  | "/peek" => some .peek
  | "/put" => some .put
  | _ => none

def methodOf : String → Method
  | "GET" => .get
  | "POST" => .post
  | "DELETE" => .delete
  | _ => .other

/-- What the server has to answer a request with. -/
structure Env where
  ok : Outcome
  rand : Bytes
  stack : Bytes
  answer : Sending

/-- The body of a library's request. -/
def HttpLayer.body (h : HttpLayer) : Library → List (String × String) → CStr
  | .python => h.requestsBody
  | .typeScript => TypeScript.requestBody

/-- The request that the server gets. -/
def HttpLayer.request (h : HttpLayer) (lib : Library) (env : Env) (c : ClientRequest) :
    Option Request :=
  (pathOf c.path).map fun path =>
    ⟨path, methodOf c.method, h.parseQueryStr (h.body lib c.params), env.ok, env.rand, env.stack,
      env.answer⟩

/-- The value of the reply, as a library reads it. -/
def HttpLayer.reply (h : HttpLayer) (out : List Sent) : Option Json :=
  out.findSome? fun
    | .reply _ json => some (json.mapText h.decode)
    | .message .. => none

end DQ.Model
