import Disqueue.Model.Program
import Disqueue.Spec.Deliveries
import Disqueue.Spec.Replies

/-!
# What credentials are for

Where every server was added with an authentication method and its realm, what
happens to queues and wants, and what clients are told of them, has a verified
request for its cause (`Authorised`): the numbers of these are
`verifiedNumbers`. A connection has the number of its upgrade request, and an
item that of the request that put it.
-/

namespace DQ.Spec

open DQ.Model

/-- A server is added with an authentication method and a realm. -/
def authenticates : ProgramInput → Bool
  | .addServer _ auth realm => auth.isSome && realm.isSome
  | _ => true

section
variable (bioRead : CStr → List Char)

/-- The request has an `Authorization` header, and the method of its server
accepts it. -/
def verifies (p : Program) (r : Asked) : Bool :=
  match p.servers[r.server]? with
  | none => false
  | some v =>
    match v.auth, evhttpFindHeader r.headers authorizationHeader with
    | some a, some authstring =>
      (authVerify bioRead { r.verification with header := authstring } p.files (p.auths a)).2
    | _, _ => false

/-- The input is a verified request, or what is received on a connection whose
upgrade request was verified. -/
def Caused (verified : List Nat) (p : Program) : ProgramInput → Prop
  | .ask r => verifies bioRead p r = true
  | .read c _ _ _ => c ∈ verified
  | _ => False

/-- The input is an event of the connection that is no data. -/
def endsConnection (c : Nat) : ProgramInput → Bool
  | .drained d => d == c
  | .event d _ _ _ => d == c
  | _ => false

/-- Wants may have been cancelled, if they are of the connection. -/
def Cancels (c : Nat) (ws ws' : List Want) : Prop :=
  List.Forall₂ (fun w w' => w' = w ∨ w.client = c ∧ w' = { w with cancelled := true }) ws ws'

variable (dm : DataModel)

/-- The numbers of the verified requests of a run. -/
def verifiedNumbers : Program → List ProgramInput → List Nat
  | _, [] => []
  | p, i :: is =>
    (match i with
      | .ask r => if p.running && verifies bioRead p r then [p.server.next] else []
      | _ => []) ++ verifiedNumbers (p.step dm bioRead i) is

/-- What an input adds to the log. -/
def programAdded (p : Program) (i : ProgramInput) : List Event :=
  (p.step dm bioRead i).server.net.log.drop p.server.net.log.length

/-- A change of queues or wants has a cause that was verified. -/
def ChangesCaused (verified : List Nat) (p : Program) (i : ProgramInput) : Prop :=
  Unchanged p.server (p.step dm bioRead i).server ∨ Caused bioRead verified p i

/-- The end of a connection whose upgrade request was verified cancels wants
of the connection. -/
def CancelsOwn (verified : List Nat) (p : Program) (i : ProgramInput) : Prop :=
  ∃ c ∈ verified, endsConnection c i = true ∧
    (p.step dm bioRead i).server.queues = p.server.queues ∧
    Cancels c p.server.net.wants (p.step dm bioRead i).server.net.wants

/-- What credentials are for, after a run whose verified requests are
`verified`. -/
structure Authorised (verified : List Nat) (p : Program) (i : ProgramInput) : Prop where
  changes : ChangesCaused bioRead dm verified p i ∨ CancelsOwn bioRead dm verified p i
  /-- A reply with names or an item is to a verified request. -/
  replies : ∀ rid e code b, .reply rid e code b ∈ programAdded bioRead dm p i →
    b.payload.isSome = true → Caused bioRead verified p i
  /-- A message is sent to a connection whose upgrade request was verified. -/
  messages : ∀ c b sent, .message c b sent ∈ programAdded bioRead dm p i →
    c ∈ verified ∧ Caused bioRead verified p i
  /-- An item that is sent was put by a verified request. -/
  items : ∀ ev ∈ programAdded bioRead dm p i, ∀ id, carriedId ev = some id →
    id ∈ verified ++ verifiedNumbers bioRead dm p [i]
  /-- A request that is not verified changes nothing and opens no
  connection. -/
  refused : ∀ r, i = .ask r → verifies bioRead p r = false →
    Unchanged p.server (p.step dm bioRead i).server ∧
      (p.step dm bioRead i).server.net.conn = p.server.net.conn

end

end DQ.Spec
