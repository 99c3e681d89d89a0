import Disqueue.Framework.Run
import Disqueue.Spec.Handing
import Disqueue.Spec.Names

/-!
# What the registry is for

The registry is a map keyed by the queues' ids, ignoring case
(`KeyedByUuid`): ids differ, a queue made under a name is found under it until
it is deleted, and is not found after that. `NamesKept` is the condition on
requests under which the registry is one, and `drawnId` is the id that a
request draws.
-/

namespace DQ.Spec

open DQ.Model

/-- The parameters of the request are read. -/
def readsParams (r : Request) : Bool := r.ok .body && r.ok .copyout && r.ok .parse

/-- A request that may make a queue. -/
def mayMake (r : Request) : Bool :=
  decide (r.path = .queues ∧ r.method = .post) || decide (r.path = .queue ∧ r.method = .delete)

/-- The id of random bytes that a call by the event loop makes, if it makes
one: for a request without a name that may make a queue. -/
def drawnId (dm : DataModel) : Input → Option CStr
  | .http r =>
    if mayMake r && readsParams r && (evhttpFindHeader r.params nameKey).isNone &&
        r.ok .managerQueue && r.ok .queue && r.ok .randBytes then
      some (queueGetUuid dm (randomUuid r.rand))
    else none
  | _ => none

section
variable (dm : DataModel)

/-- Some queue has the name. -/
def registered (n : CStr) (s : Server) : Bool := s.queues.any fun m => strcaseEq m.id n

/-- A request for a new queue with a name that no queue has, which
`manager_queue_get` accepts and has the memory for, names one with zeros for
the second and third group. One with a name that a queue has does not fail to
encode the name. -/
def NamesKept (s : Server) : Input → Prop
  | .http r =>
    r.path = .queues → r.method = .post → readsParams r = true →
      ∀ n ∈ evhttpFindHeader r.params nameKey, n.length = 36 →
        if registered n s then r.ok .name = true
        else
          r.ok .managerQueue = true → r.ok .queue = true → r.ok .name = true →
            (sscanf (uuidFormat dm) n r.stack).2 = 10 → ZeroNamed n
  | _ => True

/-- The ids of the registered queues differ, ignoring case. -/
def IdsDiffer (s : Server) : Prop :=
  s.queues.Pairwise fun m m' => strcaseEq m.id m'.id = false

/-- `manager_queue_get`, asked to create or not, finds the queue at an address
under the name. -/
def Finds (n : CStr) (addr : Nat) (s : Server) : Prop :=
  ∀ e createNew, ∃ f, managerQueueGet dm e (some n) createNew s.queues = some f ∧
    s.queues = f.registry ∧ f.mq.q.addr = addr

/-- `manager_queue_get` finds nothing under the name. -/
def FindsNothing (n : CStr) (s : Server) : Prop :=
  ∀ e, managerQueueGet dm e (some n) false s.queues = none

/-- A call by the event loop deletes a queue with the name. -/
def Deletes (n : CStr) (s : Server) : Input → Prop
  | .http r =>
    r.path = .queue ∧ r.method = .delete ∧
      ∃ f, requested dm r true s = some f ∧ strcaseEq f.mq.id n = true
  | _ => False

/-- What a call by the event loop adds to the log. -/
def added (s : Server) (i : Input) : List Event := (s.step dm i).net.log.drop s.net.log.length

/-- Over the calls `is`, the registry is a map keyed by the ids. -/
structure KeyedByUuid (is : List Input) : Prop where
  differ : ∀ js, js <+: is → IdsDiffer (run (Server.step dm) .startup js)
  /-- The id replied to a request for a queue with a name is the name, and the
  queue is found under it until it is deleted. -/
  posted : ∀ js r ks n, is = js ++ .http r :: ks → r.path = .queues → r.method = .post →
    evhttpFindHeader r.params nameKey = some n →
    ∀ rid e code b, .reply rid e code b ∈ added dm (run (Server.step dm) .startup js) (.http r) →
      b.success = true →
      ∃ f, requested dm r true (run (Server.step dm) .startup js) = some f ∧
        b.payload = some (.name f.mq.id) ∧ strcaseEq f.mq.id n = true ∧
        ∀ ls, ls <+: ks →
          Meets (Server.step dm) (fun s i => ¬ Deletes dm n s i)
            (run (Server.step dm) .startup (js ++ [.http r])) ls →
          Finds dm n f.mq.q.addr (run (Server.step dm) .startup (js ++ .http r :: ls))
  /-- A queue that was deleted is not found. -/
  deleted : ∀ js r ks n, is = js ++ .http r :: ks → r.path = .queue → r.method = .delete →
    evhttpFindHeader r.params nameKey = some n →
    ∀ rid e code b, .reply rid e code b ∈ added dm (run (Server.step dm) .startup js) (.http r) →
      b.success = true →
      FindsNothing dm n (run (Server.step dm) .startup (js ++ [.http r]))

end

end DQ.Spec
