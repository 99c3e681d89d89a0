import Disqueue.Model.Server

/-!
# What requests ask of queues, and when items are handed over

The queue that a request or a want message reaches, in the state before it,
and the conditions on that state and the input that matter to what becomes of
an item: whether a put finds a waiting want and the want answers (`putGives`),
whether a want message finds a stored item and the want answers
(`messageGives`), and whether a take finds an item and the reply carries it
(`takeGives`).
-/

namespace DQ.Spec

open DQ.Model

/-- Whether an answer with the item can be encoded. -/
def encodesAnswer (ok : Outcome) (payload : Payload) (i : QueueItem) : Bool :=
  ok .response && ok .identifier && ok .addIdentifier && protocolEncodeItem ok i && ok .addItem &&
    (protocolCreateSuccess ok (some payload)).isSome && ok .text

/-- Whether wslay takes a message and does not fail to send it. -/
def wslaySends (e : Wslay) : Bool := !(e.queueMsg < 0) && !e.sendFails

/-- Whether the want `w`, if it is given the item now, answers with it: it was
not cancelled, its connection is active, and nothing fails. -/
def wantAnswers (e : Sending) (n : Net) (w : Want) (i : QueueItem) : Bool :=
  !w.cancelled && (n.conn w.client).alive && (n.conn w.client).active &&
    encodesAnswer e.ok (.answer w.id w.identifier i) i && wslaySends e.wslay

/-- The same, for the want at an address. -/
def answers (e : Sending) (n : Net) (want : Nat) (i : QueueItem) : Bool :=
  match n.wants.find? (·.id == want) with
  | none => false
  | some w => wantAnswers e n w i

/-- Whether a payload's reply is the payload. -/
def encodesPayload (ok : Outcome) (payload : Option Payload) : Bool :=
  (protocolCreateSuccess ok payload).isSome && ok .text

/-- Whether the reply to a take carries the item. -/
def encodesTake (ok : Outcome) (i : QueueItem) : Bool :=
  protocolEncodeItem ok i && (protocolCreateSuccess ok (some (.item i))).isSome && ok .text

section
variable (dm : DataModel)

/-- The queue that a request reaches, or makes. -/
def requested (r : Request) (createNew : Bool) (s : Server) : Option Found :=
  if r.ok .body && r.ok .copyout && r.ok .parse then
    managerQueueGet dm (r.supply s.next) (evhttpFindHeader r.params nameKey) createNew s.queues
  else none

/-- The queue that a request for an existing queue reaches. -/
def reached (r : Request) (s : Server) : Option Found := requested dm r false s

/-- The queue and the item of a put that reaches `queue_put`, which makes the
item. -/
def putReached (r : Request) (s : Server) : Option (Found × QueueItem) :=
  match reached dm r s, evhttpFindHeader r.params valueKey with
  | some f, some value =>
    (queuePutItem r.ok s.next f.mq.q.addr (evhttpFindHeader r.params keyKey) value).map (f, ·)
  | _, _ => none

/-- The want, the queue and the key of a want message that reaches
`queue_wait`. -/
def wantReached (m : Message) (c : Nat) (s : Server) : Option (Want × Found × Option CStr) :=
  match connectionWsRead_ m with
  | none => none
  | some request =>
    match request.identifier with
    | none => none
    | some identifier =>
      match managerQueueGet dm (.unused m.env.ok s.next) request.queue false s.queues with
      | none => none
      | some f =>
        (managerQueueWantNew m.env.ok s.next identifier c f.mq.q.addr).map (·, f, request.key)

/-- If a put finds a waiting want: whether the want answers. -/
def putGives (r : Request) (s : Server) : Option Bool :=
  match putReached dm r s with
  | some (f, item) =>
    (queuePutCallback item.key f.mq.q).map fun (_, cb, _) => answers r.answer s.net cb.arg item
  | none => none

/-- If a take finds an item: whether its reply carries the item. -/
def takeGives (r : Request) (s : Server) : Option Bool :=
  match reached dm r s with
  | some f =>
    (queueTake (evhttpFindHeader r.params keyKey) f.mq.q s.heap).1.map (encodesTake r.ok)
  | none => none

/-- If a want message finds a stored item: whether the want answers. -/
def wantGives (m : Message) (c : Nat) (s : Server) : Option Bool :=
  match wantReached dm m c s with
  | some (w, f, key) => (queueTake key f.mq.q s.heap).1.map (wantAnswers m.env s.net w)
  | none => none

/-- Whether a message reaches the data callback. -/
def isData (m : Message) : Bool :=
  !(m.opcode / 8 % 2 == 1) && (m.opcode == 1 || m.opcode == 2) &&
    (m.env.ok .message && m.env.ok .messageBuffer && m.env.ok .messageAdd)

/-- `wantGives`, for a message that wslay delivers. -/
def messageGives (c : Nat) (s : Server) (m : Message) : Option Bool :=
  if isData m then wantGives dm m c s else none

end

end DQ.Spec
