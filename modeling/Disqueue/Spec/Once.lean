import Disqueue.Model.Program
import Disqueue.Spec.Replies

/-!
# One reply for each request

What a request adds to what was sent and read: the replies it gets, with their
bodies where libevent takes the text (`repliesSent`), and the uses of its
parameters (`paramsUses`). `RepliesOnce` says that it gets one reply whose code
and body agree, and that its parameters are cleared at most once and not read
afterwards.
-/

namespace DQ.Spec

open DQ.Model

/-- The use of parameters that an event is. -/
def paramsUse : Event → Option ParamsUse
  | .params _ use => some use
  | _ => none

/-- The reply that an event is. Its body is sent if `evbuffer_add` adds it. -/
def sentReply (added : Bool) : Event → Option (Nat × Option Body)
  | .reply _ _ code b => some (code, if added then some b else none)
  | _ => none

/-- The reply that an answer is. -/
def answeredReply : Answer → Option (Nat × Option Body)
  | .challenge .. => none
  | .error _ code => some (code, none)
  | .switching _ => some (101, none)

/-- The replies between two states. -/
def repliesSent (added : Bool) (p p' : Program) : List (Nat × Option Body) :=
  (p'.server.net.log.drop p.server.net.log.length).filterMap (sentReply added) ++
    (p'.answers.drop p.answers.length).filterMap answeredReply

/-- The uses of parameters between two states. -/
def paramsUses (p p' : Program) : List ParamsUse :=
  (p'.server.net.log.drop p.server.net.log.length).filterMap paramsUse

/-- The parameters are cleared at most once, and are not read afterwards. -/
def ClearedOnce (uses : List ParamsUse) : Prop :=
  uses.count .clear ≤ 1 ∧ ∀ pre post, uses = pre ++ .clear :: post → .read ∉ post

/-- A request gets one reply, whose code is 200 exactly if its body is a
success, and its parameters are cleared at most once. -/
structure RepliesOnce (added : Bool) (p p' : Program) : Prop where
  reply : ∃ code body, repliesSent added p p' = [(code, body)] ∧
    (code = 200 ↔ ∃ b ∈ body, b.success = true)
  params : ClearedOnce (paramsUses p p')

/-- The path is guarded by nothing, or by a callback with its parameters. -/
def HasParams : Guard → Option Nat → Prop
  | .open, _ => True
  | .authenticated _ _, a => a.isSome = true
  | .noParams, _ => False

end DQ.Spec
