import Disqueue.Model.Shutdown

/-!
# What a shutdown should do

`manager_shutdown` ends, whatever bound its loops have from some bound on, and
leaves no server, no want and no queue (`ShutsDown`).
-/

namespace DQ.Spec

open DQ.Model

/-- No server, no want and no queue is left. -/
structure Emptied (p : Program) : Prop where
  servers : p.servers = []
  wants : p.server.net.wants = []
  queues : p.server.queues = []

/-- `manager_shutdown` ends, and leaves nothing. -/
def ShutsDown (p : Program) : Prop :=
  ∃ n, ∀ fuel, n ≤ fuel → ∃ p', managerShutdown fuel p = some p' ∧ Emptied p'

end DQ.Spec
