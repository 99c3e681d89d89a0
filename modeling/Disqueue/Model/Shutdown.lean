import Disqueue.Framework.Loop
import Disqueue.Model.Program

/-!
# Shutting down (`manager_shutdown`)

The loops of `manager_shutdown`, and those of `queue_free` that it runs, are
`drain`s: `fuel` bounds their iterations, and a loop that does not end has no
state after it. `LIST_INSERT_HEAD` puts a server before the others, so the
first of the manager's list is the last of `servers`.
-/

namespace DQ.Model

/-! ## Freeing a queue -/

namespace Looped

variable {α : Type}

/-- `queue_item_free_`, for an item with `rest` after it in its queue. -/
def queueItemFree_ (item : QueueItem) (rest : List QueueItem) (m : Queue α × Heap) :
    Queue α × Heap :=
  let (q, h) := m
  (if (h.cell item.id).inserted then { q with items := rest } else q, Model.queueItemFree_ h item.id)

/-- The loop of `queue_free` over the callbacks. -/
def freeCallbacks : Nat → Queue α → Option (Queue α) :=
  drain (fun q => takeFirst q.callbacks) fun _ cb q => some (queueCallbackFree_ cb.1 cb.2 q)

/-- The loop of `queue_free` over the items. -/
def freeItems : Nat → Queue α × Heap → Option (Queue α × Heap) :=
  drain (fun m => takeFirst m.1.items) fun _ item m => some (queueItemFree_ item.1 item.2 m)

/-- `queue_free`: the heap of items is what outlives the queue. -/
def queueFree (fuel : Nat) (q : Queue α) (h : Heap) : Option Heap := do
  let q ← freeCallbacks fuel q
  let m ← freeItems fuel (q, h)
  return m.2

/-- `manager_queue_free`. -/
def managerQueueFree (fuel : Nat) (f : Found) (s : Server) : Option Server :=
  (queueFree fuel f.mq.q s.heap).map fun heap => { s with queues := f.free, heap }

end Looped

/-! ## The manager -/

/-- `evhttp_del_cb`. -/
def evhttpDelCb (path : ServerPath) (m : ManagerServer) : ManagerServer :=
  ⟨Function.update m.guard path none⟩

/-- `evws_unbind_path`. -/
def evwsUnbindPath (path : ServerPath) (m : ManagerServer) : ManagerServer := evhttpDelCb path m

/-- The body of the loop of `manager_shutdown` over the servers. -/
def shutdownServer (m : ManagerServer) : ManagerServer :=
  evwsUnbindPath .takeWs (evhttpDelCb .put (evhttpDelCb .peek (evhttpDelCb .take
    (evhttpDelCb .queue (evhttpDelCb .queues m)))))

/-- The loop of `manager_shutdown` over the servers. -/
def shutdownServers : Nat → List AddedServer → Option (List AddedServer) :=
  drain List.getLast? fun _ v servers =>
    some (servers.dropLast ++ [{ v with manager := shutdownServer v.manager }])

/-- The loop of `manager_shutdown` over the wants. -/
def shutdownWants : Nat → List Want → Option (List Want) :=
  drain List.head? fun _ want wants => some (managerQueueWantFree want.id wants)

/-- The loop of `manager_shutdown` over the queues. -/
def shutdownQueues : Nat → Server → Option Server :=
  drain (fun s => (takeFirst s.queues).map fun (mq, post) => ⟨[], mq, post⟩)
    Looped.managerQueueFree

/-- `manager_shutdown`. -/
def managerShutdown (fuel : Nat) (p : Program) : Option Program := do
  let servers ← shutdownServers fuel p.servers
  let wants ← shutdownWants fuel p.server.net.wants
  let server ← shutdownQueues fuel { p.server with net := { p.server.net with wants } }
  return { p with servers, server }

end DQ.Model
