import Disqueue.Proof.Auth.Authorised
import Disqueue.Spec.Shutdown

/-!
# When a shutdown ends

The loop over the wants frees one want in each iteration, and that over the
queues one queue, whose loops end since the stored items are inserted
(`looped_queueFree`); so both end. The loop over the servers leaves the server
it looks at in the list, so it does not end if there is one
(`shutdownServers_runs`).
-/

namespace DQ.Proof.Shutdown

open DQ.Model DQ.Spec DQ.Proof.Server DQ.Proof.Auth

variable {α : Type} {fuel : Nat}

/-! ## Queues -/

/-- Freeing an item does not change which items are inserted. -/
theorem queueItemFree_inserted (h : Heap) (id id' : Nat) :
    ((queueItemFree_ h id).cell id').inserted = (h.cell id').inserted := by
  have hread : (h.read id).cell = h.cell := by
    unfold Heap.read
    split <;> rfl
  simp only [queueItemFree_, Heap.release, hread]
  by_cases hid : id' = id
  · rw [hid, Function.update_self]
  · rw [Function.update_of_ne hid]

/-- Nor does freeing a queue. -/
theorem queueFree_inserted (q : Queue α) (h : Heap) (id : Nat) :
    ((queueFree q h).cell id).inserted = (h.cell id).inserted := by
  unfold queueFree
  generalize q.items = items
  induction items generalizing h with
  | nil => rfl
  | cons item items ih => exact (ih _).trans (queueItemFree_inserted h item.id id)

/-- The items of a queue are inserted. -/
def AllInserted (h : Heap) (q : Queue α) : Prop := ∀ item ∈ q.items, (h.cell item.id).inserted = true

/-- The loop over the callbacks leaves the items. -/
theorem freeCallbacks_ends {q : Queue α} (hfuel : q.callbacks.length < fuel) :
    ∃ q', Looped.freeCallbacks fuel q = some q' ∧ q'.items = q.items := by
  obtain ⟨q', he, hitems, -⟩ : ∃ q', Looped.freeCallbacks fuel q = some q' ∧
      q'.items = q.items ∧ takeFirst q'.callbacks = none := by
    refine drain_ends (fun q' : Queue α => q'.items = q.items) (fun q => q.callbacks.length)
      (fun fuel cb q₁ hitems hfirst _ => ⟨_, rfl, ?_, ?_⟩) rfl hfuel
    · dsimp only [queueCallbackFree_]
      split <;> exact hitems
    · rw [takeFirst_some hfirst]
      exact Nat.lt_succ_self _
  exact ⟨q', he, hitems⟩

/-- An iteration of the loop over the items. -/
theorem queueItemFree_first {m : Queue α × Heap} {item : QueueItem} {rest : List QueueItem}
    (hins : AllInserted m.2 m.1) (hitems : m.1.items = item :: rest) :
    Looped.queueItemFree_ item rest m =
      ({ m.1 with items := rest }, queueItemFree_ m.2 item.id) := by
  have hitem := hins item (by rw [hitems]; exact List.mem_cons_self)
  rw [Looped.queueItemFree_, if_pos hitem]

/-- The loop over the items releases each of them, if they are inserted. -/
theorem freeItems_ends {q : Queue α} {h : Heap} (hins : AllInserted h q)
    (hfuel : q.items.length < fuel) :
    ∃ m, Looped.freeItems fuel (q, h) = some m ∧ m.2 = queueFree q h := by
  obtain ⟨m, he, ⟨-, hfree⟩, hfirst⟩ : ∃ m, Looped.freeItems fuel (q, h) = some m ∧
      (AllInserted m.2 m.1 ∧ queueFree m.1 m.2 = queueFree q h) ∧
        takeFirst m.1.items = none := by
    refine drain_ends
      (fun m : Queue α × Heap => AllInserted m.2 m.1 ∧ queueFree m.1 m.2 = queueFree q h)
      (fun m => m.1.items.length) (fun fuel item m hI hfirst _ => ?_) ⟨hins, rfl⟩ hfuel
    obtain ⟨hins, hfree⟩ := hI
    have hitems : m.1.items = item.1 :: item.2 := takeFirst_some hfirst
    rw [queueItemFree_first hins hitems]
    refine ⟨_, rfl, ⟨fun i hi => ?_, ?_⟩, ?_⟩
    · rw [queueItemFree_inserted]
      exact hins i (by rw [hitems]; exact List.mem_cons_of_mem _ hi)
    · rw [← hfree, queueFree, queueFree, hitems]
      rfl
    · rw [hitems]
      exact Nat.lt_succ_self _
  refine ⟨m, he, ?_⟩
  rw [← hfree, queueFree, takeFirst_none hfirst]
  rfl

/-- `queue_free` ends, and releases the items from the first on. -/
theorem looped_queueFree {q : Queue α} {h : Heap} (hins : AllInserted h q)
    (hcallbacks : q.callbacks.length < fuel) (hitems : q.items.length < fuel) :
    Looped.queueFree fuel q h = some (queueFree q h) := by
  obtain ⟨q', hq, hq'⟩ := freeCallbacks_ends hcallbacks
  obtain ⟨m, hm, hfree⟩ := freeItems_ends (q := q') (fun item hi => hins item (hq' ▸ hi))
    (hq' ▸ hitems)
  simp only [Looped.queueFree, hq, hm, hfree, queueFree, hq', Option.bind_eq_bind,
    Option.bind_some]
  rfl

/-- The bound that the loop over the queues needs. -/
def queuesSize : List ManagerQueue → Nat
  | [] => 0
  | m :: queues => m.q.items.length + m.q.callbacks.length + 1 + queuesSize queues

/-- The loop over the queues ends, and leaves no queue. -/
theorem shutdownQueues_ends {s : Server} (hins : ∀ m ∈ s.queues, AllInserted s.heap m.q)
    (hfuel : queuesSize s.queues < fuel) :
    ∃ s', shutdownQueues fuel s = some s' ∧ s'.net = s.net ∧ s'.queues = [] := by
  obtain ⟨s', he, ⟨-, hnet⟩, hfirst⟩ : ∃ s', shutdownQueues fuel s = some s' ∧
      ((∀ m ∈ s'.queues, AllInserted s'.heap m.q) ∧ s'.net = s.net) ∧
        (takeFirst s'.queues).map (fun p => (⟨[], p.1, p.2⟩ : Found)) = none := by
    refine drain_ends
      (fun s' : Server => (∀ m ∈ s'.queues, AllInserted s'.heap m.q) ∧ s'.net = s.net)
      (fun s => queuesSize s.queues) (fun fuel f t hI hfirst hle => ?_) ⟨hins, rfl⟩ hfuel
    obtain ⟨hins, hnet⟩ := hI
    obtain ⟨⟨mq, post⟩, htake, rfl⟩ := Option.map_eq_some_iff.mp hfirst
    have hqueues : t.queues = mq :: post := takeFirst_some htake
    have hsize : queuesSize t.queues =
        mq.q.items.length + mq.q.callbacks.length + 1 + queuesSize post := by
      rw [hqueues, queuesSize]
    have hfree : Looped.queueFree fuel mq.q t.heap = some (queueFree mq.q t.heap) :=
      looped_queueFree (hins mq (by rw [hqueues]; exact List.mem_cons_self)) (by omega) (by omega)
    refine ⟨{ t with queues := post, heap := queueFree mq.q t.heap }, ?_, ⟨fun m hm i hi => ?_, hnet⟩,
      by dsimp only; omega⟩
    · rw [Looped.managerQueueFree, hfree]
      rfl
    · exact (queueFree_inserted mq.q t.heap i.id).trans
        (hins m (by rw [hqueues]; exact List.mem_cons_of_mem _ hm) i hi)
  exact ⟨s', he, hnet, takeFirst_none (Option.map_eq_none_iff.mp hfirst)⟩

/-! ## Wants and servers -/

/-- The loop over the wants ends, and leaves no want. -/
theorem shutdownWants_ends {wants : List Want} (hfuel : wants.length < fuel) :
    shutdownWants fuel wants = some [] := by
  obtain ⟨wants', he, -, hfirst⟩ : ∃ wants', shutdownWants fuel wants = some wants' ∧ True ∧
      wants'.head? = none := by
    refine drain_ends (fun _ => True) List.length (fun fuel w wants _ hfirst _ =>
      ⟨_, rfl, trivial, ?_⟩) trivial hfuel
    obtain ⟨rest, rfl⟩ := List.head?_eq_some_iff.mp hfirst
    rw [managerQueueWantFree, List.filter_cons_of_neg (by simp)]
    exact Nat.lt_succ_of_le (List.length_filter_le ..)
  rw [he, List.head?_eq_none_iff.mp hfirst]

/-- The loop over the servers does not end if there is one. -/
theorem shutdownServers_runs {servers : List AddedServer} (h : servers ≠ []) (fuel : Nat) :
    shutdownServers fuel servers = none := by
  refine drain_runs (fun servers => servers ≠ []) (fun servers hs => ?_)
    (fun fuel v servers servers' _ he => ?_) h fuel
  · exact List.getLast?_isSome.mpr hs
  · rw [← Option.some.inj he]
    exact List.append_ne_nil_of_right_ne_nil _ (List.cons_ne_nil _ _)

/-! ## Runs -/

/-- The stored items of a reachable state are inserted. -/
theorem allInserted_of_inv {s : Server} (h : Inv s) : ∀ m ∈ s.queues, AllInserted s.heap m.q := by
  intro m hm item hi
  have hstored : (m.q.addr, item) ∈ stored s :=
    List.mem_flatMap.mpr ⟨m, hm, List.mem_map.mpr ⟨item, hi, rfl⟩⟩
  rw [h.live _ hstored]

/-- With a server, no bound is enough. -/
theorem managerShutdown_runs {p : Program} (h : p.servers ≠ []) (fuel : Nat) :
    managerShutdown fuel p = none := by
  rw [managerShutdown, shutdownServers_runs h]
  rfl

theorem not_shutsDown {p : Program} (h : p.servers ≠ []) : ¬ ShutsDown p := by
  rintro ⟨n, hn⟩
  obtain ⟨p', he, -⟩ := hn n (Nat.le_refl n)
  rw [managerShutdown_runs h] at he
  cases he

/-- A shutdown ends, and leaves nothing, exactly if there is no server. -/
theorem shutsDown_iff_of_good {p : Program} (h : Good p.server) : ShutsDown p ↔ p.servers = [] := by
  constructor
  · exact fun hends => by_contra fun hne => not_shutsDown hne hends
  · intro hnil
    refine ⟨p.server.net.wants.length + queuesSize p.server.queues + 1, fun fuel hfuel => ?_⟩
    have hservers : shutdownServers fuel p.servers = some [] := by
      obtain ⟨fuel, rfl⟩ : ∃ k, fuel = k + 1 := ⟨fuel - 1, by omega⟩
      rw [hnil]
      rfl
    have hwants : shutdownWants fuel p.server.net.wants = some [] :=
      shutdownWants_ends (by omega)
    have hins : ∀ m ∈ p.server.queues, AllInserted p.server.heap m.q := allInserted_of_inv h.1
    obtain ⟨s, hs, hnet, hqueues⟩ :=
      shutdownQueues_ends (s := { p.server with net := { p.server.net with wants := [] } }) hins
        (show queuesSize p.server.queues < fuel by omega)
    refine ⟨{ p with servers := [], server := s }, ?_, rfl, by rw [hnet], hqueues⟩
    simp only [managerShutdown, hservers, hwants, hs, Option.bind_eq_bind, Option.bind_some]
    rfl

/-- After every run, `manager_shutdown` ends, and leaves no server, want and
queue, exactly if there is no server. -/
theorem shutsDown_iff (dm : DataModel) (bioRead : CStr → List Char) (auths : Nat → Auth)
    (files : CStr → Option File) (is : List ProgramInput) :
    ShutsDown (run (Program.step dm bioRead) (.startup auths files) is) ↔
      (run (Program.step dm bioRead) (.startup auths files) is).servers = [] :=
  shutsDown_iff_of_good (good_program_run dm bioRead auths files is)

/-- With one server, on which no request was made, it does not end. -/
theorem open_server_stays :
    ¬ ShutsDown (run (Program.step .lp64 decodeBob) (.startup unread noFiles)
      [.addServer (fun _ => true) none none]) :=
  not_shutsDown (List.cons_ne_nil _ _)

end DQ.Proof.Shutdown
