import Disqueue.Proof.Registry.Verified
import Disqueue.Proof.Wants.Told

/-!
# Wants and callbacks correspond

The callbacks' arguments are the wants' addresses, in the queues that the wants
name (`Together`), which a call by the event loop keeps if it ends nothing that
is waited on (`together_step`); and the address of a queue that was freed is
not used again (`gone_step`).
-/

namespace DQ.Proof.Wants

open DQ.Model DQ.Spec DQ.Proof.Server DQ.Proof.Registry

variable {dm : DataModel} {r : Request} {s s' : Server}

/-! ## Callbacks and wants -/

/-- The wants' addresses, with those of the queues that they name. -/
def wantPairs (n : Net) : List (Nat × Nat) := n.wants.map fun w => (w.queue, w.id)

theorem waiters_eq (s : Server) : waiters s = (waiting s).map fun p => (p.1, p.2.arg) := by
  simp only [waiters, waiting, List.map_flatMap, List.map_map]
  rfl

theorem wantPairs_eased {ws ws' : List Want} (h : List.Forall₂ Eased ws ws') :
    ws'.map (fun w => (w.queue, w.id)) = ws.map fun w => (w.queue, w.id) := by
  induction h with
  | nil => rfl
  | cons h _ ih => rw [List.map_cons, List.map_cons, ih, h.id, Eased.queue h]

theorem waiters_nodup (hI : Inv s) : ((waiters s).map (·.2)).Nodup := by
  rw [waiters_eq, List.map_map]
  exact hI.waiting_nodup

/-- An element of a list without repetitions is the only one with its
number. -/
theorem filter_unique {τ : Type} {f : τ → Nat} {l : List τ} (hn : (l.map f).Nodup) {x : τ}
    (hx : x ∈ l) : l.filter (fun y => f y == f x) = [x] := by
  induction l with
  | nil => cases hx
  | cons y l ih =>
    rw [List.map_cons, List.nodup_cons] at hn
    rcases List.mem_cons.mp hx with rfl | hx
    · rw [List.filter_cons_of_pos (by simp), List.filter_eq_nil_iff.mpr]
      intro z hz hzx
      exact hn.1 (beq_iff_eq.mp hzx ▸ List.mem_map_of_mem hz)
    · rw [List.filter_cons_of_neg]
      · exact ih hn.2 hx
      · intro hyx
        exact hn.1 (beq_iff_eq.mp hyx ▸ List.mem_map_of_mem hx)

/-- A shift keeps the correspondence if no callback is lost. -/
theorem shift_perm (hI : Inv s) (h : (waiters s).Perm (wantPairs s.net)) (hs : Shift [] s s') :
    (waiters s').Perm (wantPairs s'.net) := by
  rw [waiters_eq] at h ⊢
  cases hs with
  | same hw hn =>
    rw [wantPairs, wantPairs_eased hn]
    exact (hw.map _).trans h
  | served a cb hw hn =>
    have hp : ((a, cb.arg) :: (waiting s').map fun p => (p.1, p.2.arg)).Perm (wantPairs s.net) :=
      (hw.map fun p : Nat × QueueCallback Nat => (p.1, p.2.arg)).symm.trans h
    have hne := (nodup_perm_cons hI.waiting_nodup hw).1
    have hfilter := hp.filter fun p => p.2 != cb.arg
    rw [List.filter_cons_of_neg (by simp), List.filter_eq_self.mpr] at hfilter
    · rw [wantPairs, wantPairs_eased hn, managerQueueWantFree]
      refine hfilter.trans (List.Perm.of_eq ?_)
      rw [wantPairs, List.filter_map]
      rfl
    · intro p hp
      obtain ⟨q, hq, rfl⟩ := List.mem_map.mp hp
      exact bne_iff_ne.mpr (hne q hq)
  | waits w key hi hq hw hn =>
    rw [wantPairs, hn, List.map_append]
    exact ((hw.map _).trans (h.cons _)).trans (List.perm_append_singleton _ _).symm
  | freed hw hn =>
    rw [wantPairs, wantPairs_eased hn]
    exact (hw.symm.map _).trans h

/-! ## Connections that have ended -/

/-- A connection that has ended is not active and has no want, and connections
have numbers below `next`. -/
structure Told (next : Nat) (n : Net) : Prop where
  ended : ∀ c, ended c n = true → (n.conn c).active = false ∧ NoWant c n.wants
  alive_lt : ∀ c, (n.conn c).alive = true → c < next
  ended_lt : ∀ c, Spec.ended c n = true → c < next

variable {D : Nat → Prop} {n n' : Net} {next next' c : Nat}

theorem noWant_eased {ws ws' : List Want} (he : ∀ w' ∈ ws', ∃ w ∈ ws, Eased w w')
    (h : NoWant c ws) : NoWant c ws' := by
  intro w' hw'
  obtain ⟨w, hw, he⟩ := he w' hw'
  rw [he.client]
  exact h w hw

theorem Told.tells (h : Told next n) (ht : Tells D n n') (hx : next ≤ next')
    (hD : ∀ c, D c → (n.conn c).alive = true ∧ NoWant c n'.wants)
    (hw : ∀ c, Spec.ended c n = true → NoWant c n'.wants) : Told next' n' := by
  have hlt : ∀ c, (n.conn c).alive = true → c < next' := fun c hc =>
    Nat.lt_of_lt_of_le (h.alive_lt c hc) hx
  refine ⟨fun c hc => ?_, fun c hc => hlt c (ht.alive c hc), fun c hc => ?_⟩
  · rcases ht.ended c hc with hc | ⟨hd, ha⟩
    · refine ⟨Bool.eq_false_iff.mpr fun ha => ?_, hw c hc⟩
      have := (h.ended c hc).1
      rw [ht.active c ha] at this
      cases this
    · exact ⟨ha, (hD c hd).2⟩
  · rcases ht.ended c hc with hc | ⟨hd, -⟩
    · exact Nat.lt_of_lt_of_le (h.ended_lt c hc) hx
    · exact hlt c (hD c hd).1

/-- The same where no want is made. -/
theorem Told.eased (h : Told next n) (ht : Tells D n n') (hx : next ≤ next')
    (he : ∀ w' ∈ n'.wants, ∃ w ∈ n.wants, Eased w w')
    (hD : ∀ c, D c → (n.conn c).alive = true ∧ NoWant c n'.wants) : Told next' n' :=
  h.tells ht hx hD fun c hc => noWant_eased he (h.ended c hc).2

theorem endsBySend_alive {e : Wslay} {x : Connection} (h : endsBySend e x = true) :
    x.alive = true := by
  simp only [endsBySend, Bool.and_eq_true] at h
  exact h.1.1

/-! ## Steps -/

/-- The invariant: wants and callbacks correspond, and no connection that has
ended has one. -/
structure Together (s : Server) : Prop where
  good : Good s
  perm : (waiters s).Perm (wantPairs s.net)
  told : Told s.next s.net

theorem together_startup : Together .startup := by
  refine ⟨good_startup, List.Perm.refl _, ?_, ?_, ?_⟩ <;>
    simp [ended, Server.startup, Net.empty]

theorem lostCallbacks_nil (h : ∀ f ∈ freedQueue dm r s, f.mq.q.callbacks = []) :
    lostCallbacks dm r s = [] := by
  unfold freedQueue at h
  unfold lostCallbacks
  split
  · rename_i hr
    rw [if_pos hr] at h
    cases hf : requested dm r true s with
    | none => rfl
    | some f => simp [callbacksAt, h f hf]
  · rfl

theorem together_http (h : Together s) (hk : PairsKept dm s (.http r)) :
    Together (s.step dm (.http r)) := by
  have hshift := http_shift dm r s
  rw [lostCallbacks_nil hk.1] at hshift
  refine ⟨good_step (.http r) h.good, shift_perm h.good.1 h.perm hshift, ?_⟩
  obtain ⟨ht, hw, hfreed⟩ := http_serves dm r s
  refine h.told.eased ht (Nat.le_succ _) hw ?_
  rintro c ⟨w, ho, rfl, hends⟩
  refine ⟨endsBySend_alive hends, fun w' hw' hc => ?_⟩
  obtain ⟨w₀, hw₀, he⟩ := hw w' hw'
  by_cases hp : r.path = .put
  · rw [if_pos hp] at ho
    refine hfreed w (by rw [if_pos hp, ho]) w' hw' ?_
    rw [he.id]
    exact hk.2 hp w ho hends w₀ hw₀ (he.client ▸ hc)
  · rw [if_neg hp] at ho
    cases ho

/-- A message, which leaves the wants of other connections. -/
theorem together_message (h : Together s) (hc : (s.net.conn c).alive = true) {m : Message}
    (hk : MessageKeeps dm c s m) : Together (evwsWslayOnMsgCallback_ dm c s m) := by
  refine ⟨good_message h.good hc m, shift_perm h.good.1 h.perm (message_shift dm h.good.1 c m), ?_⟩
  have hnext : s.next ≤ (evwsWslayOnMsgCallback_ dm c s m).next := Nat.le_succ _
  cases hd : isData m with
  | false =>
    have hn : (evwsWslayOnMsgCallback_ dm c s m).net = s.net := message_other hd
    rw [hn]
    exact h.told.eased (D := fun _ => False) (.refl _) hnext
      (fun w hw => ⟨w, hw, Eased.refl w⟩) fun _ hf => hf.elim
  | true =>
    have hhears := message_hears dm h.good.1 c hd
    unfold MessageKeeps at hk
    cases hw : messageWaits dm c s m with
    | true =>
      rw [hw] at hk hhears
      obtain ⟨ht, w, hwc, hwn⟩ := hhears.waits rfl
      refine h.told.tells ht hnext (fun _ hf => hf.elim) fun d hd w' hw' => ?_
      rw [hwn] at hw'
      rcases List.mem_append.mp hw' with hw' | hw'
      · exact (h.told.ended d hd).2 w' hw'
      · -- the connection of the new want is active
        rw [List.mem_singleton.mp hw', hwc]
        rintro rfl
        have := (h.told.ended c hd).1
        rw [show (s.net.conn c).active = true from hk] at this
        cases this
    | false =>
      rw [hw] at hk hhears
      obtain ⟨ht, hwn⟩ := hhears.answers rfl
      have he : ∀ w' ∈ _, ∃ w ∈ s.net.wants, Eased w w' := fun _ hw' => eased_mem hwn hw'
      refine h.told.eased ht hnext he ?_
      rintro d ⟨rfl, hends⟩
      exact ⟨endsBySend_alive hends, noWant_eased he (hk hd hends)⟩

/-- The messages of a read. -/
theorem together_messages (h : Together s) (hc : (s.net.conn c).alive = true) {ms : List Message}
    (hk : Meets (evwsWslayOnMsgCallback_ dm c) (MessageKeeps dm c) s ms) :
    Together (run (evwsWslayOnMsgCallback_ dm c) s ms) :=
  messages_inv (fun _ _ _ hc hk h => together_message h hc hk) h.good hc hk h

/-- Messages that leave no want that waits. -/
theorem noWant_messages (hg : Good s) (hc : (s.net.conn c).alive = true) {ms : List Message}
    (hk : Meets (evwsWslayOnMsgCallback_ dm c) (fun s m => messageWaits dm c s m = false) s ms)
    (h : NoWant c s.net.wants) :
    NoWant c (run (evwsWslayOnMsgCallback_ dm c) s ms).net.wants := by
  refine messages_inv (I := fun s => NoWant c s.net.wants) (fun s m hg _ hw h => ?_) hg hc hk h
  cases hd : isData m with
  | false =>
    rw [message_other hd]
    exact h
  | true =>
    have hn := ((message_hears dm hg.1 c hd).answers hw).2
    exact noWant_eased (fun w' hw' => eased_mem hn hw') h

/-- A step that changes nothing but the state outside the queues. -/
theorem Together.net (h : Together s) (hg : Good { s with net := n })
    (hn : List.Forall₂ Eased s.net.wants n.wants) (ht : Tells D s.net n)
    (hD : ∀ c, D c → (s.net.conn c).alive = true ∧ NoWant c s.net.wants) :
    Together { s with net := n } := by
  have he : ∀ w' ∈ n.wants, ∃ w ∈ s.net.wants, Eased w w' := fun _ hw' => eased_mem hn hw'
  refine ⟨hg, shift_perm h.good.1 h.perm (.same (List.Perm.refl _) hn), ?_⟩
  exact h.told.eased ht (Nat.le_refl _) he fun c hc => ⟨(hD c hc).1, noWant_eased he (hD c hc).2⟩

theorem together_opened (h : Together s) : Together (s.step dm .opened) := by
  refine ⟨good_step .opened h.good, h.perm, ⟨fun c hc => ?_, fun c hc => ?_, fun c hc => ?_⟩⟩
  · have hlt := h.told.ended_lt c hc
    refine ⟨?_, (h.told.ended c hc).2⟩
    simp only [Server.step, Net.setConn, Function.update_of_ne (Nat.ne_of_lt hlt)]
    exact (h.told.ended c hc).1
  · by_cases hnew : c = s.next
    · exact hnew ▸ Nat.lt_succ_self _
    · simp only [Server.step, Net.setConn, Function.update_of_ne hnew] at hc
      exact Nat.lt_succ_of_lt (h.told.alive_lt c hc)
  · exact Nat.lt_succ_of_lt (h.told.ended_lt c hc)

/-- A call by the event loop that ends nothing that is waited on. -/
theorem together_step (i : Input) (h : Together s) (hk : PairsKept dm s i) :
    Together (s.step dm i) := by
  have hgood : Good (s.step dm i) := good_step i h.good
  cases i with
  | http r => exact together_http h hk
  | opened => exact together_opened h
  | read c msgs recv e =>
    dsimp only [Server.step] at hgood ⊢
    split
    · rename_i ha
      rw [if_pos ha] at hgood
      simp only [Bool.and_eq_true, Bool.not_eq_true'] at ha
      obtain ⟨hmsgs, hend⟩ := hk
      have hrun := together_messages h ha.1 (hmsgs ha.1 ha.2)
      have halive : ((run (evwsWslayOnMsgCallback_ dm c) s msgs).net.conn c).alive = true :=
        messages_inv (I := fun s => (s.net.conn c).alive = true)
          (fun s m hg hc _ h => (message_alive dm hg.1 hg.2 hc m c).trans h) h.good ha.1
          (hmsgs ha.1 ha.2) ha.1
      have hnone : (recv < 0 ∨ e.sendFails = true) →
          NoWant c (run (evwsWslayOnMsgCallback_ dm c) s msgs).net.wants := fun hf =>
        noWant_messages h.good ha.1 (hend hf ha.1 ha.2).2 (hend hf ha.1 ha.2).1
      unfold evwsConnectionReadCb_ at hgood ⊢
      dsimp only at hgood ⊢
      split
      · rename_i hr
        rw [if_pos hr] at hgood
        refine hrun.net hgood (calm_evwsClose c _).wants (tells_close c _) fun d hd => ?_
        rw [hd]
        exact ⟨halive, hnone (.inl hr)⟩
      · rename_i hr
        rw [if_neg hr] at hgood
        refine hrun.net hgood (calm_write e c _).wants (tells_write e c _) fun d hd => ?_
        rw [hd.1]
        exact ⟨halive, hnone (.inr hd.2)⟩
    · exact h
  | drained c =>
    dsimp only [Server.step] at hgood ⊢
    split
    · rename_i ha
      rw [if_pos ha] at hgood
      simp only [Bool.and_eq_true] at ha
      exact h.net hgood (calm_evwsClose c _).wants (tells_close c _)
        fun d hd => hd ▸ ⟨ha.1, hk ha.1 ha.2⟩
    · exact h
  | event c eof error e =>
    dsimp only [Server.step] at hgood ⊢
    split
    · rename_i ha
      rw [if_pos ha] at hgood
      exact h.net hgood (event_eased e c eof error _).1 (tells_event e c eof error _)
        fun d hd => hd.1 ▸ ⟨ha, hk ha hd.2⟩
    · exact h

/-- What the invariant says. -/
theorem Together.paired (h : Together s) : Paired s := by
  have hmem : ∀ p, p ∈ waiters s ↔ p ∈ wantPairs s.net := fun p => h.perm.mem_iff
  refine ⟨fun w hw => ?_, fun p hp => ?_, fun c hc => (h.told.ended c hc).2⟩
  · have hp : (w.queue, w.id) ∈ waiters s := (hmem _).mpr (List.mem_map_of_mem hw)
    refine ⟨filter_unique (waiters_nodup h.good.1) hp, ?_⟩
    obtain ⟨m, hm, hp⟩ := List.mem_flatMap.mp hp
    obtain ⟨cb, -, heq⟩ := List.mem_map.mp hp
    exact ⟨m, hm, congrArg Prod.fst heq⟩
  · obtain ⟨w, hw, rfl⟩ := List.mem_map.mp ((hmem p).mp hp)
    exact ⟨w, hw, rfl⟩

/-! ## Addresses of queues that were freed -/

/-- The addresses of the registered queues. -/
def addresses (s : Server) : List Nat := (keys s.queues).map (·.2)

/-- The addresses differ, and are below the next. -/
structure Addressed (s : Server) : Prop where
  nodup : (addresses s).Nodup
  lt : ∀ a ∈ addresses s, a < s.next

/-- No queue is at the address, nor will one be. -/
structure Gone (a : Nat) (s : Server) : Prop where
  lt : a < s.next
  notMem : a ∉ addresses s

/-- A step adds at most one queue, at the next address. -/
theorem step_addresses (dm : DataModel) (s : Server) (i : Input) :
    (addresses (s.step dm i)).Sublist (addresses s ++ [s.next]) := by
  obtain ⟨id, hsub⟩ := step_keys_sublist dm s i
  simpa [addresses] using hsub.map (·.2)

theorem step_next (dm : DataModel) (s : Server) (i : Input) : s.next ≤ (s.step dm i).next := by
  cases i with
  | http r => exact Nat.le_succ _
  | opened => exact Nat.le_succ _
  | read c msgs recv e =>
    dsimp only [Server.step]
    split
    · exact run_rel (R := fun s s' : Server => s.next ≤ s'.next) (fun _ => Nat.le_refl _)
        (fun h h' => Nat.le_trans h h') (fun s m => Nat.le_succ s.next) s msgs
    · exact Nat.le_refl _
  | drained c =>
    dsimp only [Server.step]
    split <;> exact Nat.le_refl _
  | event c eof error e =>
    dsimp only [Server.step]
    split <;> exact Nat.le_refl _

theorem Addressed.more (h : Addressed s) : (addresses s ++ [s.next]).Nodup := by
  refine List.nodup_append.mpr ⟨h.nodup, List.nodup_singleton _, fun a ha b hb hab => ?_⟩
  have := h.lt a ha
  have := List.mem_singleton.mp hb
  omega

/-- An address after a step, which was there before or is the next. -/
theorem mem_step_addresses {i : Input} {a : Nat} (ha : a ∈ addresses (s.step dm i)) :
    a ∈ addresses s ∨ a = s.next :=
  (List.mem_append.mp ((step_addresses dm s i).subset ha)).imp id List.mem_singleton.mp

/-- The next number is larger after a step that makes a queue. -/
theorem step_lt {i : Input} {a : Nat} (h : Addressed s) (ha : a ∈ addresses (s.step dm i)) :
    a < (s.step dm i).next := by
  cases i with
  | http r =>
    have hnext : (s.step dm (.http r)).next = s.next + 1 := rfl
    rcases mem_step_addresses ha with ha | ha
    · have := h.lt a ha
      omega
    · omega
  | _ =>
    rw [addresses, step_keys] at ha
    exact Nat.lt_of_lt_of_le (h.lt a ha) (step_next dm s _)

theorem addressed_step (i : Input) (h : Addressed s) : Addressed (s.step dm i) :=
  ⟨h.more.sublist (step_addresses dm s i), fun _ ha => step_lt h ha⟩

theorem gone_step {a : Nat} (i : Input) (h : Gone a s) : Gone a (s.step dm i) := by
  refine ⟨Nat.lt_of_lt_of_le h.lt (step_next dm s i), fun ha => ?_⟩
  rcases mem_step_addresses ha with ha | ha
  · exact h.notMem ha
  · have := h.lt
    omega

theorem addressed_run (dm : DataModel) (is : List Input) :
    Addressed (run (Server.step dm) .startup is) :=
  run_inv (fun _ i h => addressed_step i h)
    (show Addressed .startup from ⟨List.nodup_nil, List.forall_mem_nil _⟩) is

/-- A request that frees a queue leaves the keys of the others. -/
theorem freed_keys {f : Found} (hf : freedQueue dm r s = some f) :
    requested dm r true s = some f ∧ keys (s.step dm (.http r)).queues = keys f.free := by
  unfold freedQueue at hf
  split at hf <;> [skip; cases hf]
  rename_i hr
  have hmake : mayMake r = true := by
    unfold mayMake
    simp only [asksDelete, asksNew, Bool.or_eq_true, Bool.and_eq_true] at hr
    exact Bool.or_eq_true _ _ |>.mpr (hr.symm.imp And.left id)
  have hfree : ¬ (r.path = .queues ∧ r.ok .name = true) := by
    rintro ⟨hp, hn⟩
    simp [asksDelete, hp, hn] at hr
  refine ⟨hf, ?_⟩
  rw [step_keys dm s (.http r)]
  simp only [httpKeys, if_pos hmake, hf, if_neg hfree]

/-- The address of a queue that a request frees. -/
theorem gone_freed (h : Addressed s) {f : Found} (hf : freedQueue dm r s = some f) :
    Gone f.mq.q.addr (s.step dm (.http r)) := by
  obtain ⟨hreq, hkeys⟩ := freed_keys hf
  obtain ⟨id, hsub⟩ := requested_keys hreq
  have hsub : ((keys f.registry).map (·.2)).Sublist (addresses s ++ [s.next]) := by
    simpa [addresses] using hsub.map (·.2)
  have hperm : ((keys f.registry).map (·.2)).Perm (f.mq.q.addr :: (keys f.free).map (·.2)) := by
    simp only [keys, Found.registry, Found.free, List.map_append, List.map_cons]
    exact List.perm_middle
  have hnodup := hperm.nodup_iff.mp (h.more.sublist hsub)
  refine ⟨?_, ?_⟩
  · have hnext : (s.step dm (.http r)).next = s.next + 1 := rfl
    rcases List.mem_append.mp (hsub.subset (hperm.mem_iff.mpr List.mem_cons_self)) with ha | ha
    · have := h.lt _ ha
      omega
    · have := List.mem_singleton.mp ha
      omega
  · rw [addresses, hkeys]
    exact (List.nodup_cons.mp hnodup).1

/-- Of an address where no queue is, no want and no callback is left. -/
theorem Together.none_left {a : Nat} (h : Together s) (hg : Gone a s) :
    (∀ w ∈ s.net.wants, w.queue ≠ a) ∧ ∀ p ∈ waiters s, p.1 ≠ a := by
  have hpairs : ∀ p ∈ waiters s, p.1 ≠ a := by
    rintro p hp rfl
    obtain ⟨m, hm, hp⟩ := List.mem_flatMap.mp hp
    obtain ⟨cb, -, rfl⟩ := List.mem_map.mp hp
    exact hg.notMem (List.mem_map.mpr ⟨_, List.mem_map_of_mem hm, rfl⟩)
  exact ⟨fun w hw => hpairs _ (h.perm.mem_iff.mpr (List.mem_map_of_mem hw)), hpairs⟩

/-! ## Runs -/

/-- Wants and callbacks correspond in every run whose calls end nothing that is
waited on. -/
theorem wantsPaired_of_kept (dm : DataModel) (is : List Input)
    (h : Meets (Server.step dm) (PairsKept dm) .startup is) : WantsPaired dm is := by
  have htogether : ∀ js, js <+: is → Together (run (Server.step dm) .startup js) := fun js hjs =>
    Meets.inv_prefix (fun _ i h hk => together_step i h hk) together_startup h hjs
  refine ⟨fun js hjs => (htogether js hjs).paired, fun js r ks f hjs hf => ?_⟩
  refine (htogether _ hjs).none_left ?_
  rw [run_append, run_cons]
  exact run_inv (fun _ i h => gone_step i h) (gone_freed (addressed_run dm js) hf) ks

/-- A client waits on a queue. -/
def waitForItem : List Input := [postQueues, .opened, .read 1 [wantMessage] 0 wslayOk]

theorem wantsPaired_served : WantsPaired .lp64 (waitForItem ++ [putValue]) := by
  refine wantsPaired_of_kept .lp64 _ ⟨⟨?_, ?_⟩, trivial, ⟨fun _ _ => ⟨?_, trivial⟩, ?_⟩,
    ⟨?_, fun _ w _ hends => ?_⟩, trivial⟩
  · exact fun f hf => by cases hf
  · exact fun hp => by cases hp
  · exact (if_pos (by decide +kernel)).mpr (by decide +kernel)
  · exact fun hf => absurd hf (by decide)
  · exact fun f hf => by cases hf
  · simp [endsBySend, failsToSend, request, sendingOk, wslayOk, Wslay.sendFails] at hends

/-- A want whose queue is deleted is left, and so is one whose connection the
peer ends. -/
theorem wantsPaired_not_left :
    ¬ WantsPaired .lp64 (waitForItem ++ [.http (request .queue .delete [(nameKey, madeId)])]) ∧
      ¬ WantsPaired .lp64 (waitForItem ++ [.event 1 true false wslayOk]) := by
  constructor
  · intro h
    have hnone : (run (Server.step .lp64) .startup
        (waitForItem ++ [.http (request .queue .delete [(nameKey, madeId)])])).queues = [] :=
      List.length_eq_zero_iff.mp (by decide +kernel)
    obtain ⟨w, hw⟩ := List.exists_mem_of_ne_nil (run (Server.step .lp64) .startup
      (waitForItem ++ [.http (request .queue .delete [(nameKey, madeId)])])).net.wants
      (by decide +kernel)
    obtain ⟨m, hm, -⟩ := ((h.paired _ List.prefix_rfl).want w hw).2
    rw [hnone] at hm
    cases hm
  · intro h
    obtain ⟨w, hw, hc⟩ : ∃ w ∈ (run (Server.step .lp64) .startup
        (waitForItem ++ [.event 1 true false wslayOk])).net.wants, (w.client == 1) = true :=
      List.any_eq_true.mp (by decide +kernel)
    exact (h.paired _ List.prefix_rfl).ended 1 (by decide +kernel) w hw (beq_iff_eq.mp hc)

end DQ.Proof.Wants
