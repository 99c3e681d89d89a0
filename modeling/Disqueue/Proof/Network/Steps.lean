import Disqueue.Proof.Network.Below
import Disqueue.Proof.Network.Carried
import Disqueue.Proof.Service.Refines

/-!
# Steps of the network

Whatever happens in the network of the service and its clients, what each client
asked for is backed, and the items that are handled or taken in a step were left,
or were put in it, and are not left any more (`Kept`).
-/

namespace DQ.Proof.Network

open DQ.Model DQ.Spec DQ.Proof.Service

variable {η : Type} {names : Writing} {queueOf : η → String} {keyOf : η → Option String}
  {dm : DataModel} {W : List NamedWaiter} {peers pre post : List (Peer η)} {p p' : Peer η}
  {net : Network Service η} {k : Nat}

/-! ## One client -/

/-- An element of a list among the others. -/
theorem set_split {α : Type} {l : List α} {x : α} (h : l[k]? = some x) :
    ∃ pre post, l = pre ++ x :: post ∧ ∀ y, l.set k y = pre ++ y :: post := by
  obtain ⟨hk, rfl⟩ := List.getElem?_eq_some_iff.mp h
  refine ⟨l.take k, l.drop (k + 1), ?_, fun y => List.set_eq_take_append_cons_drop .. |>.trans ?_⟩
  · rw [← List.drop_eq_getElem_cons hk, List.take_append_drop]
  · rw [if_pos hk]

theorem Carries.conn_ne (hc : Carries names queueOf keyOf W (pre ++ p :: post)) {q : Peer η}
    (hq : q ∈ pre ++ post) : q.conn ≠ p.conn := by
  have hnodup := hc.conns
  rw [List.map_append, List.map_cons, List.nodup_middle, List.nodup_cons, ← List.map_append]
    at hnodup
  intro heq
  exact hnodup.1 (heq ▸ List.mem_map_of_mem hq)

/-- A client is replaced by what it becomes. -/
theorem Carries.replace {W' : List NamedWaiter}
    (hc : Carries names queueOf keyOf W (pre ++ p :: post)) (p' : Peer η) (hconn : p'.conn = p.conn)
    (hp : PeerBacked names queueOf keyOf W' p')
    (hothers : ∀ q ∈ pre ++ post, q.conn ≠ p.conn → PeerBacked names queueOf keyOf W q →
      PeerBacked names queueOf keyOf W' q) :
    Carries names queueOf keyOf W' (pre ++ p' :: post) := by
  constructor
  · rw [List.map_append, List.map_cons, hconn, ← List.map_cons, ← List.map_append]
    exact hc.conns
  · intro q hq
    rcases List.mem_cons.mp (List.perm_middle.subset hq) with rfl | hq
    · exact hp
    · exact hothers q hq (hc.conn_ne hq)
        (hc.peers q (List.perm_middle.symm.subset (List.mem_cons_of_mem _ hq)))

theorem heldAll_middle (p : Peer η) :
    (heldAll names (pre ++ p :: post)).Perm
      (held (takerOf names p.client) p.down ++ heldAll names (pre ++ post)) := by
  rw [heldAll_append, heldAll_cons, heldAll_append]
  exact List.perm_append_comm_assoc ..

/-! ## Messages that are read -/

/-- Waiters of other clients are none of a client's requests. -/
theorem flights_other {A : List NamedWaiter} {c : Nat} (h : ∀ v ∈ A, v.2.client ≠ c)
    (up : List WantText) (down : List Json) :
    flights (A ++ W) c up down = flights W c up down := by
  have hnone : A.filterMap (waiterFlight c) = [] :=
    List.filterMap_eq_nil_iff.mpr fun v hv => if_neg (h v hv)
  rw [flights, flights, List.filterMap_append, hnone, List.nil_append]

theorem PeerBacked.other {A : List NamedWaiter} (h : ∀ v ∈ A, v.2.client ≠ p.conn)
    (hp : PeerBacked names queueOf keyOf W p) : PeerBacked names queueOf keyOf (A ++ W) p := by
  refine ⟨hp.sound, ⟨hp.backed.plain, ?_, ?_⟩, hp.known⟩
  · rw [flights_other h]
    exact hp.backed.nodup
  · rw [flights_other h]
    exact hp.backed.serves

theorem allAskers_client (c : Nat) (ms : List Note) : ∀ v ∈ allAskers c ms, v.2.client = c := by
  intro v hv
  obtain ⟨m, -, hv⟩ := List.mem_flatMap.mp hv
  exact askers_client c m v hv

/-- The messages that are read ask for what they did on their way. -/
theorem asks_read (c : Nat) (up : List WantText) (envs : List Sending)
    (hplain : ∀ m ∈ up, Char.ofNat 0 ∉ m.identifier.toList) :
    (allAskers c ((Network.readMessages up envs).map noteOf)).filterMap (waiterFlight c) ++
      (up.drop envs.length).map askFlight = up.map askFlight := by
  induction up generalizing envs with
  | nil => cases envs <;> rfl
  | cons m up ih =>
    cases envs with
    | nil => rfl
    | cons env envs =>
      have hid : ofUtf8 (received m.identifier) = some m.identifier := by
        rw [Clients.received_text (hplain m List.mem_cons_self)]
        exact ofUtf8_bytes m.identifier
      have hflight : waiterFlight c
          (fold (received m.queue), ⟨c, received m.identifier, m.key.map received⟩) =
            some (askFlight m) := by simp [waiterFlight, hid, askFlight]
      have hasker : allAskers c ((Network.readMessages (m :: up) (env :: envs)).map noteOf) =
          (fold (received m.queue), ⟨c, received m.identifier, m.key.map received⟩) ::
            allAskers c ((Network.readMessages up envs).map noteOf) := by
        have hnote : noteOf ⟨1, some m.request, env⟩ =
            .data (some m.request) (sendFate env.wslay) := by simp [noteOf]
        rw [Network.readMessages, List.zipWith_cons_cons, List.map_cons, hnote, allAskers,
          List.flatMap_cons]
        rfl
      have hrest := ih envs fun m' hm' => hplain m' (List.mem_cons_of_mem _ hm')
      rw [hasker, List.filterMap_cons_some hflight, List.cons_append, List.length_cons,
        List.drop_succ_cons, List.map_cons, hrest]

/-- What is read on a connection was on its way. -/
theorem Carries.read (hc : Carries names queueOf keyOf W (pre ++ p :: post)) (envs : List Sending) :
    Carries names queueOf keyOf
      (allAskers p.conn ((Network.readMessages p.up envs).map noteOf) ++ W)
      (pre ++ { p with up := p.up.drop envs.length } :: post) := by
  obtain ⟨hsound, hbacked, hknown⟩ :=
    hc.peers p (List.mem_append_right _ List.mem_cons_self)
  refine hc.replace { p with up := p.up.drop envs.length } rfl ⟨hsound, ?_, hknown⟩
    fun q _ hne hq => hq.other fun v hv => ?_
  · have hperm : (flights W p.conn p.up p.down).Perm
        (flights (allAskers p.conn ((Network.readMessages p.up envs).map noteOf) ++ W) p.conn
          (p.up.drop envs.length) p.down) := by
      rw [flights, flights, List.filterMap_append, List.append_assoc,
        ← asks_read p.conn p.up envs hbacked.plain, List.append_assoc]
      exact List.perm_append_comm_assoc ..
    exact hbacked.fewer (fun _ hm => List.mem_of_mem_drop hm) [] hperm
  · rw [allAskers_client p.conn _ v hv]
    exact hne.symm

/-! ## Steps -/

section
variable (names : Writing) (queueOf : η → String) (keyOf : η → Option String)

/-- What holds of the service and the clients whatever happened. -/
structure Inv (net : Network Service η) : Prop where
  carries : Carries names queueOf keyOf (waiting net.server.rooms) net.peers
  below : Below net.server
  conns : ∀ p ∈ net.peers, p.conn < net.server.next

/-- The items that may still be handled. -/
def itemsLeft (net : Network Service η) : List Item :=
  heldAll names net.peers ++ stored net.server.rooms

/-- What a step does. -/
structure Kept (dm : DataModel) (net : Network Service η) (a : NetworkInput η)
    (r : Network Service η × List (NetworkOutput η)) : Prop where
  inv : Inv names queueOf keyOf r.1
  items : (itemsHandled queueOf r.2 ++ itemsTaken dm a r.2 ++ itemsLeft names r.1).Subperm
    (itemsPut dm a r.2 ++ itemsLeft names net)
  meant : ∀ o ∈ r.2, HandlesMeant keyOf o

end

theorem next_le (t : Service) (call : ServiceCall) : t.next ≤ (Service.step t call).1.next := by
  have hnotes (c : Nat) (ms : List Note) (t : Service) :
      t.next ≤ ((Service.noteStep c).run t ms).next := by
    induction ms generalizing t with
    | nil => exact Nat.le_refl _
    | cons m ms ih => exact (Nat.le_succ _).trans (ih (Service.noteStep c t m).1)
  cases call with
  | ask a => exact Nat.le_succ _
  | opened => exact Nat.le_succ _
  | notes c ms fate =>
    dsimp only [Service.step]
    split
    · rw [endRead_next]
      exact hnotes c ms t
    · exact Nat.le_refl _
  | drained c =>
    dsimp only [Service.step]
    split
    · split <;> exact Nat.le_refl _
    · exact Nat.le_refl _
  | ended c => exact Nat.le_refl _

theorem sent_back (sents : List Sent) :
    (sents.map (NetworkOutput.sent (η := η))).filterMap sentBy = sents := by
  rw [List.filterMap_map]
  exact List.filterMap_some ..

theorem handled_sent (sents : List Sent) :
    itemsHandled queueOf (sents.map NetworkOutput.sent) = [] := by
  rw [itemsHandled, List.filterMap_map]
  exact List.filterMap_eq_nil_iff.mpr fun _ _ => rfl

/-- The server is called. -/
theorem serve_inv (dm : DataModel) {i : Input} (hb : Below net.server)
    (hconns : ∀ p ∈ net.peers, p.conn < net.server.next)
    (hc : Carries names queueOf keyOf (callAskers (callOf dm i) ++ waiting net.server.rooms)
      net.peers) :
    Inv names queueOf keyOf (Network.serve (serviceCalls dm) i net).1 := by
  refine ⟨(call_carries (callOf dm i) hc).1, step_below hb _, fun p hp => ?_⟩
  obtain ⟨q, hq, rfl⟩ := List.mem_map.mp hp
  exact Nat.lt_of_lt_of_le (hconns q hq) (next_le ..)

/-- Nothing happens. -/
theorem kept_quiet (h : Inv names queueOf keyOf net) {a : NetworkInput η}
    (ha : itemsTaken dm a [] = []) : Kept names queueOf keyOf dm net a (net, []) := by
  refine ⟨h, ?_, List.forall_mem_nil _⟩
  rw [ha]
  exact (List.sublist_append_right _ _).subperm

/-- Waiters of strangers are no requests of a client. -/
theorem Carries.strangers (hc : Carries names queueOf keyOf W peers) {A : List NamedWaiter}
    (h : ∀ v ∈ A, ∀ p ∈ peers, v.2.client ≠ p.conn) : Carries names queueOf keyOf (A ++ W) peers :=
  ⟨hc.conns, fun p hp => (hc.peers p hp).other fun v hv => h v hv p hp⟩

/-- A call that no client is the reason for. -/
theorem call_kept (h : Inv names queueOf keyOf net) (i : Input) :
    Kept names queueOf keyOf dm net (.call i)
      (Network.step (serviceCalls dm) Service.next names net (.call i)) := by
  unfold Network.step
  dsimp only
  split
  · rename_i hread
    cases i with
    | read c msgs recv e => exact kept_quiet h rfl
    | _ => cases hread
  · rename_i hread
    have hc : Carries names queueOf keyOf (callAskers (callOf dm i) ++ waiting net.server.rooms)
        net.peers := by
      refine h.carries.strangers fun v hv p hp hclient => hread ?_
      cases i with
      | read c msgs recv e =>
        rw [allAskers_client c _ v hv] at hclient
        exact List.any_eq_true.mpr ⟨p, hp, by simpa using hclient.symm⟩
      | _ => cases hv
    refine ⟨serve_inv dm h.below h.conns hc, ?_, fun o ho => ?_⟩
    · have hcall := (call_carries (callOf dm i) hc).2
      dsimp only [Network.serve, itemsTaken, itemsPut, itemsLeft]
      rw [sent_back, handled_sent, List.nil_append]
      refine List.perm_append_comm.subperm.trans ?_
      rw [List.append_assoc]
      refine hcall.trans (List.Perm.subperm ?_)
      rw [← List.append_assoc]
      exact List.perm_append_comm
    · obtain ⟨sent, -, rfl⟩ := List.mem_map.mp ho
      trivial

/-- The server reads messages of a client. -/
theorem read_kept (h : Inv names queueOf keyOf net) (envs : List Sending) (recv : Int) (e : Wslay) :
    Kept names queueOf keyOf dm net (.read k envs recv e)
      (Network.step (serviceCalls dm) Service.next names net (.read k envs recv e)) := by
  unfold Network.step
  dsimp only
  cases hk : net.peers[k]? with
  | none => exact kept_quiet h rfl
  | some p =>
    obtain ⟨pre, post, hpeers, hset⟩ := set_split hk
    have hc := h.carries
    rw [hpeers] at hc
    have hread := hc.read envs
    dsimp only
    rw [hset]
    have hconns : ∀ q ∈ pre ++ { p with up := p.up.drop envs.length } :: post,
        q.conn < net.server.next := by
      intro q hq
      rcases List.mem_cons.mp (List.perm_middle.subset hq) with rfl | hq
      · exact h.conns p (List.mem_of_getElem? hk)
      · refine h.conns q ?_
        rw [hpeers]
        exact List.perm_middle.symm.subset (List.mem_cons_of_mem _ hq)
    have hcall := call_carries (callOf dm (.read p.conn (Network.readMessages p.up envs) recv e))
      (t := net.server) hread
    refine ⟨serve_inv dm h.below hconns hread, ?_, fun o ho => ?_⟩
    · dsimp only [Network.serve, itemsTaken, itemsPut, itemsLeft]
      rw [handled_sent, List.nil_append, List.nil_append, hpeers]
      have hsame : heldAll names (pre ++ { p with up := p.up.drop envs.length } :: post) =
          heldAll names (pre ++ p :: post) := by
        rw [heldAll_append, heldAll_append]
        rfl
      have htaken (sent : List Sent) : takenBy (callOf dm
          (.read p.conn (Network.readMessages p.up envs) recv e)) sent = [] := rfl
      have hput (sent : List Sent) : putBy (callOf dm
          (.read p.conn (Network.readMessages p.up envs) recv e)) sent = [] := rfl
      have hsub := hcall.2
      rw [hsame, htaken, hput, List.append_nil, List.append_nil] at hsub
      exact hsub
    · obtain ⟨sent, -, rfl⟩ := List.mem_map.mp ho
      trivial

/-- A client that connects asks for what its handlers are for. -/
theorem connected_backed (names : Writing) {t : Service} (hb : Below t)
    {handlers : List (Registration η)}
    (hh : ∀ r ∈ handlers, queueOf r.handler = r.queue ∧ keyOf r.handler = r.key) (lib : Library) :
    PeerBacked names queueOf keyOf (waiting t.rooms)
      ⟨t.next, .connected handlers lib,
        ((Client.connected handlers lib).heard names).filterMap Network.wantText, []⟩ ∧
      held (takerOf names (Client.connected handlers lib)) [] = [] := by
  obtain ⟨asked, hconn⟩ := connected names handlers lib
  have hnone : (waiting t.rooms).filterMap (waiterFlight t.next) = [] :=
    List.filterMap_eq_nil_iff.mpr fun v hv => if_neg (Nat.ne_of_lt (hb.waiters v hv))
  have hflights : flights (waiting t.rooms) t.next
      (((Client.connected handlers lib).heard names).filterMap Network.wantText) [] =
        asked.map fun p => askFlight (p.2.ask p.1) := by
    rw [flights, hnone, hconn.wants, List.map_map, List.filterMap_nil, List.append_nil,
      List.append_nil]
    rfl
  refine ⟨⟨hconn.sound, ⟨fun m hm => ?_, ?_, fun f hf => ?_⟩, ⟨fun id w hw => ?_, ?_, ?_⟩⟩, ?_⟩
  · rw [hconn.wants] at hm
    obtain ⟨p, hp, rfl⟩ := List.mem_map.mp hm
    exact hconn.plain p hp
  · rw [hflights, List.map_map]
    exact hconn.nodup
  · rw [hflights] at hf
    obtain ⟨p, hp, rfl⟩ := List.mem_map.mp hf
    exact ⟨p.2, (hconn.record p.1 p.2).mpr hp, rfl, rfl⟩
  · have hmem := hconn.subscriptions.subset
      (List.mem_map_of_mem (f := Prod.snd) ((hconn.record id w).mp hw))
    cases lib with
    | python =>
      obtain ⟨r, hr, rfl⟩ := List.mem_map.mp hmem
      obtain ⟨hqueue, hkey⟩ := hh r hr
      refine ⟨hqueue, ?_⟩
      dsimp only [pythonSubscription]
      rw [hkey]
      rcases r.key with _ | key
      · exact .inr rfl
      · by_cases hempty : key = ""
        · exact .inl (congrArg some hempty)
        · refine .inr (Eq.symm ?_)
          rw [Option.filter_some, if_pos (by simpa using hempty)]
    | typeScript =>
      obtain ⟨r, hr, rfl⟩ := List.mem_map.mp hmem
      exact ⟨(hh r (List.mem_filter.mp hr).1).1, .inr (hh r (List.mem_filter.mp hr).1).2⟩
  · rw [hconn.pending]
    exact List.forall_mem_nil _
  · rw [hconn.running]
    exact List.forall_mem_nil _
  · rw [held, hconn.pending]
    rfl

theorem connect_eq (net : Network Service η) (lib : Library) (handlers : List (Registration η)) :
    Network.step (serviceCalls dm) Service.next names net (.connect lib handlers) =
      (⟨(Service.step net.server .opened).1, net.peers ++ [⟨net.server.next,
        .connected handlers lib,
        ((Client.connected handlers lib).heard names).filterMap Network.wantText, []⟩]⟩, []) := by
  have hpeers : (Network.serve (serviceCalls dm) .opened net).1.peers = net.peers :=
    deliver_nil net.peers
  dsimp only [Network.step]
  rw [hpeers]
  rfl

/-- A client connects. -/
theorem connect_kept (h : Inv names queueOf keyOf net) {lib : Library}
    {handlers : List (Registration η)}
    (hh : ∀ r ∈ handlers, queueOf r.handler = r.queue ∧ keyOf r.handler = r.key) :
    Kept names queueOf keyOf dm net (.connect lib handlers)
      (Network.step (serviceCalls dm) Service.next names net (.connect lib handlers)) := by
  obtain ⟨hpeer, hheld⟩ := connected_backed names h.below hh lib
  rw [connect_eq]
  refine ⟨⟨⟨?_, fun p hp => ?_⟩, step_below h.below .opened, fun p hp => ?_⟩, ?_,
    List.forall_mem_nil _⟩
  · dsimp only
    rw [List.map_append, List.nodup_append]
    refine ⟨h.carries.conns, List.nodup_singleton _, fun c hc d hd => ?_⟩
    obtain ⟨p, hp, rfl⟩ := List.mem_map.mp hc
    rw [List.mem_singleton.mp hd]
    exact Nat.ne_of_lt (h.conns p hp)
  · rcases List.mem_append.mp hp with hp | hp
    · exact h.carries.peers p hp
    · rw [List.mem_singleton.mp hp]
      exact hpeer
  · rcases List.mem_append.mp hp with hp | hp
    · exact Nat.lt_succ_of_lt (h.conns p hp)
    · rw [List.mem_singleton.mp hp]
      exact Nat.lt_succ_self _
  · dsimp only [itemsLeft]
    rw [heldAll_append, heldAll_cons, hheld]
    refine List.Perm.subperm ?_
    rw [show heldAll names ([] : List (Peer η)) = [] from rfl, List.append_nil, List.append_nil]
    exact List.Perm.refl _

/-- A client goes on. -/
theorem goOn_kept (h : Inv names queueOf keyOf net) (p' : Peer η) {a : NetworkInput η}
    {heard : List (Heard η)} (hk : net.peers[k]? = some p) (hconn : p'.conn = p.conn)
    (hp : PeerBacked names queueOf keyOf (waiting net.server.rooms) p')
    (hheld : (itemsHandled queueOf (heard.filterMap (Network.handlerRan k)) ++
      held (takerOf names p'.client) p'.down).Perm (held (takerOf names p.client) p.down))
    (hmeant : ∀ x ∈ heard, HeardMeant keyOf x) (ha : ∀ out, itemsTaken dm a out = []) :
    Kept names queueOf keyOf dm net a
      ({ net with peers := net.peers.set k p' }, heard.filterMap (Network.handlerRan k)) := by
  obtain ⟨pre, post, hpeers, hset⟩ := set_split hk
  have hc := h.carries
  rw [hpeers] at hc
  rw [hset]
  refine ⟨⟨hc.replace p' hconn hp fun q _ _ hq => hq, h.below, fun q hq => ?_⟩, ?_, fun o ho => ?_⟩
  · rcases List.mem_cons.mp (List.perm_middle.subset hq) with rfl | hq
    · rw [hconn]
      exact h.conns p (List.mem_of_getElem? hk)
    · refine h.conns q ?_
      rw [hpeers]
      exact List.perm_middle.symm.subset (List.mem_cons_of_mem _ hq)
  · rw [ha, List.append_nil, itemsLeft, itemsLeft, hpeers, ← List.append_assoc]
    refine List.Subperm.trans (List.Perm.subperm ?_) (List.sublist_append_right _ _).subperm
    refine List.Perm.append_right _ ?_
    calc itemsHandled queueOf (heard.filterMap (Network.handlerRan k)) ++
          heldAll names (pre ++ p' :: post)
      List.Perm _ (itemsHandled queueOf (heard.filterMap (Network.handlerRan k)) ++
          (held (takerOf names p'.client) p'.down ++ heldAll names (pre ++ post))) :=
        (heldAll_middle p').append_left _
      List.Perm _ (held (takerOf names p.client) p.down ++ heldAll names (pre ++ post)) := by
        rw [← List.append_assoc]
        exact hheld.append_right _
      List.Perm _ (heldAll names (pre ++ p :: post)) := (heldAll_middle p).symm
  · obtain ⟨x, hx, hran⟩ := List.mem_filterMap.mp ho
    cases x with
    | want m => cases hran
    | ran handler key value =>
      cases hran
      exact hmeant _ hx

/-- An object is notified. -/
theorem notify_kept (h : Inv names queueOf keyOf net) :
    Kept names queueOf keyOf dm net (.notify k)
      (Network.step (serviceCalls dm) Service.next names net (.notify k)) := by
  dsimp only [Network.step]
  cases hk : net.peers[k]? with
  | none => exact kept_quiet h rfl
  | some p =>
    dsimp only
    split
    · rename_i json down hready hdown
      obtain ⟨hsound, hbacked, hknown⟩ := h.carries.peers p (List.mem_of_getElem? hk)
      rw [hdown] at hbacked
      obtain ⟨hnotified, hsound'⟩ := notified hsound hready json
      obtain ⟨hb, hk', hperm, hmeant⟩ := notified_held (k := k) hbacked hknown hnotified
      refine goOn_kept h ⟨p.conn, _, _, _⟩ hk rfl ⟨hsound', hb, hk'⟩ ?_ hmeant fun _ => rfl
      rw [hdown]
      exact hperm
    · exact kept_quiet h rfl

/-- A handler ends. -/
theorem handled_kept (h : Inv names queueOf keyOf net) (j : Nat) (returns : Bool) :
    Kept names queueOf keyOf dm net (.handled k j returns)
      (Network.step (serviceCalls dm) Service.next names net (.handled k j returns)) := by
  dsimp only [Network.step]
  cases hk : net.peers[k]? with
  | none => exact kept_quiet h rfl
  | some p =>
    obtain ⟨hsound, hbacked, hknown⟩ := h.carries.peers p (List.mem_of_getElem? hk)
    obtain ⟨hended, hsound'⟩ := ended hsound j returns
    obtain ⟨hb, hk', hperm, hmeant⟩ := ended_held (k := k) hbacked hknown hended
    exact goOn_kept h ⟨p.conn, _, _, _⟩ hk rfl ⟨hsound', hb, hk'⟩ hperm hmeant fun _ => rfl

end DQ.Proof.Network
