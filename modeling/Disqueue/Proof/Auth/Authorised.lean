import Disqueue.Proof.Auth.Asked
import Disqueue.Proof.Auth.Reload
import Disqueue.Proof.Server.Delivery
import Disqueue.Proof.Wants.Told

/-!
# What has a verified request for its cause

The items put have numbers of verified requests, and so have the connections,
the clients of wants and those that messages were sent to (`Owned`). A step
refuses a request, or is caused by a verified request or connection, or ends
such a connection (`step_cases`).
-/

namespace DQ.Proof.Auth

open DQ.Model DQ.Spec DQ.Proof.Server DQ.Proof.Wants DQ.Proof.Ws

/-! ## Numbers of items and clients -/

/-- An item put has a number in `P`, and a message is sent to a client in
`C`. -/
def Fits (P C : List Nat) : Event → Prop
  | .put i => i.id ∈ P
  | .message c _ _ => c ∈ C
  | _ => True

/-- The items put, and the clients. -/
structure Owned (P C : List Nat) (n : Net) : Prop where
  log : ∀ ev ∈ n.log, Fits P C ev
  wants : ∀ w ∈ n.wants, w.client ∈ C
  alive : ∀ c, (n.conn c).alive = true → c ∈ C

variable {P P' C C' A : List Nat} {n n' n'' : Net} {c : Nat} {D : Nat → Prop} {e : Wslay}

theorem Fits.mono {ev : Event} (h : Fits P C ev) (hp : P ⊆ P') (hc : C ⊆ C') : Fits P' C' ev := by
  cases ev with
  | put i => exact hp h
  | message c b sent => exact hc h
  | _ => trivial

theorem Owned.mono (h : Owned P C n) (hp : P ⊆ P') (hc : C ⊆ C') : Owned P' C' n :=
  ⟨fun ev hev => (h.log ev hev).mono hp hc, fun w hw => hc (h.wants w hw),
    fun c ha => hc (h.alive c ha)⟩

/-- From the events that are added, where no connection is made. -/
theorem Owned.grow {q : Event → Prop} (h : Owned P C n) (hl : Grows q n n')
    (hq : ∀ ev, q ev → Fits P C ev) (hw : ∀ w ∈ n'.wants, w.client ∈ C)
    (ha : ∀ c, (n'.conn c).alive = true → (n.conn c).alive = true) : Owned P C n' := by
  obtain ⟨es, hl, hes⟩ := hl
  refine ⟨fun ev hev => ?_, hw, fun c hc => h.alive c (ha c hc)⟩
  rw [hl] at hev
  rcases List.mem_append.mp hev with hev | hev
  · exact h.log ev hev
  · exact hq ev (hes ev hev)

theorem fits_ofConn {ev : Event} (hc : c ∈ C) (h : OfConn c ev) : Fits P C ev := by
  cases h with
  | message b sent => exact hc
  | _ => trivial

/-! ## The end of a connection -/

/-- The connection is reported to have ended or not, and its wants may have
been cancelled. -/
structure Ends (c : Nat) (n n' : Net) : Prop where
  wants : Cancels c n.wants n'.wants
  log : Grows (fun ev => reportsEnd c ev = true) n n'

theorem cancels_refl (c : Nat) (ws : List Want) : Cancels c ws ws :=
  List.forall₂_same.mpr fun _ _ => .inl rfl

theorem cancels_close (c : Nat) (ws : List Want) : Cancels c ws (managerQueueWantClose c ws) := by
  refine List.forall₂_map_right_iff.mpr (List.forall₂_same.mpr fun w _ => ?_)
  split
  · rename_i hc
    exact .inr ⟨hc, rfl⟩
  · exact .inl rfl

theorem cancels_trans {ws ws' ws'' : List Want} (h : Cancels c ws ws') (h' : Cancels c ws' ws'') :
    Cancels c ws ws'' := by
  induction h generalizing ws'' with
  | nil => exact h'
  | cons h _ ih =>
    cases h' with
    | cons h' hs =>
      refine .cons ?_ (ih hs)
      rcases h with rfl | ⟨hc, rfl⟩
      · exact h'
      · rcases h' with rfl | ⟨-, rfl⟩
        · exact .inr ⟨hc, rfl⟩
        · exact .inr ⟨hc, rfl⟩

theorem cancels_eased {ws ws' : List Want} (h : Cancels c ws ws') : List.Forall₂ Eased ws ws' :=
  h.imp fun _ _ h => h.imp id And.right

theorem ends_same (hw : n'.wants = n.wants) (hl : n'.log = n.log) : Ends c n n' :=
  ⟨hw ▸ cancels_refl c _, grows_of_log hl⟩

theorem Ends.trans (h : Ends c n n') (h' : Ends c n' n'') : Ends c n n'' :=
  ⟨cancels_trans h.wants h'.wants, h.log.trans h'.log⟩

theorem ends_report (c : Nat) {ev : Event} (hev : reportsEnd c ev = true) (n : Net) :
    Ends c n ({ n with wants := managerQueueWantClose c n.wants }.emit ev) :=
  ⟨cancels_close c n.wants, [ev], rfl, fun _ h => List.mem_singleton.mp h ▸ hev⟩

theorem ends_close (c : Nat) (n : Net) : Ends c n (evwsClose_ c n) := by
  have hconn : Ends c n (n.setConn c { n.conn c with active := false }) := ends_same rfl rfl
  exact hconn.trans (ends_report c (by simp [reportsEnd]) _)

theorem ends_write (e : Wslay) (c : Nat) (n : Net) : Ends c n (evwsConnectionWrite_ e c n) := by
  unfold evwsConnectionWrite_
  split
  · exact ends_close c n
  · split
    · exact ends_same rfl rfl
    · exact ends_same rfl rfl

theorem ends_free (e : Wslay) (c : Nat) (n : Net) : Ends c n (evwsConnectionFree e c n) := by
  have hclose : Ends c n (if (n.conn c).active then evwsConnectionSendClose_ e c n else n) := by
    unfold evwsConnectionSendClose_
    split
    · split
      · exact ends_same rfl rfl
      · split
        · exact ends_close c n
        · exact ends_write e c n
    · exact ends_same rfl rfl
  exact hclose.trans (ends_same rfl rfl)

theorem ends_event (e : Wslay) (c : Nat) (eof error : Bool) (n : Net) :
    Ends c n (evwsConnectionEventCb_ e c eof error n) := by
  unfold evwsConnectionEventCb_
  refine Ends.trans ?_ (ends_free e c _)
  split
  · split
    · exact ends_report c (by simp [reportsEnd]) n
    · exact ends_same rfl rfl
  · split
    · exact ends_report c (by simp [reportsEnd]) n
    · exact ends_same rfl rfl

theorem Owned.ends (h : Owned P C n) (he : Ends c n n') (ht : Tells D n n') : Owned P C n' := by
  refine h.grow he.log (fun ev hev => ?_) (fun w hw => ?_) ht.alive
  · cases ev with
    | put i => cases hev
    | message c b sent => cases hev
    | _ => trivial
  · obtain ⟨w₀, hw₀, hw⟩ := eased_mem (cancels_eased he.wants) hw
    exact hw.client ▸ h.wants w₀ hw₀

/-! ## Calls by the event loop -/

variable {dm : DataModel} {s s' : Server} {r : Request}

theorem fits_sends {rid : Nat} {ev : Event} (h : Owned P C n) (hr : rid ∈ P) (hev : Sends rid n ev) :
    Fits P C ev := by
  rcases hev with hev | ⟨want, rfl⟩ | ⟨w, hw, hev⟩
  · cases hev with
    | put i hi =>
      show i.id ∈ P
      rwa [hi]
    | _ => trivial
  · trivial
  · exact fits_ofConn (h.wants w hw) hev

theorem fits_says {ev : Event} (h : Owned P C n) (hc : c ∈ C) (hev : Says c n ev) :
    Fits P C ev := by
  rcases hev with ⟨w, key, rfl, -⟩ | rfl | ⟨want, rfl⟩ | hev | ⟨w, hw, hev⟩
  · trivial
  · trivial
  · trivial
  · exact fits_ofConn hc hev
  · exact fits_ofConn (h.wants w hw) hev

/-- The clients of wants, where no want was made. -/
theorem Owned.eased_clients (h : Owned P C n) (he : ∀ w' ∈ n'.wants, ∃ w ∈ n.wants, Eased w w') :
    ∀ w ∈ n'.wants, w.client ∈ C := by
  intro w hw
  obtain ⟨w₀, hw₀, he⟩ := he w hw
  exact he.client ▸ h.wants w₀ hw₀

theorem owned_http (dm : DataModel) (r : Request) (h : Owned P C s.net) (hr : s.next ∈ P) :
    Owned P C (s.step dm (.http r)).net := by
  have hs := http_serves dm r s
  exact h.grow hs.log (fun _ hev => fits_sends h hr hev) (h.eased_clients hs.wants)
    hs.tells.alive

theorem owned_message (hI : Inv s) (h : Owned P C s.net) (hc : c ∈ C) (m : Message) :
    Owned P C (evwsWslayOnMsgCallback_ dm c s m).net := by
  cases hd : isData m with
  | false =>
    rw [message_other hd]
    exact h
  | true =>
    have hh := message_hears dm hI c hd
    cases hw : messageWaits dm c s m with
    | true =>
      obtain ⟨ht, w, hclient, hwants⟩ := hh.waits hw
      refine h.grow hh.log (fun _ hev => fits_says h hc hev) (fun w' hw' => ?_) ht.alive
      rw [hwants] at hw'
      rcases List.mem_append.mp hw' with hw' | hw'
      · exact h.wants w' hw'
      · rw [List.mem_singleton.mp hw', hclient]
        exact hc
    | false =>
      obtain ⟨ht, hwants⟩ := hh.answers hw
      exact h.grow hh.log (fun _ hev => fits_says h hc hev)
        (h.eased_clients fun _ hw' => eased_mem hwants hw') ht.alive

theorem owned_read (dm : DataModel) (hg : Good s) (h : Owned P C s.net)
    (ha : (s.net.conn c).alive = true) (e : Wslay) (msgs : List Message) (recv : Int) :
    Owned P C (evwsConnectionReadCb_ dm e c msgs recv s).net := by
  have hrun : Owned P C (run (evwsWslayOnMsgCallback_ dm c) s msgs).net :=
    messages_inv (I := fun s => Owned P C s.net)
      (fun s m hg hc _ h => owned_message hg.1 h (h.alive c hc) m) hg ha
      (Meets.of_forall (C := fun _ _ => True) (fun _ _ => trivial) s msgs) h
  unfold evwsConnectionReadCb_
  dsimp only
  split
  · exact hrun.ends (ends_close c _) (tells_close c _)
  · exact hrun.ends (ends_write e c _) (tells_write e c _)

theorem owned_opened (h : Owned P C s.net) (hc : s.next ∈ C) :
    Owned P C (s.step dm .opened).net := by
  refine ⟨h.log, h.wants, fun c ha => ?_⟩
  by_cases hn : c = s.next
  · exact hn ▸ hc
  · simp only [Server.step, Net.setConn, Function.update_of_ne hn] at ha
    exact h.alive c ha

/-! ## Steps of the program -/

variable {bioRead : CStr → List Char} {p : Program} {i : ProgramInput}

theorem Idle.traced (hi : Idle s s') (h : Traced s) : Traced s' :=
  ⟨hi.good h.good, h.items.act hi.act, h.wants.act hi.act,
    h.origins.act h.wants hi.act⟩

theorem Idle.owned (hi : Idle s s') (h : Owned P C s.net) : Owned P C s'.net := by
  refine h.grow hi.log (fun ev hev => ?_) (hi.wants ▸ h.wants) fun c hc => hi.conn ▸ hc
  cases hev
  trivial

/-- What holds after a run, whose verified requests have the numbers `A`. -/
structure Held (A : List Nat) (p : Program) : Prop where
  traced : Traced p.server
  owned : Owned A A p.server.net
  guarded : Guarded p

theorem held_startup (auths : Nat → Auth) (files : CStr → Option File) :
    Held [] (.startup auths files) := by
  refine ⟨traced_startup, ⟨?_, ?_, ?_⟩, ?_⟩
  · exact List.forall_mem_nil _
  · exact List.forall_mem_nil _
  · intro c hc
    cases hc
  · exact List.forall_mem_nil _

/-- What a step does to the server. -/
inductive Outcome (bioRead : CStr → List Char) (A : List Nat) (p : Program) (i : ProgramInput)
    (s' : Server) : Prop
  | idle (h : Idle p.server s')
  | caused (h : Caused bioRead A p i)
      (hm : ∀ c b sent, Event.message c b sent ∈ s'.net.log → c ∈ A)
  | ended (c : Nat) (hc : c ∈ A) (hi : endsConnection c i = true)
      (hq : s'.queues = p.server.queues) (h : Ends c p.server.net s'.net)

theorem Owned.messages (h : Owned P C n) (c : Nat) (b : Body) (sent : Bool)
    (hm : Event.message c b sent ∈ n.log) : c ∈ C := h.log _ hm

/-- A server whose paths were guarded when it was added. -/
theorem guarded_added {ok : StartCall → Bool} {auth : Auth} {realm : CStr} {m : ManagerServer}
    (h : managerAddServer ok (some auth) (some realm) = some m) {path : ServerPath} {g : Guard}
    (hg : m.guard path = some g) : Closed g := by
  unfold managerAddServer at h
  split at h <;> [cases h; skip]
  cases h
  dsimp only at hg
  split at hg <;> [cases hg; skip]
  split at hg
  · cases hg
    trivial
  · cases hg
    trivial

theorem guarded_addServer (h : Guarded p) (ok : StartCall → Bool) (a : Nat) (realm : CStr) :
    Guarded (p.addServer ok (some a) (some realm)) := by
  unfold Program.addServer
  cases hm : managerAddServer ok ((some a).map p.auths) (some realm) with
  | none => exact h
  | some m =>
    intro v hv path g hg
    rcases List.mem_append.mp hv with hv | hv
    · exact h v hv path g hg
    · rw [List.mem_singleton.mp hv] at hg
      exact guarded_added hm hg

/-- What a request does to the server. -/
theorem asks_held (hrun : p.running = true) (h : Held A p) {r : Asked}
    (hasks : Asks dm (verifies bioRead p r = true) p.server r s') :
    Traced s' ∧ Owned (A ++ verifiedNumbers bioRead dm p [.ask r])
      (A ++ verifiedNumbers bioRead dm p [.ask r]) s'.net ∧
      Outcome bioRead A p (.ask r) s' := by
  have hsub : A ⊆ A ++ verifiedNumbers bioRead dm p [.ask r] := List.subset_append_left ..
  have hnew : verifies bioRead p r = true →
      p.server.next ∈ A ++ verifiedNumbers bioRead dm p [.ask r] := fun hv => by
    simp [verifiedNumbers, hrun, hv]
  cases hasks with
  | idle hi => exact ⟨hi.traced h.traced, hi.owned (h.owned.mono hsub hsub), .idle hi⟩
  | called hv path =>
    have hown := owned_http dm { r.request with path } (h.owned.mono hsub (List.Subset.refl A))
      (hnew hv)
    exact ⟨traced_step _ h.traced, hown.mono (List.Subset.refl _) hsub, .caused hv hown.messages⟩
  | opened hv =>
    refine ⟨traced_step .opened h.traced, owned_opened (h.owned.mono hsub hsub) (hnew hv), ?_⟩
    exact .caused hv h.owned.messages

/-- What the events of a connection do to the server. -/
theorem read_held (dm : DataModel) (bioRead : CStr → List Char) (h : Held A p) (c : Nat)
    (msgs : List Message) (recv : Int) (e : Wslay) :
    Owned A A (p.server.step dm (.read c msgs recv e)).net ∧
      Outcome bioRead A p (.read c msgs recv e) (p.server.step dm (.read c msgs recv e)) := by
  dsimp only [Server.step]
  split
  · rename_i ha
    have hc := (Bool.and_eq_true _ _ |>.mp ha).1
    have hown := owned_read dm h.traced.good h.owned hc e msgs recv
    exact ⟨hown, .caused (h.owned.alive c hc) hown.messages⟩
  · exact ⟨h.owned, .idle (.refl _)⟩

theorem drained_held (dm : DataModel) (bioRead : CStr → List Char) (h : Held A p) (c : Nat) :
    Owned A A (p.server.step dm (.drained c)).net ∧
      Outcome bioRead A p (.drained c) (p.server.step dm (.drained c)) := by
  dsimp only [Server.step]
  split
  · rename_i ha
    have hc := (Bool.and_eq_true _ _ |>.mp ha).1
    exact ⟨h.owned.ends (ends_close c _) (tells_close c _),
      .ended c (h.owned.alive c hc) (by simp [endsConnection]) rfl (ends_close c _)⟩
  · exact ⟨h.owned, .idle (.refl _)⟩

theorem event_held (dm : DataModel) (bioRead : CStr → List Char) (h : Held A p) (c : Nat)
    (eof error : Bool) (e : Wslay) :
    Owned A A (p.server.step dm (.event c eof error e)).net ∧
      Outcome bioRead A p (.event c eof error e) (p.server.step dm (.event c eof error e)) := by
  dsimp only [Server.step]
  split
  · rename_i hc
    exact ⟨h.owned.ends (ends_event e c eof error _) (tells_event e c eof error _),
      .ended c (h.owned.alive c hc) (by simp [endsConnection]) rfl (ends_event e c eof error _)⟩
  · exact ⟨h.owned, .idle (.refl _)⟩

theorem Held.mono (h : Held A p) (B : List Nat) : Held (A ++ B) p :=
  ⟨h.traced, h.owned.mono (List.subset_append_left ..) (List.subset_append_left ..), h.guarded⟩

/-- The invariant where only the server's state changes. -/
theorem Held.server (h : Held A p) (q : Program) (hs : q.servers = p.servers)
    (ht : Traced q.server) {B : List Nat} (ho : Owned B B q.server.net) : Held B q :=
  ⟨ht, ho, fun v hv => h.guarded v (hs ▸ hv)⟩

/-- Every step keeps the invariant. -/
theorem step_held (dm : DataModel) (bioRead : CStr → List Char) (h : Held A p)
    (ha : authenticates i = true) :
    Held (A ++ verifiedNumbers bioRead dm p [i]) (p.step dm bioRead i) ∧
      Outcome bioRead A p i (p.step dm bioRead i).server := by
  unfold Program.step
  by_cases hrun : p.running = true
  · rw [if_pos hrun]
    have hsub : ∀ {n}, Owned A A n → Owned (A ++ []) (A ++ []) n := fun ho =>
      ho.mono (List.subset_append_left ..) (List.subset_append_left ..)
    have htraced : ∀ j : Input, Traced (p.server.step dm j) := fun j => traced_step j h.traced
    cases i with
    | addServer ok auth realm =>
      simp only [authenticates, Bool.and_eq_true, Option.isSome_iff_exists] at ha
      obtain ⟨⟨a, rfl⟩, realm, rfl⟩ := ha
      have hs : (p.addServer ok (some a) (some realm)).server = p.server := by
        unfold Program.addServer
        split <;> rfl
      dsimp only [Program.next]
      refine ⟨⟨?_, ?_, guarded_addServer h.guarded ok a realm⟩, .idle ?_⟩
      · rw [hs]
        exact h.traced
      · rw [hs]
        exact hsub h.owned
      · rw [hs]
        exact .refl _
    | write name file =>
      exact ⟨h.server (p.next dm bioRead (.write name file)) rfl h.traced (hsub h.owned),
        .idle (.refl _)⟩
    | ask r =>
      obtain ⟨hasks, hs⟩ := ask_cases dm bioRead h.guarded r
      obtain ⟨ht, ho, hout⟩ := asks_held hrun h hasks
      exact ⟨h.server _ hs ht ho, hout⟩
    | read c msgs recv e =>
      obtain ⟨ho, hout⟩ := read_held dm bioRead h c msgs recv e
      exact ⟨h.server (p.next dm bioRead (.read c msgs recv e)) rfl (htraced (.read c msgs recv e))
        (hsub ho), hout⟩
    | drained c =>
      obtain ⟨ho, hout⟩ := drained_held dm bioRead h c
      exact ⟨h.server (p.next dm bioRead (.drained c)) rfl (htraced (.drained c))
        (hsub ho), hout⟩
    | event c eof error e =>
      obtain ⟨ho, hout⟩ := event_held dm bioRead h c eof error e
      exact ⟨h.server (p.next dm bioRead (.event c eof error e)) rfl (htraced (.event c eof error e))
        (hsub ho), hout⟩
  · rw [if_neg hrun]
    exact ⟨h.mono _, .idle (.refl _)⟩

/-! ## Runs -/

/-- The invariant holds after every run whose servers have methods. -/
theorem run_held (dm : DataModel) (bioRead : CStr → List Char) {is : List ProgramInput}
    (hi : ∀ i ∈ is, authenticates i = true) (h : Held A p) :
    Held (A ++ verifiedNumbers bioRead dm p is) (run (Program.step dm bioRead) p is) := by
  induction is generalizing A p with
  | nil => exact h.mono []
  | cons i is ih =>
    have hstep := (step_held dm bioRead h (hi i List.mem_cons_self)).1
    have hrest := ih (fun j hj => hi j (List.mem_cons_of_mem _ hj)) hstep
    have hnumbers : verifiedNumbers bioRead dm p (i :: is) =
        verifiedNumbers bioRead dm p [i] ++ verifiedNumbers bioRead dm (p.step dm bioRead i) is := by
      simp [verifiedNumbers]
    rwa [List.append_assoc, ← hnumbers] at hrest

/-- An item that was carried was put. -/
theorem carried_put (h : Traced s) {ev : Event} (hev : ev ∈ s.net.log) {id : Nat}
    (hid : carriedId ev = some id) : ∃ i, Event.put i ∈ s.net.log ∧ i.id = id := by
  obtain ⟨lost, hacc⟩ := h.items.accounted
  have hcarried : id ∈ said carriedId s.net := by
    rw [said, ← filterMap_trace notable_carriedId]
    exact List.mem_filterMap.mpr ⟨ev, hev, hid⟩
  have hput := hacc.mem_made.2 id hcarried
  rw [said, ← filterMap_trace notable_putId] at hput
  obtain ⟨e, he, hput⟩ := List.mem_filterMap.mp hput
  unfold putId at hput
  split at hput
  · exact ⟨_, he, Option.some.inj hput⟩
  · cases hput

/-- What is added to the log. -/
theorem added_grows {q : Event → Prop} (h : Grows q p.server.net (p.step dm bioRead i).server.net) :
    ∀ ev ∈ programAdded bioRead dm p i, q ev := by
  obtain ⟨es, hl, hes⟩ := h
  rw [programAdded, hl, List.drop_left]
  exact hes

/-- What a step does has a verified cause. -/
theorem authorised_step (dm : DataModel) (bioRead : CStr → List Char) (h : Held A p)
    (ha : authenticates i = true) : Authorised bioRead dm A p i := by
  obtain ⟨hheld, hout⟩ := step_held dm bioRead h ha
  have hitems : ∀ ev ∈ programAdded bioRead dm p i, ∀ id, carriedId ev = some id →
      id ∈ A ++ verifiedNumbers bioRead dm p [i] := by
    intro ev hev id hid
    obtain ⟨item, hput, rfl⟩ := carried_put hheld.traced (List.mem_of_mem_drop hev) hid
    exact hheld.owned.log _ hput
  cases hout with
  | idle hi =>
    have hadded := added_grows hi.log
    have hsame : Unchanged p.server (p.step dm bioRead i).server := ⟨hi.queues, hi.wants⟩
    refine ⟨.inl (.inl hsame), fun rid e code b hm hb => ?_, fun c b sent hm => ?_, hitems,
      fun _ _ _ => ⟨hsame, hi.conn⟩⟩
    · cases hadded _ hm with
      | reply _ _ hs hnone =>
        rw [hnone] at hb
        cases hb
    · cases hadded _ hm
  | caused hc hm =>
    refine ⟨.inl (.inr hc), fun _ _ _ _ _ _ => hc, fun c b sent hev => ⟨?_, hc⟩, hitems, ?_⟩
    · exact hm c b sent (List.mem_of_mem_drop hev)
    · rintro r rfl hno
      rw [show verifies bioRead p r = true from hc] at hno
      cases hno
  | ended c hcA hi hq he =>
    have hadded := added_grows he.log
    refine ⟨.inr ⟨c, hcA, hi, hq, he.wants⟩, fun rid e code b hm _ => ?_, fun c b sent hm => ?_,
      hitems, ?_⟩
    · cases hadded _ hm
    · cases hadded _ hm
    · rintro r rfl -
      cases hi

/-- In every run in which every server was added with a method and a realm,
what happens to queues, items and wants, and what is sent of them, has a
verified request for its cause, but for the end of a connection of one, which
cancels wants of the connection. -/
theorem authorised_of_authenticates (dm : DataModel) (bioRead : CStr → List Char)
    (auths : Nat → Auth) (files : CStr → Option File) (is : List ProgramInput)
    (h : ∀ i ∈ is, authenticates i = true) (js : List ProgramInput) (i : ProgramInput)
    (hjs : js ++ [i] <+: is) :
    Authorised bioRead dm (verifiedNumbers bioRead dm (.startup auths files) js)
      (run (Program.step dm bioRead) (.startup auths files) js) i := by
  have hmem : ∀ j ∈ js ++ [i], authenticates j = true := fun j hj => h j (hjs.subset hj)
  have hheld := run_held dm bioRead (fun j hj => hmem j (List.mem_append_left _ hj))
    (held_startup auths files)
  exact authorised_step dm bioRead hheld (hmem i (by simp))

/-! ## Clients that are waited on -/

/-- A method that has read no file yet. -/
def unread (_ : Nat) : Auth := ⟨.plaintext, some pw, 0, []⟩

/-- No files. -/
def noFiles (_ : CStr) : Option File := none

/-- The header of bob's password. -/
def bobHeader : CStr × CStr := (authorizationHeader, basicScheme ++ bobText)

/-- A request during which nothing fails. -/
def asked (path : ServerPath) (headers : List (CStr × CStr)) (request : Request) : Asked :=
  ⟨0, some path, headers, (1, 1), verifyBob, true, fun _ => true, request⟩

/-- The headers of an upgrade. -/
def upgradeHeaders : List (CStr × CStr) :=
  [(upgradeHeader, websocketToken), (connectionHeader, upgradeHeader), (versionHeader, ['1', '3']),
    (keyHeader, ['k'])]

/-- Bob makes a queue, and waits on it. -/
def bobWaits : List ProgramInput :=
  [.write pw (twoUsers 1), .addServer (fun _ => true) (some 0) (some pw),
    .ask (asked .queues [bobHeader] (request .queues .post [])),
    .ask (asked .takeWs (bobHeader :: upgradeHeaders) (request .queues .get [])),
    .read 1 [wantMessage] 0 wslayOk]

/-- Bob puts an item into the queue. -/
def bobPuts : ProgramInput :=
  .ask (asked .put [bobHeader] (request .put .post [(nameKey, madeId), (valueKey, ['v'])]))

theorem authorised_bob :
    verifiedNumbers decodeBob .lp64 (.startup unread noFiles) bobWaits = [0, 1] ∧
      Authorised decodeBob .lp64
        (verifiedNumbers decodeBob .lp64 (.startup unread noFiles) bobWaits)
        (run (Program.step .lp64 decodeBob) (.startup unread noFiles) bobWaits) bobPuts :=
  ⟨by decide +kernel, authorised_of_authenticates .lp64 decodeBob unread noFiles
    (bobWaits ++ [bobPuts]) (by decide) bobWaits bobPuts (List.prefix_refl _)⟩

/-- The end of bob's connection changes the wants, and a server with a method
but no realm lets everyone make a queue. -/
theorem changes_not_caused :
    ((∀ i ∈ bobWaits, authenticates i = true) ∧
      ¬ ChangesCaused decodeBob .lp64
        (verifiedNumbers decodeBob .lp64 (.startup unread noFiles) bobWaits)
        (run (Program.step .lp64 decodeBob) (.startup unread noFiles) bobWaits)
        (.event 1 true false wslayOk)) ∧
      ¬ ChangesCaused decodeBob .lp64 []
        (run (Program.step .lp64 decodeBob) (.startup unread noFiles)
          [.addServer (fun _ => true) (some 0) none])
        (.ask (asked .queues [] (request .queues .post []))) := by
  refine ⟨⟨by decide, ?_⟩, ?_⟩
  · rintro (h | h)
    · exact absurd h.wants (by decide +kernel)
    · exact h
  · rintro (h | h)
    · exact absurd (congrArg List.length h.queues) (by decide +kernel)
    · unfold Caused at h
      exact absurd h (by decide +kernel)

end DQ.Proof.Auth
