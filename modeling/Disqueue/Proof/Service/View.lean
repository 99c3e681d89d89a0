import Disqueue.Proof.Server.Replies
import Disqueue.Spec.Service

/-!
# The server as the service

`View s t`: the server `s` shows as the service `t`. A queue shows as the room
with its name, items and callbacks; a callback shows as the waiter that its want
names, and if the want was cancelled the link to the waiter is not active. So
what a connection does to the wants is seen on its link only (`Fades`), and
sending on a connection is sending on its link (`send_view`).
-/

namespace DQ.Proof.Service

open DQ.Model DQ.Spec DQ.Proof.Server

/-- The entry that an item is. -/
structure ShowsItem (i : QueueItem) (x : Entry) : Prop where
  key : i.key = x.key
  value : i.value = x.value

/-- The waiter that a callback of the queue at `addr` is. -/
structure ShowsWaiter (n : Net) (addr : Nat) (cb : QueueCallback Nat) (w : Waiter) : Prop where
  key : cb.key = w.key
  want : ∃ v ∈ n.wants, v.id = cb.arg ∧ v.queue = addr ∧ v.client = w.client ∧
    v.identifier = w.identifier ∧ (v.cancelled = true → (n.conn w.client).active = false)

/-- The room that a queue is. -/
structure ShowsRoom (n : Net) (m : ManagerQueue) (room : Room) : Prop where
  name : m.id = room.name
  line : Rendezvous.Alike ShowsItem (ShowsWaiter n m.q.addr) ⟨m.q.items, m.q.callbacks⟩ room.line

/-- The link that a connection is. -/
def linkOf (x : Connection) : Option Link := if x.alive then some ⟨x.active, x.closing⟩ else none

/-- The connections show as the links. -/
def Linked (n : Net) (t : Service) : Prop := ∀ c, t.link c = linkOf (n.conn c)

structure View (s : Server) (t : Service) : Prop where
  rooms : List.Forall₂ (ShowsRoom s.net) s.queues t.rooms
  link : Linked s.net t
  next : t.next = s.next

/-- The call took the server to one that shows as the result, and what it sent
is what the result sends. -/
structure Reaches (n : Net) (s' : Server) (p : Service × List Sent) : Prop where
  view : View s' p.1
  sent : Adds sentOf n p.2 s'.net

theorem view_startup : View .startup .empty :=
  ⟨.nil, fun c => by simp [linkOf, Server.startup, Service.empty, Net.empty], rfl⟩

/-! ## Connections and wants -/

variable {n n' n'' : Net} {t : Service} {c : Nat}

/-- The wants that meet `P` are still there, and cancelled only if their client
has no active connection; no client of one gets an active connection. -/
structure Fades (P : Want → Prop) (n n' : Net) : Prop where
  want : ∀ v ∈ n.wants, P v → ∃ v' ∈ n'.wants, Eased v v' ∧
    (v'.cancelled = true → v.cancelled = true ∨ (n'.conn v.client).active = false)
  active : ∀ v ∈ n.wants, P v → (n'.conn v.client).active = true →
    (n.conn v.client).active = true

/-- Every want. -/
abbrev All : Want → Prop := fun _ => True

theorem fades_same {P : Want → Prop} (hw : n'.wants = n.wants) (hc : n'.conn = n.conn) :
    Fades P n n' :=
  ⟨fun v hv _ => ⟨v, hw ▸ hv, .refl v, .inl⟩, fun _ _ _ h => hc ▸ h⟩

theorem Fades.refl (P : Want → Prop) (n : Net) : Fades P n n := fades_same rfl rfl

theorem Fades.trans {P Q : Want → Prop} (h : Fades P n n') (h' : Fades Q n' n'')
    (hPQ : ∀ v v', Eased v v' → P v → Q v') : Fades P n n'' where
  want v hv hp := by
    obtain ⟨v', hv', he, hc⟩ := h.want v hv hp
    obtain ⟨v'', hv'', he', hc'⟩ := h'.want v' hv' (hPQ v v' he hp)
    refine ⟨v'', hv'', he.trans he', fun hx => ?_⟩
    rcases hc' hx with hx | hx
    · refine (hc hx).imp id fun hn => ?_
      by_contra ha
      rw [← he.client, h'.active v' hv' (hPQ v v' he hp) (by simpa [he.client] using ha)] at hn
      cases hn
    · exact .inr (he.client ▸ hx)
  active v hv hp hx := by
    obtain ⟨v', hv', he, -⟩ := h.want v hv hp
    have hx' := h'.active v' hv' (hPQ v v' he hp) (he.client.symm ▸ hx)
    exact h.active v hv hp (he.client ▸ hx')

/-- A waiter is shown as long as its want is kept. -/
theorem ShowsWaiter.fades {P : Want → Prop} {addr : Nat} {cb : QueueCallback Nat} {w : Waiter}
    (h : ShowsWaiter n addr cb w) (hf : Fades P n n')
    (hp : ∀ v : Want, v.id = cb.arg → v.queue = addr → P v) : ShowsWaiter n' addr cb w where
  key := h.key
  want := by
    obtain ⟨v, hv, hid, hq, hcl, hident, hc⟩ := h.want
    obtain ⟨v', hv', he, hc'⟩ := hf.want v hv (hp v hid hq)
    have hsame : v'.queue = v.queue ∧ v'.identifier = v.identifier := by
      rcases he with rfl | rfl <;> exact ⟨rfl, rfl⟩
    refine ⟨v', hv', he.id.trans hid, hsame.1.trans hq, he.client.trans hcl, hsame.2.trans hident,
      fun hx => ?_⟩
    rcases hc' hx with hx | hx
    · by_contra ha
      have := hf.active v hv (hp v hid hq) (by simpa [hcl] using ha)
      rw [hcl, hc hx] at this
      cases this
    · exact hcl ▸ hx

theorem ShowsRoom.fades {P : Want → Prop} {m : ManagerQueue} {room : Room}
    (h : ShowsRoom n m room) (hf : Fades P n n')
    (hp : ∀ cb ∈ m.q.callbacks, ∀ v : Want, v.id = cb.arg → v.queue = m.q.addr → P v) :
    ShowsRoom n' m room := by
  refine ⟨h.name, h.line.items, ?_⟩
  have hcb := (List.forall₂_and_left m.q.callbacks room.line.waiters).mpr ⟨hp, h.line.waiters⟩
  exact hcb.imp fun cb w h => h.2.fades hf h.1

theorem rooms_fade {P : Want → Prop} {qs : List ManagerQueue} {rooms : List Room}
    (h : List.Forall₂ (ShowsRoom n) qs rooms) (hf : Fades P n n')
    (hp : ∀ m ∈ qs, ∀ cb ∈ m.q.callbacks, ∀ v : Want, v.id = cb.arg → v.queue = m.q.addr → P v) :
    List.Forall₂ (ShowsRoom n') qs rooms :=
  ((List.forall₂_and_left qs rooms).mpr ⟨hp, h⟩).imp fun _ _ h => h.2.fades hf h.1

theorem rooms_all {qs : List ManagerQueue} {rooms : List Room}
    (h : List.Forall₂ (ShowsRoom n) qs rooms) (hf : Fades All n n') :
    List.Forall₂ (ShowsRoom n') qs rooms :=
  rooms_fade h hf fun _ _ _ _ _ _ _ => trivial

theorem fades_close (c : Nat) (n : Net) : Fades All n (evwsClose_ c n) where
  want v hv _ := by
    refine ⟨if v.client = c then { v with cancelled := true } else v,
      List.mem_map_of_mem hv, ?_, fun h => ?_⟩
    · split
      · exact .inr rfl
      · exact .refl v
    · split at h
      · rename_i hc
        right
        rw [hc]
        exact congrArg Connection.active (Function.update_self c _ n.conn)
      · exact .inl h
  active v _ _ hv := by
    by_cases hvc : v.client = c
    · rw [hvc, show (evwsClose_ c n).conn c = { n.conn c with active := false } from
        Function.update_self ..] at hv
      cases hv
    · rwa [show (evwsClose_ c n).conn v.client = n.conn v.client from
        Function.update_of_ne hvc ..] at hv

theorem fades_setConn {x : Connection} (hx : x.active = true → (n.conn c).active = true) :
    Fades All n (n.setConn c x) where
  want v hv _ := ⟨v, hv, .refl v, .inl⟩
  active v _ _ hv := by
    by_cases hvc : v.client = c
    · rw [hvc, show (n.setConn c x).conn c = x from Function.update_self ..] at hv
      exact hvc ▸ hx hv
    · rwa [show (n.setConn c x).conn v.client = n.conn v.client from
        Function.update_of_ne hvc ..] at hv

theorem fades_write (e : Wslay) (c : Nat) (n : Net) : Fades All n (evwsConnectionWrite_ e c n) := by
  unfold evwsConnectionWrite_
  split
  · exact fades_close c n
  · split
    · exact fades_setConn id
    · exact .refl _ n

theorem fades_send (e : Wslay) (c : Nat) (b : Body) (n : Net) :
    Fades All n (evwsConnectionSend_ e c b n) := by
  unfold evwsConnectionSend_
  split
  · exact fades_same rfl rfl
  · split
    · exact .refl _ n
    · split
      · exact fades_close c n
      · have hemit : Fades All n (n.emit (.message c b !e.sendFails)) := fades_same rfl rfl
        exact hemit.trans (fades_write e c _) fun _ _ _ h => h

/-! ## Links -/

theorem Linked.same (h : Linked n t) (hc : n'.conn = n.conn) : Linked n' t := fun c => hc ▸ h c

theorem Linked.update (h : Linked n t) {x : Connection}
    (hc : n'.conn = Function.update n.conn c x) : Linked n' (t.setLink c (linkOf x)) := by
  intro d
  rw [hc]
  by_cases hd : d = c
  · subst hd
    simp [Service.setLink]
  · simp [Service.setLink, hd, h d]

/-- A connection that is closed, and its link. -/
theorem linked_close (h : Linked n t) {l : Link} (hl : t.link c = some l) :
    Linked (evwsClose_ c n) (t.setLink c (some { l with active := false })) := by
  have hx : linkOf (n.conn c) = some l := (h c).symm.trans hl
  have hu : Linked (evwsClose_ c n) (t.setLink c (linkOf { n.conn c with active := false })) :=
    h.update rfl
  unfold linkOf at hx hu
  split at hx
  · rename_i ha
    cases hx
    simpa [ha] using hu
  · cases hx

theorem linked_closing (h : Linked n t) {l : Link} (hl : t.link c = some l) :
    Linked (n.setConn c { n.conn c with closing := true })
      (t.setLink c (some { l with closing := true })) := by
  have hx : linkOf (n.conn c) = some l := (h c).symm.trans hl
  have hu : Linked (n.setConn c { n.conn c with closing := true })
      (t.setLink c (linkOf { n.conn c with closing := true })) := h.update rfl
  unfold linkOf at hx hu
  split at hx
  · rename_i ha
    cases hx
    simpa [ha] using hu
  · cases hx

/-- Sending on a connection is sending on its link. -/
theorem send_view (h : Linked n t) (e : Wslay) (c : Nat) (b : Body) :
    Linked (evwsConnectionSend_ e c b n) (t.send c (sendFate e) b.json).1 ∧
      Adds sentOf n (t.send c (sendFate e) b.json).2 (evwsConnectionSend_ e c b n) := by
  unfold evwsConnectionSend_ Service.send
  cases hl : t.link c with
  | none =>
    have ha : (n.conn c).alive = false := by
      have := (h c).symm.trans hl
      unfold linkOf at this
      split at this <;> simp_all
    rw [if_pos (by simp [ha])]
    exact ⟨h.same rfl, adds_quiet rfl n⟩
  | some l =>
    obtain ⟨ha, rfl⟩ : (n.conn c).alive = true ∧ l = ⟨(n.conn c).active, (n.conn c).closing⟩ := by
      have := (h c).symm.trans hl
      unfold linkOf at this
      split at this <;> simp_all
    rw [if_neg (by simp [ha])]
    cases hactive : (n.conn c).active with
    | false =>
      rw [if_pos (by simp)]
      exact ⟨h, .refl n⟩
    | true =>
      rw [hactive] at hl
      rw [if_neg (by simp)]
      simp only [sendFate, evwsConnectionWrite_, if_true]
      by_cases hq : e.queueMsg < 0
      · simp only [hq, if_true, decide_true, Bool.true_or]
        exact ⟨linked_close h hl, adds_quiet rfl _⟩
      · simp only [hq, if_false, decide_false, Bool.false_or]
        have hm : Linked (n.emit (.message c b !e.sendFails)) t := h.same rfl
        cases hs : e.sendFails with
        | true =>
          exact ⟨linked_close (hs ▸ hm) hl, [.message c b false, .closed c], by
            simp [evwsClose_, connectionWsCallbackClose, Net.emit, Net.setConn], rfl⟩
        | false =>
          have hadds : Adds sentOf n [.message c b.json] (n.emit (.message c b !e.sendFails)) :=
            ⟨_, rfl, by rw [hs]; rfl⟩
          rw [hs] at hm hadds
          cases hcl : e.closeSent with
          | true => exact ⟨linked_closing hm hl, hadds⟩
          | false => exact ⟨hm, hadds⟩

@[simp] theorem send_rooms (c : Nat) (fate : LinkFate) (json : Json) (t : Service) :
    (t.send c fate json).1.rooms = t.rooms := by
  unfold Service.send
  repeat (first | rfl | split)

@[simp] theorem send_next (c : Nat) (fate : LinkFate) (json : Json) (t : Service) :
    (t.send c fate json).1.next = t.next := by
  unfold Service.send
  repeat (first | rfl | split)

end DQ.Proof.Service
