import Disqueue.Proof.Network.Connected
import Disqueue.Proof.Network.Moves

/-!
# Clients and the service

The connections of clients are different, and what each has asked for is backed
(`Carries`). A call of the service keeps that, and an item that was stored or put
is then stored, taken, on its way to one client, or lost (`call_carries`).
-/

namespace DQ.Proof.Network

open DQ.Model DQ.Spec DQ.Proof.Service

variable {η : Type} {names : Writing} {queueOf : η → String} {keyOf : η → Option String}
  {W W' : List NamedWaiter} {S S' : List Item} {lost : List NamedWaiter}
  {peers : List (Peer η)} {p : Peer η} {t : Service} {out : List Sent}

section
variable (names : Writing) (queueOf : η → String) (keyOf : η → Option String)

/-- A client whose requests are backed, and whose handlers are known. -/
structure PeerBacked (W : List NamedWaiter) (p : Peer η) : Prop where
  sound : Sound p.client
  backed : Backed W p.conn (takerOf names p.client) p.up p.down
  known : Known queueOf keyOf (takerOf names p.client)

structure Carries (W : List NamedWaiter) (peers : List (Peer η)) : Prop where
  conns : (peers.map (·.conn)).Nodup
  peers : ∀ p ∈ peers, PeerBacked names queueOf keyOf W p

/-- The items of all clients for which no handler was called yet. -/
def heldAll (peers : List (Peer η)) : List Item :=
  peers.flatMap fun p => held (takerOf names p.client) p.down

end

theorem heldAll_append (a b : List (Peer η)) :
    heldAll names (a ++ b) = heldAll names a ++ heldAll names b := List.flatMap_append

theorem heldAll_cons (p : Peer η) (l : List (Peer η)) :
    heldAll names (p :: l) = held (takerOf names p.client) p.down ++ heldAll names l := rfl

/-! ## Messages to clients -/

theorem messagesTo_eq (c : Nat) (out : List Sent) :
    Network.messagesTo c out = toConn c (addressed out) := by
  rw [Network.messagesTo, toConn, addressed, List.filterMap_filterMap]
  refine List.filterMap_congr fun o _ => ?_
  cases o <;> rfl

theorem deliver_nil (peers : List (Peer η)) : Network.deliver [] peers = peers := by
  refine (List.map_congr_left fun p _ => ?_).trans (List.map_id peers)
  rw [Network.messagesTo, List.filterMap_nil, List.append_nil]
  rfl

theorem deliver_append (a b : List Sent) (peers : List (Peer η)) :
    Network.deliver (a ++ b) peers = Network.deliver b (Network.deliver a peers) := by
  rw [Network.deliver, Network.deliver, Network.deliver, List.map_map]
  refine List.map_congr_left fun p _ => ?_
  simp only [Network.messagesTo, Function.comp_apply, List.filterMap_append, List.append_assoc]

theorem deliver_conns (out : List Sent) (peers : List (Peer η)) :
    (Network.deliver out peers).map (·.conn) = peers.map (·.conn) := by
  rw [Network.deliver, List.map_map]
  rfl

/-- Items are given to one client. -/
theorem heldAll_gives {n : CStr} {w : Waiter} {x : Entry}
    (hc : Carries names queueOf keyOf W peers) (hw : W.Perm ((n, w) :: W'))
    (ho : addressed out = [(w.client, answer w x)]) :
    (heldAll names (Network.deliver out peers)).Subperm ((n, x) :: heldAll names peers) := by
  induction peers with
  | nil => exact List.nil_subperm
  | cons p l ih =>
    have hl : Carries names queueOf keyOf W l :=
      ⟨(List.nodup_cons.mp hc.conns).2, fun q hq => hc.peers q (List.mem_cons_of_mem _ hq)⟩
    have hp := (hc.peers p List.mem_cons_self).backed
    rw [Network.deliver, List.map_cons, heldAll_cons, heldAll_cons, messagesTo_eq, ho]
    by_cases hconn : w.client = p.conn
    · -- No other client has the connection.
      have hothers : l.map (fun p => { p with down := p.down ++ Network.messagesTo p.conn out }) =
          l := by
        refine (List.map_congr_left fun q hq => ?_).trans (List.map_id l)
        have hne : w.client ≠ q.conn := by
          intro hq'
          exact (List.nodup_cons.mp hc.conns).1 (List.mem_map.mpr ⟨q, hq, hq'.symm.trans hconn⟩)
        rw [messagesTo_eq, ho]
        simp [toConn, hne]
      rw [hothers, ← List.cons_append]
      exact (List.subperm_append_right _).mpr (held_gives hp hw hconn)
    · rw [held_other _ _ hconn]
      exact ((List.subperm_append_left _).mpr (ih hl)).trans List.perm_middle.subperm

/-- What the server does keeps requests backed, and items where they can be. -/
theorem Carries.effect (hc : Carries names queueOf keyOf W peers)
    (he : Effect W S W' S' lost (addressed out)) :
    Carries names queueOf keyOf W' (Network.deliver out peers) ∧
      (heldAll names (Network.deliver out peers) ++ S').Subperm (heldAll names peers ++ S) := by
  constructor
  · refine ⟨by rw [deliver_conns]; exact hc.conns, fun q hq => ?_⟩
    obtain ⟨p, hp, rfl⟩ := List.mem_map.mp hq
    obtain ⟨hsound, hbacked, hknown⟩ := hc.peers p hp
    refine ⟨hsound, ?_, hknown⟩
    rw [messagesTo_eq]
    exact hbacked.effect he
  · generalize ho : addressed out = msgs at he
    cases he with
    | quiet hs hw hm =>
      have hheld : heldAll names (Network.deliver out peers) = heldAll names peers := by
        rw [heldAll, Network.deliver, List.flatMap_map]
        refine List.flatMap_congr fun p _ => ?_
        rw [messagesTo_eq, ho]
        exact held_noise _ _ hm
      rw [hheld]
      exact (List.subperm_append_left _).mpr hs
    | gives hwants hs hw =>
      refine ((List.subperm_append_right _).mpr (heldAll_gives hc hw ho)).trans ?_
      exact (List.perm_middle.symm.subperm).trans ((List.subperm_append_left _).mpr hs)

/-! ## Calls -/

/-- Other waiters stay. -/
theorem Effect.frame {V : List NamedWaiter} {msgs : List (Nat × Json)}
    (he : Effect W S W' S' lost msgs) (F : List NamedWaiter) (hv : V.Perm (F ++ W)) :
    Effect V S (F ++ W') S' lost msgs := by
  cases he with
  | quiet hs hw hm =>
    exact .quiet hs (hv.trans ((hw.append_left F).trans (List.perm_append_comm_assoc ..))) hm
  | gives hwants hs hw =>
    exact .gives hwants hs (hv.trans ((hw.append_left F).trans List.perm_middle))

/-- Waiters that are left out ask for nothing. -/
theorem Carries.fewer (hc : Carries names queueOf keyOf W peers) (hw : W.Perm (lost ++ W')) :
    Carries names queueOf keyOf W' peers := by
  refine ⟨hc.conns, fun p hp => ?_⟩
  obtain ⟨hsound, hbacked, hknown⟩ := hc.peers p hp
  have hnone : ∀ m ∈ ([] : List (Nat × Json)), payloadTexts m.2 = none := fun _ hm => by cases hm
  have hflights := flights_quiet p.conn p.up p.down hw hnone
  rw [toConn, List.filterMap_nil, List.append_nil] at hflights
  exact ⟨hsound, hbacked.fewer (fun _ hm => hm) _ hflights, hknown⟩

/-- The waiters that messages are to be. -/
def allAskers (c : Nat) (ms : List Note) : List NamedWaiter := ms.flatMap (askers c)

/-- Messages are read one after the other. -/
theorem notes_carries (c : Nat) (ms : List Note) {t : Service} {peers : List (Peer η)}
    (hc : Carries names queueOf keyOf (allAskers c ms ++ waiting t.rooms) peers) :
    Carries names queueOf keyOf (waiting ((Service.noteStep c).run t ms).rooms)
        (Network.deliver ((Service.noteStep c).answers t ms).flatten peers) ∧
      (heldAll names (Network.deliver ((Service.noteStep c).answers t ms).flatten peers) ++
        stored ((Service.noteStep c).run t ms).rooms).Subperm
          (heldAll names peers ++ stored t.rooms) := by
  induction ms generalizing t peers with
  | nil =>
    rw [show ((Service.noteStep c).answers t []).flatten = [] from rfl, deliver_nil]
    exact ⟨hc, List.Subperm.refl _⟩
  | cons m ms ih =>
    obtain ⟨lost, he⟩ := note_effect c t m
    have hperm : (allAskers c (m :: ms) ++ waiting t.rooms).Perm
        (allAskers c ms ++ (askers c m ++ waiting t.rooms)) := by
      rw [allAskers, List.flatMap_cons, List.append_assoc]
      exact List.perm_append_comm_assoc ..
    obtain ⟨hc', hs'⟩ := hc.effect (he.frame (allAskers c ms) hperm)
    obtain ⟨hrun, hsub⟩ := ih (t := (Service.noteStep c t m).1) hc'
    rw [Machine.run_cons, Machine.answers, List.flatten_cons, deliver_append]
    exact ⟨hrun, hsub.trans hs'⟩

/-- The waiters that the messages in a call are to be. -/
def callAskers : ServiceCall → List NamedWaiter
  | .notes c ms _ => allAskers c ms
  | _ => []

/-- A call keeps requests backed, and puts and takes items. -/
theorem call_carries (call : ServiceCall)
    (hc : Carries names queueOf keyOf (callAskers call ++ waiting t.rooms) peers) :
    Carries names queueOf keyOf (waiting (Service.step t call).1.rooms)
        (Network.deliver (Service.step t call).2 peers) ∧
      (heldAll names (Network.deliver (Service.step t call).2 peers) ++
        (stored (Service.step t call).1.rooms ++ takenBy call (Service.step t call).2)).Subperm
          (heldAll names peers ++ (stored t.rooms ++ putBy call (Service.step t call).2)) := by
  -- A call that changes no queue and sends nothing.
  have hquiet : Carries names queueOf keyOf (waiting t.rooms) (Network.deliver [] peers) ∧
      (heldAll names (Network.deliver [] peers) ++ (stored t.rooms ++ [])).Subperm
        (heldAll names peers ++ (stored t.rooms ++ [])) := by
    rw [deliver_nil]
    exact ⟨hc.fewer (List.Perm.refl _), List.Subperm.refl _⟩
  cases call with
  | ask a =>
    obtain ⟨lost, he⟩ := ask_effect t a
    exact hc.effect he
  | opened => exact hquiet
  | notes c ms fate =>
    have htaken (sent : List Sent) : takenBy (.notes c ms fate) sent = [] := rfl
    have hput (sent : List Sent) : putBy (.notes c ms fate) sent = [] := rfl
    rw [htaken, hput, List.append_nil, List.append_nil]
    rw [List.append_nil] at hquiet
    dsimp only [Service.step]
    split
    · rw [endRead_rooms]
      exact notes_carries c ms hc
    · exact hquiet
  | drained c =>
    dsimp only [Service.step]
    split
    · split <;> exact hquiet
    · exact hquiet
  | ended c => exact hquiet

end DQ.Proof.Network
