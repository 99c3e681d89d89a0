import Disqueue.Proof.Network.Once

/-!
# Answers to known requests

In every state of the network, each answer on its way to a client is to a request
that the client has recorded, with an item that the request is for, and no two are
to the same (`answers_known`). So a client that reads an answer finds its
identifier.
-/

namespace DQ.Proof.Network

open DQ.Model DQ.Spec DQ.Proof.Server DQ.Proof.Service DQ.Proof.Clients

variable {η : Type} {W : List NamedWaiter} {c : Nat} {t : Taker η} {up : List WantText}
  {down : List Json}

/-- The answers among the requests. -/
theorem answers_flights (down : List Json) : (down.filterMap answerFlight).map (·.1) =
    (down.filterMap payloadTexts).map (·.1) := by
  have hflights : down.filterMap answerFlight =
      (down.filterMap payloadTexts).map fun p => (p.1, .answered p.2) := by
    rw [List.map_filterMap]
    rfl
  rw [hflights, List.map_map]
  rfl

theorem Backed.answers (h : Backed W c t up down) :
    ((down.filterMap payloadTexts).map (·.1)).Nodup ∧
      ∀ p ∈ down.filterMap payloadTexts, ∃ w ∈ t.record p.1,
        entryWants (w.key.map received) (textsEntry p.2) = true := by
  constructor
  · have hnodup := h.nodup
    rw [flights, List.map_append, List.map_append, answers_flights] at hnodup
    exact hnodup.of_append_right.of_append_right
  · intro p hp
    obtain ⟨json, hmem, hjson⟩ := List.mem_filterMap.mp hp
    exact h.serves (p.1, .answered p.2) (mem_flights p.2 hmem hjson)

/-- An answer on its way to a client is to a request that it has recorded, whose
key the item has, and is the only one, whatever happened. -/
theorem answers_known (dm : DataModel) (names : Writing) (queueOf : η → String)
    (keyOf : η → Option String) (inputs : List (NetworkInput η))
    (h : ∀ a ∈ inputs, NetworkHolds queueOf keyOf a) :
    ∀ p ∈ ((Network.step (server dm) Server.next names).run ⟨.startup, []⟩ inputs).peers,
      ((p.down.filterMap payloadTexts).map (·.1)).Nodup ∧
        ∀ q ∈ p.down.filterMap payloadTexts, ∃ w ∈ (takerOf names p.client).record q.1,
          entryWants (w.key.map received) (textsEntry q.2) = true := by
  have hsame := (network_follows dm names queueOf keyOf).run
    (s := ⟨.startup, []⟩) (t := ⟨.empty, []⟩) ⟨⟨ready_startup, view_startup⟩, rfl⟩ h
  rw [List.map_id] at hsame
  have hinv : Inv names queueOf keyOf
      ((Network.step (serviceCalls dm) Service.next names).run ⟨.empty, []⟩ inputs) :=
    Machine.inv (I := Inv names queueOf keyOf) (fun _ _ h ha => (step_kept dm h ha).inv)
      (inv_empty names) h
  intro p hp
  rw [hsame.2] at hp
  exact (hinv.carries.peers p hp).backed.answers

/-- An answer is on its way to an object that asked. -/
def askedAndPut : List (NetworkInput Unit) := askThenPut.take 4

theorem answers_known_askedAndPut :
    ((Network.step (server .lp64) Server.next unary).run ⟨.startup, []⟩ askedAndPut).peers.map
        (fun p => p.down.filterMap payloadTexts) = [[("c", none, "v")]] ∧
    ∀ p ∈ ((Network.step (server .lp64) Server.next unary).run ⟨.startup, []⟩ askedAndPut).peers,
      ((p.down.filterMap payloadTexts).map (·.1)).Nodup ∧
        ∀ q ∈ p.down.filterMap payloadTexts, ∃ w ∈ (takerOf unary p.client).record q.1,
          entryWants (w.key.map received) (textsEntry q.2) = true := by
  exact ⟨by decide +kernel, answers_known .lp64 unary (fun _ => madeText) (fun _ => none)
    askedAndPut fun a ha => askThenPut_holds a (List.mem_of_mem_take ha)⟩

end DQ.Proof.Network
