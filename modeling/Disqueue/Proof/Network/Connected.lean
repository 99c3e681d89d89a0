import Disqueue.Proof.Network.Client
import Disqueue.Proof.Python.Subscribed
import Disqueue.Proof.TypeScript.Subscribed

/-!
# A client that connects

An object that connects sends a message for each handler that was registered, each
under an identifier of its own, and what is recorded for an identifier is what was
asked for (`connected`).
-/

namespace DQ.Proof.Network

open DQ.Model DQ.Spec

variable {η : Type} (names : Writing)

/-- What a client asked for when it connected. -/
structure Connected (handlers : List (Registration η)) (lib : Library) (x : Client η)
    (asked : List (String × Subscription η)) : Prop where
  sound : Sound x
  wants : (x.heard names).filterMap Network.wantText = asked.map fun p => p.2.ask p.1
  nodup : (asked.map (·.1)).Nodup
  plain : ∀ p ∈ asked, Char.ofNat 0 ∉ p.1.toList
  record : ∀ id w, (takerOf names x).record id = some w ↔ (id, w) ∈ asked
  pending : (takerOf names x).pending = []
  running : (takerOf names x).running = []
  subscriptions : (asked.map (·.2)).Perm (subscriptions handlers lib)

/-- Requests, as they are asked for under the texts of their identifiers. -/
def askedFor {ι μ τ : Type} (n : Names ι) (ident : μ → ι) (sub : τ → Subscription η)
    (l : List (μ × τ)) : List (String × Subscription η) :=
  l.map fun q => (n.text (ident q.1), sub q.2)

section
variable {ι μ τ : Type} {n : Names ι} {ident : μ → ι} {sub : τ → Subscription η}
  {l : List (μ × τ)}

theorem askedFor_nodup (h : ((l.map (·.1)).map ident).Nodup) :
    ((askedFor n ident sub l).map (·.1)).Nodup := by
  have htexts : (askedFor n ident sub l).map (·.1) = ((l.map (·.1)).map ident).map n.text := by
    rw [askedFor, List.map_map, List.map_map, List.map_map]
    rfl
  rw [htexts]
  refine h.map fun i j hij => ?_
  have hread := n.read_text i
  rw [hij, n.read_text j] at hread
  exact (Option.some.inj hread).symm

theorem askedFor_plain : ∀ p ∈ askedFor n ident sub l, Char.ofNat 0 ∉ p.1.toList := by
  intro p hp
  obtain ⟨q, -, rfl⟩ := List.mem_map.mp hp
  exact n.plain _

theorem askedFor_record {record : ι → Option τ}
    (h : ∀ i w, record i = some w ↔ ∃ p ∈ l, ident p.1 = i ∧ p.2 = w) (id : String)
    (w : Subscription η) :
    recordOf n (fun i => (record i).map sub) id = some w ↔ (id, w) ∈ askedFor n ident sub l := by
  constructor
  · intro hrec
    obtain ⟨i, hi, hmap⟩ := Option.bind_eq_some_iff.mp hrec
    obtain ⟨v, hv, rfl⟩ := Option.map_eq_some_iff.mp hmap
    obtain ⟨p, hp, rfl, rfl⟩ := (h i v).mp hv
    exact List.mem_map.mpr ⟨p, hp, by rw [n.text_read id _ hi]⟩
  · intro hmem
    obtain ⟨p, hp, heq⟩ := List.mem_map.mp hmem
    cases heq
    rw [recordOf_text, (h _ p.2).mpr ⟨p, hp, rfl, rfl⟩]
    rfl

end

/-! ## Python -/

section
variable (handlers : List (Registration η))

/-- The registrations as the object stores them. -/
def pythonItems : List (Python.RescheduleItem η) :=
  handlers.map fun r => ⟨r.queue, r.key, r.handler⟩

theorem connected_python : Client.connected handlers .python =
    .python (Python.opened (fun _ => ⟨"", none⟩) () (pythonItems handlers)) := by
  rw [Client.connected, Python.opened, pythonItems, List.map_map]
  rfl

/-- The messages that were heard are those that the object sent. -/
theorem python_wants (s : Python.State Unit η × Nat) :
    ((Client.python s).heard names).filterMap Network.wantText =
      (Python.desk () s.1).sent.map fun m =>
        ⟨m.queue, names.python.text m.identifier, m.key⟩ := by
  rw [Client.heard, List.filterMap_filterMap, Python.desk, List.map_filterMap]
  apply List.filterMap_congr
  intro x _
  cases x with
  | sent m => rfl
  | ran f key value => rfl
  | returned client => rfl

theorem python_connected :
    ∃ asked, Connected names handlers .python (Client.connected handlers .python) asked := by
  obtain ⟨number, l, hperm, hdesk, hnumber⟩ :=
    Proof.Python.desk_opened (fun _ => ⟨"", none⟩) () (pythonItems handlers)
  have hfresh : Proof.Python.Fresh ()
      (Python.opened (fun _ => ⟨"", none⟩) () (pythonItems handlers)) :=
    Proof.Python.fresh_opened (pythonItems handlers)
  rw [connected_python]
  generalize Python.opened (fun _ => ⟨"", none⟩) () (pythonItems handlers) = s at *
  have hrecord : s.1.waitingIdentifiers = (Python.desk () s.1).record := rfl
  have htasks : s.1.tasks () = [] := by
    have hworking : (s.1.tasks ()).map (·.want) = (Python.desk () s.1).working := rfl
    rw [hdesk, Desk.working_sendAll] at hworking
    exact List.map_eq_nil_iff.mp hworking
  have hsent : (Python.desk () s.1).sent = (Proof.Python.requests () number l).map (·.1) := by
    rw [hdesk, Desk.sent_sendAll]
    rfl
  have hnodup := Proof.Python.requests_nodup (o := ()) number l
  have hrec : ∀ i w, s.1.waitingIdentifiers i = some w ↔
      ∃ p ∈ Proof.Python.requests () number l, p.1.identifier = i ∧ p.2 = w := by
    intro i w
    rw [hrecord, hdesk]
    exact Desk.record_sendAll hnodup
  refine ⟨askedFor names.python Python.WantMessage.identifier pythonSubscription
    (Proof.Python.requests () number l), ⟨fun i hi => ?_, hfresh.items⟩, ?_,
    askedFor_nodup hnodup, askedFor_plain, askedFor_record hrec, ?_, rfl, ?_⟩
  · obtain ⟨w, hw⟩ := Option.isSome_iff_exists.mp hi
    obtain ⟨p, hp, rfl, -⟩ := (hrec i w).mp hw
    exact hfresh.calls p.1 (hsent ▸ List.mem_map_of_mem hp)
  · rw [python_wants, hsent, askedFor, List.map_map, List.map_map]
    refine List.map_congr_left fun q hq => ?_
    obtain ⟨p, -, rfl⟩ := List.mem_map.mp hq
    rfl
  · simp [takerOf, htasks]
  · have hsubs : (askedFor names.python Python.WantMessage.identifier pythonSubscription
        (Proof.Python.requests () number l)).map (·.2) =
          ((Proof.Python.requests () number l).map (·.2)).map pythonSubscription := by
      rw [askedFor, List.map_map, List.map_map]
      rfl
    have hitems :
        (pythonItems handlers).map pythonSubscription = subscriptions handlers .python := by
      rw [pythonItems, List.map_map]
      rfl
    rw [hsubs, Proof.Python.requests_reschedule, ← hitems]
    exact hperm.map pythonSubscription

end

/-! ## TypeScript -/

section
variable (handlers : List (Registration η))

def typeScriptItems : List (TypeScript.QueueRescheduleItem η) :=
  handlers.map fun r => (r.queue, r.key, r.handler)

theorem connected_typeScript : Client.connected handlers .typeScript =
    .typeScript (TypeScript.opened (typeScriptItems handlers)) := by
  rw [Client.connected, TypeScript.opened, typeScriptItems, List.map_map]
  rfl

theorem typeScript_wants (u : TypeScript.State η) :
    ((Client.typeScript u).heard names).filterMap Network.wantText =
      (TypeScript.desk u).sent.map fun m =>
        ⟨m.queue, names.typeScript.text m.identifier, m.key⟩ := by
  rw [Client.heard, List.filterMap_map, TypeScript.desk, List.map_filterMap]
  apply List.filterMap_congr
  intro x _
  cases x with
  | sent m => rfl
  | ran f key value => rfl

/-- The handlers that are registered, as they are asked for. -/
theorem typeScript_named :
    ((typeScriptItems handlers).filter Proof.TypeScript.named).map typeScriptSubscription =
      subscriptions handlers .typeScript := by
  rw [typeScriptItems, List.filter_map, List.map_map, subscriptions]
  rfl

theorem typeScript_connected :
    ∃ asked,
      Connected names handlers .typeScript (Client.connected handlers .typeScript) asked := by
  obtain ⟨l, hperm, hdesk, hnext⟩ := Proof.TypeScript.desk_opened (typeScriptItems handlers)
  have hfresh := Proof.TypeScript.fresh_opened (typeScriptItems handlers)
  rw [connected_typeScript]
  generalize TypeScript.opened (typeScriptItems handlers) = u at *
  have hrecord : u.waitingIdentifiers = (TypeScript.desk u).record := rfl
  have hrunning : u.running = none := by
    have hworking : u.running.toList = (TypeScript.desk u).working := rfl
    rw [hdesk, Desk.working_sendAll] at hworking
    exact Option.toList_eq_nil_iff.mp hworking
  have hsent : (TypeScript.desk u).sent = (Proof.TypeScript.requests 0 l).map (·.1) := by
    rw [hdesk, Desk.sent_sendAll]
    rfl
  have hnodup := Proof.TypeScript.requests_nodup 0 l
  have hrec : ∀ i w, u.waitingIdentifiers i = some w ↔
      ∃ p ∈ Proof.TypeScript.requests 0 l, p.1.identifier = i ∧ p.2 = w := by
    intro i w
    rw [hrecord, hdesk]
    exact Desk.record_sendAll hnodup
  refine ⟨askedFor names.typeScript TypeScript.WantMessage.identifier typeScriptSubscription
    (Proof.TypeScript.requests 0 l), fun i hi => ?_, ?_, askedFor_nodup hnodup, askedFor_plain,
    askedFor_record hrec, rfl, ?_, ?_⟩
  · by_contra hne
    obtain ⟨w, hw⟩ := Option.ne_none_iff_exists'.mp hne
    obtain ⟨p, hp, rfl, -⟩ := (hrec i w).mp hw
    exact Nat.not_lt_of_le hi (hfresh p.1 (hsent ▸ List.mem_map_of_mem hp))
  · rw [typeScript_wants, hsent, askedFor, List.map_map, List.map_map]
    refine List.map_congr_left fun q hq => ?_
    obtain ⟨p, -, rfl⟩ := List.mem_map.mp hq
    rfl
  · simp [takerOf, hrunning]
  · have hsubs : (askedFor names.typeScript TypeScript.WantMessage.identifier
        typeScriptSubscription (Proof.TypeScript.requests 0 l)).map (·.2) =
          ((Proof.TypeScript.requests 0 l).map (·.2)).map typeScriptSubscription := by
      rw [askedFor, List.map_map, List.map_map]
      rfl
    rw [hsubs, Proof.TypeScript.requests_reschedule, ← typeScript_named]
    exact hperm.map typeScriptSubscription

end

theorem connected (handlers : List (Registration η)) (lib : Library) :
    ∃ asked, Connected names handlers lib (Client.connected handlers lib) asked := by
  cases lib with
  | python => exact python_connected names handlers
  | typeScript => exact typeScript_connected names handlers

end DQ.Proof.Network
