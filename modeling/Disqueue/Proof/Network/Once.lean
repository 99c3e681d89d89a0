import Mathlib.Data.List.Perm.Subperm
import Disqueue.Proof.Network.Steps

/-!
# No item is handled twice

Over any run of the server and clients that wait, the items that handlers were
called with and the items that were taken were put, each as often as it was put
at least, and a handler is called with items of its queue and its key
(`handled_once`).
-/

namespace DQ.Proof.Network

open DQ.Model DQ.Spec DQ.Proof.Server DQ.Proof.Service DQ.Proof.Clients

variable {η : Type} {names : Writing} {queueOf : η → String} {keyOf : η → Option String}
  {net : Network Service η}

/-! ## Runs -/

/-- Every step keeps what is asked for, and items. -/
theorem step_kept (dm : DataModel) (h : Inv names queueOf keyOf net) {a : NetworkInput η}
    (ha : NetworkHolds queueOf keyOf a) :
    Kept names queueOf keyOf dm net a
      (Network.step (serviceCalls dm) Service.next names net a) := by
  cases a with
  | call i => exact call_kept h i
  | connect lib handlers => exact connect_kept h ha
  | read k envs recv e => exact read_kept h envs recv e
  | notify k => exact notify_kept h
  | handled k j returns => exact handled_kept h j returns

/-- The items that were handled or taken were left, or were put. -/
theorem run_kept (dm : DataModel) (h : Inv names queueOf keyOf net)
    {inputs : List (NetworkInput η)}
    {outs : List (List (NetworkOutput η))}
    (houts : (Network.step (serviceCalls dm) Service.next names).answers net inputs = outs)
    (ha : ∀ a ∈ inputs, NetworkHolds queueOf keyOf a) :
    (total (fun _ => itemsHandled queueOf) inputs outs ++
        total (itemsTaken dm) inputs outs).Subperm
      (total (itemsPut dm) inputs outs ++ itemsLeft names net) ∧
    ∀ out ∈ outs, ∀ o ∈ out, HandlesMeant keyOf o := by
  induction inputs generalizing net outs with
  | nil =>
    subst houts
    exact ⟨List.nil_subperm, List.forall_mem_nil _⟩
  | cons a inputs ih =>
    obtain ⟨hinv, hitems, hmeant⟩ := step_kept dm h (ha a List.mem_cons_self)
    obtain ⟨hrest, hall⟩ := ih hinv rfl fun b hb => ha b (List.mem_cons_of_mem _ hb)
    subst houts
    refine ⟨?_, List.forall_mem_cons.mpr ⟨hmeant, hall⟩⟩
    classical
    rw [List.subperm_iff_count] at hitems hrest ⊢
    intro x
    have hx := hitems x
    have hxs := hrest x
    simp only [total, Machine.answers, List.zip_cons_cons, List.flatMap_cons, List.count_append]
      at hx hxs ⊢
    omega

theorem inv_empty (names : Writing) : Inv names queueOf keyOf ⟨.empty, []⟩ :=
  ⟨⟨List.nodup_nil, List.forall_mem_nil _⟩, below_empty, List.forall_mem_nil _⟩

/-! ## The server -/

/-- The same clients, of the server and of what it shows as. -/
def SameClients (net : Network Server η) (net' : Network Service η) : Prop :=
  Refined net.server net'.server ∧ net.peers = net'.peers

/-- The server is called as the service is. -/
theorem serve_same (dm : DataModel) {s : Network Server η} {t : Network Service η}
    (h : SameClients s t) {i : Input} (hi : NothingFails i) :
    SameClients (Network.serve (server dm) i s).1 (Network.serve (serviceCalls dm) i t).1 ∧
      (Network.serve (server dm) i s).2 = (Network.serve (serviceCalls dm) i t).2 := by
  obtain ⟨hrefined, hsent⟩ := follows dm s.server t.server i h.1 hi
  refine ⟨⟨hrefined, ?_⟩, congrArg (List.map _) hsent⟩
  dsimp only [Network.serve]
  rw [hsent, h.2]
  rfl

theorem env_of_read {up : List WantText} {envs : List Sending} {m : Message}
    (hm : m ∈ Network.readMessages up envs) : m.env ∈ envs := by
  rw [Network.readMessages, ← List.map_uncurry_zip_eq_zipWith] at hm
  obtain ⟨⟨want, env⟩, hmem, rfl⟩ := List.mem_map.mp hm
  exact (List.of_mem_zip hmem).2

/-- The network of the server does what that of the service does. -/
theorem network_follows (dm : DataModel) (names : Writing) (queueOf : η → String)
    (keyOf : η → Option String) :
    Machine.Follows SameClients (NetworkHolds queueOf keyOf) id
      (Network.step (server dm) Server.next names)
      (Network.step (serviceCalls dm) Service.next names) := by
  rintro ⟨s, peers⟩ ⟨t, peers'⟩ a ⟨hrefined, hpeers⟩ ha
  dsimp only at hrefined hpeers
  subst hpeers
  have hsame : SameClients ⟨s, peers⟩ ⟨t, peers⟩ := ⟨hrefined, rfl⟩
  cases a with
  | call i =>
    dsimp only [Network.step, id]
    split
    · exact ⟨hsame, rfl⟩
    · exact serve_same dm hsame ha
  | connect lib handlers =>
    have hopened : NothingFails .opened := trivial
    obtain ⟨⟨hrefined', hpeers⟩, hout⟩ := serve_same dm hsame hopened
    dsimp only [Network.step, id]
    refine ⟨⟨hrefined', ?_⟩, hout⟩
    dsimp only
    rw [hpeers, hrefined.2.next]
  | read k envs recv e =>
    dsimp only [Network.step, id]
    cases hk : peers[k]? with
    | none => exact ⟨hsame, rfl⟩
    | some p =>
      refine serve_same dm (s := ⟨s, _⟩) (t := ⟨t, _⟩) ⟨hrefined, rfl⟩ fun m hm c => ?_
      exact ha m.env (env_of_read hm) c
  | notify k =>
    dsimp only [Network.step, id]
    cases hk : peers[k]? with
    | none => exact ⟨hsame, rfl⟩
    | some p =>
      dsimp only
      split <;> exact ⟨⟨hrefined, rfl⟩, rfl⟩
  | handled k j returns =>
    dsimp only [Network.step, id]
    cases hk : peers[k]? with
    | none => exact ⟨hsame, rfl⟩
    | some p => exact ⟨⟨hrefined, rfl⟩, rfl⟩

/-- Each item that was put is handled or taken at most once, and a handler is
called with items that it is for, whatever happens to the server, its clients and
what is on its way. -/
theorem handled_once (dm : DataModel) (names : Writing) (queueOf : η → String)
    (keyOf : η → Option String) (inputs : List (NetworkInput η))
    (h : ∀ a ∈ inputs, NetworkHolds queueOf keyOf a) :
    (total (fun _ => itemsHandled queueOf) inputs (answersOf dm names inputs) ++
        total (itemsTaken dm) inputs (answersOf dm names inputs)).Subperm
      (total (itemsPut dm) inputs (answersOf dm names inputs)) ∧
    ∀ out ∈ answersOf dm names inputs, ∀ o ∈ out, HandlesMeant keyOf o := by
  have hsame := (network_follows dm names queueOf keyOf).answers
    (s := ⟨.startup, []⟩) (t := ⟨.empty, []⟩) ⟨⟨ready_startup, view_startup⟩, rfl⟩ h
  rw [List.map_id] at hsame
  rw [answersOf, hsame]
  obtain ⟨hitems, hmeant⟩ := run_kept dm (inv_empty names) rfl h
  exact ⟨by rwa [show itemsLeft names ⟨.empty, ([] : List (Peer η))⟩ = [] from rfl,
    List.append_nil] at hitems, hmeant⟩

/-! ## One run -/

/-- Texts from which the identifiers are computed. -/
def namesOf {ι : Type} [DecidableEq ι] (text : ι → String) (parse : String → ι)
    (h : ∀ i, parse (text i) = i) (hplain : ∀ i, Char.ofNat 0 ∉ (text i).toList) : Names ι where
  text := text
  read s := if text (parse s) = s then some (parse s) else none
  read_text i := by rw [h, if_pos rfl]
  text_read s i hi := by
    split at hi
    · cases hi
      assumption
    · cases hi
  plain := hplain

/-- Identifiers in unary. -/
def unary : Writing where
  python := namesOf
    (fun i => String.ofList (List.replicate i.call 'c' ++ List.replicate i.index 'i'))
    (fun s => ⟨(), s.toList.count 'c', s.toList.count 'i'⟩)
    (fun i => by simp [List.count_replicate])
    (fun i => by simp)
  typeScript := namesOf (fun n => String.ofList (List.replicate n 'i')) (fun s => s.toList.length)
    (fun n => by simp) (fun n => by simp)

/-- An object asks for the items of a queue, and an item is put. -/
def askThenPut : List (NetworkInput Unit) :=
  [.call postQueues, .connect .python [⟨madeText, none, ()⟩], .read 0 [sendingOk] 0 wslayOk,
    .call putValue, .notify 0, .handled 0 0 true]

theorem askThenPut_holds :
    ∀ a ∈ askThenPut, NetworkHolds (fun _ => madeText) (fun _ => none) a := by
  intro a ha
  simp only [askThenPut, List.mem_cons, List.not_mem_nil, or_false] at ha
  rcases ha with rfl | rfl | rfl | rfl | rfl | rfl
  · exact ⟨fun _ => rfl, fun _ => rfl⟩
  · intro r hr
    rw [List.mem_singleton.mp hr]
    exact ⟨rfl, rfl⟩
  · intro env henv c
    rw [List.mem_singleton.mp henv]
    rfl
  · exact ⟨fun _ => rfl, fun _ => rfl⟩
  · trivial
  · trivial

theorem handled_once_askThenPut :
    (total (fun _ => itemsHandled fun _ => madeText) askThenPut
        (answersOf .lp64 unary askThenPut)).map (fun x => (x.1, x.2.key, x.2.value)) =
      [(madeId, none, ['v'])] ∧
    (total (fun _ => itemsHandled fun _ => madeText) askThenPut
          (answersOf .lp64 unary askThenPut) ++
        total (itemsTaken .lp64) askThenPut (answersOf .lp64 unary askThenPut)).Subperm
      (total (itemsPut .lp64) askThenPut (answersOf .lp64 unary askThenPut)) ∧
    ∀ out ∈ answersOf .lp64 unary askThenPut, ∀ o ∈ out, HandlesMeant (fun _ => none) o := by
  exact ⟨by decide +kernel,
    handled_once .lp64 unary (fun _ => madeText) (fun _ => none) askThenPut askThenPut_holds⟩

end DQ.Proof.Network
