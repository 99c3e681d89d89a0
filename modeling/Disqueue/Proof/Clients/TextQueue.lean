import Disqueue.Proof.Clients.Session
import Disqueue.Proof.Service.Frame

/-!
# A queue between its callers

Calls of the libraries on a queue that nobody waits on return what was put, as
it was put and in order, whatever else happens to the server meanwhile, as long
as nothing else uses the queue (`queue_texts`). A text without NULs is read on
the server as its bytes (`received_text`), and its bytes are read as the text.
-/

namespace DQ.Proof.Clients

open DQ.Model DQ.Spec DQ.Proof.Server DQ.Proof.Service

/-! ## Texts without NULs -/

/-- No byte of another character is NUL. -/
theorem encode_ne_zero {c : Char} (hc : c ≠ Char.ofNat 0) : ∀ b ∈ String.utf8EncodeChar c, b ≠ 0 := by
  have hpos : c.val.toNat ≠ 0 := fun h => hc (Char.ext (UInt32.toNat_inj.mp h))
  have hbyte : ∀ m, m % 256 ≠ 0 → UInt8.ofNat m ≠ 0 := by
    intro m hm h0
    have hnat := congrArg UInt8.toNat h0
    rw [UInt8.toNat_ofNat'] at hnat
    exact hm hnat
  unfold String.utf8EncodeChar
  dsimp only
  split
  · intro b hb
    rw [List.mem_singleton.mp hb]
    exact hbyte _ (by omega)
  split
  · intro b hb
    simp only [List.mem_cons, List.not_mem_nil, or_false] at hb
    rcases hb with rfl | rfl <;> exact hbyte _ (by omega)
  split
  · intro b hb
    simp only [List.mem_cons, List.not_mem_nil, or_false] at hb
    rcases hb with rfl | rfl | rfl <;> exact hbyte _ (by omega)
  · intro b hb
    simp only [List.mem_cons, List.not_mem_nil, or_false] at hb
    rcases hb with rfl | rfl | rfl | rfl <;> exact hbyte _ (by omega)

theorem received_text {s : String} (hs : Char.ofNat 0 ∉ s.toList) : received s = chars (utf8 s) := by
  refine List.takeWhile_eq_self_iff.mpr fun c hc => ?_
  obtain ⟨b, hb, rfl⟩ := List.mem_map.mp hc
  obtain ⟨d, hd, hbd⟩ := List.mem_flatMap.mp hb
  have hne : b ≠ 0 := encode_ne_zero (fun h => hs (h ▸ hd)) b hbd
  rw [char_byte]
  simpa using fun h => hne (UInt8.toNat_inj.mp h)

/-- The value of a stored key and value. -/
theorem entry_json (h : HttpLayer) {p : Texts} (hk : ∀ k ∈ p.1, Char.ofNat 0 ∉ k.toList)
    (hv : Char.ofNat 0 ∉ p.2.toList) : (Value.entry p.entry).json h.decode = some p.json := by
  have hdecode : ∀ s : String, Char.ofNat 0 ∉ s.toList → h.decode (received s) = s.toList :=
    fun s hs => (congrArg h.decode (received_text hs)).trans (h.decodes s)
  obtain ⟨key, value⟩ := p
  cases key with
  | none => simp [Value.json, Texts.entry, Texts.json, hdecode value hv]
  | some k => simp [Value.json, Texts.entry, Texts.json, hdecode value hv, hdecode k (hk k rfl)]

/-! ## Calls on the queue -/

section
variable {queueId : String} {l : List Texts} {t : Service}

/-- No NUL is in the keys and the values. -/
def Clean (l : List Texts) : Prop :=
  ∀ p ∈ l, (∀ k ∈ p.1, Char.ofNat 0 ∉ k.toList) ∧ Char.ofNat 0 ∉ p.2.toList

theorem holds_set {t' : Service} {l' : List Texts} {p : Service.Place}
    (hl : Service.lookup (some (received queueId)) none t.rooms = .ok p)
    (ht : t'.rooms = p.set ⟨l'.map Texts.entry, []⟩) : Holds queueId l' t' := by
  have hlen : (received queueId).length = 36 := by
    by_contra hlen
    simp [Service.lookup, hlen] at hl
  obtain ⟨-, hp, hpre⟩ := lookup_found hl
  have hroom := roomOf_place hp hpre ⟨l'.map Texts.entry, []⟩
  rw [← ht] at hroom
  obtain ⟨p', hp', hr⟩ := roomOf_lookup hlen hroom
  exact ⟨p', hp', by rw [hr]⟩

/-- What does not use the queue leaves what it holds. -/
theorem holds_kept (hh : Holds queueId l t) {t' : Service}
    (hk : KeepsRoom (received queueId) t.rooms t'.rooms) : Holds queueId l t' := by
  obtain ⟨p, hl, hline⟩ := hh
  have hlen : (received queueId).length = 36 := by
    by_contra hlen
    simp [Service.lookup, hlen] at hl
  obtain ⟨p', hp', hr⟩ := roomOf_lookup hlen (hk p.room (lookup_roomOf hl))
  exact ⟨p', hp', by rw [hr, hline]⟩

theorem wants_fits (key : Option String) :
    (entryWants (key.map received)) ∘ Texts.entry = fits key := rfl

theorem find_entries (key : Option String) (l : List Texts) :
    (l.map Texts.entry).find? (entryWants (key.map received)) = (l.find? (fits key)).map Texts.entry := by
  rw [List.find?_map, wants_fits]

variable (dm : DataModel) (h : HttpLayer)

/-- A call on the queue does what it does to the list. -/
theorem call_texts (hh : Holds queueId l t) (hc : Clean l) (lib : Library) (c : QueueCall)
    (env : Env) :
    Holds queueId (textQueue l c).1 (serviceSession dm h t (.call lib queueId c.call env)).1 ∧
      (serviceSession dm h t (.call lib queueId c.call env)).2 = (textQueue l c).2.map .result := by
  have hheld := hh
  obtain ⟨p, hl, hline⟩ := hh
  cases c with
  | put key value =>
    have hput : p.room.line.put entryWants Waiter.key ⟨key.map received, received value⟩ =
        (⟨(l ++ [(key, value)]).map Texts.entry, []⟩, none) := by
      rw [hline, List.map_append]
      rfl
    simp only [serviceSession, QueueCall.call, askFor, Service.step, Service.ask, Service.call, hl, hput]
    exact ⟨holds_set hl rfl, rfl⟩
  | take key =>
    have htake := Rendezvous.take_eq entryWants (key.map received) p.room.line
    simp only [hline, find_entries, List.eraseP_map, wants_fits] at htake
    simp only [serviceSession, QueueCall.call, askFor, Service.step, Service.ask, Service.call, hl,
      hline, htake, textQueue]
    cases hf : l.find? (fits key) with
    | none => exact ⟨hheld, by cases lib <;> rfl⟩
    | some x =>
      have hx := hc x (List.mem_of_find?_eq_some hf)
      refine ⟨holds_set hl rfl, ?_⟩
      simp only [Option.map_some, returned, entry_json h hx.1 hx.2]
      rfl
  | peek key =>
    have hpeek : p.room.line.peek entryWants (key.map received) =
        (l.find? (fits key)).map Texts.entry := by
      rw [hline]
      exact find_entries key l
    simp only [serviceSession, QueueCall.call, askFor, Service.step, Service.ask, Service.call, hl,
      hpeek, textQueue]
    cases hf : l.find? (fits key) with
    | none => exact ⟨hheld, by cases lib <;> rfl⟩
    | some x =>
      have hx := hc x (List.mem_of_find?_eq_some hf)
      refine ⟨hheld, ?_⟩
      simp only [Option.map_some, returned, entry_json h hx.1 hx.2]
      rfl

/-- What the queue holds stays without NULs. -/
theorem clean_call (hc : Clean l) {c : QueueCall} (ht : ∀ s ∈ c.texts, Char.ofNat 0 ∉ s.toList) :
    Clean (textQueue l c).1 := by
  cases c with
  | put key value =>
    intro p hp
    rcases List.mem_append.mp hp with hp | hp
    · exact hc p hp
    · rw [List.mem_singleton.mp hp]
      exact ⟨fun k hk => ht k (List.mem_append_left _ (Option.mem_toList.mpr hk)),
        ht value (List.mem_append_right _ List.mem_cons_self)⟩
  | take key =>
    unfold textQueue
    dsimp only
    split
    · exact hc
    · exact fun p hp => hc p (List.mem_of_mem_eraseP hp)
  | peek key =>
    unfold textQueue
    dsimp only
    split <;> exact hc

/-! ## Sessions -/

theorem service_texts (moves : List Move) (hm : ∀ m ∈ moves, MoveHolds dm queueId m)
    (hh : Holds queueId l t) (hc : Clean l) :
    queueAnswers moves ((serviceSession dm h).answers t (moves.map (Move.act queueId))) =
      (textQueue.answers l (moves.filterMap Move.queueCall)).map (·.map .result) := by
  induction moves generalizing l t with
  | nil => rfl
  | cons m moves ih =>
    have hm' : ∀ m ∈ moves, MoveHolds dm queueId m := fun x hx => hm x (List.mem_cons_of_mem _ hx)
    have hone := hm m List.mem_cons_self
    cases m with
    | queue lib c env =>
      obtain ⟨hheld, hans⟩ := call_texts dm h hh hc lib c env
      have hrest := ih hm' hheld (clean_call hc hone)
      exact congrArg₂ List.cons hans hrest
    | other act =>
      have hkept : KeepsRoom (received queueId) t.rooms (serviceSession dm h t act).1.rooms := by
        cases act with
        | call lib q c env => exact step_kept hone t
        | event i => exact step_kept hone t
      exact ih hm' (holds_kept hh hkept) hc

end

/-- After any session, as long as nobody waits on a queue and nothing else uses
it, calls on it return what a list of keys and values returns. -/
theorem queue_texts (dm : DataModel) (h : HttpLayer) (url : String)
    (auth : Option (String × String)) (queueId : String) (acts : List Act) (moves : List Move)
    (l : List Texts) (hacts : ∀ a ∈ acts ++ moves.map (Move.act queueId), ActHolds a)
    (hmoves : ∀ m ∈ moves, MoveHolds dm queueId m)
    (hh : Holds queueId l ((serviceSession dm h).run .empty acts)) (hc : Clean l) :
    queueAnswers moves ((serverSession dm h url auth).answers
        ((serverSession dm h url auth).run .startup acts) (moves.map (Move.act queueId))) =
      (textQueue.answers l (moves.filterMap Move.queueCall)).map (·.map .result) := by
  have hfollows := session_follows h dm url auth
  have hrefined := hfollows.run ⟨ready_startup, view_startup⟩
    fun a ha => hacts a (List.mem_append_left _ ha)
  have hlater : ∀ a ∈ moves.map (Move.act queueId), ActHolds a := fun a ha =>
    hacts a (List.mem_append_right _ ha)
  have hanswers := hfollows.answers hrefined hlater
  rw [List.map_id, List.map_id] at hanswers
  rw [hanswers]
  exact service_texts dm h moves hmoves hh hc

/-- Both libraries use a queue, while another client asks for the names. -/
def putListTake : List Move :=
  [.queue .python (.put (some "k") "1") envOk, .queue .typeScript (.put none "2") envOk,
    .other (.call .python "" .list envOk), .queue .python (.take (some "K")) envOk,
    .queue .typeScript (.peek none) envOk, .queue .python (.take (some "k")) envOk]

theorem queue_texts_putListTake :
    queueAnswers putListTake ((serverSession .lp64 httpLayer "" none).answers
        ((serverSession .lp64 httpLayer "" none).run .startup
          [.call .python "" (.create none) envOk]) (putListTake.map (Move.act madeText))) =
      [[.result (.ok none)], [.result (.ok none)], [.result (.ok (some (Texts.json (some "k", "1"))))],
        [.result (.ok (some (Texts.json (none, "2"))))], [.result (missing .noItemToTake)]] := by
  refine (queue_texts .lp64 httpLayer "" none madeText [.call .python "" (.create none) envOk]
    putListTake [] ?_ ?_ ⟨_, rfl, rfl⟩ fun _ hp => by cases hp).trans rfl
  · intro act hact
    simp only [putListTake, List.map_cons, List.map_nil, List.cons_append, List.nil_append, Move.act,
      List.mem_cons, List.not_mem_nil, or_false] at hact
    rcases hact with rfl | rfl | rfl | rfl | rfl | rfl | rfl <;> exact ⟨fun _ => rfl, fun _ => rfl⟩
  · intro m hm
    simp only [putListTake, List.mem_cons, List.not_mem_nil, or_false] at hm
    rcases hm with rfl | rfl | rfl | rfl | rfl | rfl
    all_goals first | rfl | (show ∀ s ∈ _, _; decide)

end DQ.Proof.Clients
