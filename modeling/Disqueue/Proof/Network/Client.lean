import Disqueue.Spec.Taker

/-!
# The libraries' objects are takers

A message does to an object what it does to a taker (`notified`), and so does
the end of a handler (`ended`). The identifiers that an object is to make are not
recorded (`Sound`).
-/

namespace DQ.Proof.Network

open DQ.Model DQ.Spec

variable {ι α η : Type} {names : Writing}

/-! ## Records -/

theorem recordOf_text (n : Names ι) (f : ι → Option α) (i : ι) : recordOf n f (n.text i) = f i := by
  rw [recordOf, n.read_text]
  rfl

theorem recordOf_update [DecidableEq ι] (n : Names ι) (f : ι → Option α) {id : String} {i : ι}
    (hi : n.read id = some i) (x : Option α) :
    recordOf n (Function.update f i x) = Function.update (recordOf n f) id x := by
  funext id'
  by_cases h : id' = id
  · subst h
    rw [Function.update_self, recordOf, hi]
    exact Function.update_self ..
  · rw [Function.update_of_ne h]
    unfold recordOf
    cases hi' : n.read id' with
    | none => rfl
    | some j =>
      have hj : j ≠ i := by
        rintro rfl
        exact h ((n.text_read id' j hi').symm.trans (n.text_read id j hi))
      exact Function.update_of_ne hj ..

theorem map_update [DecidableEq ι] {β : Type} (f : ι → Option α) (g : α → β) (i : ι)
    (x : Option α) :
    (fun j => (Function.update f i x j).map g) =
      Function.update (fun j => (f j).map g) i (x.map g) := by
  funext j
  by_cases h : j = i
  · subst h
    simp
  · simp [h]

/-! ## What is heard -/

theorem python_heard {s : Python.State Unit η × Nat} {m : Python.State Unit η}
    {out : List (Python.Output Unit η)} (h : m.out () = s.1.out () ++ out) (n : Nat) :
    ((Client.python (m, n)).heard names).drop ((Client.python s).heard names).length =
      out.filterMap (Client.pythonHeard names) := by
  simp only [Client.heard, h, List.filterMap_append, List.drop_left]

theorem typeScript_heard {u u' : TypeScript.State η} {out : List (TypeScript.Output η)}
    (h : u'.out = u.out ++ out) :
    ((Client.typeScript u').heard names).drop ((Client.typeScript u).heard names).length =
      out.map (Client.typeScriptHeard names) := by
  simp only [Client.heard, h, List.map_append, List.drop_left]

/-- No identifier that is to be made is recorded. -/
def Sound : Client η → Prop
  | .python s => (∀ i, (s.1.waitingIdentifiers i).isSome = true → i.call < s.2) ∧
      ∀ task ∈ s.1.tasks (), task.item ≠ none
  | .typeScript s => ∀ i, s.next ≤ i → s.waitingIdentifiers i = none

/-! ## Messages -/

variable {s : Python.State Unit η × Nat} {u : TypeScript.State η}

theorem identified_eq_none {n : Names ι} {json : Json} (h : Client.identified n json = none)
    (f : ι → Option α) : ∀ p ∈ payloadTexts json, recordOf n f p.1 = none := by
  intro p hp
  rw [Client.identified, Option.mem_def.mp hp, Option.bind_some, Option.map_eq_none_iff] at h
  rw [recordOf, h]
  rfl

theorem identified_eq_some {n : Names ι} {json : Json} {i : ι} {item : Texts}
    (h : Client.identified n json = some (i, item)) :
    ∃ id, payloadTexts json = some (id, item) ∧ n.read id = some i := by
  obtain ⟨⟨id, item'⟩, hp, hi⟩ := Option.bind_eq_some_iff.mp h
  obtain ⟨j, hj, heq⟩ := Option.map_eq_some_iff.mp hi
  cases heq
  exact ⟨id, hp, hj⟩

/-- The payload that `notify_message` is called with. -/
def pythonPayload (names : Writing) (json : Json) :
    Option (Python.Identifier Unit × Option Texts) :=
  (Client.identified names.python json).map fun p => (p.1, some p.2)

theorem python_quiet (payload : Option (Python.Identifier Unit × Option Texts))
    (m : Python.State Unit η) : (Python.notifyMessage () payload m).out () = m.out () ++ [] := by
  rw [List.append_nil]
  unfold Python.notifyMessage
  split
  · rfl
  · split <;> rfl

theorem python_notified (hs : Sound (.python s)) (json : Json) :
    Taker.Notified (takerOf names (.python s)) (payloadTexts json)
        (takerOf names ((Client.python s).after names (.message json)))
        (((Client.python s).step names (.message json)).2) ∧
      Sound ((Client.python s).after names (.message json)) := by
  have hafter : (Client.python s).after names (.message json) =
      .python (Python.notifyMessage () (pythonPayload names json) s.1, s.2 + 1) := rfl
  rw [Client.step, hafter, python_heard (python_quiet ..), List.filterMap_nil]
  -- A message that does nothing.
  have hidle (h : Python.notifyMessage () (pythonPayload names json) s.1 = s.1)
      (hnone : ∀ p ∈ payloadTexts json, (takerOf names (.python s)).record p.1 = none) :
      Taker.Notified (takerOf names (.python s)) (payloadTexts json)
          (takerOf names
            (.python (Python.notifyMessage () (pythonPayload names json) s.1, s.2 + 1)))
          [] ∧
        Sound (.python (Python.notifyMessage () (pythonPayload names json) s.1, s.2 + 1)) := by
    rw [h]
    exact ⟨.ignored hnone, fun i hi => Nat.lt_succ_of_lt (hs.1 i hi), hs.2⟩
  cases hid : Client.identified names.python json with
  | none =>
    refine hidle ?_ (identified_eq_none hid _)
    rw [pythonPayload, hid]
    rfl
  | some p =>
    obtain ⟨i, item⟩ := p
    obtain ⟨id, hpayload, hread⟩ := identified_eq_some hid
    have hcall : pythonPayload names json = some (i, some item) := by
      rw [pythonPayload, hid]
      rfl
    cases hw : s.1.waitingIdentifiers i with
    | none =>
      refine hidle ?_ fun p hp => ?_
      · rw [hcall]
        simp only [Python.notifyMessage, hw]
      · cases hpayload.symm.trans hp
        simp [takerOf, recordOf, hread, hw]
    | some w =>
      have hrec : (takerOf names (.python s)).record id = some (pythonSubscription w) := by
        simp [takerOf, recordOf, hread, hw]
      have htaker : takerOf names
          (.python (Python.notifyMessage () (pythonPayload names json) s.1, s.2 + 1)) =
            { (takerOf names (.python s)).takeOut id with
              pending :=
                (takerOf names (.python s)).pending ++ [(pythonSubscription w, item)] } := by
        simp only [hcall, Python.notifyMessage, hw, takerOf, Taker.takeOut, map_update,
          recordOf_update names.python _ hread, Function.update_self, List.filterMap_append,
          Option.map_none]
        rfl
      rw [htaker, hpayload]
      refine ⟨.waits hrec, fun j hj => ?_, fun task htask => ?_⟩
      · simp only [hcall, Python.notifyMessage, hw] at hj
        by_cases hji : j = i
        · subst hji
          simp at hj
        · rw [Function.update_of_ne hji] at hj
          exact Nat.lt_succ_of_lt (hs.1 j hj)
      · simp only [hcall, Python.notifyMessage, hw, Function.update_self] at htask
        rcases List.mem_append.mp htask with htask | htask
        · exact hs.2 task htask
        · rw [List.mem_singleton.mp htask]
          nofun

theorem typeScript_notified (hs : Sound (.typeScript u)) (hready : u.running = none) (json : Json) :
    Taker.Notified (takerOf names (.typeScript u)) (payloadTexts json)
        (takerOf names ((Client.typeScript u).after names (.message json)))
        (((Client.typeScript u).step names (.message json)).2) ∧
      Sound ((Client.typeScript u).after names (.message json)) := by
  rw [Client.step]
  -- A message that does nothing.
  have hidle (h : (Client.typeScript u).after names (.message json) = .typeScript u)
      (hnone : ∀ p ∈ payloadTexts json, (takerOf names (.typeScript u)).record p.1 = none) :
      Taker.Notified (takerOf names (.typeScript u)) (payloadTexts json)
          (takerOf names ((Client.typeScript u).after names (.message json)))
          ((((Client.typeScript u).after names (.message json)).heard names).drop
            ((Client.typeScript u).heard names).length) ∧
        Sound ((Client.typeScript u).after names (.message json)) := by
    rw [h, List.drop_length]
    exact ⟨.ignored hnone, hs⟩
  cases hid : Client.identified names.typeScript json with
  | none =>
    refine hidle ?_ (identified_eq_none hid _)
    rw [Client.after, hid]
  | some p =>
    obtain ⟨i, key, value⟩ := p
    obtain ⟨id, hpayload, hread⟩ := identified_eq_some hid
    have hafter : (Client.typeScript u).after names (.message json) =
        .typeScript (TypeScript.notifyMessage i key value u) := by
      rw [Client.after, hid]
      rfl
    cases hw : u.waitingIdentifiers i with
    | none =>
      refine hidle ?_ fun p hp => ?_
      · rw [hafter, TypeScript.notifyMessage, hready, hw]
      · cases hpayload.symm.trans hp
        simp [takerOf, recordOf, hread, hw]
    | some w =>
      have hrec : (takerOf names (.typeScript u)).record id = some (typeScriptSubscription w) := by
        simp [takerOf, recordOf, hread, hw]
      have hcall : TypeScript.notifyMessage i key value u =
          { u with
            waitingIdentifiers := Function.update u.waitingIdentifiers i none
            running := some w
            out := u.out ++ [.ran w.2.2 key value] } := by
        rw [TypeScript.notifyMessage, hready, hw]
      have htaker : takerOf names (.typeScript (TypeScript.notifyMessage i key value u)) =
          { (takerOf names (.typeScript u)).takeOut id with
            running := (takerOf names (.typeScript u)).running ++ [typeScriptSubscription w] } := by
        simp only [hcall, takerOf, Taker.takeOut, map_update,
          recordOf_update names.typeScript _ hread,
          Option.map_none, hready]
        rfl
      rw [hafter, htaker, hpayload, typeScript_heard (congrArg TypeScript.State.out hcall), hcall]
      refine ⟨.called hrec, fun j hj => ?_⟩
      by_cases hji : j = i
      · subst hji
        simp
      · exact (Function.update_of_ne hji ..).trans (hs j hj)

/-- A client that is ready does with a message what a taker does. -/
theorem notified {x : Client η} (hs : Sound x) (hready : x.ready = true) (json : Json) :
    Taker.Notified (takerOf names x) (payloadTexts json)
        (takerOf names (x.step names (.message json)).1) (x.step names (.message json)).2 ∧
      Sound (x.step names (.message json)).1 := by
  cases x with
  | python s => exact python_notified hs json
  | typeScript u => exact typeScript_notified hs (Option.isNone_iff_eq_none.mp hready) json

/-! ## Ends of handlers -/

/-- The `k`-th element is taken out of a list that is read as another. -/
theorem filterMap_eraseIdx {β : Type} {f : α → Option β} {l : List α} {k : Nat} {x : α} {y : β}
    (hx : l[k]? = some x) (hy : f x = some y) :
    ∃ pre post, l.filterMap f = pre ++ y :: post ∧ (l.eraseIdx k).filterMap f = pre ++ post := by
  obtain ⟨hk, rfl⟩ := List.getElem?_eq_some_iff.mp hx
  refine ⟨(l.take k).filterMap f, (l.drop (k + 1)).filterMap f, ?_, ?_⟩
  · conv_lhs => rw [← List.take_append_drop k l, List.drop_eq_getElem_cons hk]
    rw [List.filterMap_append, List.filterMap_cons_some hy]
  · rw [List.eraseIdx_eq_take_drop_succ, List.filterMap_append]

theorem python_ended (hs : Sound (.python s)) (k : Nat) (returns : Bool) :
    Taker.Ended (takerOf names (.python s)) returns
        (takerOf names ((Client.python s).after names (.handled k returns)))
        (((Client.python s).step names (.handled k returns)).2) ∧
      Sound ((Client.python s).after names (.handled k returns)) := by
  have hafter : (Client.python s).after names (.handled k returns) =
      .python (Python.runAndReschedule () s.2 k returns s.1, s.2 + 1) := rfl
  rw [Client.step, hafter]
  cases htask : (s.1.tasks ())[k]? with
  | none =>
    have hsame : Python.runAndReschedule () s.2 k returns s.1 = s.1 := by
      rw [Python.runAndReschedule, htask]
    rw [hsame, python_heard (List.append_nil _).symm]
    exact ⟨.idle, fun i hi => Nat.lt_succ_of_lt (hs.1 i hi), hs.2⟩
  | some task =>
    obtain ⟨⟨key, value⟩, hitem⟩ :=
      Option.ne_none_iff_exists'.mp (hs.2 task (List.mem_of_getElem? htask))
    obtain ⟨pre, post, hpending, herase⟩ := filterMap_eraseIdx (f := pythonPending) htask
      (y := (pythonSubscription task.want, (key, value))) (by rw [pythonPending, hitem]; rfl)
    -- The handler was called.
    let m := { s.1 with tasks := Function.update s.1.tasks () ((s.1.tasks ()).eraseIdx k) }.emit ()
      (.ran task.want.handler key value)
    have hm : Python.runAndReschedule () s.2 k returns s.1 =
        if returns then Python.resendWant ⟨(), s.2, 0⟩ task.want m else m := by
      simp only [Python.runAndReschedule, htask, hitem]
      rfl
    have htasks : m.tasks () = (s.1.tasks ()).eraseIdx k := by simp [m, Python.State.emit]
    have hout : m.out () = s.1.out () ++ [.ran task.want.handler key value] := by
      simp [m, Python.State.emit]
    have htaker (n : Nat) : takerOf names (.python (m, n)) =
        { takerOf names (.python s) with pending := pre ++ post } := by
      rw [takerOf, htasks, herase]
      rfl
    have hitems : ∀ t ∈ m.tasks (), t.item ≠ none := fun t ht =>
      hs.2 t (List.mem_of_mem_eraseIdx (htasks ▸ ht))
    rw [hm]
    cases returns with
    | false =>
      rw [if_neg Bool.false_ne_true, python_heard hout, htaker]
      exact ⟨.waited (t := takerOf names (.python s)) hpending .lost,
        fun i hi => Nat.lt_succ_of_lt (hs.1 i hi), hitems⟩
    | true =>
      have hnew : s.1.waitingIdentifiers ⟨(), s.2, 0⟩ = none := by
        by_contra hne
        exact Nat.lt_irrefl _ (hs.1 _ (Option.isSome_iff_ne_none.mpr hne))
      have hout' : (Python.resendWant ⟨(), s.2, 0⟩ task.want m).out () =
          s.1.out () ++ [.ran task.want.handler key value,
            .sent ⟨task.want.queueId, ⟨(), s.2, 0⟩, task.want.key.filter (· ≠ "")⟩] := by
        rw [Python.resendWant, Python.State.emit]
        simp only [Function.update_self, hout, List.append_assoc]
        rfl
      have hrec : (takerOf names (.python s)).record (names.python.text ⟨(), s.2, 0⟩) = none := by
        simp [takerOf, recordOf_text, hnew]
      have htaker' : takerOf names (.python (Python.resendWant ⟨(), s.2, 0⟩ task.want m, s.2 + 1)) =
          { takerOf names (.python s) with
            record := Function.update (takerOf names (.python s)).record
              (names.python.text ⟨(), s.2, 0⟩) (some (pythonSubscription task.want))
            pending := pre ++ post } := by
        have hwaiting : (Python.resendWant ⟨(), s.2, 0⟩ task.want m).waitingIdentifiers =
            Function.update s.1.waitingIdentifiers ⟨(), s.2, 0⟩ (some task.want) := rfl
        rw [takerOf, hwaiting, map_update, recordOf_update _ _ (names.python.read_text _)]
        refine Taker.mk.injEq .. |>.mpr ⟨rfl, ?_, rfl⟩
        exact (congrArg (List.filterMap pythonPending) htasks).trans herase
      rw [if_pos rfl, python_heard hout', htaker']
      refine ⟨.waited hpending (.asked hrec (names.python.plain _)), fun i hi => ?_, hitems⟩
      by_cases h : i = ⟨(), s.2, 0⟩
      · rw [h]
        exact Nat.lt_succ_self s.2
      · have hi' :
            (Function.update s.1.waitingIdentifiers ⟨(), s.2, 0⟩ (some task.want) i).isSome := hi
        rw [Function.update_of_ne h] at hi'
        exact Nat.lt_succ_of_lt (hs.1 i hi')

theorem typeScript_ended (hs : Sound (.typeScript u)) (k : Nat) (returns : Bool) :
    Taker.Ended (takerOf names (.typeScript u)) returns
        (takerOf names ((Client.typeScript u).after names (.handled k returns)))
        (((Client.typeScript u).step names (.handled k returns)).2) ∧
      Sound ((Client.typeScript u).after names (.handled k returns)) := by
  have hafter : (Client.typeScript u).after names (.handled k returns) =
      .typeScript (TypeScript.handled returns u) := rfl
  rw [Client.step, hafter]
  cases hrunning : u.running with
  | none =>
    have hsame : TypeScript.handled returns u = u := by rw [TypeScript.handled, hrunning]
    rw [hsame, List.drop_length]
    exact ⟨.idle, hs⟩
  | some w =>
    have hone : (takerOf names (.typeScript u)).running = [] ++ typeScriptSubscription w :: [] := by
      simp [takerOf, hrunning]
    cases returns with
    | false =>
      have hcall : TypeScript.handled false u = { u with running := none } := by
        rw [TypeScript.handled, hrunning]
        rfl
      have hout : (TypeScript.handled false u).out = u.out ++ [] := by rw [hcall, List.append_nil]
      rw [typeScript_heard hout, hcall]
      exact ⟨.called hone .lost, hs⟩
    | true =>
      have hcall : TypeScript.handled true u =
          TypeScript.resendWant w { u with running := none } := by
        rw [TypeScript.handled, hrunning]
        rfl
      have hrec : (takerOf names (.typeScript u)).record (names.typeScript.text u.next) = none := by
        simp [takerOf, recordOf_text, hs u.next le_rfl]
      have htaker : takerOf names (.typeScript (TypeScript.handled true u)) =
          { takerOf names (.typeScript u) with
            record := Function.update (takerOf names (.typeScript u)).record
              (names.typeScript.text u.next) (some (typeScriptSubscription w))
            running := [] ++ [] } := by
        have hwaiting : (TypeScript.handled true u).waitingIdentifiers =
            Function.update u.waitingIdentifiers u.next (some w) := by rw [hcall]; rfl
        rw [takerOf, hwaiting, map_update, recordOf_update _ _ (names.typeScript.read_text _),
          hcall]
        rfl
      have hout : (TypeScript.handled true u).out = u.out ++ [.sent ⟨w.1, u.next, w.2.1⟩] := by
        rw [hcall]
        rfl
      rw [typeScript_heard hout, htaker, hcall]
      refine ⟨.called hone (.asked hrec (names.typeScript.plain _)), fun i hi => ?_⟩
      have hne : i ≠ u.next := fun h => Nat.not_succ_le_self u.next (h ▸ hi)
      exact (Function.update_of_ne hne ..).trans (hs i (Nat.le_of_succ_le hi))

/-- A client does at the end of a handler what a taker does. -/
theorem ended {x : Client η} (hs : Sound x) (k : Nat) (returns : Bool) :
    Taker.Ended (takerOf names x) returns (takerOf names (x.step names (.handled k returns)).1)
        (x.step names (.handled k returns)).2 ∧
      Sound (x.step names (.handled k returns)).1 := by
  cases x with
  | python s => exact python_ended hs k returns
  | typeScript u => exact typeScript_ended hs k returns

end DQ.Proof.Network
