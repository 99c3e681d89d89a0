import Disqueue.Proof.Registry.Verified
import Disqueue.Proof.Service.View

/-!
# Rooms

`manager_queue_get` finds or makes the queue that shows as the room the service
looks up (`get_shows`). A waiter that is handed an item is sent the entry
(`callback_view`), which the other rooms and waiters do not notice.
-/

namespace DQ.Proof.Service

open DQ.Model DQ.Spec DQ.Proof.Queue DQ.Proof.Server DQ.Proof.Registry

variable {dm : DataModel} {n n' : Net} {s : Server} {t : Service} {f : Found} {p : Service.Place}

/-! ## Lookups -/

/-- The queue found, and those before and after it, show as the rooms. -/
structure ShowsPlace (n : Net) (f : Found) (p : Service.Place) : Prop where
  pre : List.Forall₂ (ShowsRoom n) f.pre p.pre
  room : ShowsRoom n f.mq p.room
  post : List.Forall₂ (ShowsRoom n) f.post p.post

theorem ShowsPlace.set (h : ShowsPlace n f p) {q : Queue Nat} {line : Rendezvous Entry Waiter}
    (hq : Rendezvous.Alike ShowsItem (ShowsWaiter n q.addr) ⟨q.items, q.callbacks⟩ line) :
    List.Forall₂ (ShowsRoom n) (f.set q) (p.set line) :=
  List.rel_append h.pre (.cons ⟨h.room.name, hq⟩ h.post)

theorem ShowsPlace.registry (h : ShowsPlace n f p) :
    List.Forall₂ (ShowsRoom n) f.registry (p.set p.room.line) := h.set (q := f.mq.q) h.room.line

theorem ShowsPlace.free (h : ShowsPlace n f p) : List.Forall₂ (ShowsRoom n) f.free p.free :=
  List.rel_append h.pre h.post

/-- What is kept of the wants of all callbacks keeps the place. -/
theorem ShowsPlace.fades (h : ShowsPlace n f p) (hf : Fades All n n') : ShowsPlace n' f p :=
  ⟨rooms_all h.pre hf, h.room.fades hf fun _ _ _ _ _ => trivial, rooms_all h.post hf⟩

theorem names_shown {qs : List ManagerQueue} {rooms : List Room}
    (h : List.Forall₂ (ShowsRoom n) qs rooms) : qs.map (·.id) = rooms.map (·.name) := by
  induction h with
  | nil => rfl
  | cons h _ ih => rw [List.map_cons, List.map_cons, h.name, ih]

/-- The code and the failure of a lookup that fails. -/
def lookupFailed (name : Option CStr) (createNew : Bool) : Nat × Failure :=
  if name.any (·.length != 36) then (400, .invalidQueueId)
  else if createNew then (500, .createQueue)
  else (404, .noQueue)

/-- The id of the queue that `manager_queue_get` makes. -/
def idMade (dm : DataModel) (e : QueueSupply) : Option CStr → Option CStr
  | some name => (parseUuid dm e.stack name).map (queueGetUuid dm)
  | none => some (queueGetUuid dm (randomUuid e.rand))

theorem showsPlace_new {qs : List ManagerQueue} {rooms : List Room}
    (h : List.Forall₂ (ShowsRoom n) qs rooms) (addr : Nat) (uuid : Bytes) (id : CStr) :
    ShowsPlace n ⟨qs, ⟨id, queueNew addr uuid⟩, []⟩ ⟨rooms, ⟨id, ⟨[], []⟩⟩, []⟩ :=
  ⟨h, ⟨rfl, .nil, .nil⟩, .nil⟩

variable (dm) in
/-- Looking a queue up is looking its room up. -/
theorem get_shows {qs : List ManagerQueue} {rooms : List Room}
    (h : List.Forall₂ (ShowsRoom n) qs rooms) {e : QueueSupply} (he : ∀ c, e.ok c = true)
    (name : Option CStr) (createNew : Bool) :
    (managerQueueGet dm e name createNew qs = none ∧
        Service.lookup name (if createNew then some (idMade dm e name) else none) rooms =
          .error (lookupFailed name createNew)) ∨
      ∃ f p, managerQueueGet dm e name createNew qs = some f ∧
        Service.lookup name (if createNew then some (idMade dm e name) else none) rooms = .ok p ∧
        ShowsPlace n f p := by
  have hnew : ∀ u, managerQueueNew dm e u qs = some ⟨qs, ⟨queueGetUuid dm (u.getD (randomUuid e.rand)),
      queueNew e.addr (u.getD (randomUuid e.rand))⟩, []⟩ := by
    intro u
    cases u <;> simp [managerQueueNew, he]
  unfold managerQueueGet Service.lookup lookupFailed
  cases name with
  | none =>
    cases createNew with
    | false => exact .inl ⟨rfl, rfl⟩
    | true => exact .inr ⟨_, _, hnew none, rfl, showsPlace_new h _ _ _⟩
  | some name =>
    by_cases hlen : name.length = 36
    · have hany : (some name).any (fun a : CStr => a.length != 36) = false := by simp [hlen]
      simp only [hany, hlen, ne_eq, not_true_eq_false, Bool.false_eq_true, if_false]
      unfold managerQueueFind
      rcases splitFirst_rel h (p := fun m => strcaseEq m.id name)
          (q := fun room => strcaseEq room.name name) (fun m room hm => by rw [hm.name]) with
        ⟨hs, hs'⟩ | ⟨pre, m, post, pre', room, post', hs, hs', hpre, hm, hpost⟩
      · simp only [hs, Option.map_none, Option.bind_some, hs']
        cases createNew with
        | false => exact .inl ⟨rfl, rfl⟩
        | true =>
          simp only [idMade]
          cases hu : parseUuid dm e.stack name with
          | none => exact .inl ⟨rfl, rfl⟩
          | some u => exact .inr ⟨_, _, hnew (some u), rfl, showsPlace_new h _ _ _⟩
      · simp only [hs, Option.map_some, Option.bind_some, hs']
        exact .inr ⟨_, _, rfl, rfl, hpre, hm, hpost⟩
    · have hany : (some name).any (fun a : CStr => a.length != 36) = true := by simp [hlen]
      simp only [hany, hlen, ne_eq, not_false_eq_true, if_true]
      exact .inl ⟨trivial, trivial⟩

/-! ## Items handed over -/

theorem wants_shown {i : QueueItem} {x : Entry} (h : ShowsItem i x) (key : Option CStr) :
    wants key i = entryWants key x := by rw [wants, entryWants, h.key]

section
variable {q : Queue Nat} {line : Rendezvous Entry Waiter} {addr : Nat}

/-- The queue's items and callbacks show as the line. -/
abbrev ShowsLine (n : Net) (addr : Nat) (q : Queue Nat) (line : Rendezvous Entry Waiter) : Prop :=
  Rendezvous.Alike ShowsItem (ShowsWaiter n addr) ⟨q.items, q.callbacks⟩ line

theorem ShowsLine.of_shows {ref : RefQueue Nat} (hs : Shows q ref)
    (h : Rendezvous.Alike ShowsItem (ShowsWaiter n addr) ref line) : ShowsLine n addr q line :=
  ⟨hs.items ▸ h.items, hs.waiters ▸ h.waiters⟩

theorem shows_self (hc : Counted q) : Shows q ⟨q.items, q.callbacks⟩ := ⟨rfl, rfl, hc⟩

/-- Taking an item is taking an entry. -/
theorem queueTake_line (hc : Counted q) (h : ShowsLine n addr q line) (key : Option CStr)
    (heap : Heap) :
    (∃ heap', queueTake key q heap = (none, q, heap') ∧
      line.take entryWants key = (line, none)) ∨
    ∃ i x q' heap' line', queueTake key q heap = (some i, q', heap') ∧
      line.take entryWants key = (line', some x) ∧ ShowsItem i x ∧ q'.addr = q.addr ∧
      ShowsLine n addr q' line' := by
  obtain ⟨q', heap', ht, hs, haddr, hsame⟩ := queueTake_shows (shows_self hc) key heap
  rcases h.take (fun i x hi => wants_shown hi key) with
    ⟨hn, hn', -, hline⟩ | ⟨i, x, hi, hx, hix, halike⟩
  · rw [hn] at ht hsame
    rw [(hsame rfl).1] at ht
    exact .inl ⟨heap', ht, Prod.ext hline hn'⟩
  · rw [hi] at ht
    exact .inr ⟨i, x, q', heap', _, ht, Prod.ext rfl hx, hix, haddr, .of_shows hs halike⟩

/-- Peeking at an item is peeking at an entry. -/
theorem queuePeek_line (hc : Counted q) (h : ShowsLine n addr q line) (key : Option CStr)
    (heap : Heap) :
    (∃ heap', queuePeek key q heap = (none, heap') ∧ line.peek entryWants key = none) ∨
    ∃ i x heap', queuePeek key q heap = (some i, heap') ∧
      line.peek entryWants key = some x ∧ ShowsItem i x := by
  have hp := queuePeek_shows (shows_self hc) key heap
  rw [Rendezvous.peek_eq_take] at hp
  rw [Rendezvous.peek_eq_take]
  rcases h.take (fun i x hi => wants_shown hi key) with ⟨hn, hn', -, -⟩ | ⟨i, x, hi, hx, hix, -⟩
  · exact .inl ⟨_, Prod.ext (hp.trans hn) rfl, hn'⟩
  · exact .inr ⟨i, x, _, Prod.ext (hp.trans hi) rfl, hx, hix⟩

/-- Putting an item is putting an entry: it is stored, or the callback of the
waiter that gets the entry is called with it and removed. -/
theorem queuePut_line {σ : Type} (call : Nat → QueueItem → Heap × σ → Heap × σ) (hc : Counted q)
    (h : ShowsLine n addr q line) {ok : Outcome} {id : Nat} {key : Option CStr} {value : CStr}
    {i : QueueItem} (hi : queuePutItem ok id q.addr key value = some i) (m : Heap × σ) :
    (∃ q' heap line', queuePut call ok id key value q m = (q', (heap, m.2), 0) ∧
      line.put entryWants Waiter.key ⟨key, value⟩ = (line', none) ∧ q'.addr = q.addr ∧
      ShowsLine n addr q' line') ∨
    ∃ q' heap line' cb w, queuePut call ok id key value q m =
        (q', (heap, (call cb.arg i (m.1.calloc id, m.2)).2), 1) ∧
      line.put entryWants Waiter.key ⟨key, value⟩ = (line', some w) ∧ q'.addr = q.addr ∧
      ShowsWaiter n addr cb w ∧ q.callbacks.Perm (cb :: q'.callbacks) ∧
      ShowsLine n addr q' line' := by
  have hix : ShowsItem i ⟨key, value⟩ := by
    rw [queuePutItem_eq hi]
    exact ⟨rfl, rfl⟩
  rcases h.put wants QueueCallback.key entryWants Waiter.key hix (fun cb w hw => by rw [hw.key, wants_shown hix]) with
    ⟨hn, hn', halike⟩ | ⟨cb, w, hcb, hw, hcw, halike⟩
  · obtain ⟨q', hq, hs, haddr⟩ := queuePut_stored call (shows_self hc) hi m (Prod.ext rfl hn)
    exact .inl ⟨q', _, _, hq, Prod.ext rfl hn', haddr, .of_shows hs halike⟩
  · obtain ⟨q', hq, hs, haddr⟩ := queuePut_handed call (shows_self hc) hi m (Prod.ext rfl hcb)
    refine .inr ⟨q', _, _, cb, w, hq, Prod.ext rfl hw, haddr, hcw, ?_, .of_shows hs halike⟩
    rw [hs.waiters]
    exact Rendezvous.put_perm hcb

/-- Waiting for an item is waiting for an entry: one is there, and the callback
is called with it, or the callback waits. -/
theorem queueWait_line {σ : Type} (call : Nat → QueueItem → Heap × σ → Heap × σ) (hc : Counted q)
    (h : ShowsLine n addr q line) {ok : Outcome} (hok : ∀ c, ok c = true) (key : Option CStr)
    (arg : Nat) {w : Waiter} (hw : w.key = key) (m : Heap × σ) :
    (∃ i x q' heap heap' line', queueWait call ok key arg q m =
        (q', (heap', (call arg i (heap, m.2)).2), 1) ∧
      line.wait entryWants Waiter.key w = (line', some x) ∧ ShowsItem i x ∧ q'.addr = q.addr ∧
      q'.callbacks = q.callbacks ∧ ShowsLine n addr q' line') ∨
    ∃ heap, queueWait call ok key arg q m = (q.insertCallback ⟨key, arg⟩, (heap, m.2), 0) ∧
      line.wait entryWants Waiter.key w =
        ({ line with waiters := line.waiters ++ [w] }, none) := by
  have hnew : queueCallbackNew_ ok key = true := by simp [queueCallbackNew_, hok]
  unfold queueWait Rendezvous.wait
  rw [hw]
  have hcb : ∀ {item q' heap'}, queueTake key q m.1 = (item, q', heap') →
      q'.callbacks = q.callbacks := by
    intro item q' heap' ht
    rcases queueTake_cases key q m.1 with ⟨h', ht'⟩ | ⟨i, rest, h', ht'⟩ <;>
    · rw [ht'] at ht
      cases ht
      rfl
  rcases queueTake_line hc h key m.1 with ⟨heap, ht, hl⟩ | ⟨i, x, q', heap, line', ht, hl, hix, ha, hs⟩
  · rw [ht, hl]
    exact .inr ⟨heap, by simp only [hnew, if_true], rfl⟩
  · rw [ht, hl]
    exact .inl ⟨i, x, q', heap, _, line', rfl, rfl, hix, ha, hcb ht, hs⟩

end

theorem entry_json {i : QueueItem} {x : Entry} (h : ShowsItem i x) :
    (Payload.item i).json = x.json := by rw [Payload.json, Entry.json, h.key, h.value]

theorem protocolCreateBase_ok {ok : BaseCall → Bool} (hok : ∀ c, ok c = true) (success : Bool)
    (message : Option Failure) (payload : Option Payload) :
    protocolCreateBase ok success message payload = some ⟨success, message, payload⟩ := by
  simp [protocolCreateBase, hok]

/-- The text of a success. -/
theorem success_json (payload : Option Payload) :
    (⟨true, none, payload⟩ : Body).json = successJson (payload.map Payload.json) := rfl

/-- The text of a failure. -/
theorem failure_json {message : Failure} (hm : message ≠ .cannotDescribe) :
    (⟨false, some message, none⟩ : Body).json = failureJson message := by
  unfold Body.json
  rw [if_neg (by simpa [protocolFailureFallback] using hm)]
  rfl

theorem wsError_ok {e : Sending} (he : ∀ c, e.ok c = true) (c : Nat) (message : Failure)
    (n : Net) : connectionWsError_ e c message n =
      evwsConnectionSend_ e.wslay c ⟨false, some message, none⟩ n := by
  simp [connectionWsError_, connectionWsJson_, protocolCreateFailure, bodyText, he,
    protocolCreateBase_ok]

theorem wsPayload_ok {e : Sending} (he : ∀ c, e.ok c = true) (c : Nat) (payload : Payload)
    (n : Net) : connectionWsPayload_ e c payload n =
      evwsConnectionSend_ e.wslay c ⟨true, none, some payload⟩ n := by
  simp [connectionWsPayload_, connectionWsJson_, payloadBody, protocolCreateSuccess, bodyText, he,
    protocolCreateBase_ok]

/-- A failure is sent on the link. -/
theorem wsError_view {e : Sending} (he : ∀ c, e.ok c = true) (hl : Linked n t) (c : Nat)
    {message : Failure} (hm : message ≠ .cannotDescribe) :
    Linked (connectionWsError_ e c message n)
        (t.send c (sendFate e.wslay) (failureJson message)).1 ∧
      Adds sentOf n (t.send c (sendFate e.wslay) (failureJson message)).2
        (connectionWsError_ e c message n) ∧
      Fades All n (connectionWsError_ e c message n) := by
  rw [wsError_ok he, ← failure_json hm]
  obtain ⟨hl', ha⟩ := send_view hl e.wslay c ⟨false, some message, none⟩
  exact ⟨hl', ha, fades_send ..⟩

theorem find_want {ws : List Want} (hn : (ws.map (·.id)).Nodup) {v : Want} (hv : v ∈ ws) :
    ws.find? (·.id == v.id) = some v := by
  obtain ⟨w, hw⟩ : ∃ w, ws.find? (·.id == v.id) = some w :=
    Option.isSome_iff_exists.mp (List.find?_isSome.mpr ⟨v, hv, beq_self_eq_true v.id⟩)
  have hid : w.id = v.id := by simpa using List.find?_some hw
  rw [hw, List.inj_on_of_nodup_map hn (List.mem_of_find?_eq_some hw) hv hid]

/-- Removing a want keeps the others. -/
theorem fades_free (id : Nat) (n : Net) :
    Fades (fun v => v.id ≠ id) n { n with wants := managerQueueWantFree id n.wants } where
  want v hv hne := ⟨v, List.mem_filter.mpr ⟨hv, bne_iff_ne.mpr hne⟩, .refl v, .inl⟩
  active _ _ _ h := h

/-- What the callback of a waiter does: it sends the entry on the waiter's link,
and removes the want. -/
theorem callback_view {e : Sending} (he : ∀ c, e.ok c = true) (hn : (n.wants.map (·.id)).Nodup)
    {addr : Nat} {cb : QueueCallback Nat} {w : Waiter} (hw : ShowsWaiter n addr cb w)
    {i : QueueItem} {x : Entry} (hi : ShowsItem i x) (hl : Linked n t) (h : Heap) :
    let n' := (connectionQueueCallbackWait_ e cb.arg i (h, n)).2
    let p := t.send w.client (sendFate e.wslay) (successJson (some (answerJson w.identifier x.json)))
    Linked n' p.1 ∧ Adds sentOf n p.2 n' ∧ Fades (fun v => v.id ≠ cb.arg) n n' := by
  obtain ⟨v, hv, hid, -, hcl, hident, hc⟩ := hw.want
  have hfind := find_want hn hv
  rw [hid] at hfind
  have henc : protocolEncodeItem e.ok i = true := by simp [protocolEncodeItem, he]
  dsimp only
  unfold connectionQueueCallbackWait_
  simp only [hfind]
  cases hcancel : v.cancelled with
  | true =>
    -- the want was cancelled, so the link takes nothing
    have hsend : ∀ json, t.send w.client (sendFate e.wslay) json = (t, []) := by
      intro json
      unfold Service.send
      cases hlink : t.link w.client with
      | none => rfl
      | some l =>
        have hx : linkOf (n.conn w.client) = some l := (hl _).symm.trans hlink
        unfold linkOf at hx
        split at hx <;> cases hx
        simp [hc hcancel]
    rw [hsend]
    exact ⟨hl.same rfl, .refl n, fades_free cb.arg n⟩
  | false =>
    simp only [he, henc, Bool.not_true, Bool.or_self, Bool.false_eq_true, if_false, wsPayload_ok he]
    obtain ⟨hl', ha⟩ := send_view hl e.wslay v.client ⟨true, none, some (.answer v.id v.identifier i)⟩
    have hjson : (⟨true, none, some (.answer v.id v.identifier i)⟩ : Body).json =
        successJson (some (answerJson w.identifier x.json)) := by
      rw [success_json, Option.map_some, Payload.json, hident, Entry.json, hi.key, hi.value]
    rw [hjson, hcl] at hl' ha
    rw [hcl]
    have hsend : Fades (fun u => u.id ≠ cb.arg) n
        (evwsConnectionSend_ e.wslay w.client ⟨true, none, some (.answer v.id v.identifier i)⟩ n) :=
      (Fades.refl _ n).trans (fades_send ..) fun _ _ _ _ => trivial
    exact ⟨hl'.same rfl, ha, hsend.trans (fades_free ..) fun u u' hu hne => hu.id ▸ hne⟩

end DQ.Proof.Service
