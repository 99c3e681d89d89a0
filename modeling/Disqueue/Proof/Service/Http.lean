import Disqueue.Proof.Service.Clients
import Disqueue.Proof.Service.Rooms

/-!
# Requests to the service

Each handler does what the service does with the request, if nothing fails: it
sends the same, and the server then shows as the service then is (`ask_view`).
-/

namespace DQ.Proof.Service

open DQ.Model DQ.Spec DQ.Proof.Queue DQ.Proof.Server DQ.Proof.Wants

variable {dm : DataModel} {r : Request} {s s' s'' : Server} {t t' : Service} {n : Net}
  {out out' : List Sent}

/-! ## What is said -/

/-- From `s` to `s'` nothing but `out` was sent. -/
structure Says (s : Server) (out : List Sent) (s' : Server) : Prop where
  queues : s'.queues = s.queues
  next : s'.next = s.next
  wants : s'.net.wants = s.net.wants
  conn : s'.net.conn = s.net.conn
  sent : Adds sentOf s.net out s'.net

theorem Says.trans (h : Says s out s') (h' : Says s' out' s'') : Says s (out ++ out') s'' :=
  ⟨h'.queues.trans h.queues, h'.next.trans h.next, h'.wants.trans h.wants, h'.conn.trans h.conn,
    h.sent.trans h'.sent⟩

theorem Says.fades (h : Says s out s') : Fades All s.net s'.net := fades_same h.wants h.conn

theorem Says.view (h : Says s out s') (hv : View s t) : View s' t where
  rooms := h.queues ▸ rooms_all hv.rooms h.fades
  link := hv.link.same h.conn
  next := hv.next.trans h.next.symm

theorem Says.reaches (h : Says s out s') (hv : View s t) : Reaches s.net s' (t, out) :=
  ⟨h.view hv, h.sent⟩

theorem Reaches.told (h : Reaches n s (t, out)) (hs : Says s out' s') :
    Reaches n s' (t, out ++ out') :=
  ⟨hs.view h.view, h.sent.trans hs.sent⟩

/-- Nothing of the heap shows. -/
theorem Reaches.heap {p : Service × List Sent} (h : Reaches n s p) (heap : Heap) :
    Reaches n { s with heap } p :=
  ⟨⟨h.view.rooms, h.view.link, h.view.next⟩, h.sent⟩

theorem says_reads (h : Reads s s') : Says s [] s' := by
  have he := h.emits
  obtain ⟨k, rfl⟩ := h
  exact ⟨he.queues, he.next, he.wants, he.conn, _, rfl, by simp [sentOf]⟩

theorem says_param (r : Request) (name : CStr) (s : Server) : Says s [] (findParam r name s).2 :=
  says_reads ((Reads.refl s).findParam r name)

theorem says_json (hok : ∀ c, r.ok c = true) (e : Endpoint) (params : Bool) (code : Nat) (b : Body)
    (s : Server) :
    Says s [.reply code b.json] (connectionHttpJson_ r e params code (some b) s) := by
  unfold connectionHttpJson_ bodyText
  rw [if_pos (hok _)]
  cases params with
  | true => exact ⟨rfl, rfl, rfl, rfl, [.reply s.next e code b, .params s.next .clear],
      List.append_assoc .., rfl⟩
  | false => exact ⟨rfl, rfl, rfl, rfl, [.reply s.next e code b], rfl, rfl⟩

theorem says_error (hok : ∀ c, r.ok c = true) (e : Endpoint) (params : Bool) (code : Nat)
    {message : Failure} (hm : message ≠ .cannotDescribe) (s : Server) :
    Says s (Service.refuse (if code = 0 then 500 else code) message)
      (connectionHttpError_ r e params code message s) := by
  unfold connectionHttpError_ protocolCreateFailure Service.refuse
  rw [protocolCreateBase_ok fun c => hok (.failure c), ← failure_json hm]
  exact says_json hok ..

theorem says_payload (hok : ∀ c, r.ok c = true) (e : Endpoint) (payload : Option Payload)
    (s : Server) :
    Says s (Service.grant (payload.map Payload.json)) (connectionHttpPayload_ r e payload s) := by
  unfold connectionHttpPayload_ protocolCreateSuccess Service.grant
  rw [protocolCreateBase_ok fun c => hok (.success c), ← success_json]
  exact says_json hok ..

/-! ## Looking a room up -/

/-- What the service is told about new queues. -/
def makes (dm : DataModel) (r : Request) (createNew : Bool) : Option (Option CStr) :=
  if createNew then some (newId dm r) else none

/-- The lookup that every handler of a queue starts with. -/
theorem lookup_cases (dm : DataModel) (hok : ∀ c, r.ok c = true) (hv : View s t) (e : Endpoint)
    (createNew : Bool) :
    (∃ s' code f, connectionHttpQueue_ dm r e createNew s = (s', none) ∧
      Service.lookup (evhttpFindHeader r.params nameKey) (makes dm r createNew) t.rooms =
        .error (code, f) ∧
      Reaches s.net s' (t, Service.refuse code f)) ∨
    ∃ f p s', connectionHttpQueue_ dm r e createNew s = ({ s' with queues := f.registry }, some f) ∧
      requested dm r createNew s = some f ∧
      Service.lookup (evhttpFindHeader r.params nameKey) (makes dm r createNew) t.rooms = .ok p ∧
      ShowsPlace s.net f p ∧ Says s [] s' := by
  have hget : requested dm r createNew s = managerQueueGet dm (r.supply s.next)
      (evhttpFindHeader r.params nameKey) createNew s.queues := by simp [requested, hok]
  have hmade : idMade dm (r.supply s.next) (evhttpFindHeader r.params nameKey) = newId dm r := by
    unfold idMade newId
    cases evhttpFindHeader r.params nameKey <;> rfl
  have hshows := get_shows dm hv.rooms (e := r.supply s.next) hok
    (evhttpFindHeader r.params nameKey) createNew
  rw [hmade, ← hget] at hshows
  rcases queue_cases dm r e createNew s with ⟨hf, s', hreads, hq⟩ | ⟨f, s', hf, hreads, hq⟩
  · rw [hf] at hshows
    obtain ⟨-, hl⟩ | ⟨f, p, hn, -⟩ := hshows <;> [skip; cases hn]
    refine .inl ⟨_, (lookupFailed (evhttpFindHeader r.params nameKey) createNew).1,
      (lookupFailed (evhttpFindHeader r.params nameKey) createNew).2, hq, hl, ?_⟩
    have herr : lookupFailed (evhttpFindHeader r.params nameKey) createNew =
        (if (lookupError r createNew).1 = 0 then 500 else (lookupError r createNew).1,
          (lookupError r createNew).2) := by
      simp only [lookupError, lookupFailed, hok, Bool.and_self, if_true]
      split
      · rfl
      · cases createNew <;> rfl
    have hne : (lookupError r createNew).2 ≠ .cannotDescribe := by
      unfold lookupError
      repeat (first | exact Failure.noConfusion | split)
    have htold := (says_reads hreads).trans
      (says_error hok e true (lookupError r createNew).1 hne s')
    rw [herr]
    exact htold.reaches hv
  · rw [hf] at hshows
    obtain ⟨hn, -⟩ | ⟨f', p, hn, hl, hp⟩ := hshows <;> [cases hn; skip]
    cases hn
    exact .inr ⟨f, p, s', hq, hf, hl, hp, says_reads hreads⟩

/-- The queue found counts its items and callbacks. -/
theorem counted_requested (hr : Ready s) {createNew : Bool} {f : Found}
    (hf : requested dm r createNew s = some f) : Counted f.mq.q :=
  allCounted_found (allCounted_get (requested_get hf) hr.good.2)

/-! ## The handlers -/

theorem listForeach_ok {ok : Outcome} (hok : ∀ c, ok c = true) (i : Nat) (qs : List ManagerQueue) :
    listForeach ok i qs = some (qs.map (·.id)) := by
  induction qs generalizing i with
  | nil => rfl
  | cons m ms ih => simp [listForeach, hok, ih]

theorem list_view (hok : ∀ c, r.ok c = true) (hv : View s t) :
    Reaches s.net (connectionHttpCallbackList_ r s) (t.ask .list) := by
  have hread : connectionHttpRead_ r .list s = (s, true) := by simp [connectionHttpRead_, hok]
  unfold connectionHttpCallbackList_
  simp only [hread, hok, listForeach_ok hok, Bool.not_true, Bool.false_eq_true, if_false]
  have hs := says_payload hok .list (some (.names (s.queues.map (·.id)))) s
  rw [names_shown hv.rooms] at hs
  rw [names_shown hv.rooms]
  exact hs.reaches hv

theorem info_view (hok : ∀ c, r.ok c = true) (hv : View s t) :
    Reaches s.net (connectionHttpCallbackInfo_ dm r s)
      (t.ask (.info (evhttpFindHeader r.params nameKey))) := by
  unfold connectionHttpCallbackInfo_ Service.ask
  rcases lookup_cases dm hok hv .info false with
    ⟨s', code, f, hq, hl, hs⟩ | ⟨f, p, s', hq, hf, hl, hp, hs⟩
  · simp only [hq, show Service.lookup _ none t.rooms = _ from hl]
    exact hs
  · have hfound : f.registry = s'.queues := (reached_found hf).symm.trans hs.queues.symm
    simp only [hq, show Service.lookup _ none t.rooms = _ from hl, hok, Bool.not_true,
      Bool.or_self, Bool.false_eq_true, if_false, hfound]
    have htold := hs.trans (says_payload hok .info (some (.info f.mq.id)) s')
    rw [hp.room.name] at htold ⊢
    exact htold.reaches hv

/-- The state with other queues, after something was said. -/
theorem Says.placed (h : Says s out s') (hv : View s t) {qs : List ManagerQueue} {rooms : List Room}
    (hrooms : List.Forall₂ (ShowsRoom s.net) qs rooms) (heap : Heap) :
    View { s' with queues := qs, heap } { t with rooms } where
  rooms := rooms_all hrooms h.fades
  link := hv.link.same h.conn
  next := hv.next.trans h.next.symm

theorem new_view (hok : ∀ c, r.ok c = true) (hv : View s t) :
    Reaches s.net (connectionHttpCallbackNew_ dm r s)
      (t.ask (.create (evhttpFindHeader r.params nameKey) (newId dm r))) := by
  unfold connectionHttpCallbackNew_ Service.ask
  rcases lookup_cases dm hok hv .new true with
    ⟨s', code, f, hq, hl, hs⟩ | ⟨f, p, s', hq, hf, hl, hp, hs⟩
  · simp only [hq, show Service.lookup _ (some (newId dm r)) t.rooms = _ from hl]
    exact hs
  · simp only [hq, show Service.lookup _ (some (newId dm r)) t.rooms = _ from hl, hok,
      Bool.not_true, Bool.false_eq_true, if_false]
    have hplaced : Reaches s.net { s' with queues := f.registry }
        ({ t with rooms := p.set p.room.line }, []) :=
      ⟨hs.placed hv hp.registry s'.heap, hs.sent⟩
    have htold := says_payload hok .new (some (.name f.mq.id)) { s' with queues := f.registry }
    rw [hp.room.name] at htold ⊢
    exact hplaced.told htold

/-- The queues but the one found are at other addresses. -/
theorem addr_others (hr : Ready s) {f : Found} (hf : requested dm r true s = some f) :
    ∀ m ∈ f.free, m.q.addr ≠ f.mq.q.addr := by
  intro m hm heq
  rcases managerQueueGet_some (requested_get hf) with hreg | hnew
  · have hn := hr.addressed.nodup
    rw [addresses, hreg, Found.registry, Registry.keys, List.map_map, List.map_append, List.map_cons]
      at hn
    obtain ⟨-, hn, hd⟩ := List.nodup_append.mp hn
    obtain ⟨hpost, -⟩ := List.nodup_cons.mp hn
    rcases List.mem_append.mp hm with hm | hm
    · exact hd _ (List.mem_map_of_mem hm) _ List.mem_cons_self heq
    · exact hpost (List.mem_map.mpr ⟨m, hm, heq⟩)
  · rw [Registry.isNew_free hnew] at hm
    have hlt := hr.addressed.lt m.q.addr (by
      unfold addresses Registry.keys
      rw [List.map_map]
      exact List.mem_map_of_mem hm)
    rw [heq, hnew.addr] at hlt
    exact Nat.lt_irrefl _ hlt

/-- The wants of other queues are kept. -/
theorem fades_remove (addr : Nat) (n : Net) :
    Fades (fun v => v.queue ≠ addr) n { n with wants := managerQueueWantRemove addr n.wants } where
  want v hv hne := ⟨v, List.mem_map.mpr ⟨v, hv, if_neg hne⟩, .refl v, .inl⟩
  active _ _ _ h := h

theorem delete_view (hok : ∀ c, r.ok c = true) (hr : Ready s) (hv : View s t) :
    Reaches s.net (connectionHttpCallbackDelete_ dm r s)
      (t.ask (.delete (evhttpFindHeader r.params nameKey) (newId dm r))) := by
  unfold connectionHttpCallbackDelete_ Service.ask
  rcases lookup_cases dm hok hv .delete true with
    ⟨s', code, f, hq, hl, hs⟩ | ⟨f, p, s', hq, hf, hl, hp, hs⟩
  · simp only [hq, show Service.lookup _ (some (newId dm r)) t.rooms = _ from hl]
    exact hs
  · simp only [hq, show Service.lookup _ (some (newId dm r)) t.rooms = _ from hl]
    have hplaced : Reaches s.net
        (managerQueueFree f { s' with
          queues := f.registry
          net.wants := managerQueueWantRemove f.mq.q.addr s'.net.wants })
        ({ t with rooms := p.free }, []) := by
      refine ⟨⟨?_, hv.link.same hs.conn, hv.next.trans hs.next.symm⟩,
        hs.sent.trans (adds_free (fun _ => rfl) f _)⟩
      refine rooms_fade (rooms_all hp.free hs.fades)
        ((fades_remove f.mq.q.addr s'.net).trans (fades_same rfl rfl) fun _ _ _ _ => trivial) ?_
      exact fun m hm cb _ v _ hq => hq ▸ addr_others hr hf m hm
    exact hplaced.told (says_payload hok .delete none _)

theorem take_view (hok : ∀ c, r.ok c = true) (hr : Ready s) (hv : View s t) :
    Reaches s.net (connectionHttpCallbackTake dm r s)
      (t.ask (.take (evhttpFindHeader r.params nameKey) (evhttpFindHeader r.params keyKey))) := by
  unfold connectionHttpCallbackTake Service.ask
  rcases lookup_cases dm hok hv .take false with
    ⟨s', code, f, hq, hl, hs⟩ | ⟨f, p, s', hq, hf, hl, hp, hs⟩
  · simp only [hq, show Service.lookup _ none t.rooms = _ from hl]
    exact hs
  · have hfound : f.registry = s'.queues := (reached_found hf).symm.trans hs.queues.symm
    simp only [hq, show Service.lookup _ none t.rooms = _ from hl, hfound]
    have hs₁ : Says s [] (findParam r keyKey s').2 := hs.trans (says_param r keyKey s')
    have hkey : findParam r keyKey s' =
      (evhttpFindHeader r.params keyKey, (findParam r keyKey s').2) := rfl
    rw [hkey]
    generalize (findParam r keyKey s').2 = s₁ at hs₁ ⊢
    dsimp only
    rcases queueTake_line (counted_requested hr hf) hp.room.line (evhttpFindHeader r.params keyKey)
        s₁.heap with ⟨heap, ht, hline⟩ | ⟨i, x, q', heap, line, ht, hline, hix, haddr, hq'⟩
    · rw [ht, hline]
      dsimp only
      have hplaced : Reaches s.net { s₁ with queues := f.set f.mq.q, heap } (t, []) := by
        refine ⟨⟨?_, hv.link.same hs₁.conn, hv.next.trans hs₁.next.symm⟩, hs₁.sent⟩
        have hset : f.set f.mq.q = s.queues := (reached_found hf).symm
        exact hset ▸ rooms_all hv.rooms hs₁.fades
      exact hplaced.told (says_error hok .take true 404 Failure.noConfusion _)
    · rw [ht, hline]
      have henc : protocolEncodeItem r.ok i = true := by simp [protocolEncodeItem, hok]
      simp only [henc, Bool.not_true, Bool.false_eq_true, if_false]
      have hset := hp.set (q := q') (haddr.symm ▸ hq')
      have hplaced : Reaches s.net { s₁ with queues := f.set q', heap := heap.read i.id }
          ({ t with rooms := p.set line }, []) := ⟨hs₁.placed hv hset _, hs₁.sent⟩
      have hreach := hplaced.told (says_payload hok .take (some (.item i)) _)
      rw [Option.map_some, entry_json hix] at hreach
      exact hreach.heap _

theorem peek_view (hok : ∀ c, r.ok c = true) (hr : Ready s) (hv : View s t) :
    Reaches s.net (connectionHttpCallbackPeek dm r s)
      (t.ask (.peek (evhttpFindHeader r.params nameKey) (evhttpFindHeader r.params keyKey))) := by
  unfold connectionHttpCallbackPeek Service.ask
  rcases lookup_cases dm hok hv .peek false with
    ⟨s', code, f, hq, hl, hs⟩ | ⟨f, p, s', hq, hf, hl, hp, hs⟩
  · simp only [hq, show Service.lookup _ none t.rooms = _ from hl]
    exact hs
  · have hfound : f.registry = s'.queues := (reached_found hf).symm.trans hs.queues.symm
    simp only [hq, show Service.lookup _ none t.rooms = _ from hl, hfound]
    have hs₁ : Says s [] (findParam r keyKey s').2 := hs.trans (says_param r keyKey s')
    have hkey : findParam r keyKey s' =
      (evhttpFindHeader r.params keyKey, (findParam r keyKey s').2) := rfl
    rw [hkey]
    generalize (findParam r keyKey s').2 = s₁ at hs₁ ⊢
    dsimp only
    have hplaced := hs₁.reaches hv
    rcases queuePeek_line (counted_requested hr hf) hp.room.line (evhttpFindHeader r.params keyKey)
        s₁.heap with ⟨heap, ht, hline⟩ | ⟨i, x, heap, ht, hline, hix⟩
    · rw [ht, hline]
      exact (hplaced.heap heap).told (says_error hok .peek true 404 Failure.noConfusion _)
    · rw [ht, hline]
      have henc : protocolEncodeItem r.ok i = true := by simp [protocolEncodeItem, hok]
      simp only [henc, Bool.not_true, Bool.false_eq_true, if_false]
      have hreach := (hplaced.heap ((queueItemLock heap i.id).read i.id)).told
        (says_payload hok .peek (some (.item i)) _)
      rw [Option.map_some, entry_json hix] at hreach
      exact hreach.heap _

/-- The callbacks but the one called wait for other wants. -/
theorem args_others (hr : Ready s) {f : Found} (hf : s.queues = f.registry) {q' : Queue Nat}
    {cb : QueueCallback Nat} (hcb : f.mq.q.callbacks.Perm (cb :: q'.callbacks)) :
    (∀ m ∈ f.free, ∀ cb' ∈ m.q.callbacks, cb'.arg ≠ cb.arg) ∧
      ∀ cb' ∈ q'.callbacks, cb'.arg ≠ cb.arg := by
  have hperm : (waiting s).Perm ((f.mq.q.addr, cb) ::
      (q'.callbacks.map (fun cb => (f.mq.q.addr, cb)) ++ waitingIn f.free)) :=
    (waiting_of_found hf).trans ((hcb.map _).append_right _)
  obtain ⟨hne, -⟩ := nodup_perm_cons hr.good.1.waiting_nodup hperm
  refine ⟨fun m hm cb' hcb' => ?_, fun cb' hcb' => ?_⟩
  · refine hne (m.q.addr, cb') (List.mem_append_right _ ?_)
    exact List.mem_flatMap.mpr ⟨m, hm, List.mem_map_of_mem hcb'⟩
  · exact hne (f.mq.q.addr, cb') (List.mem_append_left _ (List.mem_map_of_mem hcb'))

/-- The rooms after a waiter was served: its want is gone, and no other room or
waiter is affected. -/
theorem place_served (hr : Ready s) {f : Found} {p : Service.Place} (hf : s.queues = f.registry)
    {q' : Queue Nat} {line : Rendezvous Entry Waiter} {cb : QueueCallback Nat}
    (hcb : f.mq.q.callbacks.Perm (cb :: q'.callbacks)) (hp : ShowsPlace n f p)
    (haddr : q'.addr = f.mq.q.addr) (hq' : ShowsLine n f.mq.q.addr q' line) {n' : Net}
    (hn' : Fades (fun v => v.id ≠ cb.arg) n n') :
    List.Forall₂ (ShowsRoom n') (f.set q') (p.set line) := by
  obtain ⟨hfree, hself⟩ := args_others hr hf hcb
  refine rooms_fade (hp.set (haddr.symm ▸ hq')) hn' ?_
  intro m hm cb' hcb' v hid _
  rw [hid]
  rcases List.mem_append.mp hm with hm | hm
  · exact hfree m (List.mem_append_left _ hm) cb' hcb'
  · rcases List.mem_cons.mp hm with rfl | hm
    · exact hself cb' hcb'
    · exact hfree m (List.mem_append_right _ hm) cb' hcb'

theorem put_view (hok : ∀ c, r.ok c = true) (he : ∀ c, r.answer.ok c = true) (hr : Ready s)
    (hv : View s t) :
    Reaches s.net (connectionHttpCallbackPut dm r s)
      (t.ask (.put (evhttpFindHeader r.params nameKey) (evhttpFindHeader r.params keyKey)
        (evhttpFindHeader r.params valueKey) (sendFate r.answer.wslay))) := by
  unfold connectionHttpCallbackPut Service.ask
  rcases lookup_cases dm hok hv .put false with
    ⟨s', code, f, hq, hl, hs⟩ | ⟨f, p, s', hq, hf, hl, hp, hs⟩
  · simp only [hq, show Service.lookup _ none t.rooms = _ from hl]
    exact hs
  · have hfound : f.registry = s'.queues := (reached_found hf).symm.trans hs.queues.symm
    simp only [hq, show Service.lookup _ none t.rooms = _ from hl, hfound]
    have hs₂ : Says s [] (findParam r valueKey (findParam r keyKey s').2).2 :=
      (hs.trans (says_param r keyKey s')).trans (says_param r valueKey _)
    have hkey : findParam r keyKey s' =
      (evhttpFindHeader r.params keyKey, (findParam r keyKey s').2) := rfl
    rw [hkey]
    dsimp only
    generalize (findParam r keyKey s').2 = s₁ at hs₂ ⊢
    have hvalue : findParam r valueKey s₁ =
      (evhttpFindHeader r.params valueKey, (findParam r valueKey s₁).2) := rfl
    rw [hvalue]
    generalize (findParam r valueKey s₁).2 = s₂ at hs₂ ⊢
    dsimp only
    cases evhttpFindHeader r.params valueKey with
    | none => exact (hs₂.reaches hv).told (says_error hok .put true 400 Failure.noConfusion _)
    | some value =>
      obtain ⟨i, hi⟩ : ∃ i, queuePutItem r.ok s₂.next f.mq.q.addr
          (evhttpFindHeader r.params keyKey) value = some i := by simp [queuePutItem, hok]
      simp only [hi]
      have hsaid : Adds sentOf s.net [] (s₂.net.emit (.put i)) :=
        hs₂.sent.trans (adds_quiet rfl s₂.net)
      have hlink : Linked (s₂.net.emit (.put i)) t := hv.link.same hs₂.conn
      have hp₂ : ShowsPlace (s₂.net.emit (.put i)) f p :=
        hp.fades (fades_same hs₂.wants hs₂.conn)
      have hnext : t.next = s₂.next := hv.next.trans hs₂.next.symm
      have hix : ShowsItem i ⟨evhttpFindHeader r.params keyKey, value⟩ := by
        rw [queuePutItem_eq hi]
        exact ⟨rfl, rfl⟩
      rcases queuePut_line (connectionQueueCallbackWait_ r.answer) (counted_requested hr hf)
          hp₂.room.line hi (s₂.heap, s₂.net.emit (.put i)) with
        ⟨q', heap, line, hq', hline, haddr, hshows⟩ |
          ⟨q', heap, line, cb, w, hq', hline, haddr, hcw, hperm, hshows⟩
      · rw [hq', hline]
        have hplaced : Reaches s.net
            { s₂ with queues := f.set q', heap, net := s₂.net.emit (.put i) }
            ({ t with rooms := p.set line }, []) :=
          ⟨⟨hp₂.set (haddr.symm ▸ hshows), hlink, hnext⟩, hsaid⟩
        exact hplaced.told (says_payload hok .put none _)
      · rw [hq', hline]
        have hnodup : ((s₂.net.emit (.put i)).wants.map (·.id)).Nodup :=
          (congrArg (fun ws => (ws.map Want.id).Nodup) hs₂.wants).mpr hr.clients.nodup
        have hplace : Linked (s₂.net.emit (.put i)) { t with rooms := p.set line } := hlink
        obtain ⟨hl', ha', hfades⟩ :=
          callback_view he hnodup hcw hix hplace (s₂.heap.calloc s₂.next)
        have hrooms := place_served hr (reached_found hf) hperm hp₂ haddr hshows hfades
        generalize (connectionQueueCallbackWait_ r.answer cb.arg i
          (s₂.heap.calloc s₂.next, s₂.net.emit (.put i))).2 = n' at hl' ha' hrooms ⊢
        have hplaced : Reaches s.net { s₂ with queues := f.set q', heap, net := n' } (_, _) :=
          ⟨⟨(send_rooms ..).symm ▸ hrooms, hl', (send_next ..).trans hnext⟩, hsaid.trans ha'⟩
        exact hplaced.told (says_payload hok .put none _)

variable (dm) in
/-- A request to the server is one to the service. -/
theorem ask_view (hok : ∀ c, r.ok c = true) (he : ∀ c, r.answer.ok c = true) (hr : Ready s)
    (hv : View s t) : Reaches s.net (connectionHttpCallback dm r s) (t.ask (askOf dm r)) := by
  have hmethod : Reaches s.net (connectionHttpError_ r .method false 405 .methodNotSupported s)
      (t.ask .unsupported) := (says_error hok .method false 405 Failure.noConfusion s).reaches hv
  unfold connectionHttpCallback askOf
  cases r.path with
  | queues =>
    dsimp only [connectionHttpCallbackQueues]
    cases r.method with
    | get => exact list_view hok hv
    | post => exact new_view hok hv
    | _ => exact hmethod
  | queue =>
    dsimp only [connectionHttpCallbackQueue]
    cases r.method with
    | post => exact info_view hok hv
    | delete => exact delete_view hok hr hv
    | _ => exact hmethod
  | take => exact take_view hok hr hv
  | peek => exact peek_view hok hr hv
  | put => exact put_view hok he hr hv

end DQ.Proof.Service
