import Disqueue.Proof.Service.Http

/-!
# Messages to the service

A want message does what the service does with it, if nothing fails
(`wait_view`), and so do the messages of a read (`notes_view`).
-/

namespace DQ.Proof.Service

open DQ.Model DQ.Spec DQ.Proof.Queue DQ.Proof.Server DQ.Proof.Wants

variable {dm : DataModel} {s : Server} {t : Service} {c : Nat} {m : Message}

/-! ## A want -/

/-- A new want disturbs no other. -/
theorem fades_withWant (n : Net) (w : Want) (key : Option CStr) :
    Fades All n (withWant n w key) where
  want v hv _ := ⟨v, List.mem_append_left _ hv, .refl v, .inl⟩
  active _ _ _ h := h

theorem nodup_withWant (hr : Ready s) {w : Want} (hw : w.id = s.next) (key : Option CStr) :
    ((withWant s.net w key).wants.map (·.id)).Nodup := by
  have hlt : ∀ v ∈ s.net.wants, v.id ≠ w.id := by
    intro v hv heq
    have hv := hr.good.1.wants_lt v hv
    rw [heq, hw] at hv
    exact Nat.lt_irrefl _ hv
  show ((s.net.wants ++ [w]).map (·.id)).Nodup
  rw [List.map_append]
  refine List.nodup_append.mpr ⟨hr.clients.nodup, List.nodup_singleton _, ?_⟩
  rintro a ha b hb
  obtain ⟨v, hv, rfl⟩ := List.mem_map.mp ha
  rw [List.mem_singleton.mp hb]
  exact hlt v hv

/-- The callbacks wait for wants that were made before. -/
theorem args_lt (hr : Ready s) {f : Found} (hf : s.queues = f.registry) {q' : Queue Nat}
    (hq : q'.callbacks = f.mq.q.callbacks) :
    ∀ m ∈ f.set q', ∀ cb ∈ m.q.callbacks, cb.arg < s.next := by
  have hmem : ∀ m ∈ s.queues, ∀ cb ∈ m.q.callbacks, cb.arg < s.next := fun m hm cb hcb =>
    waiting_lt hr.good.1 (m.q.addr, cb) (List.mem_flatMap.mpr ⟨m, hm, List.mem_map_of_mem hcb⟩)
  rw [hf, Found.registry] at hmem
  intro m hm cb hcb
  rcases List.mem_append.mp hm with hm | hm
  · exact hmem m (List.mem_append_left _ hm) cb hcb
  · rcases List.mem_cons.mp hm with rfl | hm
    · exact hmem f.mq (List.mem_append_right _ List.mem_cons_self) cb (hq ▸ hcb)
    · exact hmem m (List.mem_append_right _ (List.mem_cons_of_mem _ hm)) cb hcb

/-- A failure is sent on the link. -/
theorem error_view (he : ∀ c, m.env.ok c = true) (hv : View s t) (c : Nat) {message : Failure}
    (hm : message ≠ .cannotDescribe) :
    Reaches s.net { s with net := connectionWsError_ m.env c message s.net }
      (t.send c (sendFate m.env.wslay) (failureJson message)) := by
  obtain ⟨hl, ha, hf⟩ := wsError_view he hv.link c hm
  refine ⟨⟨?_, hl, (send_next ..).trans hv.next⟩, ha⟩
  rw [send_rooms]
  exact rooms_all hv.rooms hf

/-- What follows the making of a want. -/
theorem waited_view (he : ∀ c, m.env.ok c = true) (hr : Ready s) (hv : View s t) {f : Found}
    {p : Service.Place} (hf : s.queues = f.registry) (hp : ShowsPlace s.net f p) {w : Want}
    (hid : w.id = s.next) (hcl : w.client = c) (hq : w.queue = f.mq.q.addr)
    (hlive : w.cancelled = false) (key : Option CStr) :
    Reaches s.net
      (afterWait m c s w f (queueWait (connectionQueueCallbackWait_ m.env) m.env.ok key w.id f.mq.q
        (s.heap, withWant s.net w key)))
      (match p.room.line.wait entryWants Waiter.key ⟨c, w.identifier, key⟩ with
        | (line, none) => ({ t with rooms := p.set line }, [])
        | (line, some x) =>
          Service.send c (sendFate m.env.wslay)
            (successJson (some (answerJson w.identifier x.json))) { t with rooms := p.set line }) := by
  have hp₁ : ShowsPlace (withWant s.net w key) f p := hp.fades (fades_withWant ..)
  have hcw : ShowsWaiter (withWant s.net w key) f.mq.q.addr ⟨key, w.id⟩ ⟨c, w.identifier, key⟩ :=
    ⟨rfl, w, List.mem_append_right _ List.mem_cons_self, rfl, hq, hcl, rfl, by simp [hlive]⟩
  have hcounted : Counted f.mq.q := allCounted_found (hf ▸ hr.good.2)
  have hsaid : Adds sentOf s.net [] (withWant s.net w key) := ⟨[.want w key], rfl, rfl⟩
  have hlink : Linked (withWant s.net w key) { t with rooms := p.set p.room.line } := hv.link
  rcases queueWait_line (connectionQueueCallbackWait_ m.env) hcounted hp₁.room.line he key w.id
      (w := ⟨c, w.identifier, key⟩) rfl (s.heap, withWant s.net w key) with
    ⟨i, x, q', heap, heap', line, hw, hline, hix, haddr, hcbs, hshows⟩ | ⟨heap, hw, hline⟩
  · rw [hw, hline]
    have hplace : Linked (withWant s.net w key) { t with rooms := p.set line } := hv.link
    obtain ⟨hl', ha', hfades⟩ := callback_view he (nodup_withWant hr hid key) hcw hix hplace heap
    have hother : ∀ m ∈ f.set q', ∀ cb ∈ m.q.callbacks, ∀ v : Want, v.id = cb.arg →
        v.queue = m.q.addr → v.id ≠ w.id := by
      intro m hm cb hcb v hv _ heq
      have hlt := args_lt hr hf hcbs m hm cb hcb
      rw [← hv, heq, hid] at hlt
      exact Nat.lt_irrefl _ hlt
    have hrooms := rooms_fade (hp₁.set (haddr.symm ▸ hshows)) hfades hother
    simp only [afterWait, show ¬ (1 : Int) < 0 by decide, if_false]
    generalize (connectionQueueCallbackWait_ m.env w.id i (heap, withWant s.net w key)).2 = n'
      at hl' ha' hrooms ⊢
    exact ⟨⟨(send_rooms ..).symm ▸ hrooms, hl', (send_next ..).trans hv.next⟩, hsaid.trans ha'⟩
  · rw [hw, hline]
    simp only [afterWait, show ¬ (0 : Int) < 0 by decide, if_false]
    refine ⟨⟨hp₁.set ⟨hp₁.room.line.items, ?_⟩, hv.link, hv.next⟩, hsaid⟩
    exact List.rel_append hp₁.room.line.waiters (.cons hcw .nil)

variable (dm) in
/-- A want message to the server is one to the service. -/
theorem wait_view (he : ∀ c, m.env.ok c = true) (hr : Ready s) (hv : View s t) (c : Nat) :
    Reaches s.net (connectionWsCallbackWait dm m c s)
      (t.note c (.data m.text (sendFate m.env.wslay))) := by
  have hread : connectionWsRead_ m = m.text := by simp [connectionWsRead_, he]
  unfold connectionWsCallbackWait Service.note Service.wanted
  rw [hread]
  cases m.text with
  | none => exact error_view he hv c Failure.noConfusion
  | some request =>
    dsimp only
    cases request.identifier with
    | none => exact error_view he hv c Failure.noConfusion
    | some identifier =>
      dsimp only
      cases request.queue with
      | none => exact error_view he hv c Failure.noConfusion
      | some name =>
        dsimp only
        rcases get_shows dm hv.rooms (e := .unused m.env.ok s.next) he (some name) false with
          ⟨hg, hl⟩ | ⟨f, p, hg, hl, hp⟩
        · rw [hg, show Service.lookup (some name) none t.rooms = _ from hl]
          exact error_view he hv c Failure.noConfusion
        · have hw : managerQueueWantNew m.env.ok s.next identifier c f.mq.q.addr =
              some ⟨s.next, identifier, false, f.mq.q.addr, c⟩ := by simp [managerQueueWantNew, he]
          rw [hg, show Service.lookup (some name) none t.rooms = _ from hl]
          dsimp only
          rw [hw]
          have hreach := waited_view he hr hv (managerQueueGet_found hg) hp
            (w := ⟨s.next, identifier, false, f.mq.q.addr, c⟩) rfl rfl rfl rfl request.key
          revert hreach
          dsimp only
          rw [show ({ s.net with wants := s.net.wants ++ [⟨s.next, identifier, false, f.mq.q.addr, c⟩] } :
            Net).emit (.want ⟨s.next, identifier, false, f.mq.q.addr, c⟩ request.key) =
              withWant s.net ⟨s.next, identifier, false, f.mq.q.addr, c⟩ request.key from rfl]
          generalize queueWait (connectionQueueCallbackWait_ m.env) m.env.ok request.key s.next f.mq.q
            (s.heap, withWant s.net ⟨s.next, identifier, false, f.mq.q.addr, c⟩ request.key) = u
          obtain ⟨q, ⟨heap, n⟩, code⟩ := u
          unfold afterWait
          intro hreach
          dsimp only at hreach ⊢
          split
          · rename_i hneg
            rw [if_pos hneg] at hreach
            exact hreach
          · rename_i hneg
            rw [if_neg hneg] at hreach
            exact hreach

/-! ## The messages of a read -/

theorem ready_data (hr : Ready s) (c : Nat) : Ready (s.emit (.data c)) where
  good := ⟨hr.good.1.act (emits_quiet s rfl).act_same, hr.good.2⟩
  addressed := ⟨hr.addressed.nodup, hr.addressed.lt⟩
  clients := hr.clients.same rfl rfl (Nat.le_refl _)

variable (dm) in
/-- One message. -/
theorem note_view (he : ∀ c, m.env.ok c = true) (hr : Ready s) (hv : View s t) (c : Nat) :
    Reaches s.net (evwsWslayOnMsgCallback_ dm c s m) (Service.noteStep c t (noteOf m)) := by
  have hnext : t.next + 1 = s.next + 1 := congrArg (· + 1) hv.next
  have hnone : Reaches s.net { s with next := s.next + 1 } ({ t with next := t.next + 1 }, []) :=
    ⟨⟨hv.rooms, hv.link, hnext⟩, .refl s.net⟩
  unfold evwsWslayOnMsgCallback_ noteOf
  by_cases hctrl : m.opcode / 8 % 2 = 1
  · rw [if_pos hctrl, if_pos hctrl]
    exact hnone
  rw [if_neg hctrl, if_neg hctrl]
  by_cases hdata : m.opcode = 1 ∨ m.opcode = 2
  · rw [if_pos hdata, if_pos hdata, if_pos (by simp [he])]
    have hquiet : Says s [] (s.emit (.data c)) := ⟨rfl, rfl, rfl, rfl, adds_quiet rfl s.net⟩
    have hw := wait_view dm he (ready_data hr c) (hquiet.view hv) c
    exact ⟨⟨hw.view.rooms, hw.view.link, hnext⟩, hquiet.sent.trans hw.sent⟩
  · rw [if_neg hdata, if_neg hdata]
    exact hnone

variable (dm) in
/-- The messages of a read. -/
theorem notes_view (hr : Ready s) (hc : (s.net.conn c).alive = true) (hv : View s t)
    {ms : List Message} (he : ∀ m ∈ ms, ∀ c, m.env.ok c = true) :
    Reaches s.net (run (evwsWslayOnMsgCallback_ dm c) s ms)
      ((Service.noteStep c).run t (ms.map noteOf),
        ((Service.noteStep c).answers t (ms.map noteOf)).flatten) := by
  induction ms generalizing s t with
  | nil => exact ⟨hv, .refl s.net⟩
  | cons m ms ih =>
    have hm := note_view dm (he m List.mem_cons_self) hr hv c
    have hc' := (message_alive dm hr.good.1 hr.good.2 hc m c).trans hc
    have hms := ih (ready_message hr hc m) hc' hm.view fun m' hm' => he m' (List.mem_cons_of_mem _ hm')
    exact ⟨hms.view, hm.sent.trans hms.sent⟩

end DQ.Proof.Service
