import Disqueue.Framework.Grouped
import Disqueue.Spec.Isolated

/-!
# Python clients that meet only their own

An object's run in an interleaving is related to its run alone (`Sim`): what it
has in the dictionaries of the class is what it has alone. The handlers of
several objects are not told apart, so nothing is said of them until
`notify_open` finds those of one object.
-/

namespace DQ.Proof.Python

open DQ.Model.Python DQ.Spec

variable {ω η : Type} [DecidableEq ω] {account : ω → Account} {o : ω} {s t : State ω η}

/-- `s` is the state of all objects, `t` that of `o` alone. -/
structure Sim (account : ω → Account) (o : ω) (s t : State ω η) : Prop where
  out : s.out o = t.out o
  tasks : s.tasks o = t.tasks o
  ids : ∀ id, t.waitingIdentifiers id = if id.client = o then s.waitingIdentifiers id else none
  cached : ∀ q c, t.cachedClients q = some c ↔
    s.cachedClients q = some c ∧ c = ownClient account o q
  mine : (∀ p ∈ waitingItems s.waitingHandlers, p.2.client = o) →
    t.waitingHandlers = s.waitingHandlers
  others : (∀ p ∈ waitingItems s.waitingHandlers, p.2.client ≠ o) → t.waitingHandlers = []

theorem sim_empty (account : ω → Account) (o : ω) :
    Sim account o (State.empty : State ω η) State.empty where
  out := rfl
  tasks := rfl
  ids id := by simp [State.empty]
  cached q c := by simp [State.empty]
  mine _ := rfl
  others _ := rfl

/-! ## Outputs and wants -/

theorem Sim.emit (h : Sim account o s t) (x : Output ω η) :
    Sim account o (s.emit o x) (t.emit o x) where
  out := by simp [State.emit, h.out]
  tasks := h.tasks
  ids := h.ids
  cached := h.cached
  mine := h.mine
  others := h.others

theorem Sim.emit_other (h : Sim account o s t) {o' : ω} (ho : o' ≠ o) (x : Output ω η) :
    Sim account o (s.emit o' x) t where
  out := by simp [State.emit, Function.update_of_ne ho.symm, h.out]
  tasks := h.tasks
  ids := h.ids
  cached := h.cached
  mine := h.mine
  others := h.others

/-- A change of `waiting_identifiers` at an identifier of `o`. -/
theorem Sim.setId (h : Sim account o s t) {id : Identifier ω} (ho : id.client = o)
    (w : Option (RescheduleItem η)) :
    Sim account o { s with waitingIdentifiers := Function.update s.waitingIdentifiers id w }
      { t with waitingIdentifiers := Function.update t.waitingIdentifiers id w } where
  out := h.out
  tasks := h.tasks
  ids id' := by
    by_cases hid : id' = id
    · subst hid
      simp [ho]
    · simp only [Function.update_of_ne hid, h.ids]
  cached := h.cached
  mine := h.mine
  others := h.others

theorem Sim.setId_other (h : Sim account o s t) {id : Identifier ω} (ho : id.client ≠ o)
    (w : Option (RescheduleItem η)) :
    Sim account o { s with waitingIdentifiers := Function.update s.waitingIdentifiers id w } t where
  out := h.out
  tasks := h.tasks
  ids id' := by
    by_cases hid : id' = id
    · subst hid
      rw [h.ids, if_neg ho, if_neg ho]
    · simp only [Function.update_of_ne hid, h.ids]
  cached := h.cached
  mine := h.mine
  others := h.others

theorem Sim.resend (h : Sim account o s t) {id : Identifier ω} (ho : id.client = o)
    (w : RescheduleItem η) : Sim account o (resendWant id w s) (resendWant id w t) := by
  unfold resendWant
  rw [ho]
  exact (h.setId ho (some w)).emit _

theorem Sim.resend_other (h : Sim account o s t) {id : Identifier ω} (ho : id.client ≠ o)
    (w : RescheduleItem η) : Sim account o (resendWant id w s) t :=
  (h.setId_other ho (some w)).emit_other ho _

/-! ## Handlers -/

omit [DecidableEq ω] in
theorem waitingItems_appendOrCreate (q : String) (e : WaitingItem ω η)
    (l : List (String × List (WaitingItem ω η))) :
    (waitingItems (appendOrCreate q e l)).Perm (waitingItems l ++ [(q, e)]) := by
  have hpush : appendOrCreate q e l = pushGroup q e l := by
    induction l with
    | nil => rfl
    | cons x l ih => rw [appendOrCreate, pushGroup, ih]
  rw [hpush]
  exact ungroup_pushGroup q e l

omit [DecidableEq ω] in
theorem mem_appendOrCreate {q : String} {e : WaitingItem ω η} {p : String × WaitingItem ω η}
    (l : List (String × List (WaitingItem ω η))) :
    p ∈ waitingItems (appendOrCreate q e l) ↔ p = (q, e) ∨ p ∈ waitingItems l := by
  rw [(waitingItems_appendOrCreate q e l).mem_iff, List.mem_append, List.mem_singleton, or_comm]

theorem Sim.register (h : Sim account o s t) (q : String) (key : Option String) (f : η) :
    Sim account o { s with waitingHandlers := appendOrCreate q ⟨o, key, f⟩ s.waitingHandlers }
      { t with waitingHandlers := appendOrCreate q ⟨o, key, f⟩ t.waitingHandlers } where
  out := h.out
  tasks := h.tasks
  ids := h.ids
  cached := h.cached
  mine ha := by
    have hall := h.mine fun p hp => ha p ((mem_appendOrCreate _).mpr (.inr hp))
    simp only [hall]
  others hn := absurd rfl (hn (q, ⟨o, key, f⟩) ((mem_appendOrCreate _).mpr (.inl rfl)))

theorem Sim.register_other (h : Sim account o s t) {o' : ω} (ho : o' ≠ o) (q : String)
    (key : Option String) (f : η) :
    Sim account o { s with waitingHandlers := appendOrCreate q ⟨o', key, f⟩ s.waitingHandlers }
      t where
  out := h.out
  tasks := h.tasks
  ids := h.ids
  cached := h.cached
  mine ha := absurd (ha (q, ⟨o', key, f⟩) ((mem_appendOrCreate _).mpr (.inl rfl))) ho
  others hn := h.others fun p hp => hn p ((mem_appendOrCreate _).mpr (.inr hp))

/-- The dictionary is emptied. -/
theorem Sim.clear (h : Sim account o s t) :
    Sim account o { s with waitingHandlers := [] } { t with waitingHandlers := [] } where
  out := h.out
  tasks := h.tasks
  ids := h.ids
  cached := h.cached
  mine _ := rfl
  others _ := rfl

/-- It is emptied by another object, and `o` alone has nothing in it. -/
theorem Sim.clear_other (h : Sim account o s t) (ht : t.waitingHandlers = []) :
    Sim account o { s with waitingHandlers := [] } t where
  out := h.out
  tasks := h.tasks
  ids := h.ids
  cached := h.cached
  mine _ := ht
  others _ := ht

/-- What `notify_open` sends for the waiting items `l`. -/
theorem Sim.resendAll (h : Sim account o s t) (n : Nat) (l : List ((String × WaitingItem ω η) × Nat)) :
    Sim account o
      (l.foldl (fun s p => resendWant ⟨o, n, p.2⟩ ⟨p.1.1, p.1.2.key, p.1.2.handler⟩ s) s)
      (l.foldl (fun s p => resendWant ⟨o, n, p.2⟩ ⟨p.1.1, p.1.2.key, p.1.2.handler⟩ s) t) := by
  induction l generalizing s t with
  | nil => exact h
  | cons p l ih => exact ih (h.resend rfl _)

theorem Sim.resendAll_other (h : Sim account o s t) {o' : ω} (ho : o' ≠ o) (n : Nat)
    (l : List ((String × WaitingItem ω η) × Nat)) :
    Sim account o
      (l.foldl (fun s p => resendWant ⟨o', n, p.2⟩ ⟨p.1.1, p.1.2.key, p.1.2.handler⟩ s) s) t := by
  induction l generalizing s with
  | nil => exact h
  | cons p l ih => exact ih (h.resend_other ho _)

theorem Sim.notifyOpen (h : Sim account o s t) (n : Nat)
    (ha : ∀ p ∈ waitingItems s.waitingHandlers, p.2.client = o) :
    Sim account o (notifyOpen o n s) (notifyOpen o n t) := by
  unfold Model.Python.notifyOpen
  rw [h.mine ha]
  exact (h.resendAll n _).clear

theorem Sim.notifyOpen_other (h : Sim account o s t) {o' : ω} (ho : o' ≠ o) (n : Nat)
    (ha : ∀ p ∈ waitingItems s.waitingHandlers, p.2.client = o') :
    Sim account o (Model.Python.notifyOpen o' n s) t := by
  have hn : t.waitingHandlers = [] := h.others fun p hp e => ho ((ha p hp).symm.trans e)
  exact (h.resendAll_other ho n _).clear_other hn

/-! ## Tasks -/

theorem Sim.setTasks (h : Sim account o s t) (ts : List (HandlerTask η)) :
    Sim account o { s with tasks := Function.update s.tasks o ts }
      { t with tasks := Function.update t.tasks o ts } where
  out := h.out
  tasks := by simp
  ids := h.ids
  cached := h.cached
  mine := h.mine
  others := h.others

theorem Sim.setTasks_other (h : Sim account o s t) {o' : ω} (ho : o' ≠ o) (ts : List (HandlerTask η)) :
    Sim account o { s with tasks := Function.update s.tasks o' ts } t where
  out := h.out
  tasks := by
    rw [← h.tasks]
    exact Function.update_of_ne ho.symm ts s.tasks
  ids := h.ids
  cached := h.cached
  mine := h.mine
  others := h.others

theorem Sim.runAndReschedule (h : Sim account o s t) (n k : Nat) (returns : Bool) :
    Sim account o (runAndReschedule o n k returns s) (runAndReschedule o n k returns t) := by
  unfold Model.Python.runAndReschedule
  rw [h.tasks]
  cases (t.tasks o)[k]? with
  | none => exact h
  | some task =>
    dsimp only
    have h1 := h.setTasks ((t.tasks o).eraseIdx k)
    cases task.item with
    | none => exact h1
    | some p =>
      have h2 := h1.emit (.ran task.want.handler p.1 p.2)
      cases returns with
      | false => exact h2
      | true => exact h2.resend rfl task.want

theorem Sim.runAndReschedule_other (h : Sim account o s t) {o' : ω} (ho : o' ≠ o) (n k : Nat)
    (returns : Bool) : Sim account o (Model.Python.runAndReschedule o' n k returns s) t := by
  unfold Model.Python.runAndReschedule
  cases (s.tasks o')[k]? with
  | none => exact h
  | some task =>
    dsimp only
    have h1 := h.setTasks_other ho ((s.tasks o').eraseIdx k)
    cases task.item with
    | none => exact h1
    | some p =>
      have h2 := h1.emit_other ho (.ran task.want.handler p.1 p.2)
      cases returns with
      | false => exact h2
      | true =>
        have hid : (⟨o', n, 0⟩ : Identifier ω).client ≠ o := ho
        exact h2.resend_other hid task.want

theorem Sim.notifyMessage (h : Sim account o s t) {id : Identifier ω}
    (hid : s.waitingIdentifiers id = none ∨ id.client = o)
    (item : Option (Option String × String)) :
    Sim account o (notifyMessage o (some (id, item)) s) (notifyMessage o (some (id, item)) t) := by
  have ht : t.waitingIdentifiers id = s.waitingIdentifiers id := by
    rw [h.ids]
    rcases hid with hn | ho
    · simp [hn]
    · rw [if_pos ho]
  unfold Model.Python.notifyMessage
  dsimp only
  rw [ht]
  cases hs : s.waitingIdentifiers id with
  | none => exact h
  | some want =>
    have ho : id.client = o := hid.resolve_left (by simp [hs])
    have h1 := (h.setId ho none).setTasks (t.tasks o ++ [⟨want, item⟩])
    dsimp only
    rw [h.tasks]
    exact h1

theorem Sim.notifyMessage_other (h : Sim account o s t) {o' : ω} (ho : o' ≠ o) {id : Identifier ω}
    (hid : s.waitingIdentifiers id = none ∨ id.client = o')
    (item : Option (Option String × String)) :
    Sim account o (Model.Python.notifyMessage o' (some (id, item)) s) t := by
  unfold Model.Python.notifyMessage
  dsimp only
  cases hs : s.waitingIdentifiers id with
  | none => exact h
  | some want =>
    have hid' : id.client = o' := hid.resolve_left (by simp [hs])
    exact (h.setId_other (hid' ▸ ho) none).setTasks_other ho _

/-! ## Queue clients -/

theorem Sim.not_cached (h : Sim account o s t) {q : String} (hs : s.cachedClients q = none) :
    t.cachedClients q = none := by
  rw [Option.eq_none_iff_forall_ne_some]
  intro c hc
  have hsome := ((h.cached q c).mp hc).1
  rw [hs] at hsome
  cases hsome

omit [DecidableEq ω] in
/-- Different accounts have different clients. -/
theorem ownClient_ne (hacc : Function.Injective account) {o' : ω} (ho : o' ≠ o) (q : String) :
    ownClient account o' q ≠ ownClient account o q := by
  intro he
  have hurl : (account o').url = (account o).url := congrArg QueueClient.url he
  have hauth : (account o').auth = (account o).auth := congrArg QueueClient.auth he
  refine ho (hacc ?_)
  rcases h' : account o' with ⟨url', auth'⟩
  rcases h : account o with ⟨url, auth⟩
  rw [h, h'] at hurl hauth
  rw [show url' = url from hurl, show auth' = auth from hauth]

/-- A client is cached. -/
theorem Sim.setCached (h : Sim account o s t) (q : String) :
    Sim account o
      { s with cachedClients := Function.update s.cachedClients q (some (ownClient account o q)) }
      { t with cachedClients := Function.update t.cachedClients q (some (ownClient account o q)) }
    where
  out := h.out
  tasks := h.tasks
  ids := h.ids
  cached q' c := by
    by_cases hq : q' = q
    · subst hq
      simp only [Function.update_self, Option.some.injEq]
      exact ⟨fun e => ⟨e, e.symm⟩, fun e => e.1⟩
    · simp only [Function.update_of_ne hq, h.cached]
  mine := h.mine
  others := h.others

theorem Sim.setCached_other (h : Sim account o s t) (hacc : Function.Injective account) {o' : ω}
    (ho : o' ≠ o) {q : String} (hs : s.cachedClients q = none) :
    Sim account o
      { s with cachedClients := Function.update s.cachedClients q (some (ownClient account o' q)) }
      t where
  out := h.out
  tasks := h.tasks
  ids := h.ids
  cached q' c := by
    by_cases hq : q' = q
    · subst hq
      simp only [Function.update_self, Option.some.injEq, h.not_cached hs, reduceCtorEq, false_iff]
      rintro ⟨rfl, he⟩
      exact ownClient_ne hacc ho q' he
    · simp only [Function.update_of_ne hq, h.cached]
  mine := h.mine
  others := h.others

theorem Sim.queue (h : Sim account o s t) {q : String} (info : Bool)
    (hown : ∀ c, s.cachedClients q = some c → c = ownClient account o q) :
    Sim account o (queue account o q info s) (queue account o q info t) := by
  unfold Model.Python.queue
  cases hs : s.cachedClients q with
  | some c =>
    rw [(h.cached q c).mpr ⟨hs, hown c hs⟩]
    exact h.emit _
  | none =>
    rw [h.not_cached hs]
    cases info with
    | false => exact h.emit _
    | true => exact (h.setCached q).emit _

theorem Sim.queue_other (h : Sim account o s t) (hacc : Function.Injective account) {o' : ω}
    (ho : o' ≠ o) (q : String) (info : Bool) :
    Sim account o (Model.Python.queue account o' q info s) t := by
  unfold Model.Python.queue
  cases hs : s.cachedClients q with
  | some c => exact h.emit_other ho _
  | none =>
    cases info with
    | false => exact h.emit_other ho _
    | true => exact (h.setCached_other hacc ho hs).emit_other ho _

/-! ## Runs -/

/-- A call on `o`, in the interleaving and alone. -/
theorem sim_own (h : Sim account o s t) {c : Call ω η} (ho : c.client = o)
    (hc : MeetsOwn account s c) : Sim account o (step account s c) (step account t c) := by
  obtain ⟨o', method, n⟩ := c
  obtain rfl : o' = o := ho
  cases method with
  | queueHandler q key f => exact h.register q key f
  | queue q info => exact h.queue info hc
  | notifyOpen => exact h.notifyOpen n hc
  | notifyMessage payload =>
    rcases payload with _ | ⟨id, item⟩
    · exact h
    · exact h.notifyMessage hc item
  | runAndReschedule k returns => exact h.runAndReschedule n k returns

/-- A call on another object, which `o` alone does not see. -/
theorem sim_other (hacc : Function.Injective account) (h : Sim account o s t) {c : Call ω η}
    (ho : c.client ≠ o) (hc : MeetsOwn account s c) : Sim account o (step account s c) t := by
  obtain ⟨o', method, n⟩ := c
  cases method with
  | queueHandler q key f => exact h.register_other ho q key f
  | queue q info => exact h.queue_other hacc ho q info
  | notifyOpen => exact h.notifyOpen_other ho n hc
  | notifyMessage payload =>
    rcases payload with _ | ⟨id, item⟩
    · exact h
    · exact h.notifyMessage_other ho hc item
  | runAndReschedule k returns => exact h.runAndReschedule_other ho n k returns

/-- Objects with different accounts do not influence each other in an
interleaving whose calls meet only what is the object's own. -/
theorem isolated_of_meetsOwn (account : ω → Account) (hacc : Function.Injective account)
    (calls : List (ω × Method ω η))
    (hc : Meets (step account) (MeetsOwn account) State.empty (numbered calls)) :
    Isolated account calls := by
  rintro o js ⟨ks, hks⟩
  rw [← hks] at hc
  have hown : ∀ s t (c : Call ω η), Sim account o s t → decide (c.client = o) = true →
      MeetsOwn account s c → Sim account o (step account s c) (step account t c) :=
    fun s t c h ho hm => sim_own h (of_decide_eq_true ho) hm
  have hother : ∀ s t (c : Call ω η), Sim account o s t → decide (c.client = o) = false →
      MeetsOwn account s c → Sim account o (step account s c) t :=
    fun s t c h ho hm => sim_other hacc h (of_decide_eq_false ho) hm
  exact (Meets.filter_rel hown hother (sim_empty account o) (Meets.append_iff.mp hc).1).out

/-- Two objects on different servers. -/
def twoServers (b : Bool) : Account := if b then ⟨"http://a", none⟩ else ⟨"http://b", none⟩

theorem isolated_apart : Isolated twoServers
    [(true, .queueHandler "q" none ()), (true, .notifyOpen), (false, .queue "q" true),
      (false, .queueHandler "q" none ()), (false, .notifyOpen)] := by
  refine isolated_of_meetsOwn twoServers ?_ _ ⟨trivial, ?_, ?_, trivial, ?_, trivial⟩
  · intro a b h
    cases a <;> cases b <;> first | rfl | exact absurd h (by decide)
  · intro p hp
    rw [List.mem_singleton.mp hp]
  · intro client h
    cases h
  · intro p hp
    rw [List.mem_singleton.mp hp]

/-- The second object's connection asks for items for the first one's
handler. -/
theorem isolated_not_open :
    ¬ Isolated twoServers [(true, .queueHandler "q" none ()), (false, .notifyOpen)] := by
  intro h
  have hlen := congrArg List.length (h false _ List.prefix_rfl)
  exact absurd hlen (by decide)

end DQ.Proof.Python
