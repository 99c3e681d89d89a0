import Disqueue.Proof.Server.Arrivals

/-!
# What is delivered was asked for and put

In every run the log is explained by what came (`Told`, `told_run`), and the
addresses of queues tell them apart (`Lasting`). So every delivery answers a
message that came with an item that a request put (`delivered_once`).
-/

namespace DQ.Proof.Server

open DQ.Model DQ.Spec DQ.Proof.Queue DQ.Proof.Registry DQ.Proof.Ws

variable {dm : DataModel} {s s' : Server} {came came' : List Arrival} {before before' : List Event}

/-! ## Logs that are explained -/

theorem wantCame_mono {c w : Nat} {identifier : CStr} {q : Nat} {key : Option CStr}
    (h : WantCame came before c w identifier q key) (hc : came ⊆ came') (hb : before <+: before') :
    WantCame came' before' c w identifier q key := by
  obtain ⟨s, m, name, hm, hn, hl, hrest⟩ := h
  exact ⟨s, m, name, hc hm, hn, hl.trans hb, hrest⟩

theorem explained_mono {ev : Event} (h : Explained came before ev) (hc : came ⊆ came') :
    Explained came' before ev := by
  have hb : before <+: before := List.prefix_refl _
  cases ev with
  | put i => exact putCame_mono h hc hb
  | want w key => exact wantCame_mono h hc hb
  | reply rid e code b =>
    obtain ⟨⟨s, r, hm, hrest⟩, htake⟩ := h
    refine ⟨⟨s, r, hc hm, hrest⟩, fun he hs => ?_⟩
    obtain ⟨s, r, name, i, q, hm, hn, hr, hp, hname, haddr, hput, hkey⟩ := htake he hs
    exact ⟨s, r, name, i, q, hc hm, hn, hr, hp, hname, haddr, putCame_mono hput hc hb, hkey⟩
  | _ => trivial

/-- Every event is explained by what came before it. -/
def Recorded (came : List Arrival) (log : List Event) : Prop :=
  ∀ pre ev post, log = pre ++ ev :: post → Explained came pre ev

/-- What is added to the log is explained. -/
theorem Recorded.grow (h : Recorded came s.net.log) (hc : came ⊆ came') {n : Net}
    (hg : Grows (Explains came' s) s.net n) : Recorded came' n.log := by
  obtain ⟨es, hl, hes⟩ := hg
  intro pre ev post he
  rw [hl] at he
  have hnew : ∀ l, es = l ++ ev :: post → pre = s.net.log ++ l → Explained came' pre ev := by
    rintro l rfl rfl
    exact hes ev (List.mem_append_right _ List.mem_cons_self) _ (List.prefix_append _ _)
  rcases List.append_eq_append_iff.mp he with ⟨l, hpre, hl'⟩ | ⟨l, hlog, hl'⟩
  · exact hnew l hl' hpre
  · cases l with
    | nil => exact hnew [] hl'.symm (by rw [hlog, List.append_nil, List.append_nil])
    | cons ev' l =>
      obtain ⟨rfl, -⟩ := List.cons.inj hl'
      exact explained_mono (h pre ev l hlog) hc

/-- An event of the log is explained by what came before its end. -/
theorem Recorded.put (h : Recorded came before) {i : QueueItem} (hm : Event.put i ∈ before) :
    PutCame came before i i.owner := by
  obtain ⟨pre, post, rfl⟩ := List.append_of_mem hm
  exact putCame_mono (h pre _ post rfl) (List.Subset.refl _) (List.prefix_append _ _)

theorem Recorded.want (h : Recorded came before) {w : Want} {key : Option CStr}
    (hm : Event.want w key ∈ before) :
    WantCame came before w.client w.id w.identifier w.queue key := by
  obtain ⟨pre, post, rfl⟩ := List.append_of_mem hm
  exact wantCame_mono (h pre _ post rfl) (List.Subset.refl _) (List.prefix_append _ _)

theorem Recorded.pre {ev : Event} {post : List Event} (h : Recorded came (before ++ ev :: post)) :
    Recorded came before := fun pre ev' post' he =>
  h pre ev' (post' ++ ev :: post) (by rw [he, List.append_assoc, List.cons_append])

/-! ## Queues that last -/

theorem concat_sublist_concat {α : Type} {l m : List α} {x a : α}
    (h : (l ++ [x]).Sublist (m ++ [a])) : (l ++ [x]).Sublist m ∨ l.Sublist m ∧ x = a := by
  rw [← List.reverse_sublist, List.reverse_append, List.reverse_append] at h
  cases h with
  | cons _ h =>
    refine .inl (List.reverse_sublist.mp ?_)
    rw [List.reverse_append]
    exact h
  | cons_cons _ h => exact .inr ⟨List.reverse_sublist.mp h, rfl⟩

/-- The addresses of the queues tell them apart, from each other and from those
that were there before. -/
structure Lasting (came : List Arrival) (s : Server) : Prop where
  tells : TellsQueues came
  differ : ((namedQueues s).map (·.2)).Nodup
  lt : ∀ k ∈ namedQueues s, k.2 < s.next
  before : ∀ a ∈ came, ∀ k ∈ namedQueues a.server, k.2 < s.next
  same : ∀ a ∈ came, ∀ k ∈ namedQueues a.server, ∀ k' ∈ namedQueues s, k.2 = k'.2 → k = k'
  lasts : ∀ a b, [a, b].Sublist came → ∀ k ∈ namedQueues a.server, k ∈ namedQueues s →
    k ∈ namedQueues b.server

theorem lasting_startup : Lasting [] .startup where
  tells := ⟨List.forall_mem_nil _, fun _ _ h => (by cases h), fun _ _ _ h => (by cases h)⟩
  differ := List.nodup_nil
  lt := List.forall_mem_nil _
  before := List.forall_mem_nil _
  same := List.forall_mem_nil _
  lasts := fun _ _ h => by cases h

/-- Something comes. -/
theorem Lasting.arrive (h : Lasting came s) {a : Arrival} (ha : a.server = s) :
    Lasting (came ++ [a]) s := by
  have hnow : ∀ b ∈ came ++ [a], b ∈ came ∨ b = a := fun b hb => by simpa using hb
  have hsame : ∀ b ∈ came ++ [a], ∀ k ∈ namedQueues b.server, ∀ k' ∈ namedQueues s,
      k.2 = k'.2 → k = k' := by
    intro b hb k hk k' hk' he
    rcases hnow b hb with hb | rfl
    · exact h.same b hb k hk k' hk' he
    · exact List.inj_on_of_nodup_map h.differ (ha ▸ hk) hk' he
  have hlasts : ∀ b c, [b, c].Sublist (came ++ [a]) → ∀ k ∈ namedQueues b.server,
      k ∈ namedQueues s → k ∈ namedQueues c.server := by
    intro b c hs k hk hk'
    rcases concat_sublist_concat (l := [b]) hs with hs | ⟨-, rfl⟩
    · exact h.lasts b c hs k hk hk'
    · rwa [ha]
  refine ⟨⟨fun b hb => ?_, fun b c hs k hk k' hk' he => ?_, fun b c d hs k hk hk' => ?_⟩, h.differ,
    h.lt, fun b hb k hk => ?_, hsame, hlasts⟩
  · rcases hnow b hb with hb | rfl
    · exact h.tells.differ b hb
    · exact ha ▸ h.differ
  · rcases concat_sublist_concat (l := [b]) hs with hs | ⟨hb, rfl⟩
    · exact h.tells.same b c hs k hk k' hk' he
    · exact h.same b (hb.subset List.mem_cons_self) k hk k' (ha ▸ hk') he
  · rcases concat_sublist_concat (l := [b, c]) hs with hs | ⟨hb, rfl⟩
    · exact h.tells.lasts b c d hs k hk hk'
    · exact h.lasts b c hb k hk (ha ▸ hk')
  · rcases hnow b hb with hb | rfl
    · exact h.before b hb k hk
    · exact h.lt k (ha ▸ hk)

/-- A queue may be made, and others deleted. -/
theorem Lasting.step (h : Lasting came s) {id : CStr}
    (hk : (keys s'.queues).Sublist (keys s.queues ++ [(id, s.next)])) (hx : s.next < s'.next) :
    Lasting came s' := by
  have hold : ∀ k ∈ namedQueues s', k ∈ namedQueues s ∨ k.2 = s.next := by
    intro k hm
    rcases List.mem_append.mp (hk.subset hm) with hm | hm
    · exact .inl hm
    · exact .inr (by rw [List.mem_singleton.mp hm])
  refine ⟨h.tells, ?_, fun k hm => ?_, fun a ha k hm => (h.before a ha k hm).trans hx,
    fun a ha k hm k' hm' he => ?_, fun a b hs k hm hm' => ?_⟩
  · refine List.Nodup.sublist (hk.map (·.2)) ?_
    rw [List.map_append, List.map_singleton]
    refine List.nodup_append.mpr ⟨h.differ, List.nodup_singleton _, fun x hx y hy => ?_⟩
    obtain ⟨k, hm, rfl⟩ := List.mem_map.mp hx
    rw [List.mem_singleton.mp hy]
    exact (h.lt k hm).ne
  · rcases hold k hm with hm | hm
    · exact (h.lt k hm).trans hx
    · omega
  · have hlt := h.before a ha k hm
    rcases hold k' hm' with hm' | hm'
    · exact h.same a ha k hm k' hm' he
    · omega
  · have hlt := h.before a (hs.subset List.mem_cons_self) k hm
    rcases hold k hm' with hm' | hm'
    · exact h.lasts a b hs k hm hm'
    · omega

/-- The queues stay. -/
theorem Lasting.keep (h : Lasting came s) (hk : keys s'.queues = keys s.queues)
    (hx : s.next ≤ s'.next) : Lasting came s' := by
  have hq : namedQueues s' = namedQueues s := hk
  exact ⟨h.tells, hq ▸ h.differ, fun k hm => (h.lt k (hq ▸ hm)).trans_le hx,
    fun a ha k hm => (h.before a ha k hm).trans_le hx, hq ▸ h.same, hq ▸ h.lasts⟩

/-! ## Runs -/

/-- What holds of a state after what came. -/
structure Told (came : List Arrival) (s : Server) : Prop where
  recorded : Recorded came s.net.log
  numbers : (came.map Arrival.number).Nodup
  below : ∀ a ∈ came, a.number < s.next
  lasting : Lasting came s

theorem told_startup : Told [] .startup :=
  ⟨fun pre _ _ h => (by cases pre <;> cases h), List.nodup_nil, List.forall_mem_nil _,
    lasting_startup⟩

/-- Something that comes is handled. -/
theorem Told.arrive (h : Told came s) {a : Arrival} (ha : a.server = s)
    (hg : Grows (Explains (came ++ [a]) s) s.net s'.net) {id : CStr}
    (hk : (keys s'.queues).Sublist (keys s.queues ++ [(id, s.next)])) (hx : s'.next = s.next + 1) :
    Told (came ++ [a]) s' := by
  have hnumber : a.number = s.next := by rw [Arrival.number, ha]
  refine ⟨h.recorded.grow (List.subset_append_left _ _) hg, ?_, fun b hb => ?_,
    (h.lasting.arrive ha).step hk (by omega)⟩
  · rw [List.map_append, List.map_singleton, hnumber]
    refine List.nodup_append.mpr ⟨h.numbers, List.nodup_singleton _, fun x hx y hy => ?_⟩
    obtain ⟨b, hb, rfl⟩ := List.mem_map.mp hx
    rw [List.mem_singleton.mp hy]
    exact (h.below b hb).ne
  · rcases List.mem_append.mp hb with hb | hb
    · have := h.below b hb
      omega
    · rw [List.mem_singleton.mp hb]
      omega

/-- Nothing comes. -/
theorem Told.keep (h : Told came s) (hg : Grows (Explains came s) s.net s'.net)
    (hk : keys s'.queues = keys s.queues) (hx : s.next ≤ s'.next) : Told came s' :=
  ⟨h.recorded.grow (List.Subset.refl _) hg, h.numbers, fun a ha => (h.below a ha).trans_le hx,
    h.lasting.keep hk hx⟩

theorem Told.message (h : Told came s) (dm : DataModel) (c : Nat) (m : Message) :
    Told (came ++ [.message s c m]) (evwsWslayOnMsgCallback_ dm c s m) := by
  have hkeys : (keys (evwsWslayOnMsgCallback_ dm c s m).queues).Sublist
      (keys s.queues ++ [([], s.next)]) := by
    rw [message_keys]
    exact List.sublist_append_left _ _
  exact h.arrive rfl (message_explains dm (by simp)) hkeys rfl

theorem Told.messages (h : Told came s) (dm : DataModel) (c : Nat) (ms : List Message) :
    Told (came ++ messageArrivals dm c s ms) (run (evwsWslayOnMsgCallback_ dm c) s ms) := by
  induction ms generalizing came s with
  | nil =>
    rw [messageArrivals, List.append_nil]
    exact h
  | cons m ms ih =>
    have hrest := ih (h.message dm c m)
    rwa [List.append_assoc] at hrest

theorem told_step (dm : DataModel) (h : Told came s) (ht : Traced s) (i : Input) :
    Told (came ++ arrivalsOf dm s i) (s.step dm i) := by
  cases i with
  | http r =>
    obtain ⟨id, hk⟩ := step_keys_sublist dm s (.http r)
    refine h.arrive rfl (http_explains dm (by simp) ht.good.2 fun x hx => ?_) hk rfl
    obtain ⟨hput, howner⟩ := ht.stored_put x hx
    exact howner ▸ putCame_mono (h.recorded.put hput) (List.subset_append_left _ _)
      (List.prefix_refl _)
  | opened =>
    show Told (came ++ []) _
    rw [List.append_nil]
    exact h.keep (grows_of_log rfl) rfl (Nat.le_succ _)
  | read c msgs recv e =>
    dsimp only [arrivalsOf, Server.step]
    split
    · have hread := h.messages dm c msgs
      refine hread.keep ?_ rfl (Nat.le_refl _)
      unfold evwsConnectionReadCb_
      dsimp only
      split
      · exact (grows_close c _).mono fun _ => explains_ofConn c _
      · exact (grows_write e c _).mono fun _ => explains_ofConn c _
    · rwa [List.append_nil]
  | drained c =>
    dsimp only [arrivalsOf, Server.step]
    rw [List.append_nil]
    split
    · exact h.keep ((grows_close c s.net).mono fun _ => explains_ofConn c _) rfl (Nat.le_refl _)
    · exact h
  | event c eof error e =>
    dsimp only [arrivalsOf, Server.step]
    rw [List.append_nil]
    split
    · refine h.keep ⟨_, event_log e c eof error s.net, fun ev hev => ?_⟩ rfl (Nat.le_refl _)
      have hends := eventReports_all e c _ eof error ev hev
      intro before hb
      cases ev <;> trivial
    · exact h

theorem told_run (dm : DataModel) (h : Told came s) (ht : Traced s) (is : List Input) :
    Told (came ++ arrivals dm s is) (run (Server.step dm) s is) := by
  induction is generalizing came s with
  | nil =>
    rw [arrivals, List.append_nil]
    exact h
  | cons i is ih =>
    have hrest := ih (told_step dm h ht i) (traced_step i ht)
    rwa [List.append_assoc] at hrest

theorem Told.deliveredOnce (h : Told came s) (ht : Traced s) : DeliveredOnce came s.net.log := by
  refine ⟨h.numbers, h.lasting.tells, fun rid e code b hm => ?_, fun pre post c b sent hl hb => ?_,
    fun pre post rid code b hl hb => ?_, ht.answers_nodup, ht.carried_nodup⟩
  · obtain ⟨pre, post, hl⟩ := List.append_of_mem hm
    exact (h.recorded pre _ post hl).1
  · obtain ⟨w, key, i, hp, hw, rfl, hput, howner, hkey⟩ := ht.answers_made hl hb
    have hpre : Recorded came pre := by
      have hlog := h.recorded
      rw [hl] at hlog
      exact hlog.pre
    exact ⟨w.id, w.identifier, i, w.queue, key, hp, hpre.want hw, howner ▸ hpre.put hput, hkey⟩
  · exact (h.recorded pre _ post hl).2 rfl hb

/-- In every run every delivery answers one message that asked for it, with an
item that one request put into the queue asked for; and no item is carried
twice. -/
theorem delivered_once (dm : DataModel) (is : List Input) :
    DeliveredOnce (arrivals dm .startup is) (run (Server.step dm) .startup is).net.log :=
  (told_run dm told_startup traced_startup is).deliveredOnce (traced_run dm is)

end DQ.Proof.Server
