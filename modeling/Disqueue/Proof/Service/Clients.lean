import Disqueue.Proof.Wants.Paired

/-!
# Wants and their clients

The ids of the wants differ, and the clients of the wants and the connections
are numbered below the next number (`Clients`), so that a new connection is the
client of no want. `Ready` collects what every reachable state has.
-/

namespace DQ.Proof.Service

open DQ.Model DQ.Spec DQ.Proof.Server DQ.Proof.Wants

variable {dm : DataModel} {s s' : Server} {c : Nat}

structure Clients (s : Server) : Prop where
  nodup : (s.net.wants.map (·.id)).Nodup
  client_lt : ∀ w ∈ s.net.wants, w.client < s.next
  alive_lt : ∀ c, (s.net.conn c).alive = true → c < s.next

theorem clients_startup : Clients .startup where
  nodup := List.nodup_nil
  client_lt _ hw := by cases hw
  alive_lt _ h := by cases h

theorem eased_ids {ws ws' : List Want} (h : List.Forall₂ Eased ws ws') :
    ws'.map (·.id) = ws.map (·.id) := by
  induction h with
  | nil => rfl
  | cons hw _ ih => rw [List.map_cons, List.map_cons, hw.id, ih]

/-- Wants that are some of those before, or were cancelled, keep it. -/
theorem Clients.eased (h : Clients s) {ws : List Want} (hs : ws.Sublist s.net.wants)
    (hw : List.Forall₂ Eased ws s'.net.wants) (hx : s.next ≤ s'.next)
    (ha : ∀ c, (s'.net.conn c).alive = true → c < s'.next) : Clients s' where
  nodup := by
    rw [eased_ids hw]
    exact h.nodup.sublist (hs.map _)
  client_lt w' hw' := by
    obtain ⟨w, hm, he⟩ := eased_mem hw hw'
    rw [he.client]
    exact Nat.lt_of_lt_of_le (h.client_lt w (hs.subset hm)) hx
  alive_lt := ha

theorem Clients.same (h : Clients s) (hn : s'.net.wants = s.net.wants)
    (ha : s'.net.conn = s.net.conn) (hx : s.next ≤ s'.next) : Clients s' :=
  h.eased (List.Sublist.refl _) (hn ▸ eased_refl _) hx fun c hc =>
    Nat.lt_of_lt_of_le (h.alive_lt c (ha ▸ hc)) hx

/-- Acts that make or free no connection keep it. -/
theorem Clients.act (h : Clients s) (hI : Inv s) {l : Label} (hl : l ≠ .connection)
    (ha : Act s l s') : Clients s' := by
  cases ha with
  | calm hs hw hh hn hx =>
    exact h.eased (List.Sublist.refl _) hn.wants hx fun c hc =>
      Nat.lt_of_lt_of_le (h.alive_lt c (hn.alive c ▸ hc)) hx
  | connected hs hw hh hn ht hx => exact absurd rfl hl
  | freed items cbs hs hw hc hf hn ha ht hx => exact h.same hn ha hx
  | accepted i hi hs hw hh hn ha ht hx => exact h.same hn ha hx
  | put i hi hs hw hh hn ha ht hx => exact h.same hn ha (hx ▸ Nat.le_succ _)
  | took a i replied rid hs hw hh hn ha ht hx => exact h.same hn ha hx
  | refused w key hi hs hw hh hn ha ht hx => exact h.same hn ha (hx ▸ Nat.le_succ _)
  | waits w key hi hc hs hw hh hn ha ht hx =>
    have hle : s.next ≤ s'.next := hx ▸ Nat.le_succ _
    refine ⟨?_, fun v hv => ?_, fun c hc => Nat.lt_of_lt_of_le (h.alive_lt c (ha ▸ hc)) hle⟩
    · rw [hn, List.map_append]
      refine List.nodup_append.mpr ⟨h.nodup, List.nodup_singleton _, ?_⟩
      intro a ha b hb hab
      obtain ⟨v, hv, rfl⟩ := List.mem_map.mp ha
      have hlt := hI.wants_lt v hv
      rw [hab, List.mem_singleton.mp hb] at hlt
      exact Nat.lt_irrefl _ (hi ▸ hlt)
    · rw [hn] at hv
      rcases List.mem_append.mp hv with hv | hv
      · exact Nat.lt_of_lt_of_le (h.client_lt v hv) hle
      · rw [List.mem_singleton.mp hv]
        exact Nat.lt_of_lt_of_le (h.alive_lt _ hc) hle
  | matched a i cb answered hk hs hw hh hn hx =>
    exact h.eased List.filter_sublist hn.wants hx fun c hc =>
      Nat.lt_of_lt_of_le (h.alive_lt c (hn.alive c ▸ hc)) hx

theorem Acts.clients {ls : List Label} (h : Acts s ls s') (hl : .connection ∉ ls) (hI : Inv s)
    (hc : Clients s) : Clients s' := by
  induction h with
  | nil => exact hc
  | cons ha _ ih =>
    rw [List.mem_cons, not_or] at hl
    exact ih hl.2 (hI.act ha) (hc.act hI (Ne.symm hl.1) ha)

theorem Does.clients {gives : List Label} (h : Does s gives s') (hg : .connection ∉ gives)
    (hI : Inv s) (hc : Clients s) : Clients (withNext s' (s.next + 1)) := by
  obtain ⟨ls, ha, rfl, -⟩ := h
  exact Acts.clients ha (fun hm => hg (mem_effects.mpr ⟨hm, by simp⟩)) hI hc

/-- What every reachable state has. -/
structure Ready (s : Server) : Prop where
  good : Good s
  addressed : Addressed s
  clients : Clients s

theorem ready_startup : Ready .startup :=
  ⟨good_startup, ⟨List.nodup_nil, fun _ h => by cases h⟩, clients_startup⟩

theorem ready_message (h : Ready s) (hc : (s.net.conn c).alive = true) (m : Message) :
    Ready (evwsWslayOnMsgCallback_ dm c s m) where
  good := good_message h.good hc m
  addressed := by
    have hkeys : addresses (evwsWslayOnMsgCallback_ dm c s m) = addresses s := by
      unfold addresses
      rw [Registry.message_keys]
    refine ⟨hkeys ▸ h.addressed.nodup, fun a ha => ?_⟩
    exact Nat.lt_succ_of_lt (h.addressed.lt a (hkeys ▸ ha))
  clients :=
    Does.clients (message_does dm h.good.1 h.good.2 hc m) (by simp) h.good.1 h.clients

/-- The messages of one read. -/
theorem ready_messages (h : Ready s) (hc : (s.net.conn c).alive = true) (ms : List Message) :
    Ready (run (evwsWslayOnMsgCallback_ dm c) s ms) ∧
      ((run (evwsWslayOnMsgCallback_ dm c) s ms).net.conn c).alive = true := by
  induction ms generalizing s with
  | nil => exact ⟨h, hc⟩
  | cons m ms ih =>
    exact ih (ready_message h hc m) ((message_alive dm h.good.1 h.good.2 hc m c).trans hc)

theorem Clients.calm (h : Clients s) {n : Net} (hn : Calm s.net n) : Clients { s with net := n } :=
  h.eased (List.Sublist.refl _) hn.wants (Nat.le_refl _) fun c hc => h.alive_lt c (hn.alive c ▸ hc)

theorem clients_step (i : Input) (h : Ready s) : Clients (s.step dm i) := by
  cases i with
  | http r =>
    refine Does.clients (http_does h.good.1 h.good.2) ?_ h.good.1 h.clients
    unfold httpGives
    split <;> simp
  | opened =>
    refine ⟨h.clients.nodup, fun w hw => Nat.lt_succ_of_lt (h.clients.client_lt w hw), ?_⟩
    intro d hd
    by_cases hdn : d = s.next
    · exact hdn ▸ Nat.lt_succ_self _
    · refine Nat.lt_succ_of_lt (h.clients.alive_lt d ?_)
      simpa [Server.step, Net.setConn, Function.update_of_ne hdn] using hd
  | read c msgs recv e =>
    dsimp only [Server.step]
    split
    · rename_i hg
      have hm : Clients (run (evwsWslayOnMsgCallback_ dm c) s msgs) :=
        (ready_messages h (Bool.and_eq_true _ _ |>.mp hg).1 msgs).1.clients
      unfold evwsConnectionReadCb_
      split
      · exact hm.calm (calm_evwsClose c _)
      · exact hm.calm (calm_write e c _)
    · exact h.clients
  | drained c =>
    dsimp only [Server.step]
    split
    · exact h.clients.calm (calm_evwsClose c s.net)
    · exact h.clients
  | event c eof error e =>
    dsimp only [Server.step]
    split
    · refine h.clients.eased (List.Sublist.refl _) (event_eased e c eof error s.net).1
        (Nat.le_refl _) fun d hd => h.clients.alive_lt d ?_
      exact (tells_event e c eof error s.net).alive d hd
    · exact h.clients

theorem ready_step (i : Input) (h : Ready s) : Ready (s.step dm i) :=
  ⟨good_step i h.good, addressed_step i h.addressed, clients_step i h⟩

end DQ.Proof.Service
