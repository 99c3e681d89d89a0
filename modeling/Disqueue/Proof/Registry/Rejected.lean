import Disqueue.Proof.Registry.Names
import Disqueue.Proof.Server.Replies

/-!
# Requests that name no queue

Every id is printed (`ids_printed`), so a name that is no id's text is the name
of no queue. Such a name is refused with 400 exactly if it has another length,
and the name of no queue with 404 except by the request to delete it
(`rejectsNames_iff`).
-/

namespace DQ.Proof.Registry

open DQ.Model DQ.Spec DQ.Proof.Server DQ.Proof.Uuid

/-! ## Ids -/

section
variable {a b c d e x y : CStr} {w off len : Nat}

theorem group_left (hx : Group w x) : group (x ++ y) 0 w = x := by
  rw [← hx.length]
  exact List.take_left

theorem group_right (hx : Group w x) (h : w ≤ off) :
    group (x ++ y) off len = group y (off - w) len := by
  rw [← hx.length] at h ⊢
  rw [group, List.drop_append, List.drop_eq_nil_of_le h, List.nil_append, group]

theorem group_cons (c : Char) : group (c :: y) (off + 1) len = group y off len := rfl

theorem isUuid_of_groups (ha : Group 8 a) (hb : Group 4 b) (hc : Group 4 c) (hd : Group 4 d)
    (he : Group 12 e) : IsUuid (a ++ '-' :: (b ++ '-' :: (c ++ '-' :: (d ++ '-' :: e)))) := by
  have hlast : group e 0 12 = e := List.take_of_length_le he.length.le
  refine ⟨by simp [ha.length, hb.length, hc.length, hd.length, he.length], ?_⟩
  simp (disch := decide) only [group_left ha, group_left hb, group_left hc, group_left hd,
    group_right ha, group_right hb, group_right hc, group_right hd, Nat.reduceSub, group_cons, hlast]
  exact ⟨ha.hex, rfl, hb.hex, rfl, hc.hex, rfl, hd.hex, rfl, he.hex⟩

/-- A name that was printed, in either letter case, is an id's text. -/
theorem isUuid_printed {dm : DataModel} {u : Bytes} {n : CStr} (h : fold n = queueGetUuid dm u) :
    IsUuid n := by
  obtain ⟨g₁, g₂, g₃, g₄, es, rfl, h₁, h₂, h₃, h₄, h₅⟩ := printed_split h
  have hshort : ∀ off, htons (peekInt u off 2) < 16 ^ 4 := fun off => htons_lt _
  refine isUuid_of_groups (group_of_printHex (htonl_lt _) h₁).1 (group_of_printHex (hshort 4) h₂).1
    (group_of_printHex (hshort 6) h₃).1 (group_of_printHex (hshort 8) h₄).1 ⟨fun c hc => ?_, ?_⟩
  · obtain ⟨e, he, hce⟩ := List.mem_flatten.mp hc
    have hmem : fold e ∈ lastParts u := h₅ ▸ List.mem_map_of_mem he
    obtain ⟨i, -, hi⟩ := List.mem_map.mp hmem
    exact (group_of_printHex (UInt8.toNat_lt _) hi.symm).1.hex c hce
  · have hlen : ((es.map fold).map List.length).sum = 12 := by
      rw [h₅]
      simp [lastParts, printHex_length]
    rw [List.length_flatten, ← hlen, List.map_map]
    congr 1
    exact List.map_congr_left fun e _ => (List.length_map _).symm

end

/-! ## The ids of every state -/

variable {dm : DataModel} {r : Request} {s : Server}

/-- The ids of the registry are printed. -/
def Printed (dm : DataModel) (qs : List ManagerQueue) : Prop :=
  ∀ k ∈ keys qs, ∃ u, k.1 = queueGetUuid dm u

/-- A queue that is made has a printed id. -/
theorem Printed.requested {createNew : Bool} {f : Found} (hs : Printed dm s.queues)
    (h : requested dm r createNew s = some f) : Printed dm f.registry := by
  have hnew : ∀ {addr}, IsNew s.queues f addr → (∃ u, f.mq.id = queueGetUuid dm u) →
      Printed dm f.registry := by
    intro addr hnew hid k hk
    rcases mem_keys_registry.mp hk with rfl | hk
    · exact hid
    · rw [isNew_free hnew] at hk
      exact hs k hk
  obtain ⟨-, hgot, -⟩ := requested_got h
  generalize evhttpFindHeader r.params nameKey = name at hgot
  cases hgot with
  | found hf _ => exact hf ▸ hs
  | named _ _ hid hisNew _ => exact hnew hisNew ⟨_, hid⟩
  | drawn hid hisNew _ => exact hnew hisNew ⟨_, hid⟩

theorem Printed.step (hs : Printed dm s.queues) (i : Input) : Printed dm (s.step dm i).queues := by
  unfold Printed
  rw [step_keys dm s i]
  cases i with
  | http r =>
    dsimp only [httpKeys]
    split <;> [skip; exact hs]
    cases hf : Spec.requested dm r true s with
    | none => exact hs
    | some f =>
      have hprinted := hs.requested hf
      dsimp only
      split
      · exact hprinted
      · exact fun k hk => hprinted k ((keys_free_sublist f).subset hk)
  | _ => exact hs

/-- The ids in every state of a run are printed. -/
theorem ids_printed (dm : DataModel) (is : List Input) :
    Printed dm (run (Server.step dm) .startup is).queues :=
  run_inv (I := fun s : Server => Printed dm s.queues) (fun _ i h => h.step i)
    (show Printed dm [] from List.forall_mem_nil _) is

/-- A registered name is an id's text. -/
theorem Printed.isUuid (hs : Printed dm s.queues) {n : CStr} (h : registered n s = true) :
    IsUuid n := by
  obtain ⟨m, hm, hn⟩ := List.any_eq_true.mp h
  obtain ⟨u, hu⟩ := hs _ (List.mem_map_of_mem hm)
  have hfold : fold n = fold m.id := (strcaseEq_iff.mp hn).symm
  rw [show m.id = queueGetUuid dm u from hu, fold_queueGetUuid] at hfold
  exact isUuid_printed hfold

/-! ## Requests without a queue -/

/-- Without a queue, a handler replies what the lookup does. -/
theorem callback_none (hr : readsName r = true) (hn : requested dm r (mayMake r) s = none) :
    ∃ e s', Reads s s' ∧ connectionHttpCallback dm r s = connectionHttpError_ r e true
      (lookupError r (mayMake r)).1 (lookupError r (mayMake r)).2 s' := by
  have hlook : ∀ e, ∃ s', Reads s s' ∧ connectionHttpQueue_ dm r e (mayMake r) s =
      (connectionHttpError_ r e true (lookupError r (mayMake r)).1 (lookupError r (mayMake r)).2 s',
        none) := by
    intro e
    rcases queue_cases dm r e (mayMake r) s with ⟨-, h⟩ | ⟨f, s', hf, -, -⟩
    · exact h
    · rw [hn] at hf
      cases hf
  generalize lookupError r (mayMake r) = failure at hlook ⊢
  unfold connectionHttpCallback
  unfold readsName at hr
  unfold mayMake at hlook
  cases hp : r.path with
  | queues =>
    cases hm : r.method <;> simp [hp, hm] at hr hlook
    obtain ⟨s', hreads, hs'⟩ := hlook .new
    exact ⟨.new, s', hreads, by simp [connectionHttpCallbackQueues, hm, connectionHttpCallbackNew_, hs']⟩
  | queue =>
    cases hm : r.method <;> simp [hp, hm] at hr hlook
    · obtain ⟨s', hreads, hs'⟩ := hlook .info
      exact ⟨.info, s', hreads, by
        simp [connectionHttpCallbackQueue, hm, connectionHttpCallbackInfo_, hs']⟩
    · obtain ⟨s', hreads, hs'⟩ := hlook .delete
      exact ⟨.delete, s', hreads, by
        simp [connectionHttpCallbackQueue, hm, connectionHttpCallbackDelete_, hs']⟩
  | take =>
    simp [hp] at hlook
    obtain ⟨s', hreads, hs'⟩ := hlook .take
    exact ⟨.take, s', hreads, by simp [connectionHttpCallbackTake, hs']⟩
  | peek =>
    simp [hp] at hlook
    obtain ⟨s', hreads, hs'⟩ := hlook .peek
    exact ⟨.peek, s', hreads, by simp [connectionHttpCallbackPeek, hs']⟩
  | put =>
    simp [hp] at hlook
    obtain ⟨s', hreads, hs'⟩ := hlook .put
    exact ⟨.put, s', hreads, by simp [connectionHttpCallbackPut, hs']⟩

theorem none_rejected (hr : readsName r = true) (hn : requested dm r (mayMake r) s = none) :
    repliesTo dm r s = [lookupFailure r (mayMake r)] ∧ Unchanged s (s.step dm (.http r)) := by
  obtain ⟨e, s', hreads, he⟩ := callback_none hr hn
  have hemits := hreads.emits.trans
    (emits_error (r := r) e true (lookupError r (mayMake r)).1 (lookupError r (mayMake r)).2 s')
  rw [← he] at hemits
  constructor
  · rw [lookupFailure_eq]
    apply repliesTo_eq
    rw [he]
    exact hreads.logs.trans (logs_error r s' e true _ _)
  · exact ⟨hemits.queues, hemits.wants⟩

/-- With memory, a request that makes or finds a queue to return or delete is
answered with 200. -/
theorem some_accepted (hok : ∀ c, r.ok c = true) (hmake : mayMake r = true) {f : Found}
    (hf : requested dm r true s = some f) : (repliesTo dm r s).map (·.1) = [200] := by
  have henc : ∀ p, encodesPayload r.ok p = true := fun p => by
    cases p <;> simp [encodesPayload, protocolCreateSuccess, protocolCreateBase, hok]
  have hcode : ∃ b, Logs s.net [(200, b)] (connectionHttpCallback dm r s).net := by
    unfold connectionHttpCallback
    unfold mayMake at hmake
    cases hp : r.path <;> cases hm : r.method <;> simp [hp, hm] at hmake
    · simp only [connectionHttpCallbackQueues, hm]
      rcases new_cases dm r s with ⟨hnone, -⟩ | ⟨f', s', -, hreads, h⟩
      · rw [hf] at hnone
        cases hnone
      · have hget : Logs s.net [] { s' with queues := f'.registry }.net := hreads.logs
        rw [if_pos (hok .name)] at h
        obtain ⟨⟨code, b⟩, hlogs, -, hcode⟩ := h.logs
        obtain rfl : code = 200 := hcode (henc _)
        exact ⟨b, hget.trans hlogs⟩
    · simp only [connectionHttpCallbackQueue, hm]
      rcases delete_cases dm r s with ⟨hnone, -⟩ | ⟨f', s', -, hreads, h⟩
      · rw [hf] at hnone
        cases hnone
      · have hget : Logs s.net [] { s' with
            queues := f'.registry
            net.wants := managerQueueWantRemove f'.mq.q.addr s'.net.wants }.net := hreads.logs
        obtain ⟨⟨code, b⟩, hlogs, -, hcode⟩ := h.logs
        obtain rfl : code = 200 := hcode (henc _)
        exact ⟨b, (hget.trans (adds_free (fun _ => rfl) f' _)).trans hlogs⟩
  obtain ⟨b, hb⟩ := hcode
  rw [repliesTo_eq hb]
  rfl

/-! ## Names -/

theorem requested_ok (hok : ∀ c, r.ok c = true) (createNew : Bool) :
    requested dm r createNew s = managerQueueGet dm (r.supply s.next)
      (evhttpFindHeader r.params nameKey) createNew s.queues := by
  simp [requested, hok]

/-- Without a queue of the name, none is found. -/
theorem get_none {e : QueueSupply} {n : CStr} (h : registered n s = false) :
    managerQueueGet dm e (some n) false s.queues = none :=
  have hnone : FindsNothing dm n s := findsNothing fun k hk => by
    obtain ⟨m, hm, rfl⟩ := List.mem_map.mp hk
    simpa using List.any_eq_false.mp h m hm
  hnone e

theorem lookupFailure_code (hok : ∀ c, r.ok c = true) {n : CStr}
    (hn : evhttpFindHeader r.params nameKey = some n) (createNew : Bool) :
    (lookupFailure r createNew).1 =
      if n.length = 36 then (if createNew then 500 else 404) else 400 := by
  have hreads : readsParams r = true := by simp [readsParams, hok]
  have hserver : (failureReply r 0 .createQueue).1 = 500 := by
    simp [failureReply, sent, bodyText, protocolCreateFailure, protocolCreateBase, hok]
  rw [lookupFailure, if_pos hreads, hn]
  by_cases hlen : n.length = 36
  · rw [if_neg (by simp [hlen]), if_pos hlen]
    cases createNew with
    | true => exact hserver
    | false => exact failureReply_code r hok (by decide) _
  · rw [if_pos (by simp [hlen]), if_neg hlen]
    exact failureReply_code r hok (by decide) _

theorem refused_none (hr : readsName r = true)
    (hn : requested dm r (mayMake r) s = none) {code : Nat}
    (hcode : (lookupFailure r (mayMake r)).1 = code) : Refused dm code r s := by
  obtain ⟨hreplies, hsame⟩ := none_rejected hr hn
  exact ⟨by rw [hreplies, List.map_singleton, hcode], hsame⟩

/-- With memory, the names of a request are refused as documented exactly if
those of 36 characters are ids' texts, and a request to delete is for a
registered queue. -/
theorem rejectsNames_iff (dm : DataModel) (is : List Input) (r : Request)
    (hok : ∀ c, r.ok c = true) (hr : readsName r = true) :
    RejectsNames dm r (run (Server.step dm) .startup is) ↔
      NamesUuid r (run (Server.step dm) .startup is) := by
  have hprinted := ids_printed dm is
  generalize run (Server.step dm) .startup is = s at hprinted ⊢
  have hget : ∀ createNew, requested dm r createNew s = managerQueueGet dm (r.supply s.next)
      (evhttpFindHeader r.params nameKey) createNew s.queues := requested_ok hok
  constructor
  · intro h n hn hlen
    have hn' : evhttpFindHeader r.params nameKey = some n := hn
    have hid : IsUuid n := by
      by_contra hid
      have hcodes := (h.malformed n hn hid).1
      have hreg : registered n s = false :=
        Bool.eq_false_iff.mpr fun hreg => hid (hprinted.isUuid hreg)
      cases hf : requested dm r (mayMake r) s with
      | none =>
        rw [(none_rejected hr hf).1, List.map_singleton, lookupFailure_code hok hn', if_pos hlen]
          at hcodes
        split at hcodes <;> cases hcodes
      | some f =>
        cases hmake : mayMake r with
        | false =>
          rw [hmake, hget, hn', get_none hreg] at hf
          cases hf
        | true =>
          rw [hmake] at hf
          rw [some_accepted hok hmake hf] at hcodes
          cases hcodes
    refine ⟨hid, fun hdel => ?_⟩
    by_contra hreg
    rw [Bool.not_eq_true] at hreg
    obtain ⟨hp, hm⟩ := of_decide_eq_true hdel
    have hcodes := (h.unknown n hn hid hreg (by simp [asksNew, hp])).1
    obtain ⟨u, hu⟩ : ∃ u, parseUuid dm (r.supply s.next).stack n = some u :=
      parseUuid_iff.mpr (scans_isUuid hid)
    have hnew : ∀ m ∈ s.queues, strcaseEq m.id n = false := fun m hm => by
      simpa using List.any_eq_false.mp hreg m hm
    have hf := hget true
    rw [hn', get_unregistered dm (hok _) (hok _) hnew hlen, hu] at hf
    rw [some_accepted hok (by simp [mayMake, hp, hm]) hf] at hcodes
    cases hcodes
  · intro h
    refine ⟨fun n hn hid => ?_, fun n hn hid hreg hnew => ?_⟩
    · have hlen : n.length ≠ 36 := fun hlen => hid (h n hn hlen).1
      have hn' : evhttpFindHeader r.params nameKey = some n := hn
      refine refused_none hr ?_ ?_
      · rw [hget, hn', managerQueueGet_length (by simpa using hlen)]
      · rw [lookupFailure_code hok hn', if_neg hlen]
    · have hlen : n.length = 36 := hid.1
      have hn' : evhttpFindHeader r.params nameKey = some n := hn
      have hdel : asksDelete r = false := by
        refine Bool.eq_false_iff.mpr fun hdel => ?_
        rw [(h n hn hlen).2 hdel] at hreg
        cases hreg
      have hmake : mayMake r = false := by
        rw [mayMake]
        exact Bool.or_eq_false_iff.mpr ⟨hnew, hdel⟩
      refine refused_none hr ?_ ?_
      · rw [hmake, hget, hn', get_none hreg]
      · rw [lookupFailure_code hok hn', if_pos hlen, hmake]
        rfl

theorem rejectsNames_other : RejectsNames .lp64 (request .take .post [(nameKey, otherName)])
    (run (Server.step .lp64) .startup [postQueues]) := by
  refine (rejectsNames_iff .lp64 [postQueues] _ (fun _ => rfl) rfl).mpr fun n hn _ => ?_
  obtain rfl : otherName = n := Option.some.inj hn
  exact ⟨by decide +kernel, nofun⟩

/-- A name with a space in it is not found, and deleting no queue succeeds. -/
theorem rejectsNames_not_spaced :
    ¬ RejectsNames .lp64 (request .take .post [(nameKey, spacedName)]) .startup ∧
      ¬ RejectsNames .lp64 (request .queue .delete [(nameKey, otherName)]) .startup := by
  constructor
  · intro h
    have hcodes := (h.malformed spacedName rfl (by decide +kernel)).1
    revert hcodes
    decide +kernel
  · intro h
    have hcodes := (h.unknown otherName rfl (by decide +kernel) rfl rfl).1
    revert hcodes
    decide +kernel

end DQ.Proof.Registry
