import Disqueue.Proof.Registry.Keys
import Disqueue.Proof.Server.Steps
import Disqueue.Proof.Uuid.Named

/-!
# The registry as a map

Where the ids made of names are the names and random ids do not repeat, the
ids of the registered queues differ (`Keyed`), so that a lookup finds the
queue with the name, and the registry is a map keyed by the ids
(`registry_keyed`). A queue made under another name gets another id, and the
same name makes a second queue with that id (`registry_not_keyed`).
-/

namespace DQ.Proof.Registry

open DQ.Model DQ.Spec DQ.Proof.Server DQ.Proof.Uuid

/-- What `manager_queue_get` gives for a name, or for none: a queue found, or
made with an id that is parsed or drawn. -/
inductive Got (dm : DataModel) (e : QueueSupply) (qs : List ManagerQueue) (f : Found) :
    Option CStr → Prop
  | found {n} (hf : qs = f.registry) (hn : strcaseEq f.mq.id n = true) : Got dm e qs f (some n)
  | named {n u} (hn : ∀ m ∈ qs, strcaseEq m.id n = false) (hp : parseUuid dm e.stack n = some u)
      (hid : f.mq.id = queueGetUuid dm u) (hnew : IsNew qs f e.addr)
      (hok : e.ok .managerQueue = true ∧ e.ok .queue = true) : Got dm e qs f (some n)
  | drawn (hid : f.mq.id = queueGetUuid dm (randomUuid e.rand)) (hnew : IsNew qs f e.addr)
      (hok : e.ok .managerQueue = true ∧ e.ok .queue = true ∧ e.ok .randBytes = true) :
      Got dm e qs f none

variable {dm : DataModel} {e : QueueSupply} {qs : List ManagerQueue} {f : Found}

theorem managerQueueNew_got {uuid : Option Bytes} (h : managerQueueNew dm e uuid qs = some f) :
    (e.ok .managerQueue = true ∧ e.ok .queue = true) ∧
      match uuid with
      | some u => f.mq.id = queueGetUuid dm u
      | none => f.mq.id = queueGetUuid dm (randomUuid e.rand) ∧ e.ok .randBytes = true := by
  unfold managerQueueNew at h
  split at h <;> [cases h; skip]
  split at h <;> [cases h; skip]
  rename_i h1 h2
  simp only [Bool.not_eq_true', Bool.not_eq_false] at h1 h2
  refine ⟨⟨h1, h2⟩, ?_⟩
  split at h
  · exact (Option.some.inj h) ▸ rfl
  · split at h <;> [cases h; skip]
    rename_i h3
    simp only [Bool.not_eq_true', Bool.not_eq_false] at h3
    exact ⟨(Option.some.inj h) ▸ rfl, h3⟩

theorem managerQueueFind_none {n : CStr} :
    managerQueueFind n qs = none ↔ ∀ m ∈ qs, strcaseEq m.id n = false := by
  rw [managerQueueFind, Option.map_eq_none_iff, splitFirst_eq_none]

theorem managerQueueFind_id {n : CStr} (h : managerQueueFind n qs = some f) :
    strcaseEq f.mq.id n = true := by
  unfold managerQueueFind at h
  obtain ⟨⟨pre, mq, post⟩, hs, rfl⟩ := Option.map_eq_some_iff.mp h
  exact (splitFirst_eq_some.mp hs).2.1

theorem managerQueueGet_got {name : Option CStr} {createNew : Bool}
    (h : managerQueueGet dm e name createNew qs = some f) : Got dm e qs f name := by
  unfold managerQueueGet at h
  split at h
  · split at h <;> [cases h; skip]
    split at h
    · rename_i g hg
      obtain rfl := Option.some.inj h
      exact .found (managerQueueFind_registry hg) (managerQueueFind_id hg)
    · rename_i hg
      split at h <;> [cases h; skip]
      split at h <;> [cases h; skip]
      rename_i hp
      obtain ⟨hok, hid⟩ := managerQueueNew_got h
      exact .named (managerQueueFind_none.mp hg) hp hid (managerQueueNew_isNew h) hok
  · split at h <;> [cases h; skip]
    obtain ⟨⟨h1, h2⟩, hid, h3⟩ := managerQueueNew_got h
    exact .drawn hid (managerQueueNew_isNew h) ⟨h1, h2, h3⟩

theorem requested_got {r : Request} {createNew : Bool} {s : Server}
    (h : requested dm r createNew s = some f) :
    readsParams r = true ∧ Got dm (r.supply s.next) s.queues f (evhttpFindHeader r.params nameKey) ∧
      ∀ n ∈ evhttpFindHeader r.params nameKey, n.length = 36 := by
  unfold requested at h
  split at h <;> [skip; cases h]
  rename_i hr
  refine ⟨hr, managerQueueGet_got h, fun n hn => ?_⟩
  by_contra hlen
  rw [managerQueueGet_length] at h
  · cases h
  · rw [Option.mem_def.mp hn]
    simpa using hlen

theorem isNew_free {addr : Nat} (h : IsNew qs f addr) : f.free = qs := by
  rw [Found.free, h.pre, h.post, List.append_nil]

/-! ## The keys of every state -/

/-- The ids differ and are in lower case, and each is made of a name or was
drawn. -/
structure Keyed (drawn : List CStr) (ks : List (CStr × Nat)) : Prop where
  nodup : (ks.map (·.1)).Nodup
  lower : ∀ k ∈ ks, fold k.1 = k.1
  origin : ∀ k ∈ ks, version k.1 = some '0' ∨ k.1 ∈ drawn

theorem drawnId_version {i : Input} {id : CStr} (h : drawnId dm i = some id) :
    version id = some '4' := by
  unfold drawnId at h
  split at h
  · split at h <;> [skip; cases h]
    obtain rfl := Option.some.inj h
    exact version_random dm _
  · cases h

theorem mem_keys_registry {k : CStr × Nat} :
    k ∈ keys f.registry ↔ k = (f.mq.id, f.mq.q.addr) ∨ k ∈ keys f.free := by
  simp only [keys, Found.registry, Found.free, List.map_append, List.map_cons, List.mem_append,
    List.mem_cons]
  tauto

variable {drawn : List CStr} {ks : List (CStr × Nat)}

theorem Keyed.sublist (h : Keyed drawn ks) {ks' : List (CStr × Nat)} (hs : ks'.Sublist ks) :
    Keyed drawn ks' :=
  ⟨h.nodup.sublist (hs.map _), fun k hk => h.lower k (hs.subset hk),
    fun k hk => h.origin k (hs.subset hk)⟩

theorem Keyed.more (h : Keyed drawn ks) (ids : List CStr) : Keyed (drawn ++ ids) ks :=
  ⟨h.nodup, h.lower, fun k hk => (h.origin k hk).imp_right (List.mem_append_left _)⟩

/-- A new key. -/
theorem Keyed.concat (h : Keyed drawn ks) {id : CStr} {a : Nat} (hid : ∀ k ∈ ks, k.1 ≠ id)
    (hl : fold id = id) (ho : version id = some '0' ∨ id ∈ drawn) : Keyed drawn (ks ++ [(id, a)]) := by
  refine ⟨?_, fun k hk => ?_, fun k hk => ?_⟩
  · rw [List.map_append, List.map_singleton]
    refine List.nodup_append.mpr ⟨h.nodup, List.nodup_singleton _, fun x hx y hy => ?_⟩
    obtain ⟨k, hk, rfl⟩ := List.mem_map.mp hx
    rw [List.mem_singleton.mp hy]
    exact hid k hk
  · rcases List.mem_append.mp hk with hk | hk
    · exact h.lower k hk
    · rw [List.mem_singleton.mp hk]
      exact hl
  · rcases List.mem_append.mp hk with hk | hk
    · exact h.origin k hk
    · rw [List.mem_singleton.mp hk]
      exact ho

variable {s : Server} {i : Input} {r : Request}

theorem registered_eq_false {n : CStr} (h : ∀ m ∈ s.queues, strcaseEq m.id n = false) :
    registered n s = false := List.any_eq_false.mpr fun m hm => by rw [h m hm]; decide

/-- A request for a new queue makes one whose id is the name. -/
theorem named_of_kept (hk : NamesKept .lp64 s (.http r)) (hp : r.path = .queues)
    (hm : r.method = .post) (hname : r.ok .name = true) (hf : requested .lp64 r true s = some f)
    {n : CStr} (hn : evhttpFindHeader r.params nameKey = some n) : strcaseEq f.mq.id n = true := by
  obtain ⟨hreads, hgot, hlen⟩ := requested_got hf
  rw [hn] at hgot
  cases hgot with
  | found hf hn => exact hn
  | named hnone hparse hid hnew hok =>
    have hk := hk hp hm hreads n hn (hlen n hn)
    rw [if_neg (by rw [registered_eq_false hnone]; decide)] at hk
    have hcount : (sscanf (uuidFormat .lp64) n r.stack).2 = 10 := by
      obtain ⟨m, hs, -⟩ := parseUuid_eq_some.mp hparse
      exact congrArg Prod.snd hs
    rw [hid]
    exact (named_id_iff hparse).mpr (hk hok.1 hok.2 hname hcount)

/-- Calls that keep names keep the ids different. -/
theorem Keyed.step (h : Keyed drawn (keys s.queues)) (hk : NamesKept .lp64 s i)
    (hd : (drawn ++ (drawnId .lp64 i).toList).Nodup) :
    Keyed (drawn ++ (drawnId .lp64 i).toList) (keys (s.step .lp64 i).queues) := by
  have hkeys := step_keys .lp64 s i
  rw [hkeys]
  cases i with
  | http r =>
    dsimp only [httpKeys]
    split <;> [skip; exact h.more _]
    rename_i hmake
    cases hf : requested .lp64 r true s with
    | none => exact h.more _
    | some f =>
      obtain ⟨hreads, hgot, -⟩ := requested_got hf
      dsimp only
      generalize hname : evhttpFindHeader r.params nameKey = name at hgot
      cases hgot with
      | found hq hn =>
        rw [hq] at h
        split
        · exact h.more _
        · exact (h.sublist (keys_free_sublist f)).more _
      | named hnone hparse hid hnew hok =>
        split
        · rename_i hp
          have hpost : r.method = .post := by simpa [mayMake, hp.1] using hmake
          have heq := named_of_kept hk hp.1 hpost hp.2 hf hname
          rw [isNew_registry hnew, keys, List.map_append]
          refine (h.more _).concat (fun k hk hkid => ?_) ?_ (.inl ?_)
          · obtain ⟨m, hm, rfl⟩ := List.mem_map.mp hk
            have := hnone m hm
            rw [show m.id = f.mq.id from hkid, heq] at this
            cases this
          · rw [hid]
            exact fold_queueGetUuid _ _
          · rw [hid]
            exact version_parsed hparse
        · rw [isNew_free hnew]
          exact h.more _
      | drawn hid hnew hok =>
        split
        · have hdrawn : drawnId .lp64 (.http r) = some f.mq.id := by
            have : r.ok .managerQueue = true ∧ r.ok .queue = true ∧ r.ok .randBytes = true := hok
            rw [drawnId, if_pos, hid]
            · rfl
            · simp [hmake, hreads, hname, this]
          rw [isNew_registry hnew, keys, List.map_append]
          refine (h.more _).concat (fun k hk hkid => ?_) ?_ (.inr ?_)
          · rcases h.origin k hk with hv | hv
            · rw [hkid, drawnId_version hdrawn] at hv
              cases hv
            · rw [hdrawn] at hd
              exact (List.nodup_append.mp hd).2.2 _ hv _ (List.mem_singleton_self _) hkid
          · rw [hid]
            exact fold_queueGetUuid _ _
          · rw [hdrawn]
            exact List.mem_append_right _ (List.mem_singleton_self _)
        · rw [isNew_free hnew]
          exact h.more _
  | _ => exact h.more _

/-- The ids of all the states of a run are different. -/
theorem keyed_run {is : List Input} (hk : Meets (Server.step .lp64) (NamesKept .lp64) .startup is)
    (hd : (is.filterMap (drawnId .lp64)).Nodup) :
    Keyed (is.filterMap (drawnId .lp64)) (keys (run (Server.step .lp64) .startup is).queues) := by
  induction is using List.reverseRecOn with
  | nil => exact ⟨List.nodup_nil, List.forall_mem_nil _, List.forall_mem_nil _⟩
  | append_singleton is i ih =>
    obtain ⟨hk, hi, -⟩ := Meets.append_iff.mp hk
    have hsplit : (is ++ [i]).filterMap (drawnId .lp64) =
        is.filterMap (drawnId .lp64) ++ (drawnId .lp64 i).toList := by
      rw [List.filterMap_append]
      cases hi : drawnId .lp64 i <;> simp [hi]
    rw [hsplit] at hd ⊢
    rw [run_append]
    exact (ih hk (List.nodup_append.mp hd).1).step hi hd

/-! ## Looking up by the key -/

theorem Keyed.differ (h : Keyed drawn (keys qs)) {m m' : ManagerQueue} (hm : m ∈ qs) (hm' : m' ∈ qs)
    (hid : m.id ≠ m'.id) : strcaseEq m.id m'.id = false := by
  refine Bool.eq_false_iff.mpr fun heq => hid ?_
  have h1 := h.lower _ (List.mem_map_of_mem hm)
  have h2 := h.lower _ (List.mem_map_of_mem hm')
  exact h1.symm.trans ((strcaseEq_iff.mp heq).trans h2)

theorem Keyed.idsDiffer (h : Keyed drawn (keys s.queues)) : IdsDiffer s := by
  have hn := h.nodup
  rw [keys, List.map_map, List.Nodup, List.pairwise_map] at hn
  exact hn.imp_of_mem fun hm hm' hid => h.differ hm hm' hid

/-- The others have another id. -/
theorem Keyed.others (h : Keyed drawn (keys f.registry)) {m : ManagerQueue} (hm : m ∈ f.free) :
    strcaseEq m.id f.mq.id = false := by
  have hfirst : f.mq ∈ f.registry := by simp [Found.registry]
  have hrest : m ∈ f.registry := by
    rcases List.mem_append.mp hm with hm | hm <;> simp [Found.registry, hm]
  refine h.differ hrest hfirst fun heq => ?_
  have hnd := h.nodup
  rw [keys, List.map_map, Found.registry, List.map_append, List.map_cons, List.nodup_middle,
    ← List.map_append] at hnd
  exact (List.nodup_cons.mp hnd).1 (List.mem_map.mpr ⟨m, hm, heq⟩)

/-- A name is found at its key. -/
theorem Keyed.finds (h : Keyed drawn (keys s.queues)) {k : CStr × Nat} (hk : k ∈ keys s.queues)
    {n : CStr} (hn : strcaseEq k.1 n = true) (hlen : n.length = 36) : Finds dm n k.2 s := by
  obtain ⟨m, hm, rfl⟩ := List.mem_map.mp hk
  obtain ⟨pre, post, hq⟩ := List.append_of_mem hm
  have hfirst : ∀ y ∈ pre, strcaseEq y.id n = false := by
    intro y hy
    rw [hq] at h
    have := h.others (f := ⟨pre, m, post⟩) (List.mem_append_left _ hy)
    rwa [strcaseEq_congr hn y.id] at this
  have hfind : managerQueueFind n s.queues = some ⟨pre, m, post⟩ := by
    rw [managerQueueFind, splitFirst_eq_some.mpr ⟨hq, hn, hfirst⟩]
    rfl
  intro e createNew
  refine ⟨⟨pre, m, post⟩, ?_, hq, rfl⟩
  rw [managerQueueGet, if_neg (by rw [hlen]; decide), hfind]

/-- A name that is no key is not found. -/
theorem findsNothing {n : CStr} (h : ∀ k ∈ keys s.queues, strcaseEq k.1 n = false) :
    FindsNothing dm n s := by
  intro e
  have hnone : managerQueueFind n s.queues = none :=
    managerQueueFind_none.mpr fun m hm => h _ (List.mem_map_of_mem hm)
  simp only [managerQueueGet, hnone]
  split <;> rfl

/-- A key stays until its queue is deleted. -/
theorem key_stays {k : CStr × Nat} {n : CStr} (hk : k ∈ keys s.queues)
    (hn : strcaseEq k.1 n = true) (hkept : NamesKept .lp64 s i) (hd : ¬ Deletes .lp64 n s i) :
    k ∈ keys (s.step .lp64 i).queues := by
  rw [step_keys .lp64 s i]
  cases i with
  | http r =>
    dsimp only [httpKeys]
    split <;> [skip; exact hk]
    rename_i hmake
    cases hf : requested .lp64 r true s with
    | none => exact hk
    | some f =>
      obtain ⟨hreads, hgot, hlen⟩ := requested_got hf
      dsimp only
      have hnew : ∀ {addr}, IsNew s.queues f addr →
          k ∈ keys (if r.path = .queues ∧ r.ok .name then f.registry else f.free) := by
        intro addr hnew
        split
        · rw [isNew_registry hnew, keys, List.map_append]
          exact List.mem_append_left _ hk
        · rwa [isNew_free hnew]
      generalize hname : evhttpFindHeader r.params nameKey = name at hgot
      cases hgot with
      | found hq hid =>
        rename_i n'
        split
        · rwa [hq] at hk
        · rename_i hp
          by_cases hpath : r.path = .queues
          · -- the name of a registered queue is encoded
            have hpost : r.method = .post := by simpa [mayMake, hpath] using hmake
            have hkept := hkept hpath hpost hreads n' hname (hlen n' hname)
            rw [if_pos] at hkept
            · exact absurd ⟨hpath, hkept⟩ hp
            · exact List.any_eq_true.mpr ⟨f.mq, by rw [hq]; simp [Found.registry], hid⟩
          · have hdel : r.path = .queue ∧ r.method = .delete := by
              simpa [mayMake, hpath] using hmake
            rw [hq] at hk
            rcases mem_keys_registry.mp hk with rfl | hk
            · exact absurd ⟨hdel.1, hdel.2, f, hf, hn⟩ hd
            · exact hk
      | named hnone hparse hid hisNew hok => exact hnew hisNew
      | drawn hid hisNew hok => exact hnew hisNew
  | _ => exact hk

theorem key_stays_run {k : CStr × Nat} {n : CStr} {is : List Input} (hk : k ∈ keys s.queues)
    (hn : strcaseEq k.1 n = true) (hkept : Meets (Server.step .lp64) (NamesKept .lp64) s is)
    (hd : Meets (Server.step .lp64) (fun s i => ¬ Deletes .lp64 n s i) s is) :
    k ∈ keys (run (Server.step .lp64) s is).queues := by
  induction is generalizing s with
  | nil => exact hk
  | cons i is ih => exact ih (key_stays hk hn hkept.1 hd.1) hkept.2 hd.2

/-! ## Posting and deleting -/

/-- A success reply to a request for a queue with a name says the name, and
the queue is registered. -/
theorem posted_key (hk : NamesKept .lp64 s (.http r)) (hp : r.path = .queues)
    (hm : r.method = .post) {n : CStr} (hn : evhttpFindHeader r.params nameKey = some n) {rid : Nat}
    {e : Endpoint} {code : Nat} {b : Body} (hrep : .reply rid e code b ∈ added .lp64 s (.http r))
    (hb : b.success = true) :
    ∃ f, requested .lp64 r true s = some f ∧ b.payload = some (.name f.mq.id) ∧
      strcaseEq f.mq.id n = true ∧ n.length = 36 ∧
      (f.mq.id, f.mq.q.addr) ∈ keys (s.step .lp64 (.http r)).queues := by
  have hans : Answers s (fun b => ∃ f, requested .lp64 r true s = some f ∧ r.ok .name = true ∧
      b.payload = some (.name f.mq.id)) (s.step .lp64 (.http r)) := by
    have := new_answers .lp64 r s
    dsimp only [Server.step, connectionHttpCallback]
    rw [hp]
    dsimp only [connectionHttpCallbackQueues]
    rw [hm]
    exact this
  obtain ⟨f, hf, hname, hpay⟩ := hans.of_added hrep hb
  refine ⟨f, hf, hpay, named_of_kept hk hp hm hname hf hn, (requested_got hf).2.2 n hn, ?_⟩
  rw [step_keys .lp64 _ (.http r)]
  dsimp only [httpKeys]
  rw [if_pos (by simp [mayMake, hp, hm]), hf]
  dsimp only
  rw [if_pos ⟨hp, hname⟩]
  exact mem_keys_registry.mpr (.inl rfl)

/-- After a queue was deleted, its name is no key. -/
theorem deleted_key (h : Keyed drawn (keys s.queues)) (hp : r.path = .queue)
    (hm : r.method = .delete) {n : CStr} (hn : evhttpFindHeader r.params nameKey = some n)
    (hf : requested .lp64 r true s = some f) :
    ∀ k ∈ keys (s.step .lp64 (.http r)).queues, strcaseEq k.1 n = false := by
  have hkeys : keys (s.step .lp64 (.http r)).queues = keys f.free := by
    rw [step_keys .lp64 _ (.http r)]
    dsimp only [httpKeys]
    rw [if_pos (by simp [mayMake, hp, hm]), hf]
    dsimp only
    rw [if_neg fun h => by rw [hp] at h; cases h.1]
  rw [hkeys]
  obtain ⟨-, hgot, -⟩ := requested_got hf
  rw [hn] at hgot
  intro k hk
  cases hgot with
  | found hq hid =>
    obtain ⟨m, hmem, rfl⟩ := List.mem_map.mp hk
    rw [hq] at h
    rw [← strcaseEq_congr hid m.id]
    exact h.others hmem
  | named hnone hparse hid hnew hok =>
    rw [isNew_free hnew] at hk
    obtain ⟨m, hmem, rfl⟩ := List.mem_map.mp hk
    exact hnone m hmem

/-! ## Runs -/

/-- Over every run whose random ids do not repeat and whose requests keep
names, the registry is a map keyed by the ids. -/
theorem registry_keyed (is : List Input) (hd : (is.filterMap (drawnId .lp64)).Nodup)
    (hk : Meets (Server.step .lp64) (NamesKept .lp64) .startup is) : KeyedByUuid .lp64 is := by
  have hkeyed : ∀ js, js <+: is → Keyed (js.filterMap (drawnId .lp64))
      (keys (run (Server.step .lp64) .startup js).queues) := by
    rintro js ⟨ks, rfl⟩
    rw [List.filterMap_append] at hd
    exact keyed_run (Meets.append_iff.mp hk).1 (List.nodup_append.mp hd).1
  refine ⟨fun js hjs => (hkeyed js hjs).idsDiffer, ?_, ?_⟩
  · intro js r ks n his hp hm hn rid e code b hrep hb
    subst his
    obtain ⟨hjs, hr, hks⟩ := Meets.append_iff.mp hk
    obtain ⟨f, hf, hpay, hid, hlen, hkey⟩ := posted_key hr hp hm hn hrep hb
    refine ⟨f, hf, hpay, hid, ?_⟩
    rintro ls ⟨ms, rfl⟩ hdel
    have hstay := key_stays_run hkey hid (Meets.append_iff.mp hks).1
      (by rwa [run_append] at hdel)
    have hkeyed := hkeyed (js ++ .http r :: ls) ⟨ms, by simp⟩
    rw [run_append] at hkeyed ⊢
    exact hkeyed.finds hstay hid hlen
  · intro js r ks n his hp hm hn rid e code b hrep hb
    subst his
    have hans : Answers (run (Server.step .lp64) .startup js)
        (fun _ => ∃ f, requested .lp64 r true (run (Server.step .lp64) .startup js) = some f)
        ((run (Server.step .lp64) .startup js).step .lp64 (.http r)) := by
      have := delete_answers .lp64 r (run (Server.step .lp64) .startup js)
      dsimp only [Server.step, connectionHttpCallback]
      rw [hp]
      dsimp only [connectionHttpCallbackQueue]
      rw [hm]
      exact this
    obtain ⟨f, hf⟩ := hans.of_added hrep hb
    rw [run_append]
    exact findsNothing (deleted_key (hkeyed js ⟨_, rfl⟩) hp hm hn hf)

instance (s : Server) : ∀ i, Decidable (NamesKept .lp64 s i)
  | .http r => inferInstanceAs (Decidable (r.path = .queues → r.method = .post →
      readsParams r = true → ∀ n ∈ evhttpFindHeader r.params nameKey, n.length = 36 →
        if registered n s then r.ok .name = true
        else r.ok .managerQueue = true → r.ok .queue = true → r.ok .name = true →
          (sscanf (uuidFormat .lp64) n r.stack).2 = 10 → ZeroNamed n))
  | .opened | .read .. | .drained _ | .event .. => inferInstanceAs (Decidable True)

/-- The text of an id, with the groups given between zeros. -/
def idOf (first second third : CStr) : CStr :=
  first ++ '-' :: second ++ '-' :: third ++ ['-', '0', '0', '0', '0', '-'] ++ List.replicate 12 '0'

/-- A name in upper case, whose second and third groups are zero. -/
def keptName : CStr := idOf ['D', '1', '5', 'E', 'A', '5', 'E', 'D'] ['0', '0', '0', '0'] ['0', '0', '0', '0']

/-- A name of version 4. -/
def otherName : CStr := idOf ['d', '1', '5', 'e', 'a', '5', 'e', 'd'] ['1', '2', '3', '4'] ['4', '2', '4', '2']

/-- A request for a new queue with a name, or to delete one. -/
def postNamed (n : CStr) : Input := .http (request .queues .post [(nameKey, n)])

def deleteNamed (n : CStr) : Input := .http (request .queue .delete [(nameKey, n)])

theorem registry_keyed_kept :
    KeyedByUuid .lp64 [postNamed keptName, postQueues, deleteNamed keptName, postNamed keptName] :=
  registry_keyed _ (by decide +kernel) (by decide +kernel)

instance (s : Server) : Decidable (IdsDiffer s) :=
  inferInstanceAs (Decidable (s.queues.Pairwise fun m m' => strcaseEq m.id m'.id = false))

/-- The same name twice: two queues, whose one id is not the name. -/
theorem registry_not_keyed :
    ([postNamed otherName, postNamed otherName].filterMap (drawnId .lp64)).Nodup ∧
      ¬ KeyedByUuid .lp64 [postNamed otherName, postNamed otherName] := by
  refine ⟨by decide +kernel, fun h => ?_⟩
  have hd := h.differ _ (List.prefix_refl _)
  revert hd
  decide +kernel

end DQ.Proof.Registry
