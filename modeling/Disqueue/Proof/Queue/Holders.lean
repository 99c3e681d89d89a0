import Disqueue.Framework.Holders
import Disqueue.Framework.Run
import Disqueue.Spec.Holders
import Disqueue.Proof.Queue.Refine
import Disqueue.Proof.Server.Heap

/-!
# The items that clients hold

`Held` is what holds of the items of a queue while the calls keep them valid:
each cell is what the item's fate and the number of its lock holders make it
(`cellOf`), and a taken item has one taker. Each call changes the fate or the
holders of one item (`Changes`), except for the deletion of the queue.
-/

namespace DQ.Proof.Queue

open DQ.Model DQ.Spec DQ.Proof.Server

/-! ## The queue functions, on items that were not released -/

section

variable {α : Type} {q : Queue α} {h : Heap}

theorem queueFind_live (hl : ∀ item ∈ q.items, (h.cell item.id).released = 0)
    (key : Option CStr) :
    (queueFind key q h).2 = h ∧ ∀ pre item post,
      (queueFind key q h).1 = some (pre, item, post) → q.items = pre ++ item :: post := by
  have hread : ∀ items : List QueueItem, (∀ i ∈ items, i ∈ q.items) → h.readAll (items.map (·.id)) = h := by
    intro items hsub
    refine readAll_live fun id hid => ?_
    obtain ⟨i, hi, rfl⟩ := List.mem_map.mp hid
    exact hl i (hsub i hi)
  unfold queueFind
  split
  · exact ⟨rfl, by simp⟩
  · split
    · split
      · rename_i pre item post hs
        have hitems := (splitFirst_eq_some.mp hs).1
        refine ⟨hread _ fun i hi => ?_, ?_⟩
        · rw [hitems]
          rcases List.mem_append.mp hi with hi | hi
          · exact List.mem_append_left _ hi
          · rw [List.mem_singleton.mp hi]
            exact List.mem_append_right _ List.mem_cons_self
        · rintro pre' item' post' ⟨⟩
          exact hitems
      · exact ⟨hread _ fun _ hi => hi, by simp⟩
    · exact ⟨rfl, by simp⟩

/-- `queue_take` finds nothing, or takes an item out of the list. -/
theorem queueTake_live (hl : ∀ item ∈ q.items, (h.cell item.id).released = 0)
    (key : Option CStr) :
    queueTake key q h = (none, q, h) ∨ ∃ pre item post, q.items = pre ++ item :: post ∧
      queueTake key q h = (some item, q.removeItem item (pre ++ post),
        setCell h item.id { h.cell item.id with inserted := false }) := by
  obtain ⟨hh, hf⟩ := queueFind_live hl key
  unfold queueTake
  rcases he : queueFind key q h with ⟨_ | ⟨pre, item, post⟩, h'⟩ <;> rw [he] at hh hf <;>
    obtain rfl : h' = h := hh
  · exact .inl rfl
  · have hitems := hf pre item post rfl
    have hmem : item ∈ q.items := by simp [hitems]
    refine .inr ⟨pre, item, post, hitems, ?_⟩
    dsimp only
    rw [setInserted_live (hl item hmem)]

/-- `queue_peek` finds nothing, or an item of the list. -/
theorem queuePeek_live (hl : ∀ item ∈ q.items, (h.cell item.id).released = 0)
    (key : Option CStr) :
    queuePeek key q h = (none, h) ∨ ∃ item ∈ q.items, queuePeek key q h = (some item, h) := by
  obtain ⟨hh, hf⟩ := queueFind_live hl key
  unfold queuePeek
  rcases he : queueFind key q h with ⟨_ | ⟨pre, item, post⟩, h'⟩ <;> rw [he] at hh hf <;>
    obtain rfl : h' = h := hh
  · exact .inl rfl
  · exact .inr ⟨item, by simp [hf pre item post rfl], rfl⟩

theorem read_cell (h : Heap) (i j : Nat) : (h.read i).cell j = h.cell j := by
  unfold Heap.read
  split <;> rfl

/-- A lock does not bring an item back. -/
theorem queueItemLock_released (h : Heap) (i : Nat) :
    ((queueItemLock h i).cell i).released = (h.cell i).released := by
  simp [queueItemLock, Heap.addLock, read_cell]

theorem addLock_live {i : Nat} (hl : (h.cell i).released = 0) (n : Int) :
    h.addLock i n = setCell h i { h.cell i with lockcount := (h.cell i).lockcount + n } := by
  simp only [Heap.addLock, read_live hl, setCell]

/-- `queue_item_unlock`, on an item that was not released. -/
theorem queueItemUnlock_live {i : Nat} {b : Bool} {n : Nat} (hc : h.cell i = ⟨b, n + 1, 0⟩) :
    queueItemUnlock h i = setCell h i ⟨b, n, if n = 0 ∧ b = false then 1 else 0⟩ := by
  have hl : (h.cell i).released = 0 := by rw [hc]
  have hlock : h.addLock i (-1) = setCell h i ⟨b, n, 0⟩ := by
    rw [addLock_live hl, hc]
    simp
  unfold queueItemUnlock
  simp only [hlock, setCell_self]
  split
  · rename_i hn
    obtain ⟨hn, rfl⟩ := hn
    obtain rfl : n = 0 := by exact_mod_cast hn
    show queueItemFree (setCell h i ⟨false, 0, 0⟩) i = _
    rw [queueItemFree_once (setCell_self ..), setCell_setCell]
    rfl
  · rename_i hn
    rw [if_neg fun hb => hn ⟨by rw [hb.1]; rfl, hb.2⟩]

/-- `queue_item_free`, on an item that was not released. -/
theorem queueItemFree_live {i : Nat} {b : Bool} {n : Nat} (hc : h.cell i = ⟨b, n, 0⟩) :
    queueItemFree h i = setCell h i ⟨b, n, if n = 0 then 1 else 0⟩ := by
  by_cases hn : n = 0
  · subst hn
    rw [queueItemFree_once (b := b) (by simpa using hc)]
    rfl
  · have hl : (h.cell i).released = 0 := by rw [hc]
    have hn' : ((n : Nat) : Int) ≠ 0 := by omega
    unfold queueItemFree
    simp only [read_live hl, hc, ne_eq, hn', not_false_eq_true, if_true, if_neg hn]
    rw [← hc, setCell_cell]

/-- `queue_free` releases an item as often as it is in the queue. -/
theorem queueFree_cell (q : Queue α) (h : Heap) (i : Nat) :
    (queueFree q h).cell i =
      { h.cell i with released := (h.cell i).released + (q.items.map (·.id)).count i } := by
  unfold queueFree
  induction q.items generalizing h with
  | nil => simp
  | cons item items ih =>
    rw [List.foldl_cons, ih, List.map_cons, List.count_cons]
    by_cases hi : i = item.id
    · subst hi
      simp [queueItemFree_, Heap.release, read_cell]
      omega
    · have hne : item.id ≠ i := fun e => hi e.symm
      simp [queueItemFree_, Heap.release, read_cell, hi, hne]

end

/-! ## The invariant -/

/-- The cell of an item, from its fate and the number of its lock holders. -/
def cellOf : Fate → Nat → Cell
  | .absent, n => ⟨false, n, 0⟩
  | .stored, n => ⟨true, n, 0⟩
  | .taken, n => ⟨false, n, 0⟩
  | .freed, n => ⟨false, n, if n = 0 then 1 else 0⟩
  | .discarded, n => ⟨true, n, 1⟩

/-- Another lock on an item that was not released. -/
theorem cellOf_lock {f : Fate} {n : Nat} (hr : (cellOf f n).released = 0) :
    { cellOf f n with lockcount := (cellOf f n).lockcount + 1 } = cellOf f (n + 1) := by
  cases f with
  | absent | stored | taken => rfl
  | freed =>
    have hn : n ≠ 0 := by
      rintro rfl
      exact absurd hr (by decide)
    simp [cellOf, hn]
  | discarded => exact absurd hr (by simp [cellOf])

/-- One lock less on an item, unless it is the last and the item is taken. -/
theorem queueItemUnlock_cellOf {h : Heap} {i n : Nat} {f : Fate} (hc : h.cell i = cellOf f (n + 1))
    (hf : f ≠ .absent ∧ f ≠ .discarded) (hu : f = .taken → n ≠ 0) :
    queueItemUnlock h i = setCell h i (cellOf f n) := by
  cases f with
  | absent => exact absurd rfl hf.1
  | discarded => exact absurd rfl hf.2
  | stored =>
    rw [queueItemUnlock_live (b := true) (n := n) hc]
    simp [cellOf]
  | taken =>
    rw [queueItemUnlock_live (b := false) (n := n) hc]
    simp [cellOf, hu rfl]
  | freed =>
    rw [queueItemUnlock_live (b := false) (n := n) hc]
    simp [cellOf]

/-- A taken item is freed when its last lock is given up. -/
theorem queueItemFree_cellOf {h : Heap} {i n : Nat} (hc : h.cell i = cellOf .taken n) :
    queueItemFree h i = setCell h i (cellOf .freed n) :=
  queueItemFree_live hc

/-- The item a client is concerned with. -/
def itemOf : Phase → Option Nat
  | .idle => none
  | .peeked i => some i
  | .locked i => some i
  | .taken i => some i

variable {ι : Type}

/-- The clients' phases are the same, as far as items other than `i` go. -/
def OnlyAt (i : Nat) (g g' : ι → Phase) : Prop :=
  ∀ j x, j ≠ i → itemOf x = some j → ∀ c, g' c = x ↔ g c = x

theorem OnlyAt.refl (i : Nat) (g : ι → Phase) : OnlyAt i g g := fun _ _ _ _ _ => Iff.rfl

theorem onlyAt_update [DecidableEq ι] {i : Nat} {g : ι → Phase} {c : ι} {p : Phase}
    (hg : ∀ j, itemOf (g c) = some j → j = i) (hp : ∀ j, itemOf p = some j → j = i) :
    OnlyAt i g (Function.update g c p) := by
  intro j x hj hx d
  by_cases hd : d = c
  · subst hd
    rw [Function.update_self]
    exact ⟨fun e => absurd (hp j (e ▸ hx)) hj, fun e => absurd (hg j (e ▸ hx)) hj⟩
  · rw [Function.update_of_ne hd]

variable [Fintype ι] {s t : QueueHolders ι}

/-- The addresses of the items stored. -/
def storedIds (s : QueueHolders ι) : List Nat :=
  match s.q with
  | some q => q.items.map (·.id)
  | none => []

/-- The clients and the queue agree about every item. -/
structure Held (s : QueueHolders ι) : Prop where
  cell : ∀ i, s.heap.cell i = cellOf (s.fate i) (holders s.phase (.locked i))
  stored : ∀ i, i ∈ storedIds s ↔ s.fate i = .stored
  nodup : (storedIds s).Nodup
  fresh : ∀ i, s.next ≤ i → s.fate i = .absent
  /-- A taken item has one taker. -/
  takers : ∀ i, holders s.phase (.taken i) = if s.fate i = .taken then 1 else 0
  known : ∀ c i, itemOf (s.phase c) = some i → s.fate i ≠ .absent
  kept : ∀ c i, s.phase c = .locked i → s.fate i ≠ .discarded

theorem held_new (addr : Nat) (uuid : Nat → UInt8) :
    Held (QueueHolders.new addr uuid : QueueHolders ι) where
  cell i := by
    have h0 : holders (fun _ : ι => Phase.idle) (.locked i) = 0 := holders_eq_zero.mpr (by simp)
    simp [QueueHolders.new, Heap.empty, cellOf, h0]
  stored i := by simp [storedIds, QueueHolders.new, queueNew]
  nodup := List.nodup_nil
  fresh _ _ := rfl
  takers i := by
    have h0 : holders (fun _ : ι => Phase.idle) (.taken i) = 0 := holders_eq_zero.mpr (by simp)
    simp [QueueHolders.new, h0]
  known c i h := by simp [QueueHolders.new, itemOf] at h
  kept c i h := by simp [QueueHolders.new] at h

theorem Held.taken (hs : Held s) {c : ι} {i : Nat} (h : s.phase c = .taken i) :
    s.fate i = .taken := by
  have hpos : 0 < holders s.phase (.taken i) := holders_pos h
  rw [hs.takers] at hpos
  by_contra hn
  simp [hn] at hpos

theorem Held.lt_next (hs : Held s) {i : Nat} (h : s.fate i ≠ .absent) : i < s.next :=
  Nat.lt_of_not_le fun hle => h (hs.fresh i hle)

/-- Nobody is concerned with an item that is not there. -/
theorem Held.nobody (hs : Held s) {i : Nat} (hf : s.fate i = .absent) {x : Phase}
    (hx : itemOf x = some i) : holders s.phase x = 0 :=
  holders_eq_zero.mpr fun c e => hs.known c i (e ▸ hx) hf

section

variable {q : Queue Unit} {pre post : List QueueItem} {item : QueueItem}

theorem Held.of_mem (hs : Held s) (hq : s.q = some q) (hi : item ∈ q.items) :
    s.fate item.id = .stored := by
  refine (hs.stored _).mp ?_
  simp only [storedIds, hq]
  exact List.mem_map_of_mem hi

/-- The items the queue's functions look at were not released. -/
theorem Held.live (hs : Held s) (hq : s.q = some q) :
    ∀ item ∈ q.items, (s.heap.cell item.id).released = 0 := by
  intro item hi
  rw [hs.cell, hs.of_mem hq hi]
  rfl

/-- The queue may change otherwise than in its items. -/
theorem Held.requeue (hs : Held s) (hq : s.q = some q) {q' : Queue Unit}
    (hi : q'.items = q.items) : Held { s with q := some q' } := by
  have hids : storedIds { s with q := some q' } = storedIds s := by
    simp only [storedIds, hq, hi]
  exact ⟨hs.cell, fun i => hids ▸ hs.stored i, hids ▸ hs.nodup, hs.fresh, hs.takers, hs.known,
    hs.kept⟩

/-- An item out of the list: the others are stored as before. -/
theorem Held.split (hs : Held s) (hq : s.q = some q) (hi : q.items = pre ++ item :: post) :
    ((pre ++ post).map (·.id)).Nodup ∧ item.id ∉ (pre ++ post).map (·.id) ∧
      ∀ j, j ≠ item.id → (j ∈ (pre ++ post).map (·.id) ↔ j ∈ storedIds s) := by
  have hids : storedIds s = (pre ++ item :: post).map (·.id) := by
    simp only [storedIds, hq, hi]
  have hperm : ((pre ++ item :: post).map (·.id)).Perm (item.id :: (pre ++ post).map (·.id)) :=
    List.perm_middle.map _
  have hn := List.nodup_cons.mp (hperm.nodup_iff.mp (hids ▸ hs.nodup))
  refine ⟨hn.2, hn.1, fun j hj => ?_⟩
  rw [hids, hperm.mem_iff, List.mem_cons]
  simp [hj]

end

/-- The items that clients hold are valid. -/
theorem Held.valid (hs : Held s) : HoldersValid s where
  locked c i h := by
    have hpos : 0 < holders s.phase (.locked i) := holders_pos h
    rw [hs.cell]
    cases hf : s.fate i with
    | absent => exact rfl
    | stored => exact rfl
    | taken => exact rfl
    | freed => exact if_neg (Nat.ne_of_gt hpos)
    | discarded => exact absurd hf (hs.kept c i h)
  taken c i h := by
    rw [hs.cell, hs.taken h]
    rfl
  freed i hf hn := by
    rw [hs.cell, hf, holders_eq_zero.mpr hn]
    rfl

/-! ## A change of one item -/

/-- From `s` to `t`, the item at `i` gets the fate `f`, and nothing changes for
the others. -/
structure Changes (i : Nat) (f : Fate) (s t : QueueHolders ι) : Prop where
  phase : OnlyAt i s.phase t.phase
  fate : t.fate = Function.update s.fate i f
  here : f ≠ .absent ∧ f ≠ .discarded
  cells : ∀ j, j ≠ i → t.heap.cell j = s.heap.cell j
  cell : t.heap.cell i = cellOf f (holders t.phase (.locked i))
  takers : holders t.phase (.taken i) = if f = .taken then 1 else 0
  ids : ∀ j, j ≠ i → (j ∈ storedIds t ↔ j ∈ storedIds s)
  id : i ∈ storedIds t ↔ f = .stored
  nodup : (storedIds t).Nodup
  next : s.next ≤ t.next
  lt : i < t.next

theorem Held.change (hs : Held s) {i : Nat} {f : Fate} (hc : Changes i f s t) : Held t := by
  have hself : t.fate i = f := by rw [hc.fate, Function.update_self]
  have hother : ∀ j, j ≠ i → t.fate j = s.fate j := fun j hj => by
    rw [hc.fate, Function.update_of_ne hj]
  have hholders : ∀ j x, j ≠ i → itemOf x = some j → holders t.phase x = holders s.phase x :=
    fun j x hj hx => holders_congr (hc.phase j x hj hx)
  constructor
  case cell =>
    intro j
    by_cases hj : j = i
    · subst hj
      rw [hself, hc.cell]
    · rw [hc.cells j hj, hother j hj, hholders j _ hj rfl, hs.cell]
  case stored =>
    intro j
    by_cases hj : j = i
    · subst hj
      rw [hself, hc.id]
    · rw [hc.ids j hj, hother j hj, hs.stored]
  case nodup => exact hc.nodup
  case fresh =>
    intro j hj
    have hne : j ≠ i := by have := hc.lt; omega
    rw [hother j hne]
    exact hs.fresh j (hc.next.trans hj)
  case takers =>
    intro j
    by_cases hj : j = i
    · subst hj
      rw [hself, hc.takers]
    · rw [hother j hj, hholders j _ hj rfl, hs.takers]
  case known =>
    intro c j hp
    by_cases hj : j = i
    · subst hj
      exact hself ▸ hc.here.1
    · rw [hother j hj]
      exact hs.known c j (((hc.phase j _ hj hp c).mp rfl) ▸ hp)
  case kept =>
    intro c j hp
    by_cases hj : j = i
    · subst hj
      exact hself ▸ hc.here.2
    · rw [hother j hj]
      exact hs.kept c j ((hc.phase j _ hj rfl c).mp hp)

/-- A new item, stored or handed to a callback and freed. -/
theorem Held.place (hs : Held s) {q q' : Queue Unit} {f : Fate} (hq : s.q = some q)
    (hf : f = .stored ∧ q'.items.map (·.id) = q.items.map (·.id) ++ [s.next] ∨
      f = .freed ∧ q'.items.map (·.id) = q.items.map (·.id)) :
    Held { s with
      q := some q', heap := setCell s.heap s.next (cellOf f 0), next := s.next + 1
      fate := Function.update s.fate s.next f } := by
  have habs := hs.fresh s.next (Nat.le_refl _)
  have hids : storedIds s = q.items.map (·.id) := by simp only [storedIds, hq]
  have hnot : s.next ∉ q.items.map (·.id) := by
    rw [← hids, hs.stored, habs]
    simp
  have hn : (q.items.map (·.id)).Nodup := hids ▸ hs.nodup
  refine hs.change (i := s.next) (f := f) {
    phase := OnlyAt.refl _ _
    fate := rfl
    here := by rcases hf with ⟨rfl, -⟩ | ⟨rfl, -⟩ <;> simp
    cells := fun j hj => setCell_of_ne _ hj _
    cell := by rw [setCell_self, hs.nobody habs rfl]
    takers := by
      rw [hs.nobody habs rfl]
      rcases hf with ⟨rfl, -⟩ | ⟨rfl, -⟩ <;> rfl
    ids := fun j hj => ?_
    id := ?_
    nodup := ?_
    next := Nat.le_succ _
    lt := Nat.lt_succ_self _ }
  · show j ∈ q'.items.map (·.id) ↔ _
    rcases hf with ⟨-, hi⟩ | ⟨-, hi⟩
    · simp only [hi, hids, List.mem_append, List.mem_singleton, hj, or_false]
    · rw [hi, hids]
  · show s.next ∈ q'.items.map (·.id) ↔ _
    rcases hf with ⟨rfl, hi⟩ | ⟨rfl, hi⟩
    · simp [hi]
    · rw [hi]
      exact iff_of_false hnot (by simp)
  · show (q'.items.map (·.id)).Nodup
    rcases hf with ⟨-, hi⟩ | ⟨-, hi⟩
    · rw [hi]
      exact List.nodup_append.mpr ⟨hn, List.nodup_singleton _, fun a ha b hb e =>
        hnot (List.mem_singleton.mp hb ▸ e ▸ ha)⟩
    · rw [hi]
      exact hn

variable [DecidableEq ι]

/-- A client goes on with the item at `i`, and the queue is as before. -/
theorem Held.client (hs : Held s) {c : ι} {i : Nat} {p : Phase} {f : Fate} {h : Heap}
    {fate : Nat → Fate} (hfate : fate = Function.update s.fate i f)
    (hg : ∀ j, itemOf (s.phase c) = some j → j = i) (hp : ∀ j, itemOf p = some j → j = i)
    (hk : s.fate i ≠ .absent) (hf : f ≠ .absent ∧ f ≠ .discarded)
    (hst : f = .stored ↔ s.fate i = .stored)
    (hh : h = setCell s.heap i (cellOf f (holders (Function.update s.phase c p) (.locked i))))
    (ht : holders (Function.update s.phase c p) (.taken i) = if f = .taken then 1 else 0) :
    Held ({ s with heap := h, fate := fate }.setPhase c p) :=
  hs.change (i := i) (f := f) {
    phase := onlyAt_update hg hp
    fate := hfate
    here := hf
    cells := fun j hj => by
      show h.cell j = s.heap.cell j
      rw [hh, setCell_of_ne _ hj]
    cell := by
      show h.cell i = _
      rw [hh, setCell_self]
      rfl
    takers := ht
    ids := fun _ _ => Iff.rfl
    id := (hs.stored i).trans hst.symm
    nodup := hs.nodup
    next := Nat.le_refl _
    lt := hs.lt_next hk }

/-! ## The calls -/

theorem held_lock (hs : Held s) {c : ι} {i : Nat} (hp : s.phase c = .peeked i)
    (hr : (s.heap.cell i).released = 0) : Held (s.step (.lock c)) := by
  have hk : s.fate i ≠ .absent := hs.known c i (by rw [hp]; rfl)
  have hd : s.fate i ≠ .discarded := by
    intro hf
    rw [hs.cell, hf] at hr
    exact absurd hr (by simp [cellOf])
  have hgain := holders_gain (f := s.phase) (c := c) (x := .locked i) (by rw [hp]; simp)
  have hother := holders_other (f := s.phase) (c := c) (x := .taken i) (v := .locked i)
    (by rw [hp]; simp) (by simp)
  have hlock : queueItemLock s.heap i = setCell s.heap i
      (cellOf (s.fate i) (holders (Function.update s.phase c (.locked i)) (.locked i))) := by
    unfold queueItemLock
    rw [addLock_live hr, hgain, hs.cell, cellOf_lock (by rw [← hs.cell]; exact hr)]
  rw [QueueHolders.step, hp]
  exact hs.client (Function.update_eq_self i s.fate).symm (by simp [hp, itemOf]) (by simp [itemOf])
    hk ⟨hk, hd⟩ Iff.rfl hlock (by rw [hother, hs.takers])

theorem held_unlock (hs : Held s) {c : ι} {i : Nat} (hp : s.phase c = .locked i)
    (hu : s.fate i = .taken → (s.heap.cell i).lockcount ≠ 1) : Held (s.step (.unlock c)) := by
  have hk : s.fate i ≠ .absent := hs.known c i (by rw [hp]; rfl)
  have hd := hs.kept c i hp
  have hdrop := holders_drop (c := c) (v := .idle) hp (by simp)
  have hother := holders_other (f := s.phase) (c := c) (x := .taken i) (v := .idle)
    (by rw [hp]; simp) (by simp)
  have hc : s.heap.cell i = cellOf (s.fate i) _ := hs.cell i
  rw [← hdrop] at hc
  have hunlock := queueItemUnlock_cellOf hc ⟨hk, hd⟩ fun ht h0 => hu ht (by
    rw [hc, ht, h0]
    rfl)
  rw [QueueHolders.step, hp]
  exact hs.client (Function.update_eq_self i s.fate).symm (by simp [hp, itemOf]) (by simp [itemOf])
    hk ⟨hk, hd⟩ Iff.rfl hunlock (by rw [hother, hs.takers])

theorem held_free (hs : Held s) {c : ι} {i : Nat} (hp : s.phase c = .taken i) :
    Held (s.step (.free c)) := by
  have hf := hs.taken hp
  have hother := holders_other (f := s.phase) (c := c) (x := .locked i) (v := .idle)
    (by rw [hp]; simp) (by simp)
  have hdrop := holders_drop (c := c) (v := .idle) hp (by simp)
  rw [hs.takers, if_pos hf] at hdrop
  have hc := hs.cell i
  rw [hf, ← hother] at hc
  rw [QueueHolders.step, hp]
  exact hs.client rfl (by simp [hp, itemOf]) (by simp [itemOf]) (by simp [hf]) (by simp)
    (by simp [hf]) (queueItemFree_cellOf hc) (by simpa using hdrop)

/-- Reading an item that a client may read changes nothing. -/
theorem held_read (hs : Held s) (c : ι) : Held (s.step (.read c)) := by
  cases hp : s.phase c with
  | idle | peeked i =>
    rw [QueueHolders.step, hp]
    exact hs
  | locked i =>
    rw [QueueHolders.step, hp]
    dsimp only
    rw [read_live (hs.valid.locked c i hp)]
    exact hs
  | taken i =>
    rw [QueueHolders.step, hp]
    dsimp only
    rw [read_live (hs.valid.taken c i hp)]
    exact hs

theorem held_peek (hs : Held s) (c : ι) (key : Option CStr) : Held (s.step (.peek c key)) := by
  simp only [QueueHolders.step]
  split
  · rename_i q hq hp
    rcases queuePeek_live (hs.live hq) key with h | ⟨item, hi, h⟩
    · rw [h]
      exact hs
    · have hf := hs.of_mem hq hi
      have hother : ∀ x, itemOf x = some item.id → x ≠ .peeked item.id →
          holders (Function.update s.phase c (.peeked item.id)) x = holders s.phase x :=
        fun x hx hne => holders_other (by rw [hp]; rintro rfl; simp [itemOf] at hx) hne.symm
      rw [h]
      refine hs.client (i := item.id) (Function.update_eq_self item.id s.fate).symm (by simp [hp, itemOf])
        (by simp [itemOf]) (by simp [hf]) (by simp [hf]) Iff.rfl ?_ ?_
      · rw [hother _ rfl (by simp), ← hs.cell, setCell_cell]
      · rw [hother _ rfl (by simp), hs.takers]
  · exact hs

theorem held_take (hs : Held s) (c : ι) (key : Option CStr) : Held (s.step (.take c key)) := by
  simp only [QueueHolders.step]
  split
  · rename_i q hq hp
    rcases queueTake_live (hs.live hq) key with h | ⟨pre, item, post, hi, h⟩
    · rw [h]
      dsimp only
      rw [← hq]
      exact hs
    · obtain ⟨hn, hnot, hids⟩ := hs.split hq hi
      have hf : s.fate item.id = .stored := hs.of_mem hq (by simp [hi])
      have hlock := holders_other (f := s.phase) (c := c) (x := .locked item.id)
        (v := .taken item.id) (by rw [hp]; simp) (by simp)
      have htake := holders_gain (f := s.phase) (c := c) (x := .taken item.id) (by rw [hp]; simp)
      rw [hs.takers, hf, if_neg (by simp)] at htake
      rw [h]
      exact hs.change (i := item.id) (f := .taken) {
        phase := onlyAt_update (by simp [hp, itemOf]) (by simp [itemOf])
        fate := rfl
        here := by simp
        cells := fun j hj => setCell_of_ne _ hj _
        cell := by
          refine (setCell_self _ _ _).trans ?_
          show _ = cellOf .taken (holders (Function.update s.phase c (.taken item.id)) _)
          rw [hlock, hs.cell, hf]
          rfl
        takers := htake
        ids := hids
        id := iff_of_false hnot (by simp)
        nodup := hn
        next := Nat.le_refl _
        lt := hs.lt_next (by simp [hf]) }
  · exact hs

/-- An item is given to a callback that waits for it, and freed. -/
theorem held_wait (hs : Held s) (ok : Outcome) (key : Option CStr) :
    Held (s.step (.wait ok key)) := by
  simp only [QueueHolders.step]
  split
  · exact hs
  · rename_i q hq
    unfold queueWait
    rcases queueTake_live (hs.live hq) key with h | ⟨pre, item, post, hi, h⟩
    · rw [h]
      dsimp only
      split
      · exact hs.requeue hq rfl
      · exact hs.requeue hq rfl
    · obtain ⟨hn, hnot, hids⟩ := hs.split hq hi
      have hf : s.fate item.id = .stored := hs.of_mem hq (by simp [hi])
      have hc := hs.cell item.id
      have hlive := hs.live hq item (by simp [hi])
      rw [h]
      simp only [QueueHolders.reads]
      rw [read_live (by rw [setCell_self]; exact hlive),
        queueItemFree_cellOf (n := holders s.phase (.locked item.id)) (by
          rw [setCell_self, hc, hf]
          rfl), setCell_setCell]
      exact hs.change (i := item.id) (f := .freed) {
        phase := OnlyAt.refl _ _
        fate := rfl
        here := by simp
        cells := fun j hj => setCell_of_ne _ hj _
        cell := setCell_self _ _ _
        takers := by simpa [hf] using hs.takers item.id
        ids := hids
        id := iff_of_false hnot (by simp)
        nodup := hn
        next := Nat.le_refl _
        lt := hs.lt_next (by simp [hf]) }

theorem held_put (hs : Held s) (ok : Outcome) (key : Option CStr) (value : CStr) :
    Held (s.step (.put ok key value)) := by
  simp only [QueueHolders.step]
  split
  · exact hs
  · rename_i q hq
    unfold queuePut
    cases hput : queuePutItem ok s.next q.addr key value with
    | none =>
      dsimp only
      rw [if_neg (by decide), ← hq]
      exact ⟨hs.cell, hs.stored, hs.nodup, fun i hi => hs.fresh i (Nat.le_of_succ_le hi), hs.takers,
        hs.known, hs.kept⟩
    | some item =>
      obtain rfl := queuePutItem_eq hput
      dsimp only
      cases queuePutCallback key q with
      | some p =>
        obtain ⟨pre, cb, post⟩ := p
        have hitems : (queueCallbackFree_ cb (pre ++ post) q).items = q.items := by
          unfold queueCallbackFree_
          split <;> rfl
        simp only [QueueHolders.reads, calloc_eq]
        rw [if_neg (by decide), read_live (by rw [setCell_self]),
          queueItemFree_once (b := false) (setCell_self _ _ _), setCell_setCell]
        exact hs.place hq (.inr ⟨rfl, by rw [hitems]⟩)
      | none =>
        dsimp only
        rw [if_pos rfl, calloc_eq, setInserted_live (by rw [setCell_self]), setCell_setCell,
          setCell_self]
        exact hs.place hq (.inl ⟨rfl, by simp [Queue.insertItem]⟩)

/-- Deleting the queue, with no lock on a stored item. -/
theorem held_delete (hs : Held s) (hd : KeepsValid s .delete) : Held (s.step .delete) := by
  simp only [QueueHolders.step]
  split
  · exact hs
  · rename_i q hq
    have hids : storedIds s = q.items.map (·.id) := by simp only [storedIds, hq]
    have hst : ∀ i, i ∈ q.items.map (·.id) ↔ s.fate i = .stored := hids ▸ hs.stored
    have hfree : ∀ i, i ∈ q.items.map (·.id) → ∀ c, s.phase c ≠ .locked i := by
      intro i hi
      simp only [KeepsValid, hq] at hd
      obtain ⟨item, hitem, rfl⟩ := List.mem_map.mp hi
      exact hd item hitem
    constructor
    case cell =>
      intro i
      show (queueFree q s.heap).cell i = cellOf (if _ then _ else _) (holders s.phase _)
      rw [queueFree_cell, hs.cell]
      split
      · rename_i hi
        rw [(hst i).mp hi, List.count_eq_one_of_mem (hids ▸ hs.nodup) hi]
        rfl
      · rename_i hi
        rw [List.count_eq_zero_of_not_mem hi]
        rfl
    case stored =>
      intro i
      refine iff_of_false (List.not_mem_nil) ?_
      show (if _ then _ else _) ≠ Fate.stored
      split
      · simp
      · rename_i hi
        exact fun e => hi ((hst i).mpr e)
    case nodup => exact List.nodup_nil
    case fresh =>
      intro i hi
      have habs := hs.fresh i hi
      show (if _ then _ else _) = Fate.absent
      rw [if_neg fun hm => by simp [(hst i).mp hm] at habs, habs]
    case takers =>
      intro i
      show holders s.phase _ = if (if _ then _ else _) = Fate.taken then 1 else 0
      rw [hs.takers]
      by_cases hi : i ∈ q.items.map (·.id)
      · rw [if_pos hi, (hst i).mp hi]
        rfl
      · rw [if_neg hi]
    case known =>
      intro c i hc
      show (if _ then _ else _) ≠ Fate.absent
      split
      · simp
      · exact hs.known c i hc
    case kept =>
      intro c i hc
      show (if _ then _ else _) ≠ Fate.discarded
      split
      · rename_i hi
        exact absurd hc (hfree i hi c)
      · exact hs.kept c i hc

theorem held_step (hs : Held s) (op : HolderOp ι) (hc : KeepsValid s op) : Held (s.step op) := by
  cases op with
  | put ok key value => exact held_put hs ok key value
  | wait ok key => exact held_wait hs ok key
  | peek c key => exact held_peek hs c key
  | read c => exact held_read hs c
  | take c key => exact held_take hs c key
  | delete => exact held_delete hs hc
  | lock c =>
    cases hp : s.phase c with
    | peeked i =>
      simp only [KeepsValid, hp] at hc
      exact held_lock hs hp hc
    | idle | locked i | taken i =>
      simp only [QueueHolders.step, hp]
      exact hs
  | unlock c =>
    cases hp : s.phase c with
    | locked i =>
      simp only [KeepsValid, hp] at hc
      exact held_unlock hs hp hc
    | idle | peeked i | taken i =>
      simp only [QueueHolders.step, hp]
      exact hs
  | free c =>
    cases hp : s.phase c with
    | taken i => exact held_free hs hp
    | idle | peeked i | locked i =>
      simp only [QueueHolders.step, hp]
      exact hs

/-! ## The calls that do not -/

variable {c : ι}

omit [Fintype ι] in
theorem lock_only (hv : HoldersValid (s.step (.lock c))) {i : Nat} (hp : s.phase c = .peeked i) :
    (s.heap.cell i).released = 0 := by
  have hl := hv.locked c i (by simp [QueueHolders.step, hp, QueueHolders.setPhase])
  rw [QueueHolders.step, hp] at hl
  exact (queueItemLock_released s.heap i).symm.trans hl

/-- The last unlock of a taken item releases it, while its taker may read it. -/
theorem unlock_only (hs : Held s) (hv : HoldersValid (s.step (.unlock c))) {i : Nat}
    (hp : s.phase c = .locked i) (hf : s.fate i = .taken) : (s.heap.cell i).lockcount ≠ 1 := by
  intro h1
  obtain ⟨d, hd⟩ : ∃ d, s.phase d = .taken i := by
    by_contra hn
    have h0 := holders_eq_zero.mpr (not_exists.mp hn)
    rw [hs.takers, if_pos hf] at h0
    exact absurd h0 (by decide)
  have hne : d ≠ c := by
    rintro rfl
    rw [hp] at hd
    cases hd
  have hdrop := holders_drop (c := c) (v := .idle) hp (by simp)
  have hc := hs.cell i
  rw [hf, ← hdrop] at hc
  have hn : holders (Function.update s.phase c .idle) (.locked i) = 0 := by
    have hlock : ((holders (Function.update s.phase c .idle) (.locked i) + 1 : Nat) : Int) = 1 := by
      rw [hc] at h1
      exact h1
    omega
  rw [hn] at hc
  have ht := hv.taken d i (by simp [QueueHolders.step, hp, QueueHolders.setPhase, hne, hd])
  rw [QueueHolders.step, hp] at ht
  have hrel : ((queueItemUnlock s.heap i).cell i).released = 0 := ht
  rw [queueItemUnlock_live (b := false) (n := 0) hc, setCell_self] at hrel
  exact absurd hrel (by decide)

omit [Fintype ι] in
/-- The deletion of the queue releases its items whether they are locked or
not. -/
theorem delete_only (hv : HoldersValid (s.step .delete)) {q : Queue Unit} (hq : s.q = some q)
    {item : QueueItem} (hi : item ∈ q.items) (c : ι) : s.phase c ≠ .locked item.id := by
  intro hp
  have hl := hv.locked c item.id (by simp [QueueHolders.step, hq, hp])
  rw [QueueHolders.step, hq] at hl
  have hrel : ((queueFree q s.heap).cell item.id).released = 0 := hl
  have hpos : 0 < (q.items.map (·.id)).count item.id :=
    List.count_pos_iff.mpr (List.mem_map_of_mem hi)
  rw [queueFree_cell] at hrel
  have : (s.heap.cell item.id).released + (q.items.map (·.id)).count item.id = 0 := hrel
  omega

theorem keepsValid_only (hs : Held s) (op : HolderOp ι) (hv : HoldersValid (s.step op)) :
    KeepsValid s op := by
  cases op with
  | lock c =>
    cases hp : s.phase c with
    | peeked i => simpa only [KeepsValid, hp] using lock_only hv hp
    | idle | locked i | taken i => simp only [KeepsValid, hp]
  | unlock c =>
    cases hp : s.phase c with
    | locked i => simpa only [KeepsValid, hp] using unlock_only hs hv hp
    | idle | peeked i | taken i => simp only [KeepsValid, hp]
  | delete =>
    cases hq : s.q with
    | some q => simpa only [KeepsValid, hq] using fun item hi => delete_only hv hq hi
    | none => simp only [KeepsValid, hq]
  | put | wait | peek | read | take | free => trivial

/-- The items that clients hold are valid in every state of a run exactly when
each call of the run is one that keeps them valid. -/
theorem heldValid_iff (addr : Nat) (uuid : Nat → UInt8) (ops : List (HolderOp ι)) :
    (∀ js, js <+: ops → HoldersValid (run QueueHolders.step (.new addr uuid) js)) ↔
      Meets QueueHolders.step KeepsValid (.new addr uuid) ops :=
  prefixes_iff_kept (I := Held) (P := HoldersValid) (fun _ => Held.valid)
    (fun _ op hs hc => held_step hs op hc) (fun _ op hs hv => keepsValid_only hs op hv)
    (held_new addr uuid) ops

/-- A peeker unlocks an item that another client took and still reads. -/
theorem heldValid_not_unlocked :
    ¬ ∀ js, js <+: [.put (fun _ => true) none [], .peek 0 none, .lock 0, .take 1 none, .unlock 0] →
      HoldersValid (run QueueHolders.step (.new 0 fun _ => 0 : QueueHolders (Fin 2)) js) := by
  intro h
  have ht := (h _ List.prefix_rfl).taken 1 0 (by decide)
  exact absurd ht (by decide)

end DQ.Proof.Queue
