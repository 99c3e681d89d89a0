import Disqueue.Framework.Line
import Disqueue.Framework.SplitFirst
import Mathlib.Data.List.Perm.Basic

/-!
# Rendezvous of items and waiters

A store of items and a list of waiters, each with a filter saying which items
it wants. Putting an item hands it to the earliest waiter that wants it, else
stores it; taking with a filter returns the earliest stored item it wants; a
waiter is served at once if a stored item satisfies it, else it waits. In
every state so reached no stored item is wanted by a waiter (`Settled`), and
hence items no filter tells apart leave in the order they were put, and
waiters with filters that want the same items are served in the order they
came (`History.Fifo`).
-/

namespace DQ

variable {ι ω φ : Type}

/-- The stored items and the waiters, earliest first. -/
structure Rendezvous (ι ω : Type) where
  items : List ι
  waiters : List ω

namespace Rendezvous

section
-- Which items a filter wants, and the filter of a waiter.
variable (wants : φ → ι → Bool) (filter : ω → φ)

/-- The item goes to the earliest waiter that wants it, which is returned, or
is stored. -/
def put (x : ι) (r : Rendezvous ι ω) : Rendezvous ι ω × Option ω :=
  match splitFirst (fun w => wants (filter w) x) r.waiters with
  | some (pre, w, post) => ({ r with waiters := pre ++ post }, some w)
  | none => ({ r with items := r.items ++ [x] }, none)

/-- The earliest item that `f` wants, which is removed. -/
def take (f : φ) (r : Rendezvous ι ω) : Rendezvous ι ω × Option ι :=
  match splitFirst (wants f) r.items with
  | some (pre, x, post) => ({ r with items := pre ++ post }, some x)
  | none => (r, none)

/-- The earliest item that `f` wants. -/
def peek (f : φ) (r : Rendezvous ι ω) : Option ι := r.items.find? (wants f)

/-- The waiter takes an item at once, which is returned, or waits. -/
def wait (w : ω) (r : Rendezvous ι ω) : Rendezvous ι ω × Option ι :=
  match take wants (filter w) r with
  | (r, some x) => (r, some x)
  | (r, none) => ({ r with waiters := r.waiters ++ [w] }, none)

/-- No stored item is wanted by a waiter. -/
def Settled (r : Rendezvous ι ω) : Prop :=
  ∀ w ∈ r.waiters, ∀ x ∈ r.items, wants (filter w) x = false

end

variable {wants : φ → ι → Bool} {filter : ω → φ} {r : Rendezvous ι ω}

theorem take_waiters (f : φ) : (r.take wants f).1.waiters = r.waiters := by
  unfold Rendezvous.take
  split <;> rfl

theorem take_eq (wants : φ → ι → Bool) (f : φ) (r : Rendezvous ι ω) :
    r.take wants f = (⟨r.items.eraseP (wants f), r.waiters⟩, r.items.find? (wants f)) := by
  unfold Rendezvous.take
  rw [← splitFirst_find]
  cases hs : splitFirst (wants f) r.items with
  | none =>
    rw [List.eraseP_of_forall_not fun x hx => by simp [splitFirst_eq_none.mp hs x hx]]
    rfl
  | some t =>
    obtain ⟨pre, x, post⟩ := t
    obtain ⟨hl, hx, hpre⟩ := splitFirst_eq_some.mp hs
    rw [hl, List.eraseP_append_right _ fun y hy => by simp [hpre y hy], List.eraseP_cons_of_pos hx]
    rfl

/-- The waiter served leaves. -/
theorem put_perm {x : ι} {w : ω} (h : (r.put wants filter x).2 = some w) :
    r.waiters.Perm (w :: (r.put wants filter x).1.waiters) := by
  unfold Rendezvous.put at h ⊢
  cases hs : splitFirst (fun w => wants (filter w) x) r.waiters with
  | none => simp [hs] at h
  | some t =>
    rw [hs] at h
    rw [(splitFirst_eq_some.mp hs).1, ← Option.some.inj h]
    exact List.perm_middle

theorem Settled.put (h : r.Settled wants filter) (x : ι) :
    (r.put wants filter x).1.Settled wants filter := by
  unfold Rendezvous.put
  split
  · rename_i pre w post hs
    obtain ⟨hl, -, -⟩ := splitFirst_eq_some.mp hs
    intro v hv
    refine h v ?_
    rw [hl]
    rcases List.mem_append.mp hv with hv | hv <;> simp [hv]
  · rename_i hs
    have hn := splitFirst_eq_none.mp hs
    intro v hv y hy
    rcases List.mem_append.mp hy with hy | hy
    · exact h v hv y hy
    · rw [List.mem_singleton.mp hy]
      exact hn v hv

theorem Settled.take (h : r.Settled wants filter) (f : φ) :
    (r.take wants f).1.Settled wants filter := by
  unfold Rendezvous.take
  split
  · rename_i pre x post hs
    obtain ⟨hl, -, -⟩ := splitFirst_eq_some.mp hs
    intro v hv y hy
    refine h v hv y ?_
    rw [hl]
    rcases List.mem_append.mp hy with hy | hy <;> simp [hy]
  · exact h

theorem Settled.wait (h : r.Settled wants filter) (w : ω) :
    (r.wait wants filter w).1.Settled wants filter := by
  unfold Rendezvous.wait Rendezvous.take
  split
  · rename_i r' x hs
    have := h.take (filter w)
    unfold Rendezvous.take at this
    rwa [hs] at this
  · rename_i r' hs
    split at hs
    · cases hs
    · rename_i hn
      cases hs
      intro v hv y hy
      rcases List.mem_append.mp hv with hv | hv
      · exact h v hv y hy
      · rw [List.mem_singleton.mp hv]
        exact splitFirst_eq_none.mp hn y hy

/-! ## Two rendezvous alike -/

section

variable {ι' ω' φ' : Type} {wants' : φ' → ι' → Bool} {filter' : ω' → φ'}

/-- The items and the waiters of two rendezvous are related, in order. -/
structure Alike (R : ι → ι' → Prop) (S : ω → ω' → Prop) (r : Rendezvous ι ω)
    (r' : Rendezvous ι' ω') : Prop where
  items : List.Forall₂ R r.items r'.items
  waiters : List.Forall₂ S r.waiters r'.waiters

variable {R : ι → ι' → Prop} {S : ω → ω' → Prop} {r' : Rendezvous ι' ω'}

variable (wants filter wants' filter') in
/-- Related items are stored, or handed to related waiters. -/
theorem Alike.put (h : Alike R S r r') {x : ι} {x' : ι'} (hx : R x x')
    (hw : ∀ w w', S w w' → wants (filter w) x = wants' (filter' w') x') :
    ((r.put wants filter x).2 = none ∧ (r'.put wants' filter' x').2 = none ∧
        Alike R S (r.put wants filter x).1 (r'.put wants' filter' x').1) ∨
      ∃ w w', (r.put wants filter x).2 = some w ∧ (r'.put wants' filter' x').2 = some w' ∧
        S w w' ∧ Alike R S (r.put wants filter x).1 (r'.put wants' filter' x').1 := by
  unfold Rendezvous.put
  rcases splitFirst_rel h.waiters hw with
    ⟨hs, hs'⟩ | ⟨pre, w, post, pre', w', post', hs, hs', hpre, hww, hpost⟩
  · rw [hs, hs']
    exact .inl ⟨rfl, rfl, List.rel_append h.items (.cons hx .nil), h.waiters⟩
  · rw [hs, hs']
    exact .inr ⟨w, w', rfl, rfl, hww, h.items, List.rel_append hpre hpost⟩

/-- Related items are taken. -/
theorem Alike.take (h : Alike R S r r') {f : φ} {f' : φ'}
    (hw : ∀ x x', R x x' → wants f x = wants' f' x') :
    ((r.take wants f).2 = none ∧ (r'.take wants' f').2 = none ∧
        (r.take wants f).1 = r ∧ (r'.take wants' f').1 = r') ∨
      ∃ x x', (r.take wants f).2 = some x ∧ (r'.take wants' f').2 = some x' ∧ R x x' ∧
        Alike R S (r.take wants f).1 (r'.take wants' f').1 := by
  unfold Rendezvous.take
  rcases splitFirst_rel h.items hw with
    ⟨hs, hs'⟩ | ⟨pre, x, post, pre', x', post', hs, hs', hpre, hxx, hpost⟩
  · rw [hs, hs']
    exact .inl ⟨rfl, rfl, rfl, rfl⟩
  · rw [hs, hs']
    exact .inr ⟨x, x', rfl, rfl, hxx, List.rel_append hpre hpost, h.waiters⟩

theorem peek_eq_take (f : φ) (r : Rendezvous ι ω) : r.peek wants f = (r.take wants f).2 := by
  unfold peek Rendezvous.take
  rw [← splitFirst_find]
  cases splitFirst (wants f) r.items with
  | none => rfl
  | some t => rfl

end

end Rendezvous

/-! ## Histories -/

/-- A rendezvous with the history of its items and waiters. -/
structure History (ι ω : Type) where
  items : Line ι
  waiters : Line ω

namespace History

/-- The present state. -/
def now (h : History ι ω) : Rendezvous ι ω := ⟨h.items.present, h.waiters.present⟩

section
variable (wants : φ → ι → Bool) (filter : ω → φ)

/-- An item joins; if it is handed over at once, it leaves with the waiter. -/
def put (x : ι) (h : History ι ω) : History ι ω :=
  match h.now.put wants filter x with
  | (r, some w) =>
    ⟨⟨h.items.joined ++ [x], r.items, h.items.gone ++ [x]⟩,
      ⟨h.waiters.joined, r.waiters, h.waiters.gone ++ [w]⟩⟩
  | (r, none) =>
    ⟨⟨h.items.joined ++ [x], r.items, h.items.gone⟩,
      ⟨h.waiters.joined, r.waiters, h.waiters.gone⟩⟩

/-- The item taken leaves. -/
def take (f : φ) (h : History ι ω) : History ι ω :=
  match h.now.take wants f with
  | (r, some x) => ⟨⟨h.items.joined, r.items, h.items.gone ++ [x]⟩, h.waiters⟩
  | (_, none) => h

/-- A waiter joins; if it is served at once, it leaves with the item. -/
def wait (w : ω) (h : History ι ω) : History ι ω :=
  match h.now.wait wants filter w with
  | (r, some x) =>
    ⟨⟨h.items.joined, r.items, h.items.gone ++ [x]⟩,
      ⟨h.waiters.joined ++ [w], r.waiters, h.waiters.gone ++ [w]⟩⟩
  | (r, none) =>
    ⟨⟨h.items.joined, r.items, h.items.gone⟩,
      ⟨h.waiters.joined ++ [w], r.waiters, h.waiters.gone⟩⟩

/-- The same filters want both items. -/
def SameItem (x y : ι) : Prop := ∀ f, wants f x = wants f y

/-- The filters of both waiters want the same items. -/
def SameFilter (v w : ω) : Prop := wants (filter v) = wants (filter w)

/-- The invariant: nobody waits for what is stored, and both lines are in
order. -/
structure Fifo (h : History ι ω) : Prop where
  settled : h.now.Settled wants filter
  items : h.items.Fifo (SameItem wants)
  waiters : h.waiters.Fifo (SameFilter wants filter)

end

variable {wants : φ → ι → Bool} {filter : ω → φ} {h : History ι ω}

theorem fifo_empty : Fifo wants filter (⟨⟨[], [], []⟩, ⟨[], [], []⟩⟩ : History ι ω) :=
  ⟨fun _ hw => by simp [now] at hw, Line.fifo_empty _, Line.fifo_empty _⟩

theorem Fifo.put (hf : Fifo wants filter h) {x : ι} (hx : x ∉ h.items.joined) :
    Fifo wants filter (h.put wants filter x) := by
  have hset := hf.settled.put x
  unfold History.put Rendezvous.put at *
  cases hs : splitFirst (fun w => wants (filter w) x) h.now.waiters with
  | none =>
    rw [hs] at hset
    exact ⟨hset, hf.items.join hx, hf.waiters⟩
  | some t =>
    obtain ⟨pre, w, post⟩ := t
    rw [hs] at hset
    obtain ⟨hl, hw, hpre⟩ := splitFirst_eq_some.mp hs
    have hl : h.waiters.present = pre ++ w :: post := hl
    refine ⟨hset, hf.items.pass hx fun y hy e => ?_, ?_⟩
    · -- a stored item like `x` is wanted by `w`
      have : wants (filter w) y = false := hf.settled w (by simp [now, hl]) y hy
      rw [e (filter w), hw] at this
      cases this
    · have hwt := hf.waiters
      rw [show h.waiters = ⟨h.waiters.joined, pre ++ w :: post, h.waiters.gone⟩ by rw [← hl]] at hwt
      refine hwt.depart fun v hv e => ?_
      have := hpre v hv
      rw [show wants (filter v) = wants (filter w) from e, hw] at this
      cases this

theorem Fifo.take (hf : Fifo wants filter h) (f : φ) : Fifo wants filter (h.take wants f) := by
  have hset := hf.settled.take f
  unfold History.take Rendezvous.take at *
  cases hs : splitFirst (wants f) h.now.items with
  | none => exact hf
  | some t =>
    obtain ⟨pre, x, post⟩ := t
    rw [hs] at hset
    obtain ⟨hl, hx, hpre⟩ := splitFirst_eq_some.mp hs
    have hl : h.items.present = pre ++ x :: post := hl
    refine ⟨hset, ?_, hf.waiters⟩
    have hit := hf.items
    rw [show h.items = ⟨h.items.joined, pre ++ x :: post, h.items.gone⟩ by rw [← hl]] at hit
    refine hit.depart fun y hy e => ?_
    have := hpre y hy
    rw [e f, hx] at this
    cases this

theorem Fifo.wait (hf : Fifo wants filter h) {w : ω} (hw : w ∉ h.waiters.joined) :
    Fifo wants filter (h.wait wants filter w) := by
  have hset := hf.settled.wait w
  unfold History.wait Rendezvous.wait Rendezvous.take at *
  cases hs : splitFirst (wants (filter w)) h.now.items with
  | none =>
    rw [hs] at hset
    exact ⟨hset, hf.items, hf.waiters.join hw⟩
  | some t =>
    obtain ⟨pre, x, post⟩ := t
    rw [hs] at hset
    obtain ⟨hl, hx, hpre⟩ := splitFirst_eq_some.mp hs
    have hl : h.items.present = pre ++ x :: post := hl
    refine ⟨hset, ?_, hf.waiters.pass hw fun v hv e => ?_⟩
    · have hit := hf.items
      rw [show h.items = ⟨h.items.joined, pre ++ x :: post, h.items.gone⟩ by rw [← hl]] at hit
      refine hit.depart fun y hy e => ?_
      have := hpre y hy
      rw [e (filter w), hx] at this
      cases this
    · -- a waiter like `w` wants the stored `x`
      have : wants (filter v) x = false := hf.settled v hv x (by simp [now, hl])
      rw [show wants (filter v) = wants (filter w) from e, hx] at this
      cases this

end History

end DQ
