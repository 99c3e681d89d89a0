import Mathlib.Logic.Function.Basic
import Disqueue.Framework.SplitFirst

/-!
# Tail queues in memory

The doubly linked tail queues of C: a head points to its first element and to
the pointer that ends the list, and an element points to the next one and to the
pointer that points to it. An operation reads and writes only these pointers.
`Seg` is a part of a list in memory, between two pointers, and `Holds` says
which list is at every head in use. The operations then do to the lists what
their names say (`holds_init`, `holds_insertTail`, `holds_remove`), whatever
else is in memory, and a loop over a list visits its elements in order
(`walk_eq`).
-/

namespace DQ

/-- Where a pointer to an element is: in a head, or in the element before it. -/
inductive Slot (η α : Type)
  | first (h : η)
  | next (a : α)
deriving DecidableEq

/-- The pointers of heads and elements. -/
structure Links (η α : Type) where
  get : Slot η α → Option α
  /-- The pointer that ends the list of a head. -/
  last : η → Slot η α
  /-- The pointer to an element. -/
  prev : α → Slot η α

namespace Links

variable {η α : Type}

section
variable [DecidableEq η] [DecidableEq α]

def set (s : Slot η α) (x : Option α) (m : Links η α) : Links η α :=
  { m with get := Function.update m.get s x }

def setLast (h : η) (s : Slot η α) (m : Links η α) : Links η α :=
  { m with last := Function.update m.last h s }

def setPrev (a : α) (s : Slot η α) (m : Links η α) : Links η α :=
  { m with prev := Function.update m.prev a s }

/-- `TAILQ_INIT`. -/
def init (h : η) (m : Links η α) : Links η α := (m.set (.first h) none).setLast h (.first h)

/-- `TAILQ_INSERT_TAIL`. -/
def insertTail (h : η) (a : α) (m : Links η α) : Links η α :=
  let m := m.set (.next a) none
  let m := m.setPrev a (m.last h)
  let m := m.set (m.last h) (some a)
  m.setLast h (.next a)

/-- `TAILQ_REMOVE`. -/
def remove (h : η) (a : α) (m : Links η α) : Links η α :=
  let m := match m.get (.next a) with
    | some b => m.setPrev b (m.prev a)
    | none => m.setLast h (m.prev a)
  m.set (m.prev a) (m.get (.next a))

end

/-- `TAILQ_FOREACH` up to the first element that meets `p`: it, and those
before it. The loop ends within the bound or has no result. -/
def walk (p : α → Bool) (m : Links η α) : Nat → Option α → Option (List α × Option α)
  | 0, _ => none
  | _ + 1, none => some ([], none)
  | n + 1, some a =>
    if p a then some ([], some a)
    else (walk p m n (m.get (.next a))).map fun r => (a :: r.1, r.2)

/-! ## Parts of lists -/

/-- From the pointer `s`, through the elements, to the pointer `e`. -/
def Seg (m : Links η α) : Slot η α → List α → Slot η α → Prop
  | s, [], e => s = e
  | s, a :: l, e => m.get s = some a ∧ m.prev a = s ∧ Seg m (.next a) l e

/-- The pointers to the elements. -/
def slots (s : Slot η α) : List α → List (Slot η α)
  | [] => []
  | a :: l => s :: slots (.next a) l

variable {m m' : Links η α} {s e : Slot η α} {l l' : List α} {a : α} {h : η}

theorem seg_append : Seg m s (l ++ l') e ↔ ∃ s', Seg m s l s' ∧ Seg m s' l' e := by
  induction l generalizing s with
  | nil => simp [Seg]
  | cons a l ih => simp only [List.cons_append, Seg, ih, and_assoc, exists_and_left]

/-- A list whose pointers are not written is still there. -/
theorem Seg.frame (hseg : Seg m s l e) (hget : ∀ x ∈ slots s l, m'.get x = m.get x)
    (hprev : ∀ a ∈ l, m'.prev a = m.prev a) : Seg m' s l e := by
  induction l generalizing s with
  | nil => exact hseg
  | cons a l ih =>
    obtain ⟨hs, ha, hrest⟩ := hseg
    exact ⟨(hget s List.mem_cons_self).trans hs, (hprev a List.mem_cons_self).trans ha,
      ih hrest (fun x hx => hget x (List.mem_cons_of_mem _ hx))
        fun b hb => hprev b (List.mem_cons_of_mem _ hb)⟩

theorem mem_slots {x : Slot η α} (h : x ∈ slots s l) : x = s ∨ ∃ a ∈ l, x = .next a := by
  induction l generalizing s with
  | nil => cases h
  | cons a l ih =>
    rcases List.mem_cons.mp h with rfl | h
    · exact .inl rfl
    · rcases ih h with rfl | ⟨b, hb, rfl⟩
      · exact .inr ⟨a, List.mem_cons_self, rfl⟩
      · exact .inr ⟨b, List.mem_cons_of_mem _ hb, rfl⟩

/-- A list ends at where it starts, or in an element. -/
theorem Seg.end_mem (hseg : Seg m s l e) : (l = [] ∧ e = s) ∨ ∃ a ∈ l, e = .next a := by
  induction l generalizing s with
  | nil => exact .inl ⟨rfl, hseg.symm⟩
  | cons a l ih =>
    rcases ih hseg.2.2 with ⟨-, rfl⟩ | ⟨b, hb, rfl⟩
    · exact .inr ⟨a, List.mem_cons_self, rfl⟩
    · exact .inr ⟨b, List.mem_cons_of_mem _ hb, rfl⟩

/-- The pointer that ends a list points to none of its elements. -/
theorem Seg.end_not_mem (hseg : Seg m s l e) (hs : ∀ a ∈ l, s ≠ .next a) (hn : l.Nodup) :
    e ∉ slots s l := by
  induction l generalizing s with
  | nil => exact List.not_mem_nil
  | cons a l ih =>
    obtain ⟨hal, hn⟩ := List.nodup_cons.mp hn
    have hrest := ih hseg.2.2 (fun b hb h => hal (by cases h; exact hb)) hn
    refine fun he => (List.mem_cons.mp he).elim (fun hes => ?_) hrest
    rcases hseg.2.2.end_mem with ⟨-, rfl⟩ | ⟨b, hb, rfl⟩
    · exact hs a List.mem_cons_self hes.symm
    · exact hs b (List.mem_cons_of_mem _ hb) hes.symm

/-! ## Lists at heads -/

/-- The list at a head. -/
structure Held (m : Links η α) (h : η) (l : List α) : Prop where
  seg : Seg m (.first h) l (m.last h)
  ended : m.get (m.last h) = none
  nodup : l.Nodup

/-- The lists at all heads in use. No element is in two of them. -/
structure Holds (m : Links η α) (L : η → Option (List α)) : Prop where
  held : ∀ h l, L h = some l → Held m h l
  disjoint : ∀ h l h' l' a, L h = some l → L h' = some l' → a ∈ l → a ∈ l' → h = h'

theorem Held.end_not_mem (hh : Held m h l) : m.last h ∉ slots (.first h) l :=
  hh.seg.end_not_mem (fun _ _ => nofun) hh.nodup

/-- A list is kept if its pointers are. -/
theorem Held.frame (hh : Held m h l) (hget : ∀ a ∈ l, m'.get (.next a) = m.get (.next a))
    (hfirst : m'.get (.first h) = m.get (.first h)) (hprev : ∀ a ∈ l, m'.prev a = m.prev a)
    (hlast : m'.last h = m.last h) : Held m' h l := by
  have hslot : ∀ x, (x = .first h ∨ ∃ a ∈ l, x = .next a) → m'.get x = m.get x := by
    rintro x (rfl | ⟨a, ha, rfl⟩)
    · exact hfirst
    · exact hget a ha
  refine ⟨hlast ▸ hh.seg.frame (fun x hx => hslot x (mem_slots hx)) hprev, ?_, hh.nodup⟩
  rw [hlast, hslot _ (hh.seg.end_mem.imp And.right id)]
  exact hh.ended

/-- A head points to the first element. -/
theorem Held.first_eq (hh : Held m h l) : m.get (.first h) = l.head? := by
  cases l with
  | nil =>
    rw [show Slot.first h = m.last h from hh.seg]
    exact hh.ended
  | cons a l => exact hh.seg.1

theorem holds_empty (m : Links η α) : Holds m fun _ => none :=
  ⟨nofun, nofun⟩

/-- The pointers of one list are not those of another. -/
theorem Holds.apart {L : η → Option (List α)} {k : η} {x : Slot η α} (hm : Holds m L)
    (hl : L h = some l) (hl' : L k = some l') (hk : k ≠ h)
    (hx : x = .first h ∨ ∃ a ∈ l, x = .next a) : .first k ≠ x ∧ ∀ a ∈ l', .next a ≠ x := by
  rcases hx with rfl | ⟨a, ha, rfl⟩
  · exact ⟨fun heq => hk (by cases heq; rfl), fun _ _ => nofun⟩
  · refine ⟨nofun, fun b hb heq => ?_⟩
    have hba : b = a := by
      cases heq
      rfl
    exact hk (hm.disjoint h l k l' a hl hl' ha (hba ▸ hb)).symm

/-- A list that changes, with the others left. -/
theorem Holds.update [DecidableEq η] {L : η → Option (List α)} (hm : Holds m L) (hh : Held m' h l')
    (hother : ∀ k l, k ≠ h → L k = some l → Held m' k l)
    (hnew : ∀ a ∈ l', ∀ k l, k ≠ h → L k = some l → a ∉ l) :
    Holds m' (Function.update L h (some l')) where
  held k l hk := by
    by_cases hkh : k = h
    · subst hkh
      rw [Function.update_self] at hk
      cases hk
      exact hh
    · rw [Function.update_of_ne hkh] at hk
      exact hother k l hkh hk
  disjoint k l k' l₂ a hk hk' ha ha' := by
    by_cases hkh : k = h <;> by_cases hkh' : k' = h
    · exact hkh.trans hkh'.symm
    · subst hkh
      rw [Function.update_self] at hk
      rw [Function.update_of_ne hkh'] at hk'
      cases hk
      exact absurd ha' (hnew a ha k' l₂ hkh' hk')
    · subst hkh'
      rw [Function.update_self] at hk'
      rw [Function.update_of_ne hkh] at hk
      cases hk'
      exact absurd ha (hnew a ha' k l hkh hk)
    · rw [Function.update_of_ne hkh] at hk
      rw [Function.update_of_ne hkh'] at hk'
      exact hm.disjoint k l k' l₂ a hk hk' ha ha'

/-- A head that is no longer used. -/
theorem Holds.forget [DecidableEq η] {L : η → Option (List α)} (hm : Holds m L) (h : η) :
    Holds m (Function.update L h none) where
  held k l hk := by
    by_cases hkh : k = h
    · rw [hkh, Function.update_self] at hk
      cases hk
    · exact hm.held k l (by rwa [Function.update_of_ne hkh] at hk)
  disjoint k l k' l' a hk hk' := by
    have hk₁ : k ≠ h := fun hkh => by rw [hkh, Function.update_self] at hk; cases hk
    have hk₂ : k' ≠ h := fun hkh => by rw [hkh, Function.update_self] at hk'; cases hk'
    rw [Function.update_of_ne hk₁] at hk
    rw [Function.update_of_ne hk₂] at hk'
    exact hm.disjoint k l k' l' a hk hk'

/-! ## Operations -/

section
variable [DecidableEq η] [DecidableEq α] {L : η → Option (List α)}

/-- A new list is empty. -/
theorem holds_init (hm : Holds m L) (h : η) :
    Holds (m.init h) (Function.update L h (some [])) := by
  have hget : ∀ x, x ≠ .first h → (m.init h).get x = m.get x := fun x hx =>
    Function.update_of_ne hx ..
  have hlast : (m.init h).last h = .first h := Function.update_self ..
  refine hm.update ⟨hlast.symm, ?_, .nil⟩ (fun k l hk hl => ?_) fun a ha => by cases ha
  · rw [hlast]
    exact Function.update_self ..
  · exact (hm.held k l hl).frame (fun a _ => hget _ nofun)
      (hget _ fun heq => hk (by cases heq; rfl)) (fun _ _ => rfl) (Function.update_of_ne hk ..)

/-- An element that is in no list is put at the end of one. -/
theorem holds_insertTail (hm : Holds m L) (hl : L h = some l)
    (ha : ∀ k l, L k = some l → a ∉ l) :
    Holds (m.insertTail h a) (Function.update L h (some (l ++ [a]))) := by
  have hh := hm.held h l hl
  have hal : a ∉ l := ha h l hl
  have hend : m.last h ≠ .next a := by
    rcases hh.seg.end_mem with ⟨-, he⟩ | ⟨b, hb, he⟩
    · rw [he]
      nofun
    · rw [he]
      rintro heq
      cases heq
      exact hal hb
  have hget : ∀ x, x ≠ m.last h → x ≠ .next a → (m.insertTail h a).get x = m.get x :=
    fun x he hx => (Function.update_of_ne he ..).trans (Function.update_of_ne hx ..)
  have hprev : ∀ b, b ≠ a → (m.insertTail h a).prev b = m.prev b := fun b hb =>
    Function.update_of_ne hb ..
  have hlast : (m.insertTail h a).last h = .next a := Function.update_self ..
  refine hm.update ⟨?_, ?_, ?_⟩ (fun k l' hk hl' => ?_) fun b hb k l' hk hl' => ?_
  · rw [hlast]
    refine seg_append.mpr ⟨m.last h, hh.seg.frame (fun x hx => hget x ?_ ?_) fun b hb => hprev b ?_,
      Function.update_self .., Function.update_self .., rfl⟩
    · exact fun heq => hh.end_not_mem (heq ▸ hx)
    · rcases mem_slots hx with rfl | ⟨b, hb, rfl⟩
      · nofun
      · exact fun heq => hal (by cases heq; exact hb)
    · exact fun heq => hal (heq ▸ hb)
  · rw [hlast]
    exact (Function.update_of_ne hend.symm ..).trans (Function.update_self ..)
  · exact List.nodup_append.mpr ⟨hh.nodup, List.pairwise_singleton .., fun b hb c hc heq =>
      hal (List.mem_singleton.mp hc ▸ heq ▸ hb)⟩
  · -- no pointer of another list is written
    have hne : ∀ b ∈ l', b ≠ a := fun b hb heq => ha k l' hl' (heq ▸ hb)
    obtain ⟨hfirst, hnext⟩ := hm.apart hl hl' hk (hh.seg.end_mem.imp And.right id)
    exact (hm.held k l' hl').frame
      (fun b hb => hget _ (hnext b hb) fun heq => hne b hb (by cases heq; rfl))
      (hget _ hfirst nofun) (fun b hb => hprev b (hne b hb)) (Function.update_of_ne hk ..)
  · rcases List.mem_append.mp hb with hb | hb
    · exact fun hb' => hk (hm.disjoint k l' h l b hl' hl hb' hb)
    · rw [List.mem_singleton.mp hb]
      exact ha k l' hl'

/-- An element of a list is taken out of it. -/
theorem holds_remove (hm : Holds m L) {pre post : List α} (hl : L h = some (pre ++ a :: post)) :
    Holds (m.remove h a) (Function.update L h (some (pre ++ post))) := by
  have hh := hm.held h _ hl
  obtain ⟨e, hpre, hget, hprev, hpost⟩ := seg_append.mp hh.seg
  subst hprev
  have hnodup := hh.nodup
  obtain ⟨hnpre, hncons, hdisj⟩ := List.nodup_append.mp hnodup
  obtain ⟨hapost, hnpost⟩ := List.nodup_cons.mp hncons
  have hout : m.prev a ∉ slots (.first h) pre := hpre.end_not_mem (fun _ _ => nofun) hnpre
  have hbefore : ∀ x ∈ slots (.first h) pre, x ≠ m.prev a := fun x hx heq => hout (heq ▸ hx)
  have hafter : ∀ c ∈ a :: post, .next c ≠ m.prev a := by
    intro c hc heq
    rcases hpre.end_mem with ⟨-, he⟩ | ⟨d, hd, he⟩ <;> rw [he] at heq
    · cases heq
    · cases heq
      exact hdisj c hd c hc rfl
  have hmem : m.prev a = .first h ∨ ∃ b ∈ pre ++ a :: post, m.prev a = .next b :=
    hpre.end_mem.imp And.right fun ⟨b, hb, he⟩ => ⟨b, List.mem_append_left _ hb, he⟩
  -- the pointer to the element, and that of the next one to it or of the head to the end
  have hwrite : ∃ x, (m.remove h a).get = Function.update m.get (m.prev a) x ∧
      Held (m.remove h a) h (pre ++ post) ∧
      (∀ b, b ∉ post → (m.remove h a).prev b = m.prev b) ∧
      ∀ k, k ≠ h → (m.remove h a).last k = m.last k := by
    cases post with
    | nil =>
      have hnext : m.get (.next a) = none := by
        rw [show Slot.next a = m.last h from hpost]
        exact hh.ended
      have hrem : m.remove h a = (m.setLast h (m.prev a)).set (m.prev a) none := by
        simp only [remove, hnext, setLast]
      rw [hrem, List.append_nil]
      have hlast : ((m.setLast h (m.prev a)).set (m.prev a) none).last h = m.prev a :=
        Function.update_self ..
      refine ⟨none, rfl, ⟨?_, ?_, hnpre⟩, fun _ _ => rfl, fun k hk => Function.update_of_ne hk ..⟩
      · rw [hlast]
        exact hpre.frame (fun x hx => Function.update_of_ne (hbefore x hx) ..) fun _ _ => rfl
      · rw [hlast]
        exact Function.update_self ..
    | cons b post =>
      obtain ⟨hnext, hprevb, hpost⟩ := hpost
      have hab : a ≠ b := fun heq => hapost (heq ▸ List.mem_cons_self)
      obtain ⟨hbpost, -⟩ := List.nodup_cons.mp hnpost
      have hrem : m.remove h a = (m.setPrev b (m.prev a)).set (m.prev a) (some b) := by
        simp only [remove, hnext, setPrev, Function.update_of_ne hab]
      rw [hrem]
      have hprev' : ∀ c, c ≠ b →
          ((m.setPrev b (m.prev a)).set (m.prev a) (some b)).prev c = m.prev c := fun c hc =>
        Function.update_of_ne hc ..
      refine ⟨some b, rfl, ⟨seg_append.mpr ⟨m.prev a, ?_, Function.update_self ..,
        Function.update_self .., ?_⟩, ?_, ?_⟩, fun c hc => hprev' c ?_, fun _ _ => rfl⟩
      · refine hpre.frame (fun x hx => Function.update_of_ne (hbefore x hx) ..)
          fun c hc => hprev' c ?_
        exact hdisj c hc b (List.mem_cons_of_mem _ List.mem_cons_self)
      · refine hpost.frame (fun x hx => Function.update_of_ne ?_ ..)
          fun c hc => hprev' c fun heq => hbpost (heq ▸ hc)
        rcases mem_slots hx with rfl | ⟨c, hc, rfl⟩
        · exact hafter b (List.mem_cons_of_mem _ List.mem_cons_self)
        · exact hafter c (List.mem_cons_of_mem _ (List.mem_cons_of_mem _ hc))
      · have hend : m.last h ≠ m.prev a := by
          rcases hpost.end_mem with ⟨-, he⟩ | ⟨c, hc, he⟩ <;> rw [he]
          · exact hafter b (List.mem_cons_of_mem _ List.mem_cons_self)
          · exact hafter c (List.mem_cons_of_mem _ (List.mem_cons_of_mem _ hc))
        exact (Function.update_of_ne hend ..).trans hh.ended
      · exact hnodup.sublist (.append_left (List.sublist_cons_self a _) pre)
      · exact fun heq => hc (heq ▸ List.mem_cons_self)
  obtain ⟨x, hgets, hheld, hprevs, hlasts⟩ := hwrite
  refine hm.update hheld (fun k l' hk hl' => ?_) fun b hb k l' hk hl' hb' => ?_
  · obtain ⟨hfirst, hnext⟩ := hm.apart hl hl' hk hmem
    have hother : ∀ b ∈ l', b ∉ pre ++ a :: post := fun b hb hbl =>
      hk (hm.disjoint k l' h _ b hl' hl hb hbl)
    refine (hm.held k l' hl').frame (fun b hb => ?_) ?_ (fun b hb => hprevs b fun hbp =>
      hother b hb (List.mem_append_right _ (List.mem_cons_of_mem _ hbp))) (hlasts k hk)
    · rw [hgets, Function.update_of_ne (hnext b hb)]
    · rw [hgets, Function.update_of_ne hfirst]
  · refine hk (hm.disjoint k l' h _ b hl' hl hb' ?_)
    rcases List.mem_append.mp hb with hb | hb
    · exact List.mem_append_left _ hb
    · exact List.mem_append_right _ (List.mem_cons_of_mem _ hb)

end

/-- The loop over a list finds what is first in it. -/
theorem walk_eq (p : α → Bool) (hseg : Seg m s l e) (he : m.get e = none) {n : Nat}
    (hn : l.length < n) :
    walk p m n (m.get s) = some (match splitFirst p l with
      | some (pre, a, _) => (pre, some a)
      | none => (l, none)) := by
  induction l generalizing s n with
  | nil =>
    obtain ⟨n, rfl⟩ := Nat.exists_eq_add_of_lt hn
    rw [show s = e from hseg, he]
    rfl
  | cons a l ih =>
    obtain ⟨n, rfl⟩ : ∃ n', n = n' + 1 := ⟨n - 1, by omega⟩
    obtain ⟨hs, -, hrest⟩ := hseg
    rw [hs, walk, splitFirst]
    cases hp : p a with
    | true => rfl
    | false =>
      rw [ih hrest (by simpa using hn)]
      cases hsp : splitFirst p l with
      | none => rfl
      | some t => rfl

end Links

end DQ
