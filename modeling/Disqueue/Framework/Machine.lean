import Disqueue.Framework.Run

/-!
# Machines that answer

A machine's step gives the next state and what the machine answers to the
input. `Machine.run` is the state after a list of inputs, and `Machine.answers`
what was answered to each of them. A machine `m` follows another, `n`, which is
given a translation of the inputs, if a relation of their states is kept by
every step and related states answer alike (`Follows`); then whole runs are
answered alike (`Follows.answers`). A step may be restricted to the inputs that
meet a condition.
-/

namespace DQ

/-- A step, with what it answers. -/
abbrev Machine (σ ι ω : Type) := σ → ι → σ × List ω

namespace Machine

variable {σ τ ι κ ω : Type}

/-- The state after the inputs. -/
def run (m : Machine σ ι ω) (s : σ) (is : List ι) : σ := DQ.run (fun s i => (m s i).1) s is

/-- What is answered to each of the inputs. -/
def answers (m : Machine σ ι ω) : σ → List ι → List (List ω)
  | _, [] => []
  | s, i :: is => (m s i).2 :: answers m (m s i).1 is

@[simp] theorem run_nil (m : Machine σ ι ω) (s : σ) : m.run s [] = s := rfl

@[simp] theorem run_cons (m : Machine σ ι ω) (s : σ) (i : ι) (is : List ι) :
    m.run s (i :: is) = m.run (m s i).1 is := rfl

/-- The invariant rule, on inputs that meet `C`. -/
theorem inv {m : Machine σ ι ω} {I : σ → Prop} {C : ι → Prop}
    (hstep : ∀ s i, I s → C i → I (m s i).1) {s : σ} (hs : I s) {is : List ι}
    (hc : ∀ i ∈ is, C i) : I (m.run s is) := by
  induction is generalizing s with
  | nil => exact hs
  | cons i is ih =>
    exact ih (hstep s i hs (hc i List.mem_cons_self)) fun j hj => hc j (List.mem_cons_of_mem _ hj)

/-- From related states, on inputs that meet `C`, the machines answer alike and
go to related states. -/
def Follows (R : σ → τ → Prop) (C : ι → Prop) (f : ι → κ) (m : Machine σ ι ω)
    (n : Machine τ κ ω) : Prop :=
  ∀ s t i, R s t → C i → R (m s i).1 (n t (f i)).1 ∧ (m s i).2 = (n t (f i)).2

variable {R : σ → τ → Prop} {C : ι → Prop} {f : ι → κ} {m : Machine σ ι ω} {n : Machine τ κ ω}
  {s : σ} {t : τ}

/-- The relation holds after a run. -/
theorem Follows.run (h : Follows R C f m n) (hs : R s t) {is : List ι} (hc : ∀ i ∈ is, C i) :
    R (m.run s is) (n.run t (is.map f)) := by
  induction is generalizing s t with
  | nil => exact hs
  | cons i is ih =>
    exact ih (h s t i hs (hc i List.mem_cons_self)).1 fun j hj => hc j (List.mem_cons_of_mem _ hj)

/-- Every input of a run is answered alike. -/
theorem Follows.answers (h : Follows R C f m n) (hs : R s t) {is : List ι} (hc : ∀ i ∈ is, C i) :
    m.answers s is = n.answers t (is.map f) := by
  induction is generalizing s t with
  | nil => rfl
  | cons i is ih =>
    have hi := h s t i hs (hc i List.mem_cons_self)
    simp only [Machine.answers, List.map_cons, hi.2]
    rw [ih hi.1 fun j hj => hc j (List.mem_cons_of_mem _ hj)]

end Machine

end DQ
