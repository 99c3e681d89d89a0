import Mathlib.Data.List.Basic
import Mathlib.Data.List.Infix

/-!
# Runs of a step function

A deterministic step function `step : σ → ι → σ`, whose inputs carry every
answer of the environment, is run over a list of inputs (`run`). `Meets` says
that every step of a run meets a condition on the state before it and its
input. Two rules are used throughout: `Meets.inv`, an invariant kept by the
steps that meet the condition holds after the run, and `prefixes_iff_meets`, a
property that a step keeps exactly when it meets the condition holds in every
state of a run exactly when all its steps do.
-/

namespace DQ

variable {σ ι : Type} (step : σ → ι → σ)

/-- The state after the inputs `is`, from `s`. -/
def run (s : σ) (is : List ι) : σ := is.foldl step s

@[simp] theorem run_nil (s : σ) : run step s [] = s := rfl

@[simp] theorem run_cons (s : σ) (i : ι) (is : List ι) :
    run step s (i :: is) = run step (step s i) is := rfl

theorem run_append (s : σ) (is js : List ι) :
    run step s (is ++ js) = run step (run step s is) js := List.foldl_append

/-- Every step of the run of `is` from `s` meets `C`, a condition on the
state before the step and its input. -/
def Meets (C : σ → ι → Prop) : σ → List ι → Prop
  | _, [] => True
  | s, i :: is => C s i ∧ Meets C (step s i) is

instance Meets.decidable (C : σ → ι → Prop) [∀ s i, Decidable (C s i)] :
    ∀ s is, Decidable (Meets step C s is)
  | _, [] => inferInstanceAs (Decidable True)
  | s, i :: is =>
    have := Meets.decidable C (step s i) is
    inferInstanceAs (Decidable (C s i ∧ Meets step C (step s i) is))

variable {step} {C : σ → ι → Prop}

theorem Meets.append_iff {s : σ} {is js : List ι} :
    Meets step C s (is ++ js) ↔ Meets step C s is ∧ Meets step C (run step s is) js := by
  induction is generalizing s with
  | nil => simp [Meets]
  | cons i is ih => simp only [List.cons_append, Meets, run_cons, ih, and_assoc]

theorem Meets.of_forall (h : ∀ s i, C s i) (s : σ) (is : List ι) : Meets step C s is := by
  induction is generalizing s with
  | nil => trivial
  | cons i is ih => exact ⟨h s i, ih _⟩

/-- The invariant rule, for a run whose steps all meet `C`. -/
theorem Meets.inv {I : σ → Prop} (hstep : ∀ s i, I s → C s i → I (step s i)) {s : σ}
    {is : List ι} (hs : I s) (hc : Meets step C s is) : I (run step s is) := by
  induction is generalizing s with
  | nil => exact hs
  | cons i is ih => exact ih (hstep s i hs hc.1) hc.2

/-- The invariant rule, for every run. -/
theorem run_inv {I : σ → Prop} (hstep : ∀ s i, I s → I (step s i)) {s : σ} (hs : I s)
    (is : List ι) : I (run step s is) :=
  Meets.inv (C := fun _ _ => True) (fun s i h _ => hstep s i h) hs
    (Meets.of_forall (fun _ _ => trivial) s is)

/-- A relation between the state before and after a run, from the steps. -/
theorem run_rel {R : σ → σ → Prop} (hrefl : ∀ s, R s s)
    (htrans : ∀ {a b c}, R a b → R b c → R a c) (hstep : ∀ s i, R s (step s i)) (s : σ)
    (is : List ι) : R s (run step s is) := by
  induction is generalizing s with
  | nil => exact hrefl s
  | cons i is ih => exact htrans (hstep s i) (ih _)

/-- A relation between a run whose steps all meet `C` and the run without the
inputs that are not `own`: those have no effect on the second run. -/
theorem Meets.filter_rel {R : σ → σ → Prop} {own : ι → Bool}
    (hown : ∀ s t i, R s t → own i = true → C s i → R (step s i) (step t i))
    (hother : ∀ s t i, R s t → own i = false → C s i → R (step s i) t) {s t : σ} {is : List ι}
    (h : R s t) (hc : Meets step C s is) : R (run step s is) (run step t (is.filter own)) := by
  induction is generalizing s t with
  | nil => exact h
  | cons i is ih =>
    cases ho : own i with
    | true =>
      rw [List.filter_cons_of_pos ho]
      exact ih (hown s t i h ho hc.1) hc.2
    | false =>
      rw [List.filter_cons_of_neg (by simp [ho])]
      exact ih (hother s t i h ho hc.1) hc.2

/-- A property `P` that every step keeps exactly when it meets `C` (given an
invariant `I` of all steps) holds in every state of a run exactly when every
step of the run meets `C`. -/
theorem prefixes_iff_meets {I P : σ → Prop} (hI : ∀ s i, I s → I (step s i))
    (hP : ∀ s i, I s → P s → (P (step s i) ↔ C s i)) {s : σ} (his : I s) (hps : P s)
    (is : List ι) : (∀ js, js <+: is → P (run step s js)) ↔ Meets step C s is := by
  induction is generalizing s with
  | nil => simp [Meets, List.prefix_nil, hps]
  | cons i is ih =>
    constructor
    · intro h
      have h1 : P (step s i) := h [i] ⟨is, rfl⟩
      refine ⟨(hP s i his hps).mp h1, (ih (hI s i his) h1).mp fun js hjs => ?_⟩
      obtain ⟨ks, rfl⟩ := hjs
      exact h (i :: js) ⟨ks, rfl⟩
    · rintro ⟨hc, hm⟩ js hjs
      cases js with
      | nil => exact hps
      | cons j js =>
        obtain ⟨rfl, hjs'⟩ := List.cons_prefix_cons.mp hjs
        exact (ih (hI s j his) ((hP s j his hps).mpr hc)).mpr hm js hjs'

/-- As `prefixes_iff_meets`, where the invariant implies `P` and only the steps
that meet `C` keep it. -/
theorem prefixes_iff_kept {I P : σ → Prop} (hIP : ∀ s, I s → P s)
    (hI : ∀ s i, I s → C s i → I (step s i)) (hC : ∀ s i, I s → P (step s i) → C s i) {s : σ}
    (his : I s) (is : List ι) : (∀ js, js <+: is → P (run step s js)) ↔ Meets step C s is := by
  constructor
  · intro h
    induction is generalizing s with
    | nil => trivial
    | cons i is ih =>
      have hc : C s i := hC s i his (h [i] ⟨is, rfl⟩)
      refine ⟨hc, ih (hI s i his hc) fun js hjs => ?_⟩
      obtain ⟨ks, rfl⟩ := hjs
      exact h (i :: js) ⟨ks, rfl⟩
  · intro hm js hjs
    obtain ⟨ks, rfl⟩ := hjs
    exact hIP _ (Meets.inv hI his (Meets.append_iff.mp hm).1)

/-- The states of a run whose steps all meet `C` all satisfy what `C`'s steps
keep. -/
theorem Meets.inv_prefix {I : σ → Prop} (hstep : ∀ s i, I s → C s i → I (step s i)) {s : σ}
    {is js : List ι} (hs : I s) (hc : Meets step C s is) (hjs : js <+: is) :
    I (run step s js) := by
  obtain ⟨ks, rfl⟩ := hjs
  exact Meets.inv hstep hs (Meets.append_iff.mp hc).1

end DQ
