/-!
# Loops that empty a list

A loop takes the first of what is left while there is one, and its body is to
shorten what is left. `drain` runs it for a bounded number of iterations; the
body gets what remains of the bound, since it may have loops of its own. Such a
loop ends where a measure falls with each iteration (`drain_ends`), and never
ends where each iteration leaves a first element (`drain_runs`).
-/

namespace DQ

variable {σ α : Type}

/-- The first element of a list, with the rest. -/
def takeFirst : List α → Option (α × List α)
  | [] => none
  | x :: rest => some (x, rest)

theorem takeFirst_some {xs rest : List α} {x : α} (h : takeFirst xs = some (x, rest)) :
    xs = x :: rest := by
  cases xs with
  | nil => cases h
  | cons y ys =>
    cases h
    rfl

theorem takeFirst_none {xs : List α} (h : takeFirst xs = none) : xs = [] := by
  cases xs with
  | nil => rfl
  | cons y ys => cases h

variable (first : σ → Option α) (body : Nat → α → σ → Option σ)

/-- The state after the loop, if it ends within the bound. -/
def drain : Nat → σ → Option σ
  | 0, _ => none
  | fuel + 1, s =>
    match first s with
    | none => some s
    | some a => (body fuel a s).bind (drain fuel)

variable {first body} (I : σ → Prop)

/-- A loop ends if its body ends and makes the measure smaller. -/
theorem drain_ends (μ : σ → Nat)
    (hbody : ∀ fuel a s, I s → first s = some a → μ s ≤ fuel →
      ∃ s', body fuel a s = some s' ∧ I s' ∧ μ s' < μ s)
    {fuel : Nat} {s : σ} (hs : I s) (hfuel : μ s < fuel) :
    ∃ s', drain first body fuel s = some s' ∧ I s' ∧ first s' = none := by
  induction fuel generalizing s with
  | zero => omega
  | succ fuel ih =>
    rw [drain]
    cases hfirst : first s with
    | none => exact ⟨s, rfl, hs, hfirst⟩
    | some a =>
      obtain ⟨s', he, hs', hless⟩ := hbody fuel a s hs hfirst (by omega)
      dsimp only
      rw [he]
      exact ih hs' (by omega)

/-- A loop does not end if there is a first element before every iteration. -/
theorem drain_runs (hfirst : ∀ s, I s → (first s).isSome = true)
    (hbody : ∀ fuel a s s', I s → body fuel a s = some s' → I s')
    {s : σ} (hs : I s) (fuel : Nat) : drain first body fuel s = none := by
  induction fuel generalizing s with
  | zero => rfl
  | succ fuel ih =>
    obtain ⟨a, ha⟩ := Option.isSome_iff_exists.mp (hfirst s hs)
    rw [drain, ha]
    refine Option.bind_eq_none_iff.mpr fun s' he => ?_
    exact ih (hbody fuel a s s' hs he)

end DQ
