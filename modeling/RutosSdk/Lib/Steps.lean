import Mathlib.Data.List.Basic

/-! # Runs of a deterministic step

Conditions on the steps of a run and properties of the states it passes through, and the rule that
an invariant gives the second from the first.
-/

namespace RutosSdk.Steps

variable {σ ι : Type}

/-- Every step of the run meets the condition on the state before it and its input. -/
def AllSteps (step : σ → ι → σ) (p : σ → ι → Prop) (s : σ) : List ι → Prop
  | [] => True
  | i :: is => p s i ∧ AllSteps step p (step s i) is

/-- Every state of the run has the property, the first and the last one too. -/
def Throughout (step : σ → ι → σ) (q : σ → Prop) (s : σ) : List ι → Prop
  | [] => q s
  | i :: is => q s ∧ Throughout step q (step s i) is

variable {step : σ → ι → σ} {p : σ → ι → Prop} {inv q : σ → Prop}

variable {s : σ} {is : List ι}

theorem AllSteps.imp {p' : σ → ι → Prop} (himp : ∀ s i, p s i → p' s i) (h : AllSteps step p s is) :
    AllSteps step p' s is := by
  induction is generalizing s with
  | nil => trivial
  | cons i is ih => exact ⟨himp s i h.1, ih h.2⟩

theorem Throughout.imp {q' : σ → Prop} (himp : ∀ s, q s → q' s) (h : Throughout step q s is) :
    Throughout step q' s is := by
  induction is generalizing s with
  | nil => exact himp s h
  | cons i is ih => exact ⟨himp s h.1, ih h.2⟩

theorem Throughout.last (h : Throughout step q s is) : q (is.foldl step s) := by
  induction is generalizing s with
  | nil => exact h
  | cons i is ih => exact ih h.2

/-- An invariant of the steps that meet the condition holds along the run. -/
theorem throughout_of_allSteps (hstep : ∀ s i, inv s → p s i → inv (step s i)) (hs : inv s)
    (h : AllSteps step p s is) : Throughout step inv s is := by
  induction is generalizing s with
  | nil => exact hs
  | cons i is ih => exact ⟨hs, ih (hstep s i hs h.1) h.2⟩

/-- When a step that misses the condition always ends outside of the property, a run keeps to the
property only by meeting the condition at each step. -/
theorem allSteps_of_throughout (hstep : ∀ s i, inv s → p s i → inv (step s i))
    (hbreak : ∀ s i, inv s → q (step s i) → p s i) (hs : inv s) (h : Throughout step q s is) :
    AllSteps step p s is := by
  induction is generalizing s with
  | nil => trivial
  | cons i is ih =>
    have hnext : q (step s i) := by
      cases is with
      | nil => exact h.2
      | cons j js => exact h.2.1
    have hp := hbreak s i hs hnext
    exact ⟨hp, ih (hstep s i hs hp) h.2⟩

end RutosSdk.Steps
