import Mathlib.Data.Nat.Notation

/-! # Sequences of calls that stop at the first error

`Script σ α` is a computation on a state that may give up; the state it has reached is kept. This is
how a C function reads that returns as soon as one of its calls fails.
-/

namespace RutosSdk

/-- A result, unless an error occurred, and the state. -/
def Script (σ α : Type) := σ → Option α × σ

namespace Script

variable {σ α β : Type}

instance : Monad (Script σ) where
  pure a := fun s => (some a, s)
  bind p f := fun s =>
    match p s with
    | (some a, s') => f a s'
    | (none, s') => (none, s')

/-- Return with an error. -/
def fail : Script σ α := fun s => (none, s)

/-- All the scripts of a list, in order. -/
def all (f : α → Script σ Unit) : List α → Script σ Unit
  | [] => pure ()
  | a :: l => do
      f a
      all f l

theorem bind_apply (p : Script σ α) (f : α → Script σ β) (s : σ) : (p >>= f) s = match p s with
      | (some a, s') => f a s'
      | (none, s') => (none, s') := rfl

theorem bind_of_some {p : Script σ α} {s s' : σ} {a : α} (h : p s = (some a, s'))
    (f : α → Script σ β) : (p >>= f) s = f a s' := by
  rw [bind_apply, h]

theorem bind_of_none {p : Script σ α} {s s' : σ} (h : p s = (none, s')) (f : α → Script σ β) :
    (p >>= f) s = (none, s') := by
  rw [bind_apply, h]

end Script

end RutosSdk
