import Mathlib.Logic.Basic

/-! # Computations that may exit

A C program that calls `exit` in the middle of a function leaves its data as they are then. Such a
computation is an `Except` whose error holds them. `Ends r post exit` says what is true at its end,
with a rule for each way to put such computations together.
-/

namespace RutosSdk

variable {ε α β : Type}

/-- The computation comes to its end with `post`, or exits with `exit`. -/
def Ends (r : Except ε α) (post : α → Prop) (exit : ε → Prop) : Prop :=
  match r with
  | .ok a => post a
  | .error e => exit e

namespace Ends

variable {r : Except ε α} {post post' : α → Prop} {exit exit' : ε → Prop}

theorem imp (h : Ends r post exit) (hpost : ∀ a, post a → post' a)
    (hexit : ∀ e, exit e → exit' e) : Ends r post' exit' := by
  cases r with
  | ok a => exact hpost a h
  | error e => exact hexit e h

/-- A computation behind another one. -/
theorem bind {f : α → Except ε β} {post' : β → Prop} (h : Ends r post exit)
    (hexit : ∀ e, exit e → exit' e) (hf : ∀ a, post a → Ends (f a) post' exit') :
    Ends (r >>= f) post' exit' := by
  cases r with
  | ok a => exact hf a h
  | error e => exact hexit e h

theorem map {f : α → β} {post' : β → Prop} (h : Ends r post exit) (hexit : ∀ e, exit e → exit' e)
    (hf : ∀ a, post a → post' (f a)) : Ends (r.map f) post' exit' := by
  cases r with
  | ok a => exact hf a h
  | error e => exact hexit e h

end Ends

end RutosSdk
