import RutosSdk.Lib.Writes

/-! # Texts put one after the other in a buffer

A text is composed in a buffer by writing its pieces at a running index. `Fills ws base text slack`
says that the assignments put `text` at `base`, whatever was there before, and go no further than
`slack` elements behind it: a piece may leave a terminator there, or more, for the next one to
overwrite. Pieces that fill one after the other fill together.
-/

namespace RutosSdk.Writes

open List

variable {α : Type}

/-- The assignments of another buffer, at `base` of this one. -/
def shift (base : ℤ) (ws : List (Write α)) : List (Write α) :=
  ws.map fun w => ⟨base + w.index, w.value⟩

/-- The assignments put the text at `base`, and nothing before it nor far behind it. -/
structure Fills (ws : List (Write α)) (base : ℕ) (text : List α) (slack : ℕ) : Prop where
  within : ∀ w ∈ ws, base ≤ w.index ∧ w.index < base + text.length + slack
  text : ∀ mem k (hk : k < text.length), run mem ws (base + k) = text[k]

/-- Assignments elsewhere do not change an element. -/
theorem run_of_ne {ws : List (Write α)} {i : ℤ} (h : ∀ w ∈ ws, w.index ≠ i) (mem : ℤ → α) :
    run mem ws i = mem i := by
  induction ws generalizing mem with
  | nil => rfl
  | cons w ws ih =>
    rw [run, ih fun v hv => h v (mem_cons_of_mem w hv)]
    exact if_neg (h w mem_cons_self).symm

/-- A shifted buffer is the buffer seen from `base`. -/
theorem run_shift (base : ℤ) (ws : List (Write α)) (mem : ℤ → α) (i : ℤ) :
    run mem (shift base ws) (base + i) = run (fun j => mem (base + j)) ws i := by
  induction ws generalizing mem with
  | nil => rfl
  | cons w ws ih =>
    rw [shift, map_cons, run_cons]
    refine (ih _).trans ?_
    rw [run]
    congr 1
    funext j
    simp only [Int.add_right_inj]

namespace Fills

variable {ws ws' : List (Write α)} {base slack : ℕ} {text text' : List α}

theorem nil (base slack : ℕ) : Fills ([] : List (Write α)) base [] slack where
  within w hw := by cases hw
  text mem k hk := absurd hk (Nat.not_lt_zero k)

/-- Pieces that fill one after the other fill together. -/
theorem append (h : Fills ws base text slack) (h' : Fills ws' (base + text.length) text' slack) :
    Fills (ws ++ ws') base (text ++ text') slack where
  within w hw := by
    rw [length_append]
    rcases mem_append.mp hw with hw | hw
    · have := h.within w hw
      omega
    · have := h'.within w hw
      omega
  text mem k hk := by
    rw [run_append]
    by_cases hlt : k < text.length
    · rw [run_of_ne, h.text mem k hlt, getElem_append_left hlt]
      intro w hw
      have := (h'.within w hw).1
      omega
    · rw [getElem_append_right (Nat.not_lt.mp hlt)]
      rw [length_append] at hk
      rw [← h'.text (run mem ws) (k - text.length) (by omega)]
      congr 1
      omega

theorem mono (h : Fills ws base text slack) {slack' : ℕ} (hle : slack ≤ slack') :
    Fills ws base text slack' where
  within w hw := by
    have := h.within w hw
    omega
  text := h.text

/-- The beginning of a text that is given up from `n` on. -/
theorem take (h : Fills ws base text slack) {n : ℕ} (hn : n ≤ text.length) :
    Fills ws base (text.take n) (text.length - n + slack) where
  within w hw := by
    have := h.within w hw
    rw [length_take]
    omega
  text mem k hk := by
    rw [length_take] at hk
    rw [h.text mem k (by omega), getElem_take]

/-- A text that is put without anything behind it. -/
theorem writesAt (text : List α) (hfit : base + text.length ≤ 2147483648) :
    Fills (Writes.writesAt base text) base text 0 where
  within w hw := by
    obtain ⟨k, hk, hindex⟩ := mem_writesAt hw
    rw [hindex, int32_eq (by omega) (by omega)]
    omega
  text mem k hk := run_writesAt mem (by omega) (by omega) hk

end Fills

/-! ## `snprintf` -/

/-- `snprintf` at an index of a buffer of `size` elements, with the rest of it as the limit: the
text is cut, and there is always a terminator unless no room is left. A difference below zero is a
huge number. -/
def snprintf (nul : α) (size base : ℕ) (text : List α) : List (Write α) :=
  if base < size then writesAt base (text.take (size - base - 1) ++ [nul])
  else if base = size then []
  else writesAt base (text ++ [nul])

/-- With enough room the whole text is put. -/
theorem Fills.snprintf (nul : α) {size base : ℕ} {text : List α} (hfit : base + text.length < size)
    (hsize : size ≤ 2147483648) : Fills (Writes.snprintf nul size base text) base text 1 := by
  rw [Writes.snprintf, if_pos (by omega), take_of_length_le (by omega)]
  have hall := @Fills.writesAt α base (text ++ [nul]) (by
    rw [length_append, length_singleton]
    omega)
  have := hall.take (n := text.length) (by rw [length_append]; omega)
  rwa [take_left, length_append, Nat.add_zero, Nat.add_sub_cancel_left] at this

end RutosSdk.Writes
