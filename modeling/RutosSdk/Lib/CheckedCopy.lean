import Mathlib.Data.List.Basic

/-! # Copies that check each entry

A loop that checks each entry of an array and copies it. It returns at the first entry that does not
pass, with the entries before it copied already.
-/

namespace RutosSdk.CheckedCopy

variable {α β : Type} (ok : α → Bool) (store : α → β) (src : ℕ → α)

/-- One turn of the loop; the flag is false once the loop has returned. -/
def checkedCopyStep (r : Bool × (ℕ → β)) (i : ℕ) : Bool × (ℕ → β) :=
  if r.1 then
    if ok (src i) then (true, Function.update r.2 i (store (src i))) else (false, r.2)
  else r

/-- The loop over the first `n` entries: whether all pass, and the array it leaves. -/
def checkedCopy (dst : ℕ → β) (n : ℕ) : Bool × (ℕ → β) :=
  (List.range n).foldl (checkedCopyStep ok store src) (true, dst)

/-- The number of entries before the first that does not pass, at most `n`. -/
def okCount : ℕ → ℕ
  | 0 => 0
  | n + 1 => if okCount n = n ∧ ok (src n) = true then n + 1 else okCount n

/-- An array with its first `n` entries copied. -/
def copied (dst : ℕ → β) (n i : ℕ) : β := if i < n then store (src i) else dst i

variable {ok src}

theorem okCount_succ (n : ℕ) :
    okCount ok src (n + 1)
      = if okCount ok src n = n ∧ ok (src n) = true then n + 1 else okCount ok src n := rfl

theorem okCount_le (n : ℕ) : okCount ok src n ≤ n := by
  induction n with
  | zero => exact Nat.le_refl 0
  | succ n ih =>
    rw [okCount_succ]
    split
    · exact Nat.le_refl _
    · exact Nat.le_succ_of_le ih

theorem ok_of_lt_okCount {n i : ℕ} (hi : i < okCount ok src n) : ok (src i) = true := by
  induction n with
  | zero => exact absurd hi (Nat.not_lt_zero i)
  | succ n ih =>
    rw [okCount_succ] at hi
    split at hi
    · rename_i h
      rcases Nat.lt_succ_iff_lt_or_eq.mp hi with hlt | rfl
      · exact ih (Nat.lt_of_lt_of_eq hlt h.1.symm)
      · exact h.2
    · exact ih hi

theorem okCount_eq_iff {n : ℕ} : okCount ok src n = n ↔ ∀ i < n, ok (src i) = true := by
  constructor
  · intro h i hi
    exact ok_of_lt_okCount (h ▸ hi)
  · intro h
    induction n with
    | zero => rfl
    | succ n ih =>
      rw [okCount_succ,
        if_pos ⟨ih fun i hi => h i (Nat.lt_succ_of_lt hi), h n (Nat.lt_succ_self n)⟩]

/-- The entry that ends the loop does not pass. -/
theorem not_ok_okCount {n : ℕ} (h : okCount ok src n < n) :
    ok (src (okCount ok src n)) = false := by
  induction n with
  | zero => exact absurd h (Nat.not_lt_zero _)
  | succ n ih =>
    rw [okCount_succ] at h ⊢
    split at h
    · exact absurd h (Nat.lt_irrefl _)
    · rename_i hstop
      rw [if_neg hstop]
      by_cases hfull : okCount ok src n = n
      · rw [hfull]
        exact Bool.eq_false_iff.mpr fun hok => hstop ⟨hfull, hok⟩
      · exact ih (Nat.lt_of_le_of_ne (okCount_le n) hfull)

variable (ok src) in
/-- The loop returns at the first entry that does not pass. -/
theorem checkedCopy_eq (dst : ℕ → β) (n : ℕ) :
    checkedCopy ok store src dst n
      = (decide (okCount ok src n = n), copied store src dst (okCount ok src n)) := by
  induction n with
  | zero => rfl
  | succ n ih =>
    have hle := @okCount_le _ ok src n
    rw [checkedCopy, List.range_succ, List.foldl_concat]
    rw [checkedCopy] at ih
    rw [ih, checkedCopyStep, okCount_succ]
    by_cases hfull : okCount ok src n = n
    · by_cases hok : ok (src n) = true
      · rw [if_pos (decide_eq_true hfull), if_pos hok, if_pos ⟨hfull, hok⟩, hfull]
        refine Prod.ext (by simp) (funext fun i => ?_)
        dsimp only
        rw [Function.update_apply, copied, copied]
        by_cases hi : i = n
        · rw [if_pos hi, hi, if_pos (Nat.lt_succ_self n)]
        · rw [if_neg hi]
          exact if_congr (by omega) rfl rfl
      · rw [if_pos (decide_eq_true hfull), if_neg hok, if_neg fun h => hok h.2, hfull]
        simp
    · have hne : okCount ok src n ≠ n + 1 := by omega
      simp [hfull, hne]

theorem copied_eq_self_iff {dst : ℕ → β} {n : ℕ} :
    copied store src dst n = dst ↔ ∀ i < n, dst i = store (src i) := by
  constructor
  · intro h i hi
    have hi' := congrFun h i
    rw [copied, if_pos hi] at hi'
    exact hi'.symm
  · intro h
    funext i
    rw [copied]
    split
    · exact (h i ‹_›).symm
    · rfl

/-- The same count as the result of a search. -/
theorem find?_range_eq (n : ℕ) :
    (List.range n).find? (fun i => !ok (src i))
      = if okCount ok src n = n then none else some (okCount ok src n) := by
  split
  · rename_i hall
    rw [List.find?_eq_none]
    intro i hi
    simp [okCount_eq_iff.mp hall i (List.mem_range.mp hi)]
  · rename_i hstop
    have hlt := Nat.lt_of_le_of_ne (okCount_le n) hstop
    rw [List.find?_range_eq_some]
    refine ⟨by simp [not_ok_okCount hlt], List.mem_range.mpr hlt, fun j hj => ?_⟩
    simp [ok_of_lt_okCount hj]

end RutosSdk.CheckedCopy
