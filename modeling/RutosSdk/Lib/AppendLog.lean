import Mathlib.Data.List.Basic
import Mathlib.Tactic.Cases

/-! # A log that is appended to and erased

Entries of any type in a list of fixed length. The current entry is the last valid one; a new entry
goes into the first blank place behind it, and if there is none, the log is erased and starts again
at its beginning. An entry that is neither blank nor valid is skipped by both searches.
-/

namespace RutosSdk.AppendLog

open List

variable {α : Type}

/-! ## Searches -/

/-- The index of the last element with a property. -/
def lastIdx? (p : α → Bool) : List α → Option ℕ
  | [] => none
  | a :: l =>
    match lastIdx? p l with
    | some i => some (i + 1)
    | none => if p a then some 0 else none

/-- The first index from `i` on whose element has a property. -/
def firstFrom (p : α → Bool) (i : ℕ) (l : List α) : Option ℕ := ((l.drop i).findIdx? p).map (i + ·)

theorem lastIdx?_eq_none {p : α → Bool} {l : List α} (h : lastIdx? p l = none) :
    ∀ a ∈ l, p a = false := by
  induction l with
  | nil => simp
  | cons a l ih =>
    cases hl : lastIdx? p l with
    | some i => simp [lastIdx?, hl] at h
    | none =>
      have ha : p a = false := by simpa [lastIdx?, hl] using h
      exact forall_mem_cons.mpr ⟨ha, ih hl⟩

theorem lastIdx?_eq_some {p : α → Bool} {l : List α} {i : ℕ} (h : lastIdx? p l = some i) :
    ∃ front a back, l = front ++ a :: back ∧ front.length = i ∧ p a = true
      ∧ ∀ b ∈ back, p b = false := by
  induction l generalizing i with
  | nil => simp [lastIdx?] at h
  | cons a l ih =>
    cases hl : lastIdx? p l with
    | some k =>
      obtain ⟨front, b, back, rfl, rfl, hb, hback⟩ := ih hl
      obtain rfl : front.length + 1 = i := by simpa [lastIdx?, hl] using h
      exact ⟨a :: front, b, back, rfl, rfl, hb, hback⟩
    | none =>
      have hcase : p a = true ∧ 0 = i := by simpa [lastIdx?, hl] using h
      exact ⟨[], a, l, rfl, hcase.2, hcase.1, lastIdx?_eq_none hl⟩

theorem firstFrom_eq_some {p : α → Bool} {l : List α} {i k : ℕ} (h : firstFrom p i l = some k) :
    ∃ front a back, l = front ++ a :: back ∧ front.length = k ∧ i ≤ k ∧ p a = true := by
  obtain ⟨j, hj, rfl⟩ := Option.map_eq_some_iff.mp h
  obtain ⟨hlt, hp, -⟩ := List.findIdx?_eq_some_iff_getElem.mp hj
  rw [length_drop] at hlt
  refine ⟨l.take (i + j), l[i + j], l.drop (i + j + 1), ?_, ?_, Nat.le_add_right i j, ?_⟩
  · rw [← drop_eq_getElem_cons, take_append_drop]
  · rw [length_take]
    omega
  · rwa [getElem_drop] at hp

/-! ## The current entry -/

/-- The last valid entry. -/
def lastValid (valid : α → Bool) (l : List α) : Option α := (lastIdx? valid l).bind (l[·]?)

section Entry

variable {valid : α → Bool}

theorem filter_eq_nil_of_forall {l : List α} (h : ∀ a ∈ l, valid a = false) :
    l.filter valid = [] := by
  rw [filter_eq_nil_iff]
  intro a ha
  simp [h a ha]

theorem lastValid_eq_getLast? (l : List α) : lastValid valid l = (l.filter valid).getLast? := by
  unfold lastValid
  cases h : lastIdx? valid l with
  | none =>
    rw [filter_eq_nil_of_forall (lastIdx?_eq_none h)]
    rfl
  | some i =>
    obtain ⟨front, a, back, rfl, rfl, ha, hback⟩ := lastIdx?_eq_some h
    simp [filter_append, ha, filter_eq_nil_of_forall hback]

theorem lastValid_append (l l' : List α) :
    lastValid valid (l ++ l') = (lastValid valid l').or (lastValid valid l) := by
  rw [lastValid_eq_getLast?, lastValid_eq_getLast?, lastValid_eq_getLast?, filter_append,
    List.getLast?_append]

theorem lastValid_eq_none_iff {l : List α} :
    lastValid valid l = none ↔ ∀ a ∈ l, valid a = false := by
  rw [lastValid_eq_getLast?, List.getLast?_eq_none_iff, filter_eq_nil_iff]
  simp

theorem lastValid_cons_of_valid {a : α} {l : List α} (ha : valid a = true)
    (hl : ∀ b ∈ l, valid b = false) : lastValid valid (a :: l) = some a := by
  rw [lastValid_eq_getLast?, filter_cons_of_pos ha, filter_eq_nil_of_forall hl]
  rfl

end Entry

/-! ## The next place -/

section Place

variable [DecidableEq α] (valid : α → Bool) (blank : α)

/-- The first blank place behind the last valid entry. -/
def nextPlace (l : List α) : Option ℕ :=
  firstFrom (· == blank) ((lastIdx? valid l).elim 0 (· + 1)) l

variable {valid blank}

/-- The next place is blank, and nothing valid is behind it. -/
theorem nextPlace_eq_some {l : List α} {k : ℕ} (h : nextPlace valid blank l = some k) :
    ∃ front back, l = front ++ blank :: back ∧ front.length = k ∧ ∀ b ∈ back, valid b = false := by
  obtain ⟨front, a, back, rfl, rfl, hle, ha⟩ := firstFrom_eq_some h
  obtain rfl : a = blank := by simpa using ha
  refine ⟨front, back, rfl, rfl, ?_⟩
  intro b hb
  cases hidx : lastIdx? valid (front ++ a :: back) with
  | none => exact lastIdx?_eq_none hidx b (by simp [hb])
  | some i =>
    -- the last valid entry is before the place, so what is behind the place is behind it too
    obtain ⟨front', c, back', heq, rfl, -, hback'⟩ := lastIdx?_eq_some hidx
    have hback : back = (front ++ a :: back).drop (front.length + 1) := by simp
    have hback'_eq : back' = (front' ++ c :: back').drop (front'.length + 1) := by simp
    rw [hidx] at hle
    refine hback' b ?_
    rw [hback'_eq, ← heq]
    rw [hback, show front.length + 1 = front'.length + 1 + (front.length - front'.length) by
      have : front'.length + 1 ≤ front.length := hle
      omega, ← drop_drop] at hb
    exact mem_of_mem_drop hb

/-- A valid entry written to the next place is the current one. -/
theorem lastValid_set_of_valid {l : List α} {k : ℕ} {a : α} (h : nextPlace valid blank l = some k)
    (ha : valid a = true) : lastValid valid (l.set k a) = some a := by
  obtain ⟨front, back, rfl, rfl, hback⟩ := nextPlace_eq_some h
  rw [set_append_right _ _ (Nat.le_refl _), Nat.sub_self, set_cons_zero, lastValid_append,
    lastValid_cons_of_valid ha hback]
  rfl

/-- Anything else written to the next place leaves the current entry. -/
theorem lastValid_set_of_not_valid {l : List α} {k : ℕ} {a : α}
    (h : nextPlace valid blank l = some k) (hblank : valid blank = false) (ha : valid a = false) :
    lastValid valid (l.set k a) = lastValid valid l := by
  obtain ⟨front, back, rfl, rfl, hback⟩ := nextPlace_eq_some h
  have hnone : ∀ b, valid b = false → lastValid valid (b :: back) = none := fun b hb =>
    lastValid_eq_none_iff.mpr (forall_mem_cons.mpr ⟨hb, hback⟩)
  rw [set_append_right _ _ (Nat.le_refl _), Nat.sub_self, set_cons_zero, lastValid_append,
    lastValid_append, hnone a ha, hnone blank hblank]

end Place

/-! ## Erasing -/

section Erasing

variable {valid : α → Bool} {blank : α}

variable (blank) in
/-- The log after an erase that was interrupted: the first `n` entries are blank, those of `torn`
follow, and the rest is untouched. -/
def wiped (n : ℕ) (torn l : List α) : List α :=
  (List.replicate n blank ++ torn).take l.length ++ l.drop (n + torn.length)

@[simp] theorem length_wiped (n : ℕ) (torn l : List α) :
    (wiped blank n torn l).length = l.length := by
  simp only [wiped, length_append, length_take, length_replicate, length_drop]
  omega

theorem take_wiped (m n : ℕ) (torn l : List α) :
    (wiped blank n torn l).take m = wiped blank n torn (l.take m) := by
  simp only [wiped]
  rw [take_append, take_take, length_take, drop_take]
  congr 1
  · rw [length_take]
  · rcases Nat.le_total (n + torn.length) l.length with hle | hge
    · rw [length_append, length_replicate, Nat.min_eq_right hle]
    · rw [drop_eq_nil_of_le hge, take_nil, take_nil]

theorem wiped_all {n : ℕ} {l : List α} (h : l.length ≤ n) :
    wiped blank n [] l = List.replicate l.length blank := by
  rw [wiped, append_nil, take_replicate, Nat.min_eq_left h,
    drop_eq_nil_of_le (Nat.le_trans h (Nat.le_add_right _ _)), append_nil]

/-- An interrupted erase leaves the current entry, or none. -/
theorem lastValid_wiped {torn : List α} (hblank : valid blank = false)
    (htorn : ∀ a ∈ torn, valid a = false) (n : ℕ) (l : List α) :
    lastValid valid (wiped blank n torn l) = lastValid valid l
      ∨ lastValid valid (wiped blank n torn l) = none := by
  have hfront : lastValid valid ((List.replicate n blank ++ torn).take l.length) = none := by
    refine lastValid_eq_none_iff.mpr fun a ha => ?_
    rcases mem_append.mp (mem_of_mem_take ha) with ha | ha
    · rw [eq_of_mem_replicate ha]
      exact hblank
    · exact htorn a ha
  have hsplit := @lastValid_append α valid (l.take (n + torn.length)) (l.drop (n + torn.length))
  rw [take_append_drop] at hsplit
  rw [wiped, lastValid_append, hfront, hsplit]
  cases lastValid valid (l.drop (n + torn.length)) with
  | none => exact .inr rfl
  | some a => exact .inl rfl

theorem lastValid_replicate (hblank : valid blank = false) (n : ℕ) :
    lastValid valid (List.replicate n blank) = none :=
  lastValid_eq_none_iff.mpr fun _ ha => eq_of_mem_replicate ha ▸ hblank

/-- A valid entry at the beginning of an erased log is the current one. -/
theorem lastValid_set_replicate {a : α} (hblank : valid blank = false) (ha : valid a = true) {n : ℕ}
    (hn : 0 < n) : lastValid valid ((List.replicate n blank).set 0 a) = some a := by
  obtain ⟨k, rfl⟩ : ∃ k, n = k + 1 := ⟨n - 1, by omega⟩
  rw [replicate_succ, set_cons_zero]
  exact lastValid_cons_of_valid ha fun _ hb => eq_of_mem_replicate hb ▸ hblank

end Erasing

end RutosSdk.AppendLog
