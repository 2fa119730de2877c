import Mathlib.Data.List.Sort

/-! # The C library's sort

`qsort_r` is not part of the sources. What its documentation promises is the structure `Qsort`: the
array is permuted, and ends up ascending whenever the comparison function is consistent on the
elements it is given. Nothing is assumed about the order otherwise, nor about equal elements.
-/

namespace RutosSdk

open List

variable {α : Type}

/-- The comparison function orders the elements of `l` consistently. -/
structure Consistent (cmp : α → α → ℤ) (l : List α) : Prop where
  swap : ∀ a ∈ l, ∀ b ∈ l, 0 < cmp a b ↔ cmp b a < 0
  trans : ∀ a ∈ l, ∀ b ∈ l, ∀ c ∈ l, cmp a b ≤ 0 → cmp b c ≤ 0 → cmp a c ≤ 0

/-- An implementation of `qsort_r` for elements of type `α`. -/
structure Qsort (α : Type) where
  run : (α → α → ℤ) → List α → List α
  perm : ∀ cmp l, (run cmp l).Perm l
  pairwise : ∀ cmp l, Consistent cmp l → (run cmp l).Pairwise fun a b => cmp a b ≤ 0

/-- Consistency on some elements is consistency on any of them. -/
theorem Consistent.mono {cmp : α → α → ℤ} {l l' : List α} (h : Consistent cmp l)
    (hl : ∀ a ∈ l', a ∈ l) : Consistent cmp l' where
  swap a ha b hb := h.swap a (hl a ha) b (hl b hb)
  trans a ha b hb c hc := h.trans a (hl a ha) b (hl b hb) c (hl c hc)

/-- A comparison by a numeric key is consistent. -/
theorem Consistent.of_key {cmp : α → α → ℤ} {l : List α} (key : α → ℤ)
    (h : ∀ a ∈ l, ∀ b ∈ l, cmp a b = key a - key b) : Consistent cmp l where
  swap a ha b hb := by
    rw [h a ha b hb, h b hb a ha]
    omega
  trans a ha b hb c hc := by
    rw [h a ha b hb, h b hb c hc, h a ha c hc]
    omega

/-- Insertion into an ascending list of elements that compare consistently. -/
private theorem pairwise_orderedInsert {cmp : α → α → ℤ} (a : α) (l : List α)
    (h : Consistent cmp (a :: l)) (hl : l.Pairwise fun a b => cmp a b ≤ 0) :
    (l.orderedInsert (fun a b => cmp a b ≤ 0) a).Pairwise fun a b => cmp a b ≤ 0 := by
  induction l with
  | nil => simp
  | cons b l ih =>
    rw [List.orderedInsert]
    have hmem : ∀ c ∈ l, c ∈ a :: b :: l := fun c hc => by simp [hc]
    split
    · rename_i hab
      refine pairwise_cons.mpr ⟨?_, hl⟩
      intro c hc
      rcases mem_cons.mp hc with rfl | hc'
      · exact hab
      · exact h.trans a (by simp) b (by simp) c (hmem c hc') hab
          (rel_of_pairwise_cons hl hc')
    · rename_i hab
      have hba : cmp b a ≤ 0 := by
        have := (h.swap a (by simp) b (by simp)).mp (by omega)
        omega
      have hsub : Consistent cmp (a :: l) := h.mono fun x hx => by
        rcases mem_cons.mp hx with rfl | hx'
        · exact mem_cons_self
        · exact hmem x hx'
      refine pairwise_cons.mpr ⟨?_, ih hsub (List.Pairwise.of_cons hl)⟩
      intro c hc
      rcases (mem_orderedInsert _).mp hc with rfl | hc'
      · exact hba
      · exact rel_of_pairwise_cons hl hc'

/-- Insertion sort is one such implementation. -/
def Qsort.insertion (α : Type) : Qsort α where
  run cmp l := l.insertionSort fun a b => cmp a b ≤ 0
  perm cmp l := perm_insertionSort _ l
  pairwise cmp l h := by
    induction l with
    | nil => simp
    | cons a l ih =>
      have hl : Consistent cmp l := h.mono fun x hx => mem_cons_of_mem a hx
      rw [insertionSort_cons]
      apply pairwise_orderedInsert _ _ _ (ih hl)
      exact h.mono fun x hx => ((perm_insertionSort _ l).cons a).mem_iff.mp hx

end RutosSdk
