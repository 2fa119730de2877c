import Mathlib.Data.Nat.Count

/-! # The first places where a predicate holds

The first places at or after a start at which a predicate holds, as a list: each one holds, and
nothing holds in between.
-/

namespace RutosSdk

/-- The places are the first ones from `s` on at which `p` holds. -/
def FirstHits (p : ℕ → Prop) (s : ℕ) : List ℕ → Prop
  | [] => True
  | i :: is => s ≤ i ∧ (∀ j, s ≤ j → j < i → ¬p j) ∧ p i ∧ FirstHits p (i + 1) is

namespace FirstHits

variable {p p' : ℕ → Prop} {s : ℕ} {is js : List ℕ}

section

variable (h : FirstHits p s is)
include h

theorem le_of_mem {i : ℕ} (hi : i ∈ is) : s ≤ i := by
  induction is generalizing s with
  | nil => exact absurd hi List.not_mem_nil
  | cons k is ih =>
    rcases List.mem_cons.mp hi with rfl | hi
    · exact h.1
    · have hk := ih h.2.2.2 hi
      have hs := h.1
      omega

theorem of_mem {i : ℕ} (hi : i ∈ is) : p i := by
  induction is generalizing s with
  | nil => exact absurd hi List.not_mem_nil
  | cons k is ih =>
    rcases List.mem_cons.mp hi with rfl | hi
    · exact h.2.2.1
    · exact ih h.2.2.2 hi

theorem pairwise_lt : is.Pairwise (· < ·) := by
  induction is generalizing s with
  | nil => exact List.Pairwise.nil
  | cons k is ih => exact List.pairwise_cons.mpr ⟨fun i hi => h.2.2.2.le_of_mem hi, ih h.2.2.2⟩

theorem nodup : is.Nodup := h.pairwise_lt.imp Nat.ne_of_lt

/-- There is one such list of each length. -/
theorem unique (h' : FirstHits p s js) (hlength : is.length = js.length) : is = js := by
  induction is generalizing s js with
  | nil => exact (List.length_eq_zero_iff.mp hlength.symm).symm
  | cons i is ih =>
    cases js with
    | nil => exact absurd hlength (by simp)
    | cons j js =>
      obtain ⟨hi, hbefore, hp, hrest⟩ := h
      obtain ⟨hj, hbefore', hp', hrest'⟩ := h'
      have hij : i = j := by
        rcases Nat.lt_trichotomy i j with hlt | heq | hgt
        · exact absurd hp (hbefore' i hi hlt)
        · exact heq
        · exact absurd hp' (hbefore j hj hgt)
      subst hij
      rw [ih hrest hrest' (Nat.succ.inj hlength)]

end

/-- Where the predicate holds at the start, that is the first place. -/
theorem singleton_iff_of_pos (h : p s) {i : ℕ} : FirstHits p s [i] ↔ i = s := by
  constructor
  · rintro ⟨hi, hbefore, -, -⟩
    rcases Nat.lt_or_eq_of_le hi with hlt | heq
    · exact absurd h (hbefore s (Nat.le_refl s) hlt)
    · exact heq.symm
  · rintro rfl
    exact ⟨Nat.le_refl i, fun j hj hji => absurd hji (Nat.not_lt.mpr hj), h, trivial⟩

theorem succ_iff_of_neg (h : ¬p s) : FirstHits p (s + 1) is ↔ FirstHits p s is := by
  cases is with
  | nil => exact Iff.rfl
  | cons i is =>
    constructor
    · rintro ⟨hi, hbefore, hrest⟩
      refine ⟨Nat.le_of_succ_le hi, fun j hj hji => ?_, hrest⟩
      rcases Nat.lt_or_eq_of_le hj with hlt | rfl
      · exact hbefore j hlt hji
      · exact h
    · rintro ⟨hi, hbefore, hp, hrest⟩
      have hne : s ≠ i := by
        rintro rfl
        exact h hp
      exact ⟨Nat.lt_of_le_of_ne hi hne, fun j hj => hbefore j (Nat.le_of_succ_le hj), hp, hrest⟩

theorem map_add_iff (b : ℕ) :
    FirstHits p (b + s) (is.map (b + ·)) ↔ FirstHits (fun i => p (b + i)) s is := by
  induction is generalizing s with
  | nil => exact Iff.rfl
  | cons i is ih =>
    rw [List.map_cons, FirstHits, FirstHits, Nat.add_assoc b i 1, ih]
    refine and_congr (by omega) (and_congr ⟨fun h j hj hji => ?_, fun h j hj hji => ?_⟩ Iff.rfl)
    · exact h (b + j) (by omega) (by omega)
    · have hb : b + (j - b) = j := by omega
      have hnot := h (j - b) (by omega) (by omega)
      rwa [hb] at hnot

variable [DecidablePred p]

/-- Two predicates have the same first places exactly when they agree wherever fewer places than
these come before. -/
theorem congr_iff (h : FirstHits p s is) : FirstHits p' s is
    ↔ ∀ j, Nat.count (fun i => p (s + i)) j < is.length → (p (s + j) ↔ p' (s + j)) := by
  induction is generalizing s with
  | nil => exact iff_of_true trivial fun j hj => absurd hj (Nat.not_lt_zero _)
  | cons i is ih =>
    obtain ⟨hi, hbefore, hp, hrest⟩ := h
    obtain ⟨d, rfl⟩ := Nat.exists_eq_add_of_le hi
    have hnone : ∀ m ≤ d, Nat.count (fun i => p (s + i)) m = 0 := by
      intro m hm
      rw [Nat.count_iff_forall_not]
      exact fun k hk => hbefore (s + k) (by omega) (by omega)
    have hcount : ∀ k, Nat.count (fun i => p (s + i)) (d + 1 + k)
        = Nat.count (fun i => p (s + d + 1 + i)) k + 1 := by
      intro k
      rw [Nat.count_add, Nat.count_succ, hnone d (le_refl d), if_pos hp, Nat.add_comm]
      simp only [Nat.add_assoc]
    constructor
    · rintro ⟨-, hbefore', hp', hrest'⟩ j hj
      rcases Nat.lt_trichotomy j d with hlt | rfl | hgt
      · exact iff_of_false (hbefore _ (by omega) (by omega)) (hbefore' _ (by omega) (by omega))
      · exact iff_of_true hp hp'
      · obtain ⟨k, rfl⟩ := Nat.exists_eq_add_of_le hgt
        rw [hcount, List.length_cons] at hj
        have hagree := (ih hrest).mp hrest' k (by omega)
        rwa [Nat.add_assoc s d 1, Nat.add_assoc s (d + 1) k] at hagree
    · intro hall
      have hagree : ∀ m ≤ d, (p (s + m) ↔ p' (s + m)) := fun m hm =>
        hall m (by rw [hnone m hm, List.length_cons]; omega)
      refine ⟨hi, fun j hj hjd => ?_, (hagree d (le_refl d)).mp hp, (ih hrest).mpr fun k hk => ?_⟩
      · obtain ⟨m, rfl⟩ := Nat.exists_eq_add_of_le hj
        exact fun hp' => hbefore _ hj hjd ((hagree m (by omega)).mpr hp')
      · have hagree' := hall (d + 1 + k) (by rw [hcount, List.length_cons]; omega)
        rwa [← Nat.add_assoc, ← Nat.add_assoc] at hagree'

end FirstHits

end RutosSdk
