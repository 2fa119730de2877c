import Mathlib.Algebra.Ring.Int.Defs

/-! # Assignments to a buffer through `int` indices

A function that fills a buffer element by element, as the list of its assignments. An index is a C
`int`: it wraps around at 32 bits, so a sequence longer than the largest `int` comes back at the
negative end.
-/

namespace RutosSdk.Writes

open List

/-- The `int` that the sum or product `x` of integers gives. -/
def int32 (x : ℤ) : ℤ := (x + 2147483648) % 4294967296 - 2147483648

theorem int32_eq {x : ℤ} (hlow : -2147483648 ≤ x) (hhigh : x < 2147483648) : int32 x = x := by
  unfold int32
  omega

theorem int32_eq_sub {x : ℤ} (hlow : 2147483648 ≤ x) (hhigh : x < 6442450944) :
    int32 x = x - 4294967296 := by
  unfold int32
  omega

/-- One assignment `out[index] = value`. -/
structure Write (α : Type) where
  index : ℤ
  value : α
deriving DecidableEq, Repr

variable {α β : Type}

/-- Every assignment goes to one of the first `n` elements. -/
def InBuffer (n : ℤ) (ws : List (Write α)) : Prop := ∀ w ∈ ws, 0 ≤ w.index ∧ w.index < n

instance (n : ℤ) (ws : List (Write α)) : Decidable (InBuffer n ws) :=
  inferInstanceAs (Decidable (∀ w ∈ ws, _))

/-- The memory after the assignments. -/
def run (mem : ℤ → α) : List (Write α) → ℤ → α
  | [] => mem
  | w :: ws => run (fun i => if i = w.index then w.value else mem i) ws

variable (mem : ℤ → α) {l : List α}

theorem run_cons (i : ℤ) (x : α) (ws : List (Write α)) :
    run mem (⟨i, x⟩ :: ws) = run (fun j => if j = i then x else mem j) ws := rfl

/-- The elements of a list assigned one after the other, from index `base`. -/
def writesAt (base : ℤ) : List α → List (Write α)
  | [] => []
  | x :: l => ⟨int32 base, x⟩ :: writesAt (base + 1) l

theorem writesAt_append (base : ℤ) (l l' : List α) :
    writesAt base (l ++ l') = writesAt base l ++ writesAt (base + l.length) l' := by
  induction l generalizing base with
  | nil => simp [writesAt]
  | cons x l ih =>
    simp only [cons_append, writesAt, ih, length_cons]
    rw [show base + 1 + (l.length : ℤ) = base + ((l.length + 1 : ℕ) : ℤ) by omega]

theorem length_flatMap_range {n : ℕ} (f : ℕ → List α) (hf : ∀ i, (f i).length = n) (k : ℕ) :
    ((List.range k).flatMap f).length = n * k := by
  rw [length_flatMap, map_congr_left fun i _ => hf i, map_const',
    sum_replicate_nat, length_range, Nat.mul_comm]

/-- Blocks of `n` elements, each assigned from its own place, fill the buffer in order. -/
theorem flatMap_writesAt {n : ℕ} (f : ℕ → List α) (hf : ∀ i, (f i).length = n) (k : ℕ) :
    (List.range k).flatMap (fun i => writesAt (n * i : ℕ) (f i))
      = writesAt 0 ((List.range k).flatMap f) := by
  induction k with
  | zero => rfl
  | succ k ih =>
    simp only [range_succ, flatMap_append, flatMap_singleton, writesAt_append, ih,
      length_flatMap_range f hf, Int.zero_add]

variable {base n : ℤ}

theorem mem_writesAt {w : Write α} (hw : w ∈ writesAt base l) :
    ∃ k : ℕ, k < l.length ∧ w.index = int32 (base + k) := by
  induction l generalizing base with
  | nil => exact absurd hw not_mem_nil
  | cons x l ih =>
    rcases mem_cons.mp hw with rfl | hw
    · exact ⟨0, Nat.succ_pos _, by simp⟩
    · obtain ⟨k, hk, hindex⟩ := ih hw
      refine ⟨k + 1, Nat.succ_lt_succ hk, hindex.trans (congrArg int32 ?_)⟩
      omega

theorem exists_mem_writesAt (base : ℤ) {k : ℕ} (hk : k < l.length) :
    ∃ w ∈ writesAt base l, w.index = int32 (base + k) := by
  induction l generalizing base k with
  | nil => exact absurd hk (Nat.not_lt_zero _)
  | cons x l ih =>
    rcases k with _ | k
    · exact ⟨_, mem_cons_self, by simp⟩
    · obtain ⟨w, hw, hindex⟩ := ih (base + 1) (Nat.lt_of_succ_lt_succ hk)
      refine ⟨w, mem_cons_of_mem _ hw, hindex.trans (congrArg int32 ?_)⟩
      omega

theorem inBuffer_writesAt (hbase : 0 ≤ base) (hl : base + l.length ≤ n) (hn : n < 2147483648) :
    InBuffer n (writesAt base l) := by
  intro w hw
  obtain ⟨k, hk, hindex⟩ := mem_writesAt hw
  rw [hindex, int32_eq (by omega) (by omega)]
  omega

/-- A buffer whose size is an `int` holds a list exactly when it is long enough: a longer list is
written past the end before the index wraps around. -/
theorem inBuffer_writesAt_iff (hn : 0 ≤ n) (hn' : n < 2147483648) (l : List α) :
    InBuffer n (writesAt 0 l) ↔ (l.length : ℤ) ≤ n := by
  constructor
  · intro h
    by_contra hlong
    obtain ⟨w, hw, hindex⟩ := exists_mem_writesAt 0 (show n.toNat < l.length by omega)
    have hlt := (h w hw).2
    rw [hindex, int32_eq (by omega) (by omega)] at hlt
    omega
  · exact fun hle => inBuffer_writesAt (Int.le_refl 0) (by omega) hn'

theorem inBuffer_append {ws ws' : List (Write α)} :
    InBuffer n (ws ++ ws') ↔ InBuffer n ws ∧ InBuffer n ws' := by
  simp only [InBuffer]
  exact forall_mem_append

theorem run_append (ws ws' : List (Write α)) : run mem (ws ++ ws') = run (run mem ws) ws' := by
  induction ws generalizing mem with
  | nil => rfl
  | cons w ws ih => exact ih _

theorem run_writesAt_of_lt {i : ℤ} (hbase : 0 ≤ base) (hl : base + l.length ≤ 2147483648)
    (hi : i < base) : run mem (writesAt base l) i = mem i := by
  induction l generalizing mem base with
  | nil => rfl
  | cons x l ih =>
    rw [length_cons] at hl
    rw [writesAt, run_cons, ih _ (by omega) (by omega) (by omega), int32_eq (by omega) (by omega),
      if_neg (by omega)]

theorem run_writesAt (mem : ℤ → α) {base : ℤ} (hbase : 0 ≤ base) {l : List α}
    (hl : base + l.length ≤ 2147483648) {k : ℕ} (hk : k < l.length) :
    run mem (writesAt base l) (base + k) = l[k] := by
  induction l generalizing mem base k with
  | nil => exact absurd hk (Nat.not_lt_zero _)
  | cons x l ih =>
    rw [length_cons] at hl
    rcases k with _ | k
    · rw [writesAt, run_cons, run_writesAt_of_lt _ (by omega) (by omega) (by omega),
        int32_eq (by omega) (by omega), if_pos (by omega)]
      rfl
    · have hk' : k < l.length := Nat.lt_of_succ_lt_succ hk
      rw [writesAt, run_cons, show base + ((k + 1 : ℕ) : ℤ) = base + 1 + k by omega,
        ih _ (by omega) (by omega) hk']
      rfl

end RutosSdk.Writes
