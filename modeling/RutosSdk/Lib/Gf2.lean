import Mathlib.Algebra.Field.ZMod
import Mathlib.Algebra.Polynomial.Div
import Mathlib.Tactic.LinearCombination

/-! # Bit vectors as polynomials over GF(2)

Bit `i` of a vector is the coefficient of `X ^ i`. Exclusive or is the sum, a shift is a product
with a power of `X`, and a register that keeps the right residue at each step of a fold ends with
the remainder.
-/

namespace RutosSdk.Gf2

open Polynomial

/-- A bit as a coefficient. -/
def coeffOf (b : Bool) : ZMod 2 := if b then 1 else 0

@[simp]
theorem coeffOf_false : coeffOf false = 0 := rfl

@[simp]
theorem coeffOf_true : coeffOf true = 1 := rfl

theorem coeffOf_xor (a b : Bool) : coeffOf (a ^^ b) = coeffOf a + coeffOf b := by
  revert a b
  decide

/-- The polynomial of a bit vector. -/
noncomputable def poly {w : ℕ} (x : BitVec w) : (ZMod 2)[X] :=
  ∑ i ∈ Finset.range w, C (coeffOf (x.getLsbD i)) * X ^ i

variable {w k : ℕ}

theorem coeff_poly (x : BitVec w) (k : ℕ) : (poly x).coeff k = coeffOf (x.getLsbD k) := by
  rw [poly, finsetSum_coeff]
  simp only [coeff_C_mul, coeff_X_pow, mul_ite, mul_one, mul_zero]
  rw [Finset.sum_ite_eq (Finset.range w) k]
  split_ifs with hk
  · rfl
  · rw [BitVec.getLsbD_of_ge x k (Nat.le_of_not_lt fun hlt => hk (Finset.mem_range.mpr hlt)),
      coeffOf_false]

theorem poly_injective : Function.Injective (poly (w := w)) := by
  intro x y hxy
  refine BitVec.eq_of_getLsbD_eq fun i _ => ?_
  have hcoeff := congrArg (fun p => p.coeff i) hxy
  simp only [coeff_poly] at hcoeff
  revert hcoeff
  cases x.getLsbD i <;> cases y.getLsbD i <;> simp

theorem degree_poly_lt (x : BitVec w) : (poly x).degree < w := by
  rw [degree_lt_iff_coeff_zero]
  intro k hk
  rw [coeff_poly, BitVec.getLsbD_of_ge x k hk, coeffOf_false]

@[simp]
theorem poly_zero : poly (0 : BitVec w) = 0 := by
  ext k
  rw [coeff_poly, coeff_zero]
  exact congrArg coeffOf BitVec.getLsbD_zero

theorem poly_xor (x y : BitVec w) : poly (x ^^^ y) = poly x + poly y := by
  ext k
  rw [coeff_add, coeff_poly, coeff_poly, coeff_poly, BitVec.getLsbD_xor, coeffOf_xor]

/-- A shift is a product as long as nothing is lost. -/
theorem poly_setWidth_shiftLeft {v : ℕ} (n : ℕ) (hle : w + n ≤ v) (x : BitVec w) :
    poly (x.setWidth v <<< n) = X ^ n * poly x := by
  ext k
  rw [coeff_poly, coeff_X_pow_mul', coeff_poly, BitVec.getLsbD_shiftLeft, BitVec.getLsbD_setWidth]
  by_cases hn : n ≤ k
  · rw [if_pos hn]
    by_cases hk : k < v
    · rw [decide_eq_true hk, decide_eq_false (by omega : ¬k < n),
        decide_eq_true (by omega : k - n < v)]
      rfl
    · rw [BitVec.getLsbD_of_ge x (k - n) (by omega), Bool.and_false, Bool.and_false]
  · rw [if_neg hn, decide_eq_true (by omega : k < n), Bool.not_true, Bool.and_false,
      Bool.false_and, coeffOf_false]

/-- The bit that a shift by one loses is that of `X ^ w`. -/
theorem X_mul_poly (x : BitVec (w + 1)) :
    X * poly x = poly (x <<< 1) + C (coeffOf x.msb) * X ^ (w + 1) := by
  ext k
  rw [coeff_add, coeff_C_mul, coeff_X_pow, coeff_poly, BitVec.getLsbD_shiftLeft]
  cases k with
  | zero => simp
  | succ k =>
    rw [coeff_X_mul, coeff_poly, Nat.add_sub_cancel]
    rcases Nat.lt_trichotomy k w with hlt | rfl | hgt
    · simp [hlt, hlt.ne]
    · simp [BitVec.msb_eq_getLsbD_last]
    · rw [BitVec.getLsbD_of_ge x k (by omega)]
      simp [hgt.ne']

/-! ## Sums of shifted bits -/

/-- The polynomial of a list of bits, the lowest first. -/
noncomputable def bitsPoly : List Bool → (ZMod 2)[X]
  | [] => 0
  | b :: bs => C (coeffOf b) + X * bitsPoly bs

/-- The bits are added to a sum, the first one at place `k`. -/
def sumFrom {w : ℕ} (k : ℕ) (acc : BitVec w) : List Bool → BitVec w
  | [] => acc
  | b :: bs => sumFrom (k + 1) (acc + (BitVec.ofBool b).setWidth w <<< k) bs

/-- Without a carry a sum of vectors is the sum of their polynomials. -/
theorem poly_add_of_disjoint {x y : BitVec w} (h : x &&& y = 0#w) :
    poly (x + y) = poly x + poly y := by
  ext k
  have hk : (x.getLsbD k && y.getLsbD k) = false := by
    rw [← BitVec.getLsbD_and, h, BitVec.getLsbD_zero]
  rw [BitVec.add_eq_or_of_and_eq_zero x y h, coeff_add, coeff_poly, coeff_poly, coeff_poly,
    BitVec.getLsbD_or]
  revert hk
  cases x.getLsbD k <;> cases y.getLsbD k <;> simp

theorem poly_ofBool (b : Bool) : poly (BitVec.ofBool b) = C (coeffOf b) := by
  rw [poly, Finset.sum_range_one, pow_zero, mul_one, BitVec.getLsbD_ofBool]
  simp

/-- The bits above place `k` are free. -/
def ClearFrom {w : ℕ} (k : ℕ) (x : BitVec w) : Prop := ∀ i, k ≤ i → x.getLsbD i = false

theorem ClearFrom.and_bit {acc : BitVec w} (h : ClearFrom k acc) (b : Bool) :
    acc &&& (BitVec.ofBool b).setWidth w <<< k = 0#w := by
  refine BitVec.eq_of_getLsbD_eq fun i _ => ?_
  rw [BitVec.getLsbD_and, BitVec.getLsbD_shiftLeft, BitVec.getLsbD_zero]
  by_cases hk : k ≤ i
  · rw [h i hk, Bool.false_and]
  · rw [decide_eq_true (by omega : i < k), Bool.not_true, Bool.and_false, Bool.false_and,
      Bool.and_false]

theorem ClearFrom.add_bit {acc : BitVec w} (h : ClearFrom k acc) (b : Bool) :
    ClearFrom (k + 1) (acc + (BitVec.ofBool b).setWidth w <<< k) := by
  intro i hi
  rw [BitVec.add_eq_or_of_and_eq_zero _ _ (h.and_bit b), BitVec.getLsbD_or, h i (by omega),
    BitVec.getLsbD_shiftLeft, BitVec.getLsbD_setWidth,
    BitVec.getLsbD_of_ge (BitVec.ofBool b) (i - k) (by omega), Bool.and_false, Bool.and_false,
    Bool.or_false]

theorem poly_sumFrom {acc : BitVec w} {bs : List Bool} (h : ClearFrom k acc)
    (hw : k + bs.length ≤ w) : poly (sumFrom k acc bs) = poly acc + X ^ k * bitsPoly bs := by
  induction bs generalizing k acc with
  | nil => rw [sumFrom, bitsPoly, mul_zero, add_zero]
  | cons b bs ih =>
    rw [List.length_cons] at hw
    rw [sumFrom, ih (h.add_bit b) (by omega), poly_add_of_disjoint (h.and_bit b),
      poly_setWidth_shiftLeft k (by omega), poly_ofBool, bitsPoly]
    ring

/-! ## Remainders -/

/-- A register that keeps the residue of what it is fed, fold after fold. -/
theorem dvd_foldl_sub {β : Type} {g : (ZMod 2)[X]} {step : BitVec w → β → BitVec w}
    {feed : (ZMod 2)[X] → β → (ZMod 2)[X]}
    (hstep : ∀ x b p, g ∣ poly x - p → g ∣ poly (step x b) - feed p b) (bs : List β) :
    ∀ x p, g ∣ poly x - p → g ∣ poly (bs.foldl step x) - bs.foldl feed p := by
  induction bs with
  | nil => exact fun x p h => h
  | cons b bs ih => exact fun x p h => ih _ _ (hstep x b p h)

/-- A residue of a degree below that of the divisor is the remainder. -/
theorem poly_eq_modByMonic {g p : (ZMod 2)[X]} {x : BitVec w} (hg : g.Monic)
    (hdegree : g.degree = w) (h : g ∣ poly x - p) : poly x = p %ₘ g := by
  have hself : poly x %ₘ g = poly x :=
    (modByMonic_eq_self_iff hg).mpr (lt_of_lt_of_eq (degree_poly_lt x) hdegree.symm)
  rw [← hself]
  exact modByMonic_eq_of_dvd_sub hg h

end RutosSdk.Gf2
