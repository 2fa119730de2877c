import Mathlib.Data.Rat.Floor
import RutosSdk.Lib.Binary64

/-! # Accuracy of `double` arithmetic

The value of a binary fraction is a rational. One rounding moves it by at most one part in `2 ^ 53`,
and `Near x q e` says that a `double` is finite and within `e` of `q`; each operation has a rule
that gives the error of its result from the errors of its operands.
-/

namespace RutosSdk.Binary64

open Rounding

/-! ## Values -/

/-- The rational that a fraction denotes. -/
def Fraction.val (x : Fraction) : ℚ := x.num / 2 ^ x.scale

theorem Fraction.lt_iff_val_lt (x y : Fraction) : x.lt y = true ↔ x.val < y.val := by
  have hx : (0 : ℚ) < 2 ^ x.scale := by positivity
  have hy : (0 : ℚ) < 2 ^ y.scale := by positivity
  rw [Fraction.lt, decide_eq_true_iff, Fraction.val, Fraction.val, div_lt_div_iff₀ hx hy]
  exact_mod_cast Iff.rfl

/-- The exact sum, as `Double.add` forms it before rounding. -/
theorem Fraction.val_add (x y : Fraction) :
    Fraction.val ⟨x.num * 2 ^ y.scale + y.num * 2 ^ x.scale, x.scale + y.scale⟩
      = x.val + y.val := by
  simp only [Fraction.val]
  push_cast
  rw [pow_add]
  field_simp

/-- The exact product, as `Double.mul` forms it before rounding. -/
theorem Fraction.val_mul (x y : Fraction) :
    Fraction.val ⟨x.num * y.num, x.scale + y.scale⟩ = x.val * y.val := by
  simp only [Fraction.val]
  push_cast
  rw [pow_add]
  field_simp

/-- A rounded quotient of naturals, against the exact one. -/
theorem abs_roundQuot_sub_le {p n d : ℕ} (hp : 0 < p) (hd : 0 < d) :
    |((roundQuot p n d).num : ℚ) / 2 ^ (roundQuot p n d).scale - n / d| ≤ n / d / 2 ^ p := by
  have hle := roundQuot_le (n := n) hp hd
  have hge := le_roundQuot (n := n) hp hd
  generalize (roundQuot p n d).num = m at *
  generalize (roundQuot p n d).scale = s at *
  have hle' : (2 : ℚ) ^ p * (m * d) ≤ (2 ^ p + 1) * (n * 2 ^ s) := by exact_mod_cast hle
  have hge' : (2 : ℚ) ^ p * (n * 2 ^ s) ≤ 2 ^ p * (m * d) + n * 2 ^ s := by exact_mod_cast hge
  have hdiff : (m : ℚ) / 2 ^ s - n / d = (m * d - n * 2 ^ s) / (2 ^ s * d) := by
    field_simp
  have hbound : (n : ℚ) / d / 2 ^ p = n * 2 ^ s / 2 ^ p / (2 ^ s * d) := by
    field_simp
  rw [hdiff, hbound, abs_div, abs_of_pos (show (0 : ℚ) < 2 ^ s * d by positivity)]
  refine div_le_div_of_nonneg_right ?_ (by positivity)
  rw [abs_le, ← neg_div, le_div_iff₀ (by positivity), div_le_iff₀ (by positivity)]
  constructor <;> nlinarith

/-- Rounding moves a value by at most one part in `2 ^ 53`. -/
theorem Fraction.abs_val_round_sub_le (x : Fraction) :
    |x.round.val - x.val| ≤ |x.val| / 2 ^ 53 := by
  have h := @abs_roundQuot_sub_le 53 x.num.natAbs (2 ^ x.scale) (by decide) (by positivity)
  have habs : ((x.num.natAbs : ℕ) : ℚ) = |(x.num : ℚ)| := by
    rw [Nat.cast_natAbs, Int.cast_abs]
  have hval : |x.val| = |(x.num : ℚ)| / 2 ^ x.scale := by
    rw [Fraction.val, abs_div, abs_of_pos (show (0 : ℚ) < 2 ^ x.scale by positivity)]
  rw [Nat.cast_pow, Nat.cast_ofNat, habs] at h
  rw [hval]
  refine le_trans (le_of_eq ?_) h
  simp only [Fraction.val, Fraction.round]
  split
  · rename_i hneg
    have hneg' : (x.num : ℚ) < 0 := by exact_mod_cast hneg
    rw [abs_of_neg hneg', ← abs_neg]
    congr 1
    push_cast
    ring
  · rename_i hpos
    have hpos' : (0 : ℚ) ≤ x.num := by exact_mod_cast not_lt.mp hpos
    rw [abs_of_nonneg hpos', Int.cast_natCast]

/-- The integer part of a non-negative value is its floor. -/
theorem Fraction.trunc_eq_floor {x : Fraction} (h : 0 ≤ x.val) : x.trunc = ⌊x.val⌋ := by
  have hnum : 0 ≤ x.num := by
    have hpow : (0 : ℚ) < 2 ^ x.scale := by positivity
    rw [Fraction.val, le_div_iff₀ hpow, zero_mul] at h
    exact_mod_cast h
  rw [Fraction.trunc, Int.tdiv_eq_ediv_of_nonneg hnum, Fraction.val]
  have hcast : ((2 : ℚ) ^ x.scale) = ((2 ^ x.scale : ℕ) : ℚ) := by push_cast; rfl
  rw [hcast, Rat.floor_intCast_div_natCast]
  push_cast
  rfl

/-! ## Nearness -/

namespace Double

/-- The `double` is finite, and its value is within `e` of `q`. -/
def Near (x : Double) (q e : ℚ) : Prop := ∃ f, x = .finite f ∧ |f.val - q| ≤ e

variable {e q : ℚ} {x : Double}

theorem Near.mono {e' : ℚ} (h : Near x q e) (he : e ≤ e') : Near x q e' := by
  obtain ⟨f, rfl, hf⟩ := h
  exact ⟨f, rfl, hf.trans he⟩

theorem near_finite (f : Fraction) : Near (.finite f) f.val 0 := ⟨f, rfl, by simp⟩

theorem near_ofInt (z : ℤ) : Near (.ofInt z) z (|(z : ℚ)| / 2 ^ 53) := by
  have h := Fraction.abs_val_round_sub_le ⟨z, 0⟩
  have hval : Fraction.val ⟨z, 0⟩ = z := by simp [Fraction.val]
  rw [hval] at h
  exact ⟨_, rfl, h⟩

theorem near_literal (n : ℕ) {d : ℕ} (hd : 0 < d) :
    Near (.finite (.literal n d)) (n / d) (n / d / 2 ^ 53) := by
  refine ⟨_, rfl, ?_⟩
  have h := @abs_roundQuot_sub_le 53 n d (by decide) hd
  simpa [Fraction.val, Fraction.literal] using h

/-- The rounding of a fraction near `q`. -/
theorem near_round {f : Fraction} (h : |f.val - q| ≤ e) :
    Near (.finite f.round) q (e + (|q| + e) / 2 ^ 53) := by
  refine ⟨_, rfl, ?_⟩
  have hround := f.abs_val_round_sub_le
  have hval : |f.val| ≤ |q| + e := by
    calc |f.val| = |q + (f.val - q)| := by ring_nf
      _ ≤ |q| + |f.val - q| := abs_add_le _ _
      _ ≤ |q| + e := by linarith
  calc |f.round.val - q| = |(f.round.val - f.val) + (f.val - q)| := by ring_nf
    _ ≤ |f.round.val - f.val| + |f.val - q| := abs_add_le _ _
    _ ≤ e + (|q| + e) / 2 ^ 53 := by
        linarith

/-- The error of a sum of which a bound is known. -/
theorem Near.add {y : Double} {p d : ℚ} (hx : Near x p d) (hy : Near y q e) {B : ℚ}
    (hB : |p + q| ≤ B) : Near (x.add y) (p + q) (d + e + (B + (d + e)) / 2 ^ 53) := by
  obtain ⟨f, rfl, hf⟩ := hx
  obtain ⟨g, rfl, hg⟩ := hy
  have herr : |f.val + g.val - (p + q)| ≤ d + e := by
    calc |f.val + g.val - (p + q)| = |(f.val - p) + (g.val - q)| := by ring_nf
      _ ≤ |f.val - p| + |g.val - q| := abs_add_le _ _
      _ ≤ d + e := add_le_add hf hg
  refine (near_round (Fraction.val_add f g ▸ herr)).mono ?_
  gcongr

/-- The error of a product of factors of which bounds are known. -/
theorem Near.mul {y : Double} {p d : ℚ} (hx : Near x p d) (hy : Near y q e) {P Q : ℚ} (hP : |p| ≤ P)
    (hQ : |q| ≤ Q) :
    Near (x.mul y) (p * q)
      (d * Q + P * e + d * e + (P * Q + (d * Q + P * e + d * e)) / 2 ^ 53) := by
  obtain ⟨f, rfl, hf⟩ := hx
  obtain ⟨g, rfl, hg⟩ := hy
  have hd : 0 ≤ d := (abs_nonneg _).trans hf
  have hP₀ : 0 ≤ P := (abs_nonneg _).trans hP
  have herr : |f.val * g.val - p * q| ≤ d * Q + P * e + d * e := by
    calc |f.val * g.val - p * q|
        = |(f.val - p) * q + p * (g.val - q) + (f.val - p) * (g.val - q)| := by ring_nf
      _ ≤ |(f.val - p) * q| + |p * (g.val - q)| + |(f.val - p) * (g.val - q)| :=
          abs_add_three _ _ _
      _ = |f.val - p| * |q| + |p| * |g.val - q| + |f.val - p| * |g.val - q| := by
          simp only [abs_mul]
      _ ≤ d * Q + P * e + d * e := by gcongr
  refine (near_round (Fraction.val_mul f g ▸ herr)).mono ?_
  rw [abs_mul]
  gcongr

/-- The conversion to an unsigned integer of a `double` near a value well inside of the range. -/
theorem Near.toUnsigned (h : Near x q e) {w : ℕ} (hlo : e ≤ q) (hhi : q + e < 2 ^ w)
    (wild : WildCast) :
    ∃ z : ℤ, 0 ≤ z ∧ z ≤ q + e ∧ q - e < z + 1 ∧ x.toUnsigned wild w = BitVec.ofInt w z := by
  obtain ⟨f, rfl, hf⟩ := h
  obtain ⟨hf₁, hf₂⟩ := abs_le.mp hf
  have hpos : 0 ≤ f.val := by linarith
  have htrunc := Fraction.trunc_eq_floor hpos
  have hz : 0 ≤ ⌊f.val⌋ := Int.floor_nonneg.mpr hpos
  have hle : (⌊f.val⌋ : ℚ) ≤ f.val := Int.floor_le _
  have hlt : f.val < ⌊f.val⌋ + 1 := Int.lt_floor_add_one _
  have hrange : ⌊f.val⌋ < 2 ^ w := by
    rw [Int.floor_lt]
    push_cast
    linarith
  refine ⟨⌊f.val⌋, hz, by linarith, by linarith, ?_⟩
  rw [Double.toUnsigned, htrunc, if_pos ⟨hz, hrange⟩]

end Double

end RutosSdk.Binary64
