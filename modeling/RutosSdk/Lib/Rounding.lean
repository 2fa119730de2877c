import Mathlib.Tactic.Ring
import Mathlib.Tactic.Linarith
import Mathlib.Tactic.Positivity

/-! # Rounding to a binary significand

Non-negative binary floating-point values as `num / 2 ^ scale`, and the correctly rounded quotient
of two naturals to a `p`-bit significand (nearest, ties to even). Exponent range is not modelled:
the quotients rounded here stay far from overflow and from the subnormals.
-/

namespace RutosSdk.Rounding

/-- The non-negative binary fraction `num / 2 ^ scale`. -/
structure Scaled where
  num : ℕ
  scale : ℕ
deriving DecidableEq, Repr

/-- The integer part, as a C conversion to an unsigned type computes it. -/
def Scaled.trunc (x : Scaled) : ℕ := x.num / 2 ^ x.scale

/-- The integer nearest to `n / d`, ties to even. -/
def roundDiv (n d : ℕ) : ℕ :=
  if 2 * (n % d) < d then n / d
  else if d < 2 * (n % d) then n / d + 1
  else n / d + n / d % 2

/-- The number of low bits of `n * 2 ^ s / d` beyond a `p`-bit significand. -/
def excess (p n d s : ℕ) : ℕ := Nat.log2 (n * 2 ^ s / d) + 1 - p

/-- The quotient `n / d` rounded to a `p`-bit significand. The scale makes the integer quotient
longer than the significand, so that the excess bits are the ones rounded away. -/
def roundQuot (p n d : ℕ) : Scaled :=
  let s := p + Nat.log2 d + 1
  let k := excess p n d s
  ⟨roundDiv (n * 2 ^ s) (d * 2 ^ k) * 2 ^ k, s⟩

/-- The product of a binary fraction with a natural, rounded to a `p`-bit significand. -/
def roundMul (p : ℕ) (x : Scaled) (m : ℕ) : Scaled := roundQuot p (x.num * m) (2 ^ x.scale)

/-! ## Error of one rounding -/

variable {d n p : ℕ}

/-- Rounding to an integer moves a quotient by at most one half. -/
theorem roundDiv_le (n : ℕ) : 2 * (roundDiv n d * d) ≤ 2 * n + d := by
  have hn := Nat.div_add_mod' n d
  unfold roundDiv
  split
  · omega
  · split
    · rw [Nat.add_mul, one_mul]
      omega
    · have heven : n / d % 2 * d ≤ 1 * d := Nat.mul_le_mul_right d (by omega)
      rw [Nat.add_mul]
      omega

theorem le_roundDiv (n : ℕ) (hd : 0 < d) : 2 * n ≤ 2 * (roundDiv n d * d) + d := by
  have hn := Nat.div_add_mod' n d
  have hlt := Nat.mod_lt n hd
  unfold roundDiv
  split
  · omega
  · split
    · rw [Nat.add_mul, one_mul]
      omega
    · rw [Nat.add_mul]
      omega

/-- The scaled quotient has at least as many bits as the significand keeps. -/
theorem pow_excess_le {s : ℕ} (hp : 0 < p) (hq : 2 ^ (p - 1) ≤ n * 2 ^ s / d) :
    2 ^ (p - 1) * (d * 2 ^ excess p n d s) ≤ n * 2 ^ s := by
  have hq0 : n * 2 ^ s / d ≠ 0 := by
    have : 0 < 2 ^ (p - 1) := by positivity
    omega
  have hlog : p - 1 ≤ Nat.log2 (n * 2 ^ s / d) := (Nat.le_log2 hq0).mpr hq
  have hself := Nat.log2_self_le hq0
  have hexp : Nat.log2 (n * 2 ^ s / d) = p - 1 + excess p n d s := by
    unfold excess
    omega
  calc 2 ^ (p - 1) * (d * 2 ^ excess p n d s)
      = 2 ^ (p - 1 + excess p n d s) * d := by rw [Nat.pow_add]; ring
    _ ≤ n * 2 ^ s / d * d := Nat.mul_le_mul_right d (hexp ▸ hself)
    _ ≤ n * 2 ^ s := Nat.div_mul_le_self _ _

/-- The scale of `roundQuot` makes the quotient of a positive numerator long enough. -/
theorem pow_le_scaled (hn : 0 < n) (hd : 0 < d) :
    2 ^ (p - 1) ≤ n * 2 ^ (p + Nat.log2 d + 1) / d := by
  rw [Nat.le_div_iff_mul_le hd]
  have hlog : d < 2 ^ (Nat.log2 d + 1) := Nat.lt_log2_self
  calc 2 ^ (p - 1) * d ≤ 2 ^ p * 2 ^ (Nat.log2 d + 1) :=
        Nat.mul_le_mul (Nat.pow_le_pow_right (by omega) (by omega)) hlog.le
    _ = 1 * 2 ^ (p + Nat.log2 d + 1) := by rw [← Nat.pow_add, one_mul, Nat.add_assoc]
    _ ≤ n * 2 ^ (p + Nat.log2 d + 1) := Nat.mul_le_mul_right _ hn

/-- The bits that `roundQuot` rounds away are worth at most one part in `2 ^ p`. -/
theorem pow_excess_roundQuot_le (hn : 0 < n) (hd : 0 < d) :
    2 ^ p * (d * 2 ^ excess (p + 1) n d (p + 1 + Nat.log2 d + 1))
      ≤ n * 2 ^ (p + 1 + Nat.log2 d + 1) := by
  have hscaled := pow_le_scaled (p := p + 1) hn hd
  simpa using pow_excess_le (Nat.succ_pos p) hscaled

/-- A rounded quotient exceeds the exact one by at most one part in `2 ^ p`. -/
theorem roundQuot_le (hp : 0 < p) (hd : 0 < d) :
    2 ^ p * ((roundQuot p n d).num * d) ≤ (2 ^ p + 1) * (n * 2 ^ (roundQuot p n d).scale) := by
  obtain ⟨p, rfl⟩ : ∃ q, p = q + 1 := ⟨p - 1, by omega⟩
  simp only [roundQuot]
  generalize hs : p + 1 + Nat.log2 d + 1 = s
  generalize hk : excess (p + 1) n d s = k
  have hround := roundDiv_le (n * 2 ^ s) (d := d * 2 ^ k)
  rcases Nat.eq_zero_or_pos n with rfl | hn
  · have hk0 : k = 0 := by
      rw [← hk]
      simp [excess]
    subst hk0
    have : roundDiv (0 * 2 ^ s) (d * 2 ^ 0) = 0 := by simp [roundDiv, hd]
    rw [this]
    simp
  · have hbits : 2 ^ p * (d * 2 ^ k) ≤ n * 2 ^ s := by
      rw [← hk, ← hs]
      exact pow_excess_roundQuot_le hn hd
    calc 2 ^ (p + 1) * (roundDiv (n * 2 ^ s) (d * 2 ^ k) * 2 ^ k * d)
        = 2 ^ p * (2 * (roundDiv (n * 2 ^ s) (d * 2 ^ k) * (d * 2 ^ k))) := by ring
      _ ≤ 2 ^ p * (2 * (n * 2 ^ s) + d * 2 ^ k) := Nat.mul_le_mul_left _ hround
      _ = 2 ^ (p + 1) * (n * 2 ^ s) + 2 ^ p * (d * 2 ^ k) := by ring
      _ ≤ (2 ^ (p + 1) + 1) * (n * 2 ^ s) := by nlinarith

/-- A rounded quotient falls short of the exact one by at most one part in `2 ^ p`. -/
theorem le_roundQuot {p n d : ℕ} (hp : 0 < p) (hd : 0 < d) :
    2 ^ p * (n * 2 ^ (roundQuot p n d).scale)
      ≤ 2 ^ p * ((roundQuot p n d).num * d) + n * 2 ^ (roundQuot p n d).scale := by
  obtain ⟨p, rfl⟩ : ∃ q, p = q + 1 := ⟨p - 1, by omega⟩
  rcases Nat.eq_zero_or_pos n with rfl | hn
  · simp
  · simp only [roundQuot]
    generalize hs : p + 1 + Nat.log2 d + 1 = s
    generalize hk : excess (p + 1) n d s = k
    have hround := le_roundDiv (n * 2 ^ s) (d := d * 2 ^ k) (by positivity)
    have hbits : 2 ^ p * (d * 2 ^ k) ≤ n * 2 ^ s := by
      rw [← hk, ← hs]
      exact pow_excess_roundQuot_le hn hd
    calc 2 ^ (p + 1) * (n * 2 ^ s) = 2 ^ p * (2 * (n * 2 ^ s)) := by ring
      _ ≤ 2 ^ p * (2 * (roundDiv (n * 2 ^ s) (d * 2 ^ k) * (d * 2 ^ k)) + d * 2 ^ k) :=
          Nat.mul_le_mul_left _ hround
      _ = 2 ^ (p + 1) * (roundDiv (n * 2 ^ s) (d * 2 ^ k) * 2 ^ k * d) + 2 ^ p * (d * 2 ^ k) := by
          ring
      _ ≤ 2 ^ (p + 1) * (roundDiv (n * 2 ^ s) (d * 2 ^ k) * 2 ^ k * d) + n * 2 ^ s :=
          Nat.add_le_add_left hbits _

/-! ## Equal ratios -/

end RutosSdk.Rounding
