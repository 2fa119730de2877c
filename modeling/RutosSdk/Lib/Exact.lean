import RutosSdk.Lib.Accuracy

/-! # Exact `double` arithmetic

An operation whose exact result fits into the significand returns it: these are the rules of
`Accuracy` at error zero. The ceiling of a quotient of integers is exact even where the quotient is
not, since rounding it does not reach the next integer.
-/

namespace RutosSdk.Rounding

theorem roundDiv_mul (m : ℕ) {d : ℕ} (hd : 0 < d) : roundDiv (m * d) d = m := by
  rw [roundDiv, Nat.mul_mod_left, Nat.mul_div_cancel _ hd, if_pos (by omega)]

/-- A quotient that is a binary fraction with a short numerator is not rounded. -/
theorem roundQuot_exact {p n d m j : ℕ} (hp : 0 < p) (hd : 0 < d) (hm : m < 2 ^ p)
    (hj : j ≤ p + Nat.log2 d + 1) (h : n * 2 ^ j = m * d) :
    (roundQuot p n d).num * 2 ^ j = m * 2 ^ (roundQuot p n d).scale := by
  simp only [roundQuot]
  generalize p + Nat.log2 d + 1 = s at *
  have hscaled : n * 2 ^ s = m * 2 ^ (s - j) * d := by
    calc n * 2 ^ s = n * 2 ^ j * 2 ^ (s - j) := by
          rw [Nat.mul_assoc, ← Nat.pow_add, Nat.add_sub_of_le hj]
      _ = m * 2 ^ (s - j) * d := by
          rw [h]
          ring
  -- the bits beyond the significand are zeros of the scale
  have hk : excess p n d s ≤ s - j := by
    rw [excess, hscaled, Nat.mul_div_cancel _ hd]
    rcases Nat.eq_zero_or_pos m with rfl | hpos
    · simp
      omega
    · have hlt : m * 2 ^ (s - j) < 2 ^ (p + (s - j)) := by
        rw [Nat.pow_add]
        exact Nat.mul_lt_mul_of_pos_right hm (by positivity)
      have hne : m * 2 ^ (s - j) ≠ 0 := Nat.ne_of_gt (by positivity)
      have := (Nat.log2_lt hne).mpr hlt
      omega
  generalize excess p n d s = k at *
  have hsplit : (2 : ℕ) ^ (s - j) = 2 ^ (s - j - k) * 2 ^ k := by
    rw [← Nat.pow_add, Nat.sub_add_cancel hk]
  have hround : roundDiv (n * 2 ^ s) (d * 2 ^ k) = m * 2 ^ (s - j - k) := by
    have : n * 2 ^ s = m * 2 ^ (s - j - k) * (d * 2 ^ k) := by
      rw [hscaled, hsplit]
      ring
    rw [this, roundDiv_mul _ (by positivity)]
  calc roundDiv (n * 2 ^ s) (d * 2 ^ k) * 2 ^ k * 2 ^ j
      = m * (2 ^ (s - j) * 2 ^ j) := by
        rw [hround, hsplit]
        ring
    _ = m * 2 ^ s := by rw [← Nat.pow_add, Nat.sub_add_cancel hj]

/-- Rounding a quotient of integers does not change its ceiling. -/
theorem ceil_roundQuot {p n d a b : ℕ} (hp : 0 < p) (hd : 0 < d) (hb : 0 < b) (ha : a < 2 ^ p)
    (h : n * b = a * d) :
    ⌈((roundQuot p n d).num : ℚ) / 2 ^ (roundQuot p n d).scale⌉ = ⌈(a : ℚ) / b⌉ := by
  have hb' : (0 : ℚ) < b := by exact_mod_cast hb
  have hd' : (0 : ℚ) < d := by exact_mod_cast hd
  have hquot : (n : ℚ) / d = a / b := by
    rw [div_eq_div_iff hd'.ne' hb'.ne']
    exact_mod_cast h
  by_cases hdvd : b ∣ a
  · obtain ⟨c, rfl⟩ := hdvd
    have hc : c < 2 ^ p := lt_of_le_of_lt (Nat.le_mul_of_pos_left c hb) ha
    have hn : n * 2 ^ 0 = c * d := by
      refine Nat.eq_of_mul_eq_mul_right hb ?_
      rw [pow_zero, mul_one, h]
      ring
    have hexact := roundQuot_exact hp hd hc (Nat.zero_le _) hn
    have hnum : ((roundQuot p n d).num : ℚ) = c * 2 ^ (roundQuot p n d).scale := by
      rw [pow_zero, mul_one] at hexact
      exact_mod_cast hexact
    rw [hnum, mul_div_cancel_right₀ _ (by positivity)]
    push_cast
    rw [mul_div_cancel_left₀ _ hb'.ne']
  · -- the quotient is at least one part in b away from an integer, the rounded one nearer to it
    have herr := @Binary64.abs_roundQuot_sub_le p n d hp hd
    rw [hquot] at herr
    obtain ⟨hlo, hhi⟩ := abs_le.mp herr
    have hsmall : (a : ℚ) / b / 2 ^ p < 1 / b := by
      rw [div_div, mul_comm, ← div_div]
      refine div_lt_div_of_pos_right ?_ hb'
      rw [div_lt_one (by positivity)]
      exact_mod_cast ha
    generalize hc : ⌈(a : ℚ) / b⌉ = c
    obtain ⟨hc₁, hc₂⟩ := Int.ceil_eq_iff.mp hc
    have hbelow : ((c : ℚ) - 1) * b < a := (lt_div_iff₀ hb').mp hc₁
    have habove : (a : ℚ) ≤ c * b := (div_le_iff₀ hb').mp hc₂
    have hbelow' : (c - 1) * (b : ℤ) + 1 ≤ a := by exact_mod_cast hbelow
    have hne : (a : ℤ) ≠ c * b := by
      intro heq
      exact hdvd (Int.natCast_dvd_natCast.mp ⟨c, by rw [heq, mul_comm]⟩)
    have habove' : (a : ℤ) + 1 ≤ c * b := by
      have : (a : ℤ) ≤ c * b := by exact_mod_cast habove
      omega
    have hlow : (c : ℚ) - 1 + 1 / b ≤ a / b := by
      calc (c : ℚ) - 1 + 1 / b = ((c - 1) * b + 1) / b := by field_simp
        _ ≤ a / b := div_le_div_of_nonneg_right (by exact_mod_cast hbelow') hb'.le
    have hhigh : (a : ℚ) / b + 1 / b ≤ c := by
      calc (a : ℚ) / b + 1 / b = (a + 1) / b := by rw [add_div]
        _ ≤ c := (div_le_iff₀ hb').mpr (by exact_mod_cast habove')
    rw [Int.ceil_eq_iff]
    constructor <;> linarith

end RutosSdk.Rounding

namespace RutosSdk.Binary64

open Rounding

variable {j : ℕ} {m : ℤ}

/-- A value with a 53-bit significand is not rounded. -/
theorem Fraction.val_round {x : Fraction} (hj : j ≤ 54) (hm : |m| < 2 ^ 53)
    (h : x.val = m / 2 ^ j) : x.round.val = x.val := by
  have hcross : x.num * 2 ^ j = m * 2 ^ x.scale := by
    rw [Fraction.val, div_eq_div_iff (by positivity) (by positivity)] at h
    exact_mod_cast h
  have hnat : x.num.natAbs * 2 ^ j = m.natAbs * 2 ^ x.scale := by
    have := congrArg Int.natAbs hcross
    simpa [Int.natAbs_mul, Int.natAbs_pow] using this
  rw [Int.abs_eq_natAbs] at hm
  have hexact := @roundQuot_exact 53 _ (2 ^ x.scale) m.natAbs j (by decide) (by positivity)
    (by omega) (by omega) hnat
  have habs : ((roundQuot 53 x.num.natAbs (2 ^ x.scale)).num : ℚ)
      / 2 ^ (roundQuot 53 x.num.natAbs (2 ^ x.scale)).scale = |x.val| := by
    rw [h, abs_div, abs_of_pos (show (0 : ℚ) < 2 ^ j by positivity),
      div_eq_div_iff (by positivity) (by positivity), ← Int.cast_abs, ← Nat.cast_natAbs]
    exact_mod_cast hexact
  have hpow : (0 : ℚ) < 2 ^ x.scale := by positivity
  rw [Fraction.round, Fraction.val]
  split
  · rename_i hneg
    have hlt : x.val < 0 := div_neg_of_neg_of_pos (by exact_mod_cast hneg) hpow
    push_cast
    rw [neg_div, habs, abs_of_neg hlt, neg_neg]
  · rename_i hnonneg
    have hle : 0 ≤ x.val := div_nonneg (by exact_mod_cast not_lt.mp hnonneg) hpow.le
    push_cast
    rw [habs, abs_of_nonneg hle]

namespace Double

variable {q : ℚ} {x : Double}

theorem near_zero_iff : Near x q 0 ↔ ∃ f, x = .finite f ∧ f.val = q := by
  simp [Near, sub_eq_zero]

/-- A short binary fraction is not rounded. -/
theorem near_round_exact {f : Fraction} {m : ℤ} {j : ℕ} (hj : j ≤ 54) (hm : |m| < 2 ^ 53)
    (h : f.val = m / 2 ^ j) : Near (.finite f.round) (m / 2 ^ j) 0 :=
  near_zero_iff.mpr ⟨_, rfl, (Fraction.val_round hj hm h).trans h⟩

theorem near_ofInt_exact {z : ℤ} (hz : |z| < 2 ^ 53) : Near (.ofInt z) z 0 := by
  have h := @near_round_exact ⟨z, 0⟩ z 0 (by omega) hz (by simp [Fraction.val])
  rwa [pow_zero, div_one] at h

theorem Near.add_exact {y : Double} {p : ℚ} (hx : Near x p 0) (hy : Near y q 0) (hj : j ≤ 54)
    (hm : |m| < 2 ^ 53) (h : p + q = m / 2 ^ j) : Near (x.add y) (m / 2 ^ j) 0 := by
  obtain ⟨f, rfl, rfl⟩ := near_zero_iff.mp hx
  obtain ⟨g, rfl, rfl⟩ := near_zero_iff.mp hy
  exact near_round_exact hj hm ((Fraction.val_add f g).trans h)

theorem Near.mul_exact {y : Double} {p : ℚ} (hx : Near x p 0) (hy : Near y q 0) (hj : j ≤ 54)
    (hm : |m| < 2 ^ 53) (h : p * q = m / 2 ^ j) : Near (x.mul y) (m / 2 ^ j) 0 := by
  obtain ⟨f, rfl, rfl⟩ := near_zero_iff.mp hx
  obtain ⟨g, rfl, rfl⟩ := near_zero_iff.mp hy
  exact near_round_exact hj hm ((Fraction.val_mul f g).trans h)

/-- The conversion to an unsigned integer takes the integer part of an exact value. -/
theorem Near.toUnsigned_exact (h : Near x q 0) {w : ℕ} (hlo : 0 ≤ q) (hhi : q < 2 ^ w)
    (wild : WildCast) : x.toUnsigned wild w = BitVec.ofInt w ⌊q⌋ := by
  obtain ⟨z, -, hz₁, hz₂, hz⟩ := h.toUnsigned hlo (by linarith) wild
  have hfloor : ⌊q⌋ = z := Int.floor_eq_iff.mpr ⟨by linarith, by linarith⟩
  rw [hz, hfloor]

/-- `ceil` -/
def ceil : Double → Double
  | .finite x => .finite ⟨-(-x.num / 2 ^ x.scale), 0⟩
  | x => x

/-- The ceiling of a quotient of integers is exact. -/
theorem Near.ceil_divNat {a b : ℕ} (hx : Near x a 0) (ha : a < 2 ^ 53) (hb : 0 < b) :
    Near (x.divNat b).ceil ⌈(a : ℚ) / b⌉ 0 := by
  obtain ⟨f, rfl, hf⟩ := near_zero_iff.mp hx
  have hnum : (f.num : ℚ) = a * 2 ^ f.scale := by
    rw [← hf, Fraction.val, div_mul_cancel₀ _ (by positivity)]
  have hnum' : f.num = ((a * 2 ^ f.scale : ℕ) : ℤ) := by exact_mod_cast hnum
  have hceil := @ceil_roundQuot 53 (a * 2 ^ f.scale) (2 ^ f.scale * b) a b (by decide)
    (by positivity) hb ha (by ring)
  refine near_zero_iff.mpr ⟨_, rfl, ?_⟩
  rw [hnum', Int.natAbs_natCast, if_neg (by omega)]
  generalize roundQuot 53 (a * 2 ^ f.scale) (2 ^ f.scale * b) = r at *
  have hpow : ((2 : ℚ) ^ r.scale) = ((2 ^ r.scale : ℕ) : ℚ) := by
    push_cast
    rfl
  rw [← hceil, hpow, ← Int.cast_natCast (R := ℚ) r.num, Rat.ceil_intCast_div_natCast]
  simp [Fraction.val]

end Double

end RutosSdk.Binary64
