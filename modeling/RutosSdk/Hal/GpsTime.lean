import RutosSdk.Hal.Gps

/-! # The counter at a GPS time

`lgw_gps2cnt` follows the line through the reference: a GPS time within 8192 seconds of it is
converted to within one tick and a thousandth of the exact value.
-/

namespace RutosSdk.Hal

open Binary64 Double

/-- The GPS fields hold a time as the receiver gives it, and the reference can be used. -/
structure Tref.Valid (ref : Tref) : Prop where
  usable : ref.usable = true
  tv_sec_nonneg : 0 ≤ ref.gps.tv_sec
  tv_nsec_nonneg : 0 ≤ ref.gps.tv_nsec
  tv_nsec_lt : ref.gps.tv_nsec < 1000000000

instance (ref : Tref) : Decidable ref.Valid :=
  decidable_of_iff (ref.usable = true ∧ 0 ≤ ref.gps.tv_sec ∧ 0 ≤ ref.gps.tv_nsec
      ∧ ref.gps.tv_nsec < 1000000000)
    ⟨fun ⟨h₁, h₂, h₃, h₄⟩ => ⟨h₁, h₂, h₃, h₄⟩, fun ⟨h₁, h₂, h₃, h₄⟩ => ⟨h₁, h₂, h₃, h₄⟩⟩

/-- The seconds from the reference to a GPS time. -/
def Tref.secondsTo (ref : Tref) (gps_time : Timespec) : ℚ :=
  (gps_time.tv_sec - ref.gps.tv_sec : ℤ) + 1 / 1000000000 * (gps_time.tv_nsec - ref.gps.tv_nsec : ℤ)

/-- The counter ticks from the reference to a GPS time, on the line that the reference gives. -/
def Tref.ticksTo (ref : Tref) (gps_time : Timespec) : ℚ :=
  ref.secondsTo gps_time * 1000000 * ref.xtal_err.val

/-! ## Bounds -/

variable {ref : Tref} {sec : ℤ}

/-- The clock error of a usable reference is small. -/
theorem Tref.xtal_err_bounds (h : ref.usable = true) :
    9999 / 10000 ≤ ref.xtal_err.val ∧ ref.xtal_err.val ≤ 10001 / 10000 := by
  simp only [Tref.usable, Bool.and_eq_true, Bool.not_eq_true'] at h
  obtain ⟨⟨-, hplus⟩, hminus⟩ := h
  set plus := Fraction.literal plus10ppm.num.toNat plus10ppm.den with hp
  set minus := Fraction.literal minus10ppm.num.toNat minus10ppm.den with hm
  have hlo : (⟨9999, 0⟩ : Fraction).lt ⟨minus.num * 10000, minus.scale⟩ = true := by
    rw [hm]
    decide +kernel
  have hhi : (⟨plus.num * 10000, plus.scale⟩ : Fraction).lt ⟨10001, 0⟩ = true := by
    rw [hp]
    decide +kernel
  rw [Fraction.lt_iff_val_lt] at hlo hhi
  have hplus' : ref.xtal_err.val ≤ plus.val := by
    rw [← not_lt, ← Fraction.lt_iff_val_lt, hplus]
    decide
  have hminus' : minus.val ≤ ref.xtal_err.val := by
    rw [← not_lt, ← Fraction.lt_iff_val_lt, hminus]
    decide
  simp only [Fraction.val, pow_zero, div_one] at hlo hhi hplus' hminus' ⊢
  push_cast at hlo hhi
  rw [mul_div_right_comm] at hlo hhi
  constructor <;> linarith

theorem Tref.Valid.xtal_err_bounds (h : ref.Valid) :
    9999 / 10000 ≤ ref.xtal_err.val ∧ ref.xtal_err.val ≤ 10001 / 10000 :=
  Tref.xtal_err_bounds h.usable

/-- The seconds to a whole second, against the difference of the seconds. -/
theorem Tref.Valid.secondsTo_bounds (h : ref.Valid) (sec : ℤ) :
    ((sec - ref.gps.tv_sec : ℤ) : ℚ) - 1 < ref.secondsTo ⟨sec, 0⟩
      ∧ ref.secondsTo ⟨sec, 0⟩ ≤ ((sec - ref.gps.tv_sec : ℤ) : ℚ) := by
  have h₁ : (0 : ℚ) ≤ ref.gps.tv_nsec := by exact_mod_cast h.tv_nsec_nonneg
  have h₂ : (ref.gps.tv_nsec : ℚ) < 1000000000 := by exact_mod_cast h.tv_nsec_lt
  simp only [Tref.secondsTo]
  push_cast
  constructor <;> linarith

/-- A whole second whose ticks are positive and fit into the counter is not before the reference,
and less than 4300 seconds after it. -/
theorem Tref.Valid.sec_bounds (h : ref.Valid) (hlo : 0 < ref.ticksTo ⟨sec, 0⟩)
    (hhi : ref.ticksTo ⟨sec, 0⟩ ≤ 2 ^ 32) :
    0 ≤ sec - ref.gps.tv_sec ∧ sec - ref.gps.tv_sec < 4300 := by
  obtain ⟨hxlo, hxhi⟩ := h.xtal_err_bounds
  obtain ⟨hslo, hshi⟩ := h.secondsTo_bounds sec
  rw [Tref.ticksTo] at hlo hhi
  have hx : 0 < ref.xtal_err.val := by linarith
  have hpos : 0 < ref.secondsTo ⟨sec, 0⟩ := by
    have := pos_of_mul_pos_left hlo hx.le
    linarith
  have hlt : ref.secondsTo ⟨sec, 0⟩ < 4299 := by
    by_contra hge
    nlinarith
  constructor
  · have : (-1 : ℚ) < (sec - ref.gps.tv_sec : ℤ) := by linarith
    have : -1 < sec - ref.gps.tv_sec := by exact_mod_cast this
    omega
  · have : ((sec - ref.gps.tv_sec : ℤ) : ℚ) < 4300 := by linarith
    exact_mod_cast this

/-- The computed ticks are near the exact ones. -/
theorem countTicks_near (h : ref.Valid) (hlo : 0 ≤ sec - ref.gps.tv_sec)
    (hhi : sec - ref.gps.tv_sec ≤ 8192) (wild : WildCast) :
    Near (countTicks (doubles wild) ref ref.gps ⟨sec, 0⟩) (ref.ticksTo ⟨sec, 0⟩) (1 / 1000) := by
  obtain ⟨hxlo, hxhi⟩ := h.xtal_err_bounds
  obtain ⟨hslo, hshi⟩ := h.secondsTo_bounds sec
  have hlo' : (0 : ℚ) ≤ (sec - ref.gps.tv_sec : ℤ) := by exact_mod_cast hlo
  have hhi' : ((sec - ref.gps.tv_sec : ℤ) : ℚ) ≤ 8192 := by exact_mod_cast hhi
  have hnlo : (0 : ℚ) ≤ ref.gps.tv_nsec := by exact_mod_cast h.tv_nsec_nonneg
  have hnhi : (ref.gps.tv_nsec : ℚ) < 1000000000 := by exact_mod_cast h.tv_nsec_lt
  have hnabs : |((0 - ref.gps.tv_nsec : ℤ) : ℚ)| ≤ 1000000000 := by
    push_cast
    rw [abs_le]
    constructor <;> linarith
  have hsabs : |ref.secondsTo ⟨sec, 0⟩| ≤ 8192 := by
    rw [abs_le]
    constructor <;> linarith
  have hsec : Near (ofInt (sec - ref.gps.tv_sec)) (sec - ref.gps.tv_sec : ℤ) (8192 / 2 ^ 53) := by
    refine (near_ofInt _).mono ?_
    rw [abs_of_nonneg hlo']
    gcongr
  have hnsec : Near (ofInt (0 - ref.gps.tv_nsec)) (0 - ref.gps.tv_nsec : ℤ)
      (1000000000 / 2 ^ 53) := by
    refine (near_ofInt _).mono ?_
    gcongr
  have hnano :
      Near (finite (.literal 1 1000000000)) (1 / 1000000000) (1 / 1000000000 / 2 ^ 53) := by
    simpa using @near_literal 1 1000000000 (by decide)
  have hmillion : Near (ofInt 1000000) 1000000 (1000000 / 2 ^ 53) := by
    simpa using near_ofInt 1000000
  -- the operations in their order, each with the bounds of its operands
  have hfrac := hnano.mul hnsec (abs_of_pos (by norm_num)).le hnabs
  have hdelta := hsec.add hfrac hsabs
  have hticks := hdelta.mul hmillion hsabs (abs_of_pos (by norm_num)).le
  have htabs : |ref.secondsTo ⟨sec, 0⟩ * 1000000| ≤ 8192 * 1000000 := by
    rw [abs_mul, abs_of_pos (show (0 : ℚ) < 1000000 by norm_num)]
    gcongr
  have hxabs : |ref.xtal_err.val| ≤ 10001 / 10000 := by
    rw [abs_le]
    constructor <;> linarith
  refine (hticks.mul (near_finite ref.xtal_err) htabs hxabs).mono ?_
  norm_num

/-- `lgw_gps2cnt` on a whole second whose exact ticks fit into the counter with a margin of one. -/
theorem lgwGps2cnt_eq (h : ref.Valid) (hlo : 1 ≤ ref.ticksTo ⟨sec, 0⟩)
    (hhi : ref.ticksTo ⟨sec, 0⟩ ≤ 2 ^ 32 - 1) (wild : WildCast) :
    ∃ z : ℤ, z ≤ ref.ticksTo ⟨sec, 0⟩ + 1 / 1000 ∧ ref.ticksTo ⟨sec, 0⟩ - 1 / 1000 < z + 1
      ∧ lgwGps2cnt (doubles wild) ref ⟨sec, 0⟩ = some (ref.count_us + BitVec.ofInt 32 z) := by
  obtain ⟨hlo', hhi'⟩ := h.sec_bounds (lt_of_lt_of_le one_pos hlo) (by linarith)
  obtain ⟨z, -, hz₁, hz₂, hz⟩ := (countTicks_near h hlo' (by omega) wild).toUnsigned (by linarith)
    (show ref.ticksTo ⟨sec, 0⟩ + 1 / 1000 < 2 ^ 32 by linarith) wild
  refine ⟨z, hz₁, hz₂, ?_⟩
  rw [lgwGps2cnt, time2cnt, if_pos h.usable]
  exact congrArg (fun ticks => some (ref.count_us + ticks)) hz

end RutosSdk.Hal
