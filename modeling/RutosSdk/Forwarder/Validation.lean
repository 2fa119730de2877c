import RutosSdk.Hal.GpsSync

/-! # The crystal correction

Reference: `thread_valid`, `gps_process_sync` and `thread_jit` in
`packet_forwarder/src/lora_pkt_fwd.c`.

The GPS thread moves the time reference. While it is fresh, the validation thread averages its
slope over 16 turns and then follows it through a low-pass filter; an old one puts the correction
back to 1. Beacons are sent at the corrected frequency. The arithmetic is that of the rationals.
-/

namespace RutosSdk.Forwarder.Validation

open Hal Hal.GpsSync

/-- `GPS_REF_MAX_AGE` -/
def gpsRefMaxAge : ℤ := 30
/-- `XERR_INIT_AVG` -/
def xerrInitAvg : ℕ := 16
/-- `XERR_FILT_COEF` -/
def xerrFiltCoef : ℚ := 256

/-- The variables of `thread_valid`, those it shares with other threads first. -/
structure Correction where
  gps_ref_valid : Bool := false
  xtal_correct_ok : Bool := false
  xtal_correct : ℚ := 1
  init_cpt : ℕ := 0
  init_acc : ℚ := 0

/-- A turn of `thread_valid`. -/
def threadValid (ref : Tref ℚ) (now : ℤ) (c : Correction) : Correction :=
  let gps_ref_age := now - ref.systime
  if 0 ≤ gps_ref_age ∧ gps_ref_age ≤ gpsRefMaxAge then
    let c := { c with gps_ref_valid := true }
    if c.init_cpt < xerrInitAvg then
      { c with init_acc := c.init_acc + ref.xtal_err, init_cpt := c.init_cpt + 1 }
    else if c.init_cpt = xerrInitAvg then
      { c with
        xtal_correct := xerrInitAvg / c.init_acc
        xtal_correct_ok := true
        init_cpt := c.init_cpt + 1 }
    else
      let x := 1 / ref.xtal_err
      { c with
        xtal_correct := c.xtal_correct - c.xtal_correct / xerrFiltCoef + x / xerrFiltCoef }
  else ⟨false, false, 1, 0, 0⟩

/-- The frequency that `thread_jit` sends a beacon at; the product is cast to `uint32_t`. -/
def beaconFreqHz (wild : ℚ → Word) (c : Correction) (freq_hz : Word) : Word :=
  toUint32 wild (c.xtal_correct * freq_hz.toNat)

/-- A call of `lgw_gps_sync` by the GPS thread, or a turn of `thread_valid` at a time. -/
inductive Event where
  | sync (call : Call Unit)
  | turn (now : ℤ)

/-- `time_reference_gps` with the state of `lgw_gps_sync`, and the validation. -/
structure Clock where
  gps : State Unit := { refs := fun _ => ⟨0, 0, ⟨0, 0⟩, ⟨0, 0⟩, 0⟩ }
  correction : Correction := {}

/-- Each event holds the lock of the time reference. -/
def Clock.step (s : Clock) : Event → Clock
  | .sync call => { s with gps := (lgwGpsSync s.gps call).1 }
  | .turn now => { s with correction := threadValid (s.gps.refs ()) now s.correction }

/-- `init_acc` is a sum of `init_cpt` slopes in range, and the correction is the inverse of one. -/
structure Correction.InRange (c : Correction) : Prop where
  acc_ge : c.init_cpt ≤ xerrInitAvg → c.init_cpt * minus10ppm ≤ c.init_acc
  acc_le : c.init_cpt ≤ xerrInitAvg → c.init_acc ≤ c.init_cpt * plus10ppm
  correct_ge : 1 / plus10ppm ≤ c.xtal_correct
  correct_le : c.xtal_correct ≤ 1 / minus10ppm

theorem inRange_default : Correction.InRange {} := by
  constructor <;> norm_num [plus10ppm, minus10ppm]

/-- A turn on a reference whose slope is in range. -/
theorem Correction.InRange.threadValid {c : Correction} (h : c.InRange) {ref : Tref ℚ}
    (hslope : exceeds ref.xtal_err = false) (now : ℤ) : (threadValid ref now c).InRange := by
  obtain ⟨hge, hle⟩ := not_exceeds_iff.mp hslope
  have hplus : 0 < plus10ppm := by norm_num [plus10ppm]
  have hminus : 0 < minus10ppm := by norm_num [minus10ppm]
  unfold Validation.threadValid
  dsimp only
  split_ifs with hage hinit havg
  · refine ⟨fun _ => ?_, fun _ => ?_, h.correct_ge, h.correct_le⟩
    · push_cast
      linarith [h.acc_ge (Nat.le_of_lt hinit)]
    · push_cast
      linarith [h.acc_le (Nat.le_of_lt hinit)]
  · have hacc := h.acc_ge havg.le
    have hacc' := h.acc_le havg.le
    rw [havg] at hacc hacc'
    have hn : (0 : ℚ) < (xerrInitAvg : ℕ) := by norm_num [xerrInitAvg]
    have hpos : 0 < c.init_acc := lt_of_lt_of_le (mul_pos hn hminus) hacc
    refine ⟨fun hcpt => absurd hcpt (by dsimp only; omega),
      fun hcpt => absurd hcpt (by dsimp only; omega), ?_, ?_⟩
    · rw [div_le_div_iff₀ hplus hpos]
      linarith
    · rw [div_le_div_iff₀ hpos hminus]
      linarith
  · have hx : 1 / plus10ppm ≤ 1 / ref.xtal_err :=
      one_div_le_one_div_of_le (lt_of_lt_of_le hminus hge) hle
    have hx' : 1 / ref.xtal_err ≤ 1 / minus10ppm := one_div_le_one_div_of_le hminus hge
    -- the filter takes a mean of the two values
    refine ⟨h.acc_ge, h.acc_le, ?_, ?_⟩
    · dsimp only [xerrFiltCoef]
      linarith [h.correct_ge]
    · dsimp only [xerrFiltCoef]
      linarith [h.correct_le]
  · exact inRange_default

/-- A reference that was never synchronised has the time zero. -/
structure Clock.Sound (s : Clock) : Prop where
  ref : (s.gps.refs ()).systime = 0 ∨ exceeds (s.gps.refs ()).xtal_err = false
  correction : s.correction.InRange

/-- One event keeps the clock sound. -/
theorem Clock.Sound.step {s : Clock} (h : s.Sound) {e : Event}
    (hlate : ∀ now, e = .turn now → gpsRefMaxAge < now) : (s.step e).Sound := by
  cases e with
  | sync call =>
    refine ⟨?_, h.correction⟩
    have hends := lgwGpsSync_ends s.gps call
    dsimp only [Clock.step]
    generalize lgwGpsSync s.gps call = r at hends
    cases hends with
    | refused => exact h.ref
    | taken _ _ hxtal =>
      right
      simpa [moved] using hxtal
  | turn now =>
    refine ⟨h.ref, ?_⟩
    rcases h.ref with hzero | hslope
    · -- the age of the first reference is the time itself
      have hnow := hlate now rfl
      dsimp only [Clock.step]
      rw [Validation.threadValid, hzero, if_neg (by omega)]
      exact inRange_default
    · exact h.correction.threadValid hslope now

/-- In whatever order the two threads take their turns, at times past 30 seconds after the epoch, a
beacon is sent less than 1 Hz and a 99999th away from its channel, which lies below the frequencies
whose correction can leave `uint32_t`. -/
theorem beaconFreqHz_near (wild : ℚ → Word) {events : List Event}
    (hlate : ∀ now, .turn now ∈ events → gpsRefMaxAge < now) {freq_hz : Word}
    (hrange : freq_hz.toNat < 4294924347) :
    |((beaconFreqHz wild (events.foldl Clock.step {}).correction freq_hz).toNat : ℚ)
      - freq_hz.toNat| < freq_hz.toNat / 99999 + 1 := by
  have hsound : (events.foldl Clock.step {}).Sound := by
    refine List.foldlRecOn events Clock.step ⟨.inl rfl, inRange_default⟩ ?_
    intro s hs e he
    exact hs.step fun now hnow => hlate now (hnow ▸ he)
  have hfreq : (0 : ℚ) ≤ freq_hz.toNat := Nat.cast_nonneg _
  have hge := mul_le_mul_of_nonneg_right hsound.correction.correct_ge hfreq
  have hle := mul_le_mul_of_nonneg_right hsound.correction.correct_le hfreq
  norm_num only [plus10ppm, minus10ppm] at hge hle
  have hfreq' : (freq_hz.toNat : ℚ) ≤ 4294924346 := by exact_mod_cast Nat.le_of_lt_succ hrange
  rw [beaconFreqHz]
  generalize (events.foldl Clock.step {}).correction.xtal_correct * freq_hz.toNat = product at *
  have hproduct : 0 ≤ product := le_trans (by positivity) hge
  have hfloor := Int.floor_le product
  have hfloor' := Int.lt_floor_add_one product
  have hpos : 0 ≤ ⌊product⌋ := Int.floor_nonneg.mpr hproduct
  have hlt : ⌊product⌋ < 2 ^ 32 := by
    rw [Int.floor_lt]
    push_cast
    linarith
  have hcast : ((BitVec.ofInt 32 ⌊product⌋).toNat : ℤ) = ⌊product⌋ := by
    rw [BitVec.toNat_ofInt]
    omega
  have hcast' : ((BitVec.ofInt 32 ⌊product⌋).toNat : ℚ) = ⌊product⌋ := by exact_mod_cast hcast
  rw [toUint32, truncate_of_nonneg hproduct, if_pos ⟨hpos, hlt⟩, hcast', abs_lt]
  constructor <;> linarith

/-- The third of three synchronisations is taken, and 17 turns average its slope. -/
theorem beaconFreqHz_near_869525000 : |((beaconFreqHz (fun _ => 0)
        ((List.replicate 3 (Event.sync ⟨(), 0, ⟨1700000000, 0⟩, ⟨0, 0⟩, 1700000000⟩)
          ++ List.replicate 17 (Event.turn 1700000001)).foldl Clock.step {}).correction
        869525000).toNat : ℚ) - 869525000| < 869525000 / 99999 + 1 :=
  beaconFreqHz_near (fun _ => 0) (by simp [gpsRefMaxAge]) (by decide)

end RutosSdk.Forwarder.Validation
