import RutosSdk.Hal.GpsTime

/-! # Counter values and times, over the rationals

Reference: `lgw_cnt2utc`, `lgw_utc2cnt`, `lgw_cnt2gps` and `lgw_gps2cnt` in
`libloragw/src/loragw_gps.c`.

The four conversions with exact arithmetic in place of `double`. The difference of two counter
values is taken as `uint32_t`, so that a value before the reference counts as one that lies almost
a whole period of the counter after it.
-/

namespace RutosSdk.Hal.CounterTime

open Binary64

/-! ## The conversions -/

/-- What `lgw_cnt2utc` and `lgw_cnt2gps` do with their time of the reference. -/
def cnt2time (ref : Tref) (time : Timespec) (count_us : Word) : Option Timespec :=
  if ref.usable then
    let delta_sec : ℚ := (count_us - ref.count_us).toNat / (1000000 * ref.xtal_err.val)
    let intpart := truncate delta_sec
    let fractpart := delta_sec - intpart
    let tmp := time.tv_nsec + truncate (fractpart * 1000000000)
    if tmp < 1000000000 then some ⟨time.tv_sec + intpart, tmp⟩
    else some ⟨time.tv_sec + intpart + 1, tmp - 1000000000⟩
  else none

/-- `lgw_cnt2utc` -/
def lgwCnt2utc (ref : Tref) (count_us : Word) : Option Timespec := cnt2time ref ref.utc count_us

/-- `lgw_cnt2gps` -/
def lgwCnt2gps (ref : Tref) (count_us : Word) : Option Timespec := cnt2time ref ref.gps count_us

/-! ## What is expected of them -/

/-- The nanoseconds of a time. -/
def nanoseconds (t : Timespec) : ℤ := t.tv_sec * 1000000000 + t.tv_nsec

/-- The nanosecond part is in range. -/
def Normal (t : Timespec) : Prop := 0 ≤ t.tv_nsec ∧ t.tv_nsec < 1000000000

/-- The reference can be used, and both of its times are normal. -/
structure BothNormal (ref : Tref) : Prop where
  usable : ref.usable = true
  utc_normal : Normal ref.utc
  gps_normal : Normal ref.gps

/-- At `distance` microseconds from the reference a counter value is converted to the time of the
reference plus the distance divided by `xtal_err`, truncated to the nanosecond, and the time back to
the counter value to within one. -/
def Converts (ref : Tref) (time : Timespec) (distance : ℤ) (count_us : Word)
    (toTime : Option Timespec) (toCount : Timespec → Option Word) : Prop :=
  ∃ t, toTime = some t ∧ Normal t
    ∧ nanoseconds t = ⌊nanoseconds time + 1000 * distance / ref.xtal_err.val⌋
    ∧ ∃ e : ℤ, |e| ≤ 1 ∧ toCount t = some (count_us + BitVec.ofInt 32 e)

/-- All four conversions are right at a counter value. -/
def AllConvert (wild : ℚ → Word) (ref : Tref) (distance : ℤ) (count_us : Word) : Prop :=
  Converts ref ref.utc distance count_us (lgwCnt2utc ref count_us)
      (lgwUtc2cnt (rationals wild) ref)
    ∧ Converts ref ref.gps distance count_us (lgwCnt2gps ref count_us)
      (lgwGps2cnt (rationals wild) ref)

/-! ## The unsigned distance -/

section

variable {ref : Tref} {time : Timespec}

theorem xtal_err_pos (h : ref.usable = true) : 0 < ref.xtal_err.val :=
  lt_of_lt_of_le (by norm_num) (Tref.xtal_err_bounds h).1

/-- The time is that at the unsigned distance. -/
theorem cnt2time_spec (h : ref.usable = true) (htime : Normal time) (count_us : Word) :
    ∃ t, cnt2time ref time count_us = some t ∧ Normal t
      ∧ nanoseconds t = nanoseconds time
        + ⌊1000 * ((count_us - ref.count_us).toNat : ℚ) / ref.xtal_err.val⌋ := by
  have hx := xtal_err_pos h
  unfold cnt2time
  dsimp only
  generalize (count_us - ref.count_us).toNat = d
  have hdelta : (0 : ℚ) ≤ d / (1000000 * ref.xtal_err.val) := by positivity
  have hscale : 1000 * (d : ℚ) / ref.xtal_err.val
      = d / (1000000 * ref.xtal_err.val) * 1000000000 := by
    field_simp
    ring
  rw [hscale]
  generalize (d : ℚ) / (1000000 * ref.xtal_err.val) = delta at *
  have hfract : 0 ≤ delta - ⌊delta⌋ := sub_nonneg.mpr (Int.floor_le delta)
  have hlt : delta - ⌊delta⌋ < 1 := by linarith [Int.lt_floor_add_one delta]
  have hnano : 0 ≤ (delta - ⌊delta⌋) * 1000000000 := by positivity
  rw [truncate_of_nonneg hdelta, truncate_of_nonneg hnano]
  -- the nanoseconds of the whole distance are those of its seconds and of the rest
  have hsplit : ⌊delta * 1000000000⌋ = ⌊delta⌋ * 1000000000 + ⌊(delta - ⌊delta⌋) * 1000000000⌋ := by
    rw [← Int.floor_intCast_add]
    congr 1
    push_cast
    ring
  have hpart : 0 ≤ ⌊(delta - ⌊delta⌋) * 1000000000⌋ := Int.floor_nonneg.mpr hnano
  have hpart' : ⌊(delta - ⌊delta⌋) * 1000000000⌋ < 1000000000 := by
    rw [Int.floor_lt]
    push_cast
    linarith
  obtain ⟨hlo, hhi⟩ := htime
  split_ifs with hcarry
  · refine ⟨_, rfl, ⟨by dsimp only; omega, hcarry⟩, ?_⟩
    unfold nanoseconds
    dsimp only
    omega
  · refine ⟨_, rfl, ⟨by dsimp only; omega, by dsimp only; omega⟩, ?_⟩
    unfold nanoseconds
    dsimp only
    omega

/-- A time at the unsigned distance is converted back, to within one. -/
theorem time2cnt_spec (h : ref.usable = true) (count_us : Word) {t : Timespec}
    (ht : nanoseconds t = nanoseconds time
      + ⌊1000 * ((count_us - ref.count_us).toNat : ℚ) / ref.xtal_err.val⌋)
    (wild : ℚ → Word) :
    ∃ e : ℤ, |e| ≤ 1
      ∧ time2cnt (rationals wild) ref time t = some (count_us + BitVec.ofInt 32 e) := by
  obtain ⟨hxlo, hxhi⟩ := Tref.xtal_err_bounds h
  have hx := xtal_err_pos h
  have hlt := (count_us - ref.count_us).isLt
  have hcount : count_us = ref.count_us + BitVec.ofInt 32 (count_us - ref.count_us).toNat := by
    rw [BitVec.ofInt_natCast, BitVec.ofNat_toNat, BitVec.setWidth_eq, BitVec.add_comm,
      BitVec.sub_add_cancel]
  rw [time2cnt, if_pos h]
  dsimp only [countTicks, rationals]
  generalize (count_us - ref.count_us).toNat = d at *
  -- less than a nanosecond is lost, which is less than a tick
  have hfloor := Int.floor_le (1000 * (d : ℚ) / ref.xtal_err.val)
  have hfloor' := Int.lt_floor_add_one (1000 * (d : ℚ) / ref.xtal_err.val)
  have hnonneg : 0 ≤ ⌊1000 * (d : ℚ) / ref.xtal_err.val⌋ := Int.floor_nonneg.mpr (by positivity)
  generalize ⌊1000 * (d : ℚ) / ref.xtal_err.val⌋ = n at *
  rw [le_div_iff₀ hx] at hfloor
  rw [div_lt_iff₀ hx] at hfloor'
  have hticks : (((t.tv_sec - time.tv_sec : ℤ) : ℚ)
      + 1 / 1000000000 * (t.tv_nsec - time.tv_nsec : ℤ)) * (1000000 : ℤ) * ref.xtal_err.val
      = n * ref.xtal_err.val / 1000 := by
    have hn : (n : ℚ) = (t.tv_sec * 1000000000 + t.tv_nsec : ℤ)
        - (time.tv_sec * 1000000000 + time.tv_nsec : ℤ) := by
      unfold nanoseconds at ht
      rw [ht]
      push_cast
      ring
    rw [hn]
    push_cast
    ring
  rw [hticks]
  have hq : 0 ≤ n * ref.xtal_err.val / 1000 := by
    positivity
  have htick : ⌊n * ref.xtal_err.val / 1000⌋ ≤ d := by
    rw [← Int.cast_le (R := ℚ)]
    refine (Int.floor_le _).trans ?_
    push_cast
    linarith
  have htick' : (d : ℤ) - 1 ≤ ⌊n * ref.xtal_err.val / 1000⌋ := by
    rw [Int.le_floor]
    push_cast
    nlinarith
  have hpos := Int.floor_nonneg.mpr hq
  rw [toUint32, truncate_of_nonneg hq, if_pos ⟨hpos, by omega⟩]
  generalize ⌊n * ref.xtal_err.val / 1000⌋ = z at *
  refine ⟨z - d, abs_le.mpr ⟨by omega, by omega⟩, ?_⟩
  rw [hcount, BitVec.add_assoc, ← BitVec.ofInt_add, add_sub_cancel]

end

/-! ## The true distance -/

/-- The unsigned distance is the true one, or a period of the counter more. -/
theorem toNat_sub_of_distance {start count_us : Word} {distance : ℤ}
    (hcount : count_us = start + BitVec.ofInt 32 distance) (hlo : -2 ^ 31 ≤ distance)
    (hhi : distance ≤ 2 ^ 31) :
    ((count_us - start).toNat : ℤ) = if 0 ≤ distance then distance else distance + 2 ^ 32 := by
  have hsub : count_us - start = BitVec.ofInt 32 distance := by
    rw [hcount, BitVec.add_comm, BitVec.add_sub_cancel]
  rw [hsub, BitVec.toNat_ofInt]
  split_ifs <;> omega

/-- All four conversions are right within half a period of the reference exactly if the counter
value does not lie before it. -/
theorem allConvert_iff (wild : ℚ → Word) {ref : Tref} (href : BothNormal ref) {distance : ℤ}
    (hlo : -2 ^ 31 ≤ distance) (hhi : distance ≤ 2 ^ 31) {count_us : Word}
    (hcount : count_us = ref.count_us + BitVec.ofInt 32 distance) :
    AllConvert wild ref distance count_us ↔ 0 ≤ distance := by
  have hdistance := toNat_sub_of_distance hcount hlo hhi
  have hx := xtal_err_pos href.usable
  constructor
  · rintro ⟨⟨t, ht, -, hnano, -⟩, -⟩
    obtain ⟨t', ht', -, hnano'⟩ := cnt2time_spec href.usable href.utc_normal count_us
    obtain rfl : t = t' := Option.some.inj (ht.symm.trans ht')
    by_contra hneg
    rw [if_neg hneg] at hdistance
    have hcast : ((count_us - ref.count_us).toNat : ℚ) = distance + 2 ^ 32 := by
      exact_mod_cast hdistance
    -- the period that is added is worth more than a nanosecond
    have hmore : 1000 * (distance : ℚ) / ref.xtal_err.val + 1
        ≤ 1000 * ((count_us - ref.count_us).toNat : ℚ) / ref.xtal_err.val := by
      have hxhi := (Tref.xtal_err_bounds href.usable).2
      rw [hcast, div_add_one hx.ne', div_le_div_iff_of_pos_right hx]
      linarith
    have hfloor := Int.floor_le_floor hmore
    rw [Int.floor_add_one] at hfloor
    rw [Int.floor_intCast_add] at hnano
    omega
  · intro hpos
    rw [if_pos hpos] at hdistance
    have hcast : ((count_us - ref.count_us).toNat : ℚ) = distance := by exact_mod_cast hdistance
    have hconverts (time : Timespec) (htime : Normal time) :
        Converts ref time distance count_us (cnt2time ref time count_us)
          (time2cnt (rationals wild) ref time) := by
      obtain ⟨t, ht, hnormal, hnano⟩ := cnt2time_spec href.usable htime count_us
      refine ⟨t, ht, hnormal, ?_, time2cnt_spec href.usable count_us hnano wild⟩
      rw [hnano, hcast, Int.floor_intCast_add]
    exact ⟨hconverts ref.utc href.utc_normal, hconverts ref.gps href.gps_normal⟩

/-- A reference at one million of the counter. -/
def sampleUtcTref : Tref where
  systime := 1700000000
  count_us := 1000000
  utc := ⟨1700000000, 0⟩
  gps := ⟨1384035218, 0⟩
  xtal_err := ⟨1, 0⟩

theorem sampleUtcTref_valid : BothNormal sampleUtcTref := by
  refine ⟨by decide +kernel, ⟨?_, ?_⟩, ⟨?_, ?_⟩⟩ <;> decide

/-- A packet half a second after the reference. -/
theorem allConvert_sampleUtcTref : AllConvert (fun _ => 0) sampleUtcTref 500000 1500000 :=
  (allConvert_iff (fun _ => 0) sampleUtcTref_valid (by decide) (by decide) rfl).mpr (by decide)

/-- A packet one microsecond before the reference is reported 4294.967295 seconds after it. -/
theorem lgwCnt2utc_before_reference :
    (999999 : Word) = sampleUtcTref.count_us + BitVec.ofInt 32 (-1)
      ∧ lgwCnt2utc sampleUtcTref 999999 = some ⟨1700004294, 967295000⟩
      ∧ ¬ AllConvert (fun _ => 0) sampleUtcTref (-1) 999999 := by
  have htime : lgwCnt2utc sampleUtcTref 999999 = some ⟨1700004294, 967295000⟩ := by
    decide +kernel
  refine ⟨by decide, htime, ?_⟩
  rintro ⟨⟨t, ht, -, hnano, -⟩, -⟩
  obtain rfl := Option.some.inj (htime.symm.trans ht)
  exact absurd hnano (by decide +kernel)

end RutosSdk.Hal.CounterTime
