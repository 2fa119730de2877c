import Mathlib.Data.Rat.Floor
import RutosSdk.Lib.Accuracy
import RutosSdk.Lib.Bytes

/-! # GPS time and the counter

Reference: `struct tref` and `lgw_gps2cnt` in `libloragw/inc/loragw_gps.h` and
`libloragw/src/loragw_gps.c`.
-/

namespace RutosSdk.Hal

open Binary64

/-- `struct timespec` -/
structure Timespec where
  tv_sec : ℤ
  tv_nsec : ℤ
deriving DecidableEq, Repr

/-- `struct tref`; the correction is a `double`, or a rational where the arithmetic is exact. -/
structure Tref (α : Type := Fraction) where
  systime : ℤ
  count_us : Word
  utc : Timespec
  gps : Timespec
  xtal_err : α
deriving DecidableEq, Repr

/-- `PLUS_10PPM` -/
def plus10ppm : ℚ := 100001 / 100000
/-- `MINUS_10PPM` -/
def minus10ppm : ℚ := 99999 / 100000

/-- The reference can be used for a conversion. -/
def Tref.usable (ref : Tref) : Bool :=
  ref.systime ≠ 0 && !(Fraction.literal plus10ppm.num.toNat plus10ppm.den).lt ref.xtal_err
    && !ref.xtal_err.lt (.literal minus10ppm.num.toNat minus10ppm.den)

/-- The numbers that the conversions compute with. -/
structure Arithmetic (α : Type) where
  ofInt : ℤ → α
  /-- The literal `1E-9`. -/
  nano : α
  ofFraction : Fraction → α
  add : α → α → α
  mul : α → α → α
  /-- The cast, whatever it makes of a value out of range. -/
  toUint32 : α → Word

/-- `double` -/
def doubles (wild : Double.WildCast) : Arithmetic Double where
  ofInt := .ofInt
  nano := .finite (.literal 1 1000000000)
  ofFraction := .finite
  add := .add
  mul := .mul
  toUint32 := Double.toUnsigned wild 32

/-- The integer part, towards zero. -/
def truncate (q : ℚ) : ℤ := if 0 ≤ q then ⌊q⌋ else ⌈q⌉

theorem truncate_of_nonneg {q : ℚ} (h : 0 ≤ q) : truncate q = ⌊q⌋ := if_pos h

/-- The conversion to `uint32_t`; `wild` is what the target makes of a value out of range. -/
def toUint32 (wild : ℚ → Word) (q : ℚ) : Word :=
  if 0 ≤ truncate q ∧ truncate q < 2 ^ 32 then BitVec.ofInt 32 (truncate q) else wild q

/-- Exact arithmetic. -/
def rationals (wild : ℚ → Word) : Arithmetic ℚ where
  ofInt := Int.cast
  nano := 1 / 1000000000
  ofFraction := Fraction.val
  add := (· + ·)
  mul := (· * ·)
  toUint32 := toUint32 wild

section

variable {α : Type} (arith : Arithmetic α) (ref : Tref)

/-- The counter ticks from one time to another; `TS_CPS` is 1E6. -/
def countTicks (time t : Timespec) : α :=
  let delta_sec := arith.add (arith.ofInt (t.tv_sec - time.tv_sec))
    (arith.mul arith.nano (arith.ofInt (t.tv_nsec - time.tv_nsec)))
  arith.mul (arith.mul delta_sec (arith.ofInt 1000000)) (arith.ofFraction ref.xtal_err)

/-- What `lgw_utc2cnt` and `lgw_gps2cnt` do with their time of the reference; without a usable
reference `*count_us` is left alone. -/
def time2cnt (time t : Timespec) : Option Word :=
  if ref.usable then some (ref.count_us + arith.toUint32 (countTicks arith ref time t)) else none

/-- `lgw_utc2cnt` -/
def lgwUtc2cnt (utc : Timespec) : Option Word := time2cnt arith ref ref.utc utc

/-- `lgw_gps2cnt` -/
def lgwGps2cnt (gps_time : Timespec) : Option Word := time2cnt arith ref ref.gps gps_time

end

end RutosSdk.Hal
