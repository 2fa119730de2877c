import RutosSdk.Lib.Rounding

/-! # `double` arithmetic

Finite values are binary fractions, and each operation rounds its exact result to a 53-bit
significand. As in `Rounding`, the exponent range is not modelled: a result beyond it stays a finite
value, which every conversion to an integer finds out of range just the same.
-/

namespace RutosSdk.Binary64

open Rounding

/-- The binary fraction `num / 2 ^ scale`. -/
structure Fraction where
  num : ℤ
  scale : ℕ
deriving DecidableEq, Repr

/-- The nearest fraction with a 53-bit significand. -/
def Fraction.round (x : Fraction) : Fraction :=
  let r := roundQuot 53 x.num.natAbs (2 ^ x.scale)
  ⟨if x.num < 0 then -r.num else r.num, r.scale⟩

/-- The integer part, towards zero. -/
def Fraction.trunc (x : Fraction) : ℤ := x.num.tdiv (2 ^ x.scale)

/-- The order of the values. -/
def Fraction.lt (x y : Fraction) : Bool := x.num * 2 ^ y.scale < y.num * 2 ^ x.scale

/-- A quotient of naturals as a decimal literal denotes it. -/
def Fraction.literal (n d : ℕ) : Fraction :=
  let r := roundQuot 53 n d
  ⟨r.num, r.scale⟩

/-- A `double`. -/
inductive Double where
  | finite (x : Fraction)
  | infinite (neg : Bool)
  | nan
deriving DecidableEq, Repr

namespace Double

/-- The conversion of an integer. -/
def ofInt (z : ℤ) : Double := .finite (Fraction.round ⟨z, 0⟩)

/-- The product. -/
def mul : Double → Double → Double
  | .finite x, .finite y => .finite (Fraction.round ⟨x.num * y.num, x.scale + y.scale⟩)
  | .infinite neg, .finite x | .finite x, .infinite neg =>
    if x.num = 0 then .nan else .infinite (neg ^^ decide (x.num < 0))
  | .infinite neg, .infinite neg' => .infinite (neg ^^ neg')
  | _, _ => .nan

/-- The sum. -/
def add : Double → Double → Double
  | .finite x, .finite y =>
    .finite (Fraction.round ⟨x.num * 2 ^ y.scale + y.num * 2 ^ x.scale, x.scale + y.scale⟩)
  | .infinite neg, .finite _ | .finite _, .infinite neg => .infinite neg
  | .infinite neg, .infinite neg' => if neg = neg' then .infinite neg else .nan
  | _, _ => .nan

/-- The quotient by a positive integer. -/
def divNat (d : ℕ) : Double → Double
  | .finite x =>
    let r := roundQuot 53 x.num.natAbs (2 ^ x.scale * d)
    .finite ⟨if x.num < 0 then -r.num else r.num, r.scale⟩
  | x => x

/-- What the C standard leaves open: the conversion to an integer type, signed or not and of the
given width, of a value whose integer part is out of range. -/
abbrev WildCast := Bool → (w : ℕ) → Double → BitVec w

/-- The conversion to an unsigned integer. -/
def toUnsigned (wild : WildCast) (w : ℕ) (x : Double) : BitVec w :=
  match x with
  | .finite y => if 0 ≤ y.trunc ∧ y.trunc < 2 ^ w then BitVec.ofInt w y.trunc else wild false w x
  | _ => wild false w x

/-- The conversion to a signed integer. -/
def toSigned (wild : WildCast) (w : ℕ) (x : Double) : BitVec w :=
  match x with
  | .finite y =>
    if -(2 ^ (w - 1)) ≤ y.trunc ∧ y.trunc < 2 ^ (w - 1) then BitVec.ofInt w y.trunc
    else wild true w x
  | _ => wild true w x

end Double

end RutosSdk.Binary64
