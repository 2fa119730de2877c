import Mathlib.Data.Nat.Digits.Lemmas

/-! # Integers as C prints them

The conversions `%u`, `%d`, `%2u` and `%04i`: the characters, how many there are at most, and that
they are digits, blanks and a sign.
-/

namespace RutosSdk

open List

namespace Decimal

/-- `%u` -/
def unsigned (n : ℕ) : List Char :=
  if n = 0 then ['0'] else (Nat.digits 10 n).reverse.map Nat.digitChar

/-- `%d` -/
def signed (x : ℤ) : List Char :=
  if x < 0 then '-' :: unsigned x.natAbs else unsigned x.natAbs

/-- Filled up on the left to a width. -/
def padLeft (fill : Char) (width : ℕ) (text : List Char) : List Char :=
  List.replicate (width - text.length) fill ++ text

/-- `%0` with a width and `i` -/
def zeroPadded (width : ℕ) (x : ℤ) : List Char :=
  if x < 0 then '-' :: padLeft '0' (width - 1) (unsigned x.natAbs)
  else padLeft '0' width (unsigned x.natAbs)

/-- A character of a number. -/
def Numeric (c : Char) : Prop := c = ' ' ∨ c = '-' ∨ '0' ≤ c ∧ c ≤ '9'

/-! ## The characters -/

theorem numeric_digitChar {d : ℕ} (h : d < 10) : Numeric (Nat.digitChar d) := by
  refine .inr (.inr ?_)
  have : ∀ d < 10, '0' ≤ Nat.digitChar d ∧ Nat.digitChar d ≤ '9' := by decide
  exact this d h

theorem numeric_zero : Numeric '0' := .inr (.inr ⟨Char.le_refl _, by decide⟩)

theorem numeric_unsigned {n : ℕ} : ∀ c ∈ unsigned n, Numeric c := by
  intro c hc
  rw [unsigned] at hc
  split_ifs at hc
  · obtain rfl := mem_singleton.mp hc
    exact numeric_zero
  · obtain ⟨d, hd, rfl⟩ := mem_map.mp hc
    exact numeric_digitChar (Nat.digits_lt_base (by decide) (mem_reverse.mp hd))

variable {width k : ℕ} {x : ℤ}

theorem numeric_padLeft {fill : Char} {text : List Char} (hfill : Numeric fill)
    (h : ∀ c ∈ text, Numeric c) : ∀ c ∈ padLeft fill width text, Numeric c := by
  intro c hc
  rcases mem_append.mp hc with hc | hc
  · rw [eq_of_mem_replicate hc]
    exact hfill
  · exact h c hc

theorem numeric_sign {text : List Char} (h : ∀ c ∈ text, Numeric c) :
    ∀ c ∈ '-' :: text, Numeric c := by
  intro c hc
  rcases mem_cons.mp hc with rfl | hc
  · exact .inr (.inl rfl)
  · exact h c hc

theorem numeric_signed : ∀ c ∈ signed x, Numeric c := by
  rw [signed]
  split_ifs
  · exact numeric_sign numeric_unsigned
  · exact numeric_unsigned

theorem numeric_zeroPadded : ∀ c ∈ zeroPadded width x, Numeric c := by
  rw [zeroPadded]
  split_ifs
  · exact numeric_sign (numeric_padLeft numeric_zero numeric_unsigned)
  · exact numeric_padLeft numeric_zero numeric_unsigned

/-! ## How many -/

theorem length_unsigned_le {n : ℕ} (hk : 0 < k) (h : n < 10 ^ k) : (unsigned n).length ≤ k := by
  rw [unsigned]
  split_ifs
  · exact hk
  · rw [length_map, length_reverse]
    exact (Nat.digits_length_le_iff (by decide) n).mpr h

/-- A machine integer whose values have at most `k` digits. -/
theorem length_unsigned_toNat_le {w : ℕ} (x : BitVec w) (hk : 0 < k) (h : 2 ^ w ≤ 10 ^ k) :
    (unsigned x.toNat).length ≤ k :=
  length_unsigned_le hk (Nat.lt_of_lt_of_le x.isLt h)

theorem length_padLeft (fill : Char) (width : ℕ) (text : List Char) :
    (padLeft fill width text).length = max width text.length := by
  rw [padLeft, length_append, length_replicate]
  omega

theorem length_signed_le {x : ℤ} {k : ℕ} (hk : 0 < k) (h : x.natAbs < 10 ^ k) :
    (signed x).length ≤ k + 1 := by
  have := length_unsigned_le hk h
  rw [signed]
  split_ifs
  · rw [length_cons]
    omega
  · omega

theorem length_zeroPadded_le (hk : 0 < k) (h : x.natAbs < 10 ^ k) (hwidth : width ≤ k + 1) :
    (zeroPadded width x).length ≤ k + 1 := by
  have := length_unsigned_le hk h
  rw [zeroPadded]
  split_ifs
  · rw [length_cons, length_padLeft]
    omega
  · rw [length_padLeft]
    omega

/-- A 32-bit number has at most ten digits. -/
theorem natAbs_toInt_lt (x : BitVec 32) : x.toInt.natAbs < 10 ^ 10 := by
  have h₁ := @BitVec.toInt_lt 32 x
  have h₂ := @BitVec.le_toInt 32 x
  omega

/-- A 64-bit number has at most nineteen digits. -/
theorem natAbs_toInt_lt_of_long (x : BitVec 64) : x.toInt.natAbs < 10 ^ 19 := by
  have h₁ := @BitVec.toInt_lt 64 x
  have h₂ := @BitVec.le_toInt 64 x
  omega

end Decimal

end RutosSdk
