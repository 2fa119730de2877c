import Mathlib.Tactic.ComputeDegree
import RutosSdk.Forwarder.Beacon
import RutosSdk.Hal.Parse
import RutosSdk.Lib.Gf2

/-! # The two checksums as remainders

Reference: `lora_crc16`, `sx1302_lora_payload_crc` in `libloragw/src/loragw_sx1302.c`, `crc16` in
`packet_forwarder/src/lora_pkt_fwd.c`.

Both divide by the same polynomial over GF(2). The checksum of a LoRa payload is the remainder of
the message itself; that of a beacon is the remainder of the message followed by sixteen zero bits.
-/

namespace RutosSdk.Forwarder

open List Polynomial Gf2 Hal

/-- The polynomial 0x1021 of both checksums, with its leading term. -/
noncomputable def crcPoly : (ZMod 2)[X] := X ^ 16 + X ^ 12 + X ^ 5 + 1

variable (data : List Byte)

/-- A message as a polynomial, its first bit the leading one. -/
noncomputable def messagePoly : (ZMod 2)[X] :=
  data.foldl (fun p b => X ^ 8 * p + poly b) 0

/-- The call of `sx1302_lora_payload_crc` on the `size` bytes of a buffer; `size` is a byte. -/
def payloadCrcOf (size : Byte) : BitVec 16 := sx1302LoraPayloadCrc (data.take size.toNat)

theorem crcPoly_monic : crcPoly.Monic := by
  unfold crcPoly
  monicity!

theorem degree_crcPoly : crcPoly.degree = (16 : ℕ) := by
  unfold crcPoly
  compute_degree!

theorem two_eq_zero : (2 : (ZMod 2)[X]) = 0 := CharTwo.two_eq_zero

/-! ## `lora_crc16` -/

theorem bitOf_eq (x : BitVec 16) (k : ℕ) :
    bitOf x k = (BitVec.ofBool (x.getLsbD k)).setWidth 16 := by
  refine BitVec.eq_of_getLsbD_eq fun i hi => ?_
  have hone : (1 : BitVec 16).getLsbD i = decide (i = 0) := by
    revert i
    decide
  rw [bitOf, BitVec.getLsbD_and, BitVec.getLsbD_ushiftRight, BitVec.getLsbD_setWidth,
    BitVec.getLsbD_ofBool, hone, decide_eq_true hi]
  cases i <;> simp

theorem setWidth_ofBool_xor (a b : Bool) :
    (BitVec.ofBool a).setWidth 16 ^^^ (BitVec.ofBool b).setWidth 16
      = (BitVec.ofBool (a ^^ b)).setWidth 16 := by
  revert a b
  decide

/-- The bits that `lora_crc16` puts together. -/
def nextBits (c d : ℕ → Bool) : List Bool :=
  [d 0 ^^ c 12 ^^ c 8, d 1 ^^ c 13 ^^ c 9, d 2 ^^ c 14 ^^ c 10, d 3 ^^ c 15 ^^ c 11,
    d 4 ^^ c 12, d 5 ^^ c 13 ^^ c 12 ^^ c 8, d 6 ^^ c 14 ^^ c 13 ^^ c 9,
    d 7 ^^ c 15 ^^ c 14 ^^ c 10, c 0 ^^ c 15 ^^ c 11, c 1 ^^ c 12, c 2 ^^ c 13, c 3 ^^ c 14,
    c 4 ^^ c 15 ^^ c 12 ^^ c 8, c 5 ^^ c 13 ^^ c 9, c 6 ^^ c 14 ^^ c 10, c 7 ^^ c 15 ^^ c 11]

theorem loraCrc16_eq_sumFrom (crc : BitVec 16) (byte : Byte) :
    loraCrc16 crc byte = sumFrom 0 0 (nextBits crc.getLsbD byte.getLsbD) := by
  have hbyte : ∀ k < 8, (byte.setWidth 16).getLsbD k = byte.getLsbD k := by
    intro k hk
    rw [BitVec.getLsbD_setWidth, decide_eq_true (by omega : k < 16), Bool.true_and]
  simp only [loraCrc16, bitOf_eq, setWidth_ofBool_xor, nextBits, sumFrom, BitVec.shiftLeft_zero,
    BitVec.zero_add, BitVec.ofNat_eq_ofNat, hbyte, Nat.reduceLT, Nat.zero_add, Nat.reduceAdd]

/-- The quotient is the high byte of the register, and its high half once more: that one comes back
above `X ^ 16` when `X ^ 16` is replaced by `X ^ 12 + X ^ 5 + 1`. -/
theorem bitsPoly_nextBits (c d : ℕ → Bool) :
    bitsPoly (nextBits c d) - (X ^ 8 * (∑ i ∈ Finset.range 16, C (coeffOf (c i)) * X ^ i)
        + ∑ i ∈ Finset.range 8, C (coeffOf (d i)) * X ^ i)
      = crcPoly * ((∑ i ∈ Finset.range 8, C (coeffOf (c (8 + i))) * X ^ i)
        + ∑ i ∈ Finset.range 4, C (coeffOf (c (12 + i))) * X ^ i) := by
  simp only [nextBits, bitsPoly, coeffOf_xor, C_add, Finset.sum_range_succ, Finset.sum_range_zero,
    crcPoly, Nat.reduceAdd]
  linear_combination (-X ^ 16 *
    ((C (coeffOf (c 8)) + C (coeffOf (c 9)) * X + C (coeffOf (c 10)) * X ^ 2
      + C (coeffOf (c 11)) * X ^ 3 + C (coeffOf (c 12)) * X ^ 4 + C (coeffOf (c 13)) * X ^ 5
      + C (coeffOf (c 14)) * X ^ 6 + C (coeffOf (c 15)) * X ^ 7)
    + (C (coeffOf (c 12)) + C (coeffOf (c 13)) * X + C (coeffOf (c 14)) * X ^ 2
      + C (coeffOf (c 15)) * X ^ 3))) * two_eq_zero

/-- A byte more: the register is shifted by eight and the byte comes in below. -/
theorem crcPoly_dvd_loraCrc16 (crc : BitVec 16) (byte : Byte) :
    crcPoly ∣ poly (loraCrc16 crc byte) - (X ^ 8 * poly crc + poly byte) := by
  have hclear : ClearFrom 0 (0 : BitVec 16) := fun i _ => BitVec.getLsbD_zero
  rw [loraCrc16_eq_sumFrom, poly_sumFrom hclear (le_refl 16), poly_zero, zero_add, pow_zero,
    one_mul]
  exact ⟨_, bitsPoly_nextBits crc.getLsbD byte.getLsbD⟩

/-- The checksum of a payload is the remainder of the message. -/
theorem poly_sx1302LoraPayloadCrc :
    poly (sx1302LoraPayloadCrc data) = messagePoly data %ₘ crcPoly := by
  refine poly_eq_modByMonic crcPoly_monic degree_crcPoly ?_
  refine dvd_foldl_sub (fun crc b p h => ?_) data 0 0
    (by rw [poly_zero, sub_zero]; exact dvd_zero _)
  have hshift : crcPoly ∣ X ^ 8 * (poly crc - p) := Dvd.dvd.mul_left h _
  have hsum := dvd_add (crcPoly_dvd_loraCrc16 crc b) hshift
  convert hsum using 1
  ring

/-! ## `crc16` -/

theorem msb_eq_and_ne_zero (x : BitVec 16) : (x &&& 0x8000 ≠ 0) ↔ x.msb = true := by
  have hmask : x &&& 0x8000 = if x.msb then 0x8000 else 0 := by
    refine BitVec.eq_of_getLsbD_eq fun i hi => ?_
    rw [BitVec.getLsbD_and, BitVec.msb_eq_getLsbD_last]
    have hbit : (0x8000 : BitVec 16).getLsbD i = decide (i = 15) := by
      revert i
      decide
    rw [hbit]
    by_cases h15 : i = 15
    · subst h15
      cases x.getLsbD 15 <;> decide
    · rw [decide_eq_false h15, Bool.and_false]
      split_ifs
      · rw [hbit, decide_eq_false h15]
      · exact BitVec.getLsbD_zero.symm
  rw [hmask]
  cases x.msb <;> decide

theorem poly_0x1021 : poly (0x1021 : BitVec 16) = X ^ 12 + X ^ 5 + 1 := by
  simp [poly, Finset.sum_range_succ, BitVec.getLsbD_ofNat, Nat.testBit, Nat.shiftRight_eq_div_pow]
  ring

/-- One bit is a product with `X`. -/
theorem crcPoly_dvd_crc16Bit (x : BitVec 16) : crcPoly ∣ poly (crc16Bit x) - X * poly x := by
  rw [X_mul_poly]
  unfold crc16Bit
  rw [if_congr (msb_eq_and_ne_zero x) rfl rfl]
  split_ifs with hmsb
  · rw [hmsb, poly_xor, poly_0x1021]
    refine ⟨1, ?_⟩
    rw [coeffOf_true, C_1, crcPoly]
    linear_combination (-X ^ 16) * two_eq_zero
  · rw [Bool.eq_false_of_not_eq_true hmsb, coeffOf_false, C_0, zero_mul, add_zero, sub_self]
    exact dvd_zero _

theorem crcPoly_dvd_repeat (n : ℕ) (x : BitVec 16) :
    crcPoly ∣ poly (Nat.repeat crc16Bit n x) - X ^ n * poly x := by
  induction n with
  | zero => rw [Nat.repeat, pow_zero, one_mul, sub_self]; exact dvd_zero _
  | succ n ih =>
    have hbit := crcPoly_dvd_crc16Bit (Nat.repeat crc16Bit n x)
    have hsum := dvd_add hbit (Dvd.dvd.mul_left ih X)
    convert hsum using 1
    rw [Nat.repeat]
    ring

theorem foldl_shifted (p : (ZMod 2)[X]) :
    data.foldl (fun p b => X ^ 8 * p + X ^ 16 * poly b) (X ^ 16 * p)
      = X ^ 16 * data.foldl (fun p b => X ^ 8 * p + poly b) p := by
  induction data generalizing p with
  | nil => rfl
  | cons b data ih =>
    rw [foldl_cons, foldl_cons, ← ih]
    congr 1
    ring

/-- The checksum of a beacon is the remainder of the message over sixteen zero bits. -/
theorem poly_crc16 : poly (crc16 data) = (X ^ 16 * messagePoly data) %ₘ crcPoly := by
  refine poly_eq_modByMonic crcPoly_monic degree_crcPoly ?_
  rw [messagePoly, ← foldl_shifted, mul_zero]
  refine dvd_foldl_sub (fun x b p h => ?_) data 0 0 (by rw [poly_zero, sub_zero]; exact dvd_zero _)
  have hbits := crcPoly_dvd_repeat 8 (x ^^^ (b.setWidth 16).shiftLeft 8)
  have hin : poly (x ^^^ (b.setWidth 16).shiftLeft 8) = poly x + X ^ 8 * poly b := by
    rw [poly_xor, BitVec.shiftLeft_eq, poly_setWidth_shiftLeft 8 (le_refl 16)]
  have hsum := dvd_add hbits (Dvd.dvd.mul_left h (X ^ 8))
  convert hsum using 1
  rw [hin]
  ring

/-! ## The two checksums -/

theorem messagePoly_append_zeros : messagePoly (data ++ [0, 0]) = X ^ 16 * messagePoly data := by
  rw [messagePoly, foldl_append, ← messagePoly, foldl_cons, foldl_cons, foldl_nil, poly_zero]
  ring

/-- The call on a whole message of at most 255 bytes. -/
theorem payloadCrcOf_length {data : List Byte} (h : data.length ≤ 255) :
    payloadCrcOf data (BitVec.ofNat 8 data.length) = sx1302LoraPayloadCrc data := by
  rw [payloadCrcOf, BitVec.toNat_ofNat, Nat.mod_eq_of_lt (by omega), take_length]

/-- The checksum of a LoRa payload is the remainder of the message, and that of a beacon is the
one of a payload with two zero bytes after it. -/
theorem checksums_remainder {data : List Byte} (hsize : data.length ≤ 253) :
    poly (payloadCrcOf data (BitVec.ofNat 8 data.length)) = messagePoly data %ₘ crcPoly
      ∧ crc16 data = payloadCrcOf (data ++ [0, 0]) (BitVec.ofNat 8 (data ++ [0, 0]).length) := by
  have hlength : (data ++ [0, 0]).length = data.length + 2 := length_append
  rw [payloadCrcOf_length (by omega), payloadCrcOf_length (by omega)]
  refine ⟨poly_sx1302LoraPayloadCrc data, poly_injective ?_⟩
  rw [poly_crc16, poly_sx1302LoraPayloadCrc, messagePoly_append_zeros]

/-- The bytes `31 32 33`. -/
theorem checksums_remainder_123 :
    poly (payloadCrcOf [0x31, 0x32, 0x33] 3) = messagePoly [0x31, 0x32, 0x33] %ₘ crcPoly
      ∧ crc16 [0x31, 0x32, 0x33] = payloadCrcOf [0x31, 0x32, 0x33, 0, 0] 5 :=
  checksums_remainder (by decide : [0x31, 0x32, 0x33].length ≤ 253)

/-! ## Bursts -/

end RutosSdk.Forwarder
