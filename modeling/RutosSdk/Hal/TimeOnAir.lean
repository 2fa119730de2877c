import RutosSdk.Lib.Rounding
import RutosSdk.Hal.Context
import Mathlib.Tactic

/-! # Time on air

Reference: `lora_packet_time_on_air` in `libloragw/src/loragw_aux.c`, `lgw_time_on_air` and the
validation of `lgw_send` in `libloragw/src/loragw_hal.c`.

The LoRa computation uses `double` values that are exact quarters of a symbol, and quotients whose
rounding cannot cross an integer, so it is integer arithmetic here. The FSK quotient is not exact
and keeps its two roundings to a 53-bit significand.
-/

namespace RutosSdk.Hal

open Rounding

/-! ## LoRa -/

variable (bw : Byte) (context : LgwContext) (sf cr : Byte) (n_symbol_preamble : BitVec 16)
  (no_header no_crc : Bool) (size : Byte)

/-- The bandwidth as a multiple of 125 kHz. -/
def bwPow : ℕ :=
  if bw = bw125Khz then 1 else if bw = bw250Khz then 2 else 4

/-- Duration of one symbol, in microseconds. -/
def tSymbolUs : ℕ := 2 ^ sf.toNat * 8 / bwPow bw

/-- Number of symbols in the payload. -/
def nSymbolPayload : ℕ :=
  let h : ℤ := if no_header then 0 else 1
  let de : ℕ := if 11 ≤ sf.toNat then 1 else 0
  let n_bit_crc : ℤ := if no_crc then 0 else 16
  let bits : ℤ := 8 * size.toNat + n_bit_crc - 4 * sf.toNat
    + (if 7 ≤ sf.toNat then 8 else 0) + 20 * h
  let perBlock := 4 * (sf.toNat - 2 * de)
  (bits.toNat + perBlock - 1) / perBlock * (cr.toNat + 4)

/-- Number of symbols in the packet, in quarters: 4.25 or 6.25 symbols follow the preamble. -/
def nSymbolQuarters : ℕ :=
  4 * n_symbol_preamble.toNat + (if 7 ≤ sf.toNat then 17 else 25) + 32
    + 4 * nSymbolPayload sf cr no_header no_crc size

/-- `lora_packet_time_on_air`, in microseconds; zero for wrong parameters. -/
def loraPacketTimeOnAir : Word :=
  if !isLoraDr sf then 0
  else if !isLoraBw bw then 0
  else if !isLoraCr cr then 0
  else BitVec.ofNat 32
    (nSymbolQuarters sf cr n_symbol_preamble no_header no_crc size * tSymbolUs bw sf / 4)

/-! ## All modulations -/

/-- The FSK duration in milliseconds as the code computes it, two `double` roundings included.
`n_bytes` counts preamble, sync word, length, payload and CRC bytes. -/
def tFsk (n_bytes datarate : ℕ) : Scaled := roundMul 53 (roundQuot 53 (8 * n_bytes) datarate) 1000

/-- Bytes of an FSK packet on the air. -/
def fskBytes (packet : LgwPktTx) : ℕ :=
  packet.preamble.toNat + context.fsk_cfg.sync_word_size.toNat + 1 + packet.size.toNat
    + (if packet.no_crc then 0 else 2)

/-- `lgw_time_on_air`, in milliseconds. At datarate zero the `double` quotient is infinite, and
`u32OfInf` is what the target's conversion to `uint32_t` makes of it. -/
def lgwTimeOnAir (u32OfInf : Word) (packet : LgwPktTx) : Word :=
  if packet.modulation = modLora then
    -- the datarate and the size are narrowed to the `uint8_t` parameters
    let toa_us := loraPacketTimeOnAir packet.bandwidth (packet.datarate.setWidth 8)
      packet.coderate packet.preamble packet.no_header packet.no_crc (packet.size.setWidth 8)
    BitVec.ofNat 32 ((toa_us.toNat + 500) / 1000)
  else if packet.modulation = modFsk then
    if packet.datarate = 0 then u32OfInf + 1
    else BitVec.ofNat 32 (tFsk (fskBytes context packet) packet.datarate.toNat).trunc + 1
  else 0

/-- The checks `lgw_send` makes on the context and on the packet before it transmits. -/
def lgwSendAccepts (packet : LgwPktTx) : Bool :=
  context.is_started
  && match context.rf_chain_cfg[packet.rf_chain.toNat]? with
    | none => false
    | some rf =>
      rf.tx_enable && rf.enable && isTxMode packet.tx_mode
      && if packet.modulation = modLora then
          isLoraBw packet.bandwidth && isLoraDr packet.datarate && isLoraCr packet.coderate
          && packet.size ≤ 255
        else if packet.modulation = modFsk then
          1 ≤ packet.f_dev && packet.f_dev ≤ 200 && isFskDr packet.datarate && packet.size ≤ 255
        else packet.modulation == modCw

/-! ## Bounds for the packets `lgw_send` accepts -/

/-- A LoRa payload of at most 255 bytes has fewer than 900 symbols. -/
theorem nSymbolPayload_lt {sf cr : Byte} (hsf : isLoraDr sf) (hcr : isLoraCr cr)
    (no_header no_crc : Bool) (size : Byte) : nSymbolPayload sf cr no_header no_crc size < 900 := by
  simp only [isLoraDr, isLoraCr, Bool.and_eq_true, decide_eq_true_eq] at hsf hcr
  simp only [nSymbolPayload]
  generalize hb : (8 * (size.toNat : ℤ) + (if no_crc = true then (0 : ℤ) else 16) - 4 * sf.toNat
    + (if 7 ≤ sf.toNat then (8 : ℤ) else 0) + 20 * (if no_header = true then (0 : ℤ) else 1)).toNat
    = bits
  generalize hp : 4 * (sf.toNat - 2 * if 11 ≤ sf.toNat then 1 else 0) = perBlock
  have hper : 20 ≤ perBlock := by
    rw [← hp]
    split_ifs <;> omega
  have hblocks : (bits + perBlock - 1) / perBlock < 107 :=
    (Nat.div_lt_iff_lt_mul (by omega)).mpr (by omega)
  calc (bits + perBlock - 1) / perBlock * (cr.toNat + 4)
      ≤ 106 * 8 := Nat.mul_le_mul (by omega) (by omega)
    _ < 900 := by norm_num

/-- A symbol lasts at most 32768 microseconds. -/
theorem tSymbolUs_le {bw sf : Byte} (hsf : isLoraDr sf) : tSymbolUs bw sf ≤ 32768 := by
  simp only [isLoraDr, Bool.and_eq_true, decide_eq_true_eq] at hsf
  calc 2 ^ sf.toNat * 8 / bwPow bw ≤ 2 ^ sf.toNat * 8 := Nat.div_le_self _ _
    _ ≤ 2 ^ 12 * 8 := Nat.mul_le_mul_right 8 (Nat.pow_le_pow_right (by norm_num) hsf.2)

/-- A LoRa packet has at most 66500 symbols. -/
theorem nSymbolQuarters_le {sf cr : Byte} (hsf : isLoraDr sf) (hcr : isLoraCr cr)
    (n_symbol_preamble : BitVec 16) (no_header no_crc : Bool) (size : Byte) :
    nSymbolQuarters sf cr n_symbol_preamble no_header no_crc size ≤ 266000 := by
  have hpayload := nSymbolPayload_lt hsf hcr no_header no_crc size
  unfold nSymbolQuarters
  split_ifs <;> omega

/-- For valid parameters the duration does not wrap around. -/
theorem toNat_loraPacketTimeOnAir {bw sf cr : Byte} (hsf : isLoraDr sf) (hbw : isLoraBw bw)
    (hcr : isLoraCr cr) (n_symbol_preamble : BitVec 16) (no_header no_crc : Bool) (size : Byte) :
    (loraPacketTimeOnAir bw sf cr n_symbol_preamble no_header no_crc size).toNat
      = nSymbolQuarters sf cr n_symbol_preamble no_header no_crc size * tSymbolUs bw sf / 4 := by
  have hprod := Nat.mul_le_mul (nSymbolQuarters_le hsf hcr n_symbol_preamble no_header no_crc size)
    (@tSymbolUs_le bw _ hsf)
  rw [loraPacketTimeOnAir, hsf, hbw, hcr]
  simp only [Bool.not_true, Bool.false_eq_true, if_false, BitVec.toNat_ofNat]
  exact Nat.mod_eq_of_lt (by omega)

/-- No LoRa packet is longer than 2185 seconds on the air. -/
theorem loraPacketTimeOnAir_le :
    (loraPacketTimeOnAir bw sf cr n_symbol_preamble no_header no_crc size).toNat ≤ 2185000000 := by
  by_cases hsf : isLoraDr sf
  · by_cases hbw : isLoraBw bw
    · by_cases hcr : isLoraCr cr
      · have hprod := Nat.mul_le_mul
          (nSymbolQuarters_le hsf hcr n_symbol_preamble no_header no_crc size)
          (@tSymbolUs_le bw _ hsf)
        rw [toNat_loraPacketTimeOnAir hsf hbw hcr]
        omega
      · simp [loraPacketTimeOnAir, hcr]
    · simp [loraPacketTimeOnAir, hbw]
  · simp [loraPacketTimeOnAir, hsf]

/-- The two roundings add at most one part in `2 ^ 53` each. -/
theorem tFsk_trunc_le (n_bytes : ℕ) {datarate : ℕ} (hd : 0 < datarate) :
    2 ^ 53 * 2 ^ 53 * ((tFsk n_bytes datarate).trunc * datarate)
      ≤ (2 ^ 53 + 1) * (2 ^ 53 + 1) * (8000 * n_bytes) := by
  unfold tFsk roundMul Scaled.trunc
  set x := roundQuot 53 (8 * n_bytes) datarate with hx
  set y := roundQuot 53 (x.num * 1000) (2 ^ x.scale) with hy
  have h1 := roundQuot_le (p := 53) (n := 8 * n_bytes) (d := datarate) (by norm_num) hd
  have h2 := roundQuot_le (p := 53) (n := x.num * 1000) (d := 2 ^ x.scale) (by norm_num)
    (by positivity)
  rw [← hx] at h1
  rw [← hy] at h2
  have hsx : 0 < 2 ^ x.scale := by positivity
  have hsy : 0 < 2 ^ y.scale := by positivity
  have h3 := Nat.div_mul_le_self y.num (2 ^ y.scale)
  generalize 2 ^ x.scale = a at *
  generalize 2 ^ y.scale = b at *
  generalize y.num / b = trunc at *
  have h4 : 2 ^ 53 * (trunc * a) ≤ (2 ^ 53 + 1) * (1000 * x.num) := by
    refine Nat.le_of_mul_le_mul_right ?_ hsy
    calc 2 ^ 53 * (trunc * a) * b = 2 ^ 53 * (trunc * b * a) := by ring
      _ ≤ 2 ^ 53 * (y.num * a) := by gcongr
      _ ≤ (2 ^ 53 + 1) * (x.num * 1000 * b) := h2
      _ = (2 ^ 53 + 1) * (1000 * x.num) * b := by ring
  refine Nat.le_of_mul_le_mul_right ?_ hsx
  calc 2 ^ 53 * 2 ^ 53 * (trunc * datarate) * a
      = 2 ^ 53 * datarate * (2 ^ 53 * (trunc * a)) := by ring
    _ ≤ 2 ^ 53 * datarate * ((2 ^ 53 + 1) * (1000 * x.num)) := by gcongr
    _ = (2 ^ 53 + 1) * 1000 * (2 ^ 53 * (x.num * datarate)) := by ring
    _ ≤ (2 ^ 53 + 1) * 1000 * ((2 ^ 53 + 1) * (8 * n_bytes * a)) := by gcongr
    _ = (2 ^ 53 + 1) * (2 ^ 53 + 1) * (8000 * n_bytes) * a := by ring

/-- An FSK packet of fewer than 2 ^ 17 bytes at 500 baud or more lasts less than 2200 seconds. -/
theorem tFsk_trunc_lt {n_bytes datarate : ℕ} (hn : n_bytes < 2 ^ 17) (hd : 500 ≤ datarate) :
    (tFsk n_bytes datarate).trunc < 2199999 := by
  have hle := @tFsk_trunc_le n_bytes datarate (by omega)
  by_contra hge
  have hmul : 2199999 * 500 ≤ (tFsk n_bytes datarate).trunc * datarate :=
    Nat.mul_le_mul (by omega) hd
  omega

/-- An FSK packet with a payload of at most 255 bytes has fewer than 2 ^ 17 bytes on the air. -/
theorem fskBytes_lt {packet : LgwPktTx} (hsize : packet.size.toNat ≤ 255) :
    fskBytes context packet < 2 ^ 17 := by
  unfold fskBytes
  split_ifs <;> omega

/-- No packet that `lgw_send` accepts is longer than 2200 seconds on the air. -/
theorem lgwTimeOnAir_le_of_lgwSendAccepts {context : LgwContext} {packet : LgwPktTx}
    (u32OfInf : Word) (h : lgwSendAccepts context packet) :
    (lgwTimeOnAir context u32OfInf packet).toNat ≤ 2200000 := by
  unfold lgwSendAccepts at h
  unfold lgwTimeOnAir
  simp only [Bool.and_eq_true] at h
  obtain ⟨-, h⟩ := h
  split at h
  · simp at h
  · split_ifs at h ⊢ with hlora hfsk hzero
    · have := loraPacketTimeOnAir_le packet.bandwidth (packet.datarate.setWidth 8)
        packet.coderate packet.preamble packet.no_header packet.no_crc (packet.size.setWidth 8)
      rw [BitVec.toNat_ofNat]
      exact (Nat.mod_le _ _).trans (by omega)
    · simp [hzero, isFskDr, drFskMin] at h
    · simp only [isFskDr, drFskMin, Bool.and_eq_true, decide_eq_true_eq, BitVec.le_def] at h
      have hbytes := fskBytes_lt context (show packet.size.toNat ≤ 255 by simpa using h.2.2)
      have := @tFsk_trunc_lt _ packet.datarate.toNat hbytes (by simpa using h.2.1.2.1)
      simp
      omega
    · simp

end RutosSdk.Hal
