import Mathlib.Algebra.Order.Floor.Div
import RutosSdk.Hal.TimeOnAir
import RutosSdk.Hal.Sx1302Send

/-! # The time on air of a packet

Reference: `lgw_time_on_air` in `libloragw/src/loragw_hal.c`, `sx1302_send` in
`libloragw/src/loragw_sx1302.c`.

`lgw_time_on_air` computes the duration of a packet from its fields, `sx1302_send` programs the
modem from them. The symbols of a LoRa packet are counted here, in quarters, from the values in the
registers.
-/

namespace RutosSdk.Hal

open Rounding

/-! ## Symbols and registers -/

/-- Number of symbols of a LoRa payload; `de` is one with the low data rate optimisation. -/
def payloadSymbols (sf cr de header crc size : ℕ) : ℕ :=
  let bits := 8 * size + 16 * crc + (if 7 ≤ sf then 8 else 0) + 20 * header - 4 * sf
  let perBlock := 4 * (sf - 2 * de)
  (bits + perBlock - 1) / perBlock * (cr + 4)

/-- Number of symbols of a LoRa packet, in quarters. -/
def loraQuarters (sf cr de header crc preamble size : ℕ) : ℕ :=
  4 * preamble + (if 7 ≤ sf then 17 else 25) + 32 + 4 * payloadSymbols sf cr de header crc size

variable (ws : List TxWrite)

/-- What the last write to a register leaves in its field, or in the two registers of a burst. -/
def written (r : TxReg) : ℕ :=
  ws.foldl (fun v w => match w with
    | .w r' reg_value => if r' = r then reg_value.toNat % 2 ^ r.layout.2.2 else v
    | .wb r' data => if r' = r then data.toNat else v) 0

/-- The writes of `sx1302_send` that select and configure the modem. -/
def modemWrites (env : SendEnv) (conf : SendConf) (packet : LgwPktTx) : Option (List TxWrite) := do
  let select ← selectModem packet.modulation
  let configure ← configureModem env conf.lwan_public conf.sync_word conf.sync_word_size packet
  return select ++ configure

/-- One for an option that is on. -/
def bit (b : Bool) : ℕ := if b then 1 else 0

variable {context : LgwContext} {packet : LgwPktTx}

/-- What `lgw_send` checks of an FSK packet. -/
theorem fsk_of_lgwSendAccepts (h : lgwSendAccepts context packet)
    (hmod : packet.modulation = modFsk) :
    500 ≤ packet.datarate.toNat ∧ packet.datarate.toNat ≤ 250000 ∧ packet.size.toNat ≤ 255 := by
  unfold lgwSendAccepts at h
  simp only [Bool.and_eq_true] at h
  obtain ⟨-, h⟩ := h
  split at h
  · simp at h
  · rw [if_neg (by rw [hmod]; decide), if_pos hmod] at h
    simp only [isFskDr, drFskMin, drFskMax, Bool.and_eq_true, decide_eq_true_eq, BitVec.le_def] at h
    exact ⟨by simpa using h.2.1.2.1, by simpa using h.2.1.2.2, by simpa using h.2.2⟩

/-! ## The registers of a packet -/

theorem bit_le_one (b : Bool) : bit b ≤ 1 := by cases b <;> decide

theorem bit_not (b : Bool) : bit (!b) = if b then 0 else 1 := by cases b <;> rfl

/-- The optimisation is programmed by bandwidth and spreading factor. -/
theorem written_ppmOffset_loraModem (lwan_public : Bool) (packet : LgwPktTx)
    (select : List TxWrite) :
    written (select ++ loraModem lwan_public packet) .ppmOffset
      = bit (setPpmOnTx packet.bandwidth packet.datarate) := by
  simp [written, loraModem, frequencyDeviation, TxReg.layout]
  cases setPpmOnTx packet.bandwidth packet.datarate <;> rfl

theorem modemWrites_lora (hmod : packet.modulation = modLora) (env : SendEnv) (conf : SendConf) :
    modemWrites env conf packet = some ([.w .modulationType 0x00, .w .txIfSrc 0x01]
      ++ loraModem conf.lwan_public packet) := by
  simp [modemWrites, selectModem, configureModem, hmod, modLora, modCw]

/-! ## What `lgw_time_on_air` returns -/

/-- A coarser division rounds up to no less. -/
theorem ceil_div_le_ceil_div (a : ℕ) {b c : ℕ} (hc : 0 < c) (h : c ≤ b) :
    (a + b - 1) / b ≤ (a + c - 1) / c := by
  rw [← Nat.ceilDiv_eq_add_pred_div, ← Nat.ceilDiv_eq_add_pred_div]
  rw [ceilDiv_le_iff_le_mul (by omega)]
  exact (le_smul_ceilDiv hc).trans (Nat.mul_le_mul_right _ h)

/-- The optimisation makes a payload no shorter. -/
theorem payloadSymbols_le {sf de de' : ℕ} (hsf : 5 ≤ sf) (hde : de ≤ de') (hle : de' ≤ 1)
    (cr header crc size : ℕ) :
    payloadSymbols sf cr de header crc size ≤ payloadSymbols sf cr de' header crc size := by
  unfold payloadSymbols
  exact Nat.mul_le_mul_right _ (ceil_div_le_ceil_div _ (by omega) (by omega))

theorem nSymbolPayload_eq (sf cr : Byte) (no_header no_crc : Bool) (size : Byte) :
    nSymbolPayload sf cr no_header no_crc size
      = payloadSymbols sf.toNat cr.toNat (if 11 ≤ sf.toNat then 1 else 0) (bit !no_header)
          (bit !no_crc) size.toNat := by
  have hbits : (8 * (size.toNat : ℤ) + (if no_crc then (0 : ℤ) else 16) - 4 * sf.toNat
      + (if 7 ≤ sf.toNat then (8 : ℤ) else 0) + 20 * (if no_header then (0 : ℤ) else 1)).toNat
      = 8 * size.toNat + 16 * bit (!no_crc) + (if 7 ≤ sf.toNat then 8 else 0)
        + 20 * bit (!no_header) - 4 * sf.toNat := by
    rw [bit_not, bit_not]
    split_ifs <;> omega
  simp only [nSymbolPayload, payloadSymbols]
  rw [hbits]

/-- Duration of a quarter of a symbol, in microseconds. -/
def quarterUs (bw : Byte) (sf : ℕ) : ℕ := 2 ^ sf * 2 / bwPow bw

theorem tSymbolUs_eq_quarters (bw : Byte) {sf : Byte} (h : 5 ≤ sf.toNat) :
    tSymbolUs bw sf = 4 * quarterUs bw sf.toNat := by
  obtain ⟨k, hk⟩ : 2 ∣ 2 ^ sf.toNat := dvd_pow_self 2 (by omega)
  unfold quarterUs tSymbolUs bwPow
  split_ifs <;> omega

/-- `lgw_time_on_air` takes the optimisation for granted from SF11 on. -/
theorem bit_setPpmOnTx_le (bw : Byte) (dr : Word) :
    bit (setPpmOnTx bw dr) ≤ if 11 ≤ dr.toNat then 1 else 0 := by
  split
  · exact bit_le_one _
  · rename_i hlt
    have hne : dr ≠ 11 ∧ dr ≠ 12 := by
      refine ⟨?_, ?_⟩
      · rintro rfl
        exact hlt (by decide)
      · rintro rfl
        exact hlt (by decide)
    have hoff : setPpmOnTx bw dr = false := by
      simp only [setPpmOnTx, beq_false_of_ne hne.1, beq_false_of_ne hne.2, Bool.or_false,
        Bool.and_false]
    rw [hoff]
    exact le_rfl

/-- The time of a LoRa packet is rounded to the nearest millisecond. -/
theorem toNat_lgwTimeOnAir_lora (hmod : packet.modulation = modLora) (context : LgwContext)
    (u32OfInf : Word) :
    (lgwTimeOnAir context u32OfInf packet).toNat
      = ((loraPacketTimeOnAir packet.bandwidth (packet.datarate.setWidth 8) packet.coderate
          packet.preamble packet.no_header packet.no_crc (packet.size.setWidth 8)).toNat + 500)
        / 1000 := by
  rw [lgwTimeOnAir, if_pos hmod, BitVec.toNat_ofNat]
  exact Nat.mod_eq_of_lt (by omega)

/-- The two roundings lose at most one part in `2 ^ 53` each, the conversion less than one. -/
theorem tFsk_trunc_error (n_bytes : ℕ) {datarate : ℕ} (hd : 0 < datarate) :
    (2 ^ 53 - 1) * (2 ^ 53 - 1) * (8000 * n_bytes)
      < 2 ^ 53 * 2 ^ 53 * (((tFsk n_bytes datarate).trunc + 1) * datarate) := by
  unfold tFsk roundMul Scaled.trunc
  set x := roundQuot 53 (8 * n_bytes) datarate with hx
  set y := roundQuot 53 (x.num * 1000) (2 ^ x.scale) with hy
  have h1 := @le_roundQuot 53 (8 * n_bytes) datarate (by norm_num) hd
  have h2 := @le_roundQuot 53 (x.num * 1000) (2 ^ x.scale) (by norm_num) (by positivity)
  rw [← hx] at h1
  rw [← hy] at h2
  have hsx : 0 < 2 ^ x.scale := by positivity
  have hsy : 0 < 2 ^ y.scale := by positivity
  have h3 := Nat.lt_div_mul_add (a := y.num) hsy
  generalize 2 ^ x.scale = a at *
  generalize 2 ^ y.scale = b at *
  generalize y.num / b = trunc at *
  have h4 : (2 ^ 53 - 1) * (1000 * x.num) < 2 ^ 53 * ((trunc + 1) * a) := by
    have hlt : y.num * a < (trunc + 1) * a * b := by
      calc y.num * a < (trunc * b + b) * a := Nat.mul_lt_mul_of_pos_right h3 hsx
        _ = (trunc + 1) * a * b := by ring
    have hb : (2 ^ 53 - 1) * (1000 * x.num) * b < 2 ^ 53 * ((trunc + 1) * a) * b := by
      calc (2 ^ 53 - 1) * (1000 * x.num) * b = (2 ^ 53 - 1) * (x.num * 1000 * b) := by ring
        _ ≤ 2 ^ 53 * (y.num * a) := by omega
        _ < 2 ^ 53 * ((trunc + 1) * a * b) := by omega
        _ = 2 ^ 53 * ((trunc + 1) * a) * b := by ring
    exact Nat.lt_of_mul_lt_mul_right hb
  have h5 : (2 ^ 53 - 1) * (8000 * n_bytes * a) ≤ 2 ^ 53 * (1000 * x.num * datarate) := by
    have hscale : 8000 * n_bytes * a = 1000 * (8 * n_bytes * a) := by ring
    have hscale' : 1000 * x.num * datarate = 1000 * (x.num * datarate) := by ring
    omega
  have h6 : (2 ^ 53 - 1) * (2 ^ 53 - 1) * (8000 * n_bytes) * a
      < 2 ^ 53 * 2 ^ 53 * ((trunc + 1) * datarate) * a := by
    calc (2 ^ 53 - 1) * (2 ^ 53 - 1) * (8000 * n_bytes) * a
        = (2 ^ 53 - 1) * ((2 ^ 53 - 1) * (8000 * n_bytes * a)) := by ring
      _ ≤ (2 ^ 53 - 1) * (2 ^ 53 * (1000 * x.num * datarate)) := Nat.mul_le_mul_left _ h5
      _ = 2 ^ 53 * datarate * ((2 ^ 53 - 1) * (1000 * x.num)) := by ring
      _ < 2 ^ 53 * datarate * (2 ^ 53 * ((trunc + 1) * a)) :=
          Nat.mul_lt_mul_of_pos_left h4 (by omega)
      _ = 2 ^ 53 * 2 ^ 53 * ((trunc + 1) * datarate) * a := by ring
  exact Nat.lt_of_mul_lt_mul_right h6

/-- At a datarate that `lgw_send` accepts, the millisecond that is added makes up for all that is
lost. -/
theorem le_tFsk_trunc {n_bytes datarate : ℕ} (hn : n_bytes < 2 ^ 17) (hlo : 500 ≤ datarate)
    (hhi : datarate ≤ 250000) :
    8000 * n_bytes ≤ ((tFsk n_bytes datarate).trunc + 1) * datarate := by
  have htrunc := tFsk_trunc_lt hn hlo
  have herror := @tFsk_trunc_error n_bytes datarate (by omega)
  generalize (tFsk n_bytes datarate).trunc = trunc at *
  omega

/-- The time of an FSK packet is a millisecond more than what is computed. -/
theorem toNat_lgwTimeOnAir_fsk (haccept : lgwSendAccepts context packet)
    (hmod : packet.modulation = modFsk) (u32OfInf : Word) :
    (lgwTimeOnAir context u32OfInf packet).toNat
      = (tFsk (fskBytes context packet) packet.datarate.toNat).trunc + 1 := by
  obtain ⟨hdr, -, hsize⟩ := fsk_of_lgwSendAccepts haccept hmod
  have htrunc := tFsk_trunc_lt (fskBytes_lt context hsize) hdr
  have hzero : packet.datarate ≠ 0 := by
    intro hzero
    simp [hzero] at hdr
  rw [lgwTimeOnAir, if_neg (by rw [hmod]; decide), if_pos hmod, if_neg hzero, BitVec.toNat_add,
    BitVec.toNat_ofNat]
  simp
  omega

end RutosSdk.Hal
