import RutosSdk.Hal.TimeOnAir

/-! # Timestamp correction of received packets

Reference: `legacy_timestamp_correction`, `precision_timestamp_correction` and
`timestamp_counter_correction` in `libloragw/src/loragw_sx1302_timestamp.c`.

The delays are picoseconds. The `double` constants of the code divide exactly, and its last quotient
is far from every integer it does not reach, so the arithmetic is that of integers.
-/

namespace RutosSdk.Hal

/-- `SET_PPM_ON` -/
def setPpmOn (bw dr : Byte) : Bool :=
  (bw == bw125Khz && (dr == 11 || dr == 12)) || (bw == bw250Khz && dr == 12)

/-- Whether the payload fits in the first 8 symbols. -/
def payloadFitsInHeader (sf : Byte) (crc_en : Bool) (payload_length : Byte) : Bool :=
  let crc : ℤ := if crc_en then 1 else 0
  (2 * ((payload_length.toNat : ℤ) + 2 * crc) - ((sf.toNat : ℤ) - 7) ≤ 0)
    || (payload_length == 0 && !crc_en)

/-- The number of nibbles in the last block of a payload that does not fit in the header. -/
def nbNibbleInLastBlock (sf : Byte) (ppm : ℕ) (crc_en : Bool) (payload_length : Byte) : ℕ :=
  let nb_nibble := (payload_length.toNat + 2 * (if crc_en then 1 else 0)) * 2 + 5
  let nb_nibble_in_hdr := if sf = 5 ∨ sf = 6 then sf.toNat else sf.toNat - 2
  let last := (nb_nibble - nb_nibble_in_hdr) % (sf.toNat - 2 * ppm)
  if last = 0 then sf.toNat - 2 * ppm else last

/-- `legacy_timestamp_correction`, the result being an `int32_t`. -/
def legacyTimestampCorrection (bandwidth sf cr : Byte) (crc_en : Bool)
    (payload_length : Byte) (dft_peak_en : Bool) : Word :=
  if !isLoraBw bandwidth then 0
  else
    let ppm := if setPpmOn bandwidth sf then 1 else 0
    let clk_period := 250000 / bwPow bandwidth
    let chips := 2 ^ sf.toNat
    let fits := payloadFitsInHeader sf crc_en payload_length
    let dft_peak_en := dft_peak_en && !fits
    let cr_local := if fits then 4 else cr.toNat
    let nb_nibble_in_last_block :=
      if fits then if sf > 6 then sf.toNat - 2 else sf.toNat
      else nbNibbleInLastBlock sf ppm crc_en payload_length
    let nb_iter := (sf.toNat + 1) / 2
    let filtering_delay := 16000000 / bwPow bandwidth + 2031250
    let demap_delay :=
      if fits then
        clk_period + chips * clk_period * 3 / 4 + 3 * clk_period + (sf.toNat - 2) * clk_period
      else
        -- the factor `1 - ppm / 4` of the code is an integer quotient, hence 1
        clk_period + chips * clk_period + 3 * clk_period + (sf.toNat - 2 * ppm) * clk_period
    let fft_delay_state3 :=
      clk_period * ((chips - 6) + 2 * (chips * (nb_iter - 1) + 6)) + 4 * clk_period
    let fft_delay :=
      if dft_peak_en then (5 - 2 * ppm) * (chips * clk_period + 7 * clk_period) + 2 * clk_period
      else chips * 2 * clk_period + 3 * clk_period
    let decode_delay :=
      5 * clk_period + (9 * clk_period + clk_period * cr_local) * nb_nibble_in_last_block
        + 3 * clk_period
    let total_delay :=
      (filtering_delay + fft_delay_state3 + fft_delay + demap_delay + decode_delay + 500000)
        / 1000000
    BitVec.neg (BitVec.ofNat 32 total_delay)

/-- `precision_timestamp_correction`; the delay is subtracted as a `double`, and the difference is
rounded towards zero. -/
def precisionTimestampCorrection (bandwidth datarate coderate : Byte) (crc_en : Bool)
    (payload_length : Byte) : Word :=
  if !isLoraBw bandwidth then 0
  else if loraPacketTimeOnAir bandwidth datarate coderate 0 false (!crc_en) payload_length = 0
    then 0
  else
    let filtering_delay := 16000000 / bwPow bandwidth + 2031250
    let payload_us : ℤ :=
      nSymbolPayload datarate coderate false (!crc_en) payload_length * tSymbolUs bandwidth datarate
    BitVec.ofInt 32 ((payload_us * 1000000 - (filtering_delay + 500000)).tdiv 1000000)

/-- `timestamp_counter_correction`, for `RX_DFT_PEAK_MODE_AUTO`. -/
def timestampCounterCorrection (context : LgwContext) (bandwidth datarate coderate : Byte)
    (crc_en : Bool) (payload_length : Byte) : Word :=
  if !isLoraDr datarate then 0
  else if !isLoraBw bandwidth then 0
  else if !isLoraCr coderate then 0
  else if context.ftime_enable = false then
    legacyTimestampCorrection bandwidth datarate coderate crc_en payload_length true
  else
    precisionTimestampCorrection bandwidth datarate coderate crc_en payload_length

end RutosSdk.Hal
