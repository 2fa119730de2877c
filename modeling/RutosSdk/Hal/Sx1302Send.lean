import Mathlib.Data.Int.Notation
import RutosSdk.Hal.Context
import RutosSdk.Hal.TxGain
import RutosSdk.Hal.TxRegisters

/-! # Programming a transmission

Reference: `sx1302_tx_set_start_delay` and `sx1302_send` in `libloragw/src/loragw_sx1302.c`,
`lgw_bw_getval` in `libloragw/src/loragw_hal.c`.

Each `switch` of the function is a definition that gives the writes of its branch. The arithmetic in
`double` is exact, so it is integer arithmetic here. The adjusted preamble is also stored in the
packet, where it is only printed.
-/

namespace RutosSdk.Hal

open Com

/-- `lgw_radio_type_t` -/
inductive LgwRadioType where
  | none
  | sx1255
  | sx1257
  | sx1272
  | sx1276
  | sx1250
deriving DecidableEq, Repr

/-- What the C standard leaves open in `sx1302_send`. -/
structure SendEnv where
  /-- The conversion of a NaN to `int`: a CW packet without offset. -/
  intOfNan : Byte
  /-- A shift by a negative amount or by 64: an FSK sync word size outside 1 to 8. -/
  wildShift : BitVec 64
  /-- A quotient by zero: FSK at datarate zero. -/
  quotByZero : Word
  /-- The memory behind the payload. -/
  behindPayload : ℕ → Byte

/-! ## Values -/

/-- `lgw_bw_getval` -/
def lgwBwGetval (x : Byte) : ℤ :=
  if x = bw500Khz then 500000
  else if x = bw250Khz then 250000
  else if x = bw125Khz then 125000
  else -1

/-- `SX1302_FREQ_TO_REG` -/
def sx1302FreqToReg (f : Word) : Word := BitVec.ofNat 32 (f.toNat * 262144 / 32000000)

/-- `SX1250_FREQ_TO_REG` and `SX1261_FREQ_TO_REG` -/
def sx1250FreqToReg (f : Word) : Word := BitVec.ofNat 32 (f.toNat * 33554432 / 32000000)

/-- `SET_PPM_ON` -/
def setPpmOnTx (bw : Byte) (dr : Word) : Bool :=
  (bw == bw125Khz && (dr == 11 || dr == 12)) || (bw == bw250Khz && dr == 12)

/-- A preamble that is not given, or is too short, is replaced. -/
def adjustPreamble (std min preamble : BitVec 16) : BitVec 16 :=
  if preamble = 0 then std else if preamble < min then min else preamble

/-- `STD_LORA_PREAMBLE` and `MIN_LORA_PREAMBLE` -/
def loraPreamble (preamble : BitVec 16) : BitVec 16 := adjustPreamble 8 6 preamble

/-- `STD_FSK_PREAMBLE` and `MIN_FSK_PREAMBLE` -/
def fskPreamble (preamble : BitVec 16) : BitVec 16 := adjustPreamble 5 3 preamble

/-- Byte `k` of a word. -/
def regByte {w : ℕ} (v : BitVec w) (k : ℕ) : Byte := v.extractLsb' (8 * k) 8

/-! ## Writes -/

/-- Select the proper modem. -/
def selectModem (modulation : Byte) : Option (List TxWrite) :=
  if modulation = modCw then some [.w .modulationType 0x00, .w .txIfSrc 0x00]
  else if modulation = modLora then some [.w .modulationType 0x00, .w .txIfSrc 0x01]
  else if modulation = modFsk then some [.w .modulationType 0x01, .w .txIfSrc 0x02]
  else none

variable (env : SendEnv) (radio_type : LgwRadioType) (datarate : Word) (gain : LgwTxGain)
  (packet : LgwPktTx)

/-- The calibrated DC offsets. -/
def dcOffsets : List TxWrite := [.w .iOffset gain.offset_i, .w .qOffset gain.offset_q]

/-- The power parameters of the radio. -/
def powerParameters : Option (List TxWrite) :=
  match radio_type with
  | .sx1250 =>
    let pa_en : Byte := if 0 < gain.pa_gain then 1 else 0
    some [.w .agcTxPwr (pa_en <<< 6 ||| gain.pwr_idx)]
  | .sx1255 | .sx1257 =>
    some [.w .agcTxPwr (gain.pa_gain <<< 6 ||| gain.dac_gain <<< 4 ||| gain.mix_gain)]
  | _ => none

/-- The digital gain and the frequency. -/
def gainAndFrequency (freq_hz : Word) : List TxWrite :=
  let freq_reg := sx1302FreqToReg (if radio_type = .sx1255 then freq_hz * 2 else freq_hz)
  [.w .iqGain gain.dig_gain, .w (.freqRf 2) (regByte freq_reg 2),
    .w (.freqRf 1) (regByte freq_reg 1), .w (.freqRf 0) (regByte freq_reg 0)]

/-- The bandwidth and the modulation type for the AGC. -/
def agcBandwidth (modulation bandwidth : Byte) : Option (List TxWrite) :=
  if modulation = modLora then some [.w .agcTxBw bandwidth]
  else if modulation = modCw ∨ modulation = modFsk then some [.w .agcTxBw (0x80 ||| bandwidth)]
  else none

/-- The frequency deviation. -/
def frequencyDeviation (freq_dev : Word) : List TxWrite :=
  let fdev_reg := sx1302FreqToReg freq_dev
  [.w .freqDevH (regByte fdev_reg 1), .w .freqDevL (regByte fdev_reg 0)]

/-- The frequency deviation, sent to the AGC firmware to configure the SX1250. -/
def agcDeviation (freq_dev : Word) : List TxWrite :=
  let fdev_reg := sx1250FreqToReg freq_dev
  [.w (.mcuMailBoxWrData 2) (regByte fdev_reg 2), .w (.mcuMailBoxWrData 1) (regByte fdev_reg 1),
    .w (.mcuMailBoxWrData 0) (regByte fdev_reg 0)]

/-- The deviation in steps of 10 kHz that covers the offset. -/
def cwDeviation (freq_offset : Byte) : ℕ := (freq_offset.toInt.natAbs + 9) / 10 * 10000

/-- The modem configuration of a continuous wave. -/
def cwModem : List TxWrite :=
  let freq_dev := cwDeviation packet.freq_offset
  let test_mod_freq : Byte :=
    if freq_dev = 0 then env.intOfNan
    else BitVec.ofInt 8 ((packet.freq_offset.toInt * 64000).tdiv freq_dev)
  frequencyDeviation (BitVec.ofNat 32 freq_dev) ++ agcDeviation (BitVec.ofNat 32 freq_dev)
    ++ [.w .testModFreq test_mod_freq]

/-- SF5 and SF6, which use another sync word and the fine synchronisation. -/
def isShortSf : Bool := datarate == 5 || datarate == 6

/-- `chirp_lowpass` -/
def chirpLowpassOf : ℕ := if datarate < 10 then 6 else 7

/-- The modem configuration of a LoRa packet. -/
def loraModem (lwan_public : Bool) (packet : LgwPktTx) : List TxWrite :=
  let preamble := loraPreamble packet.preamble
  let privateSync := !lwan_public || isShortSf packet.datarate
  frequencyDeviation (BitVec.ofInt 32 ((lgwBwGetval packet.bandwidth).tdiv 2))
  ++ [.w .modemBw packet.bandwidth, .w .preambleSymbNbH (regByte preamble 1),
    .w .preambleSymbNbL (regByte preamble 0),
    .w .modemSf (regByte packet.datarate 0),
    .w .chirpLowpass (BitVec.ofNat 8 (chirpLowpassOf packet.datarate)),
    .w .codingRate packet.coderate,
    .w .modemEn 1,
    .w .cadrxtx 2,
    .w .modemStart 1,
    .w .continuous 0,
    .w .chirpInvert (if packet.invert_pol then 1 else 0),
    .w .implicitHeader (if packet.no_header then 1 else 0),
    .w .crcEn (if packet.no_crc then 0 else 1),
    .w .peak1Pos (if privateSync then 2 else 6),
    .w .peak2Pos (if privateSync then 4 else 8),
    .w .fineSynchEn (if isShortSf packet.datarate then 1 else 0),
    .w .payloadLength (regByte packet.size 0),
    .w .ppmOffsetHdrCtrl 0,
    .w .ppmOffset (if setPpmOnTx packet.bandwidth packet.datarate then 1 else 0)]

/-- `fsk_sync_word_reg` -/
def fskSyncWordReg (sync_word : BitVec 64) (sync_word_size : Byte) : BitVec 64 :=
  if 1 ≤ sync_word_size.toNat ∧ sync_word_size.toNat ≤ 8 then
    sync_word <<< (8 * (8 - sync_word_size.toNat))
  else env.wildShift

/-- `fsk_br_reg` -/
def fskBrReg : Word :=
  if datarate = 0 then env.quotByZero else 32000000 / datarate

/-- The modem configuration of an FSK packet; the sync word and its size are those of the
configuration. -/
def fskModem (sync_word : BitVec 64) (sync_word_size : Byte) (packet : LgwPktTx) : List TxWrite :=
  let freq_dev : Word := packet.f_dev.setWidth 32 * 1000
  let sync := fskSyncWordReg env sync_word sync_word_size
  frequencyDeviation freq_dev ++ agcDeviation freq_dev
  ++ [.w .fskPktMode 1, .w .fskCrcEn (if packet.no_crc then 0 else 1), .w .fskCrcIbm 0,
    .w .fskDcfreeEnc 2,
    .w .fskGaussianEn 1,
    .w .fskGaussianSelectBt 2,
    .w .fskRefPatternEn 1,
    .w .fskRefPatternSize (sync_word_size - 1),
    .w (.fskRefPattern 0) (regByte sync 0),
    .w (.fskRefPattern 1) (regByte sync 1),
    .w (.fskRefPattern 2) (regByte sync 2),
    .w (.fskRefPattern 3) (regByte sync 3),
    .w (.fskRefPattern 4) (regByte sync 4),
    .w (.fskRefPattern 5) (regByte sync 5),
    .w (.fskRefPattern 6) (regByte sync 6),
    .w (.fskRefPattern 7) (regByte sync 7),
    .w .fskPreambleSeq 0,
    .wb .fskBitRateMsb ((fskBrReg env packet.datarate).setWidth 16),
    .wb .fskPreambleSizeMsb (fskPreamble packet.preamble),
    .w .fskPktLength (regByte packet.size 0)]

/-- Configure modem. -/
def configureModem (lwan_public : Bool) (sync_word : BitVec 64) (sync_word_size : Byte)
    (packet : LgwPktTx) : Option (List TxWrite) :=
  if packet.modulation = modCw then some (cwModem env packet)
  else if packet.modulation = modLora then some (loraModem lwan_public packet)
  else if packet.modulation = modFsk then some (fskModem env sync_word sync_word_size packet)
  else none

/-- `radio_bw_delay` -/
def radioBwDelay (bandwidth : Byte) : Option ℕ :=
  match radio_type with
  | .sx1250 =>
    if bandwidth = bw125Khz then some 19
    else if bandwidth = bw250Khz then some 24
    else if bandwidth = bw500Khz then some 21
    else none
  | .sx1255 | .sx1257 =>
    if bandwidth = bw125Khz then some (3 * 32 + 4)
    else if bandwidth = bw250Khz then some (3 * 32 + 4 + 6)
    else if bandwidth = bw500Khz then some (3 * 32 + 4)
    else none
  | _ => none

/-- `sx1302_tx_set_start_delay`; `TX_START_DELAY_DEFAULT` is 1500. -/
def sx1302TxSetStartDelay (rf_chain : Byte) (radio_type : LgwRadioType)
    (modulation bandwidth : Byte) (chirp_lowpass : ℕ) : ComScript (BitVec 16) :=
  if modulation ≠ modLora then pure 0
  else
    match radioBwDelay radio_type bandwidth with
    | none => Script.fail
    | some radio_bw_delay => do
        let bw_hz := (lgwBwGetval bandwidth).toNat
        let filter_delay := ((1 <<< chirp_lowpass) - 1) * 1000000 / bw_hz
        let modem_delay := 8 * (1000000 / bw_hz)
        let tx_start_delay : BitVec 16 :=
          1500 * 32 - BitVec.ofNat 16 (radio_bw_delay + filter_delay + modem_delay)
        regWrites rf_chain [.wb .txStartDelayMsb tx_start_delay]
        pure tx_start_delay

/-- The payload and the memory behind it. -/
def payloadByte (i : ℕ) : Byte := packet.payload[i]?.getD (env.behindPayload i)

/-- Write payload in transmit buffer. An FSK packet is preceded by the low byte of its size. -/
def writePayload : ComScript Unit :=
  let mem_addr : BitVec 16 := if packet.rf_chain = 0 then 0x5300 else 0x5500
  if packet.modulation = modFsk then do
    lgwMemWb mem_addr (fun _ => regByte packet.size 0) 1
    lgwMemWb (mem_addr + 1) (payloadByte env packet) packet.size
  else lgwMemWb mem_addr (payloadByte env packet) packet.size

/-- Trigger transmit. -/
def triggerTransmit (tx_start_delay : BitVec 16) : Option (List TxWrite) :=
  let count_us := packet.count_us * 32 - tx_start_delay.setWidth 32
  if packet.tx_mode = txImmediate then some [.w .txTrigImmediate 0x00, .w .txTrigImmediate 0x01]
  else if packet.tx_mode = txTimestamped then
    some [.w (.timerDelayedTrig 0) (regByte count_us 0),
      .w (.timerDelayedTrig 1) (regByte count_us 1),
      .w (.timerDelayedTrig 2) (regByte count_us 2), .w (.timerDelayedTrig 3) (regByte count_us 3),
      .w .txTrigDelayed 0x00, .w .txTrigDelayed 0x01]
  else if packet.tx_mode = txOnGps then some [.w .txTrigGps 0x00, .w .txTrigGps 0x01]
  else none

/-! ## The function -/

/-- What `sx1302_send` reads of the configuration. -/
structure SendConf where
  radio_type : LgwRadioType
  tx_lut : LgwTxGainLut
  lwan_public : Bool
  sync_word : BitVec 64
  sync_word_size : Byte

/-- A configuration with an SX1250 and a table of one entry. -/
def sampleConf : SendConf where
  radio_type := .sx1250
  tx_lut := ⟨fun _ => ⟨14, 0, 0, 0, 5, 0, 0, 10⟩, 1⟩
  lwan_public := true
  sync_word := 0xC194C1
  sync_word_size := 3

/-- The calls of `sx1302_send` in bulk mode. -/
def sendWrites (conf : SendConf) (packet : LgwPktTx) : ComScript Unit := do
  let rf_chain := packet.rf_chain
  let gain := conf.tx_lut.lut (powIndex conf.tx_lut packet.rf_power)
  -- only the LoRa branch sets `chirp_lowpass`
  let chirp_lowpass := if packet.modulation = modLora then chirpLowpassOf packet.datarate else 0
  regSwitch rf_chain (selectModem packet.modulation)
  regWrites rf_chain (dcOffsets gain)
  regSwitch rf_chain (powerParameters conf.radio_type gain)
  regWrites rf_chain (gainAndFrequency conf.radio_type gain packet.freq_hz)
  regSwitch rf_chain (agcBandwidth packet.modulation packet.bandwidth)
  regSwitch rf_chain
    (configureModem env conf.lwan_public conf.sync_word conf.sync_word_size packet)
  let tx_start_delay ← sx1302TxSetStartDelay rf_chain conf.radio_type packet.modulation
    packet.bandwidth chirp_lowpass
  regWrites rf_chain [.w .writeBuffer 0x01]
  writePayload env packet
  regWrites rf_chain [.w .writeBuffer 0x00]
  regSwitch rf_chain (triggerTransmit packet tx_start_delay)

/-- `sx1302_send` -/
def sx1302Send (conf : SendConf) (packet : LgwPktTx) : ComScript Unit :=
  bulkSession .sx1302 (sendWrites env conf packet)

end RutosSdk.Hal
