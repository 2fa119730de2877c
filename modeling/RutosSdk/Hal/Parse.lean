import RutosSdk.Hal.RxSpec
import RutosSdk.Hal.Timestamp
import RutosSdk.Hal.Correction

/-! # Parsing of received packets

Reference: `lora_crc16`, `sx1302_lora_payload_crc`, `sx1302_fetch` and `sx1302_parse` in
`libloragw/src/loragw_sx1302.c`, `struct lgw_pkt_rx_s` in `libloragw/inc/loragw_hal.h`.

`sx1302_parse` takes one packet from the RX buffer and fills in the fields of the caller's
structure. Which modem a packet came from is decided by its IF chain.
-/

namespace RutosSdk.Hal

/-- `struct lgw_pkt_rx_s` -/
structure LgwPktRx where
  freq_hz : Word
  freq_offset : Word
  if_chain : Byte
  status : Byte
  count_us : Word
  rf_chain : Byte
  modem_id : Byte
  modulation : Byte
  bandwidth : Byte
  datarate : Word
  coderate : Byte
  rssic : Float32
  rssis : Float32
  snr : Float32
  snr_min : Float32
  snr_max : Float32
  crc : BitVec 16
  size : BitVec 16
  payload : Vector Byte 256
  ftime_received : Bool
  ftime : Word

/-- A structure cleared with `memset`. -/
def LgwPktRx.zero : LgwPktRx where
  freq_hz := 0
  freq_offset := 0
  if_chain := 0
  status := 0
  count_us := 0
  rf_chain := 0
  modem_id := 0
  modulation := 0
  bandwidth := 0
  datarate := 0
  coderate := 0
  rssic := 0
  rssis := 0
  snr := 0
  snr_min := 0
  snr_max := 0
  crc := 0
  size := 0
  payload := Vector.replicate 256 0
  ftime_received := false
  ftime := 0

/-- The part of the receive path that concerns fine timestamps and is taken as given:
`precise_timestamp_calculate`, with its success and what it leaves in `ftime`, and the packets that
`merge_packets` keeps. -/
structure FineTimestamp where
  precise_timestamp_calculate : (ts_metrics_nb : Byte) → (ts_metrics : List Byte) →
    (timestamp_cnt : Word) → (sf : Byte) → (if_freq_hz : Word) →
    (pkt_freq_error : Float) → Bool × Word
  merge_packets : List LgwPktRx → List LgwPktRx

/-! ## Payload CRC -/

/-- Bit `k` of a value, as a value. -/
def bitOf (x : BitVec 16) (k : ℕ) : BitVec 16 := (x >>> k) &&& 1

/-- `lora_crc16`; the `int` it works on never has more than 16 bits. -/
def loraCrc16 (crc : BitVec 16) (byte : Byte) : BitVec 16 :=
  let data := byte.setWidth 16
  (bitOf data 0 ^^^ bitOf crc 12 ^^^ bitOf crc 8)
  + ((bitOf data 1 ^^^ bitOf crc 13 ^^^ bitOf crc 9) <<< 1)
  + ((bitOf data 2 ^^^ bitOf crc 14 ^^^ bitOf crc 10) <<< 2)
  + ((bitOf data 3 ^^^ bitOf crc 15 ^^^ bitOf crc 11) <<< 3)
  + ((bitOf data 4 ^^^ bitOf crc 12) <<< 4)
  + ((bitOf data 5 ^^^ bitOf crc 13 ^^^ bitOf crc 12 ^^^ bitOf crc 8) <<< 5)
  + ((bitOf data 6 ^^^ bitOf crc 14 ^^^ bitOf crc 13 ^^^ bitOf crc 9) <<< 6)
  + ((bitOf data 7 ^^^ bitOf crc 15 ^^^ bitOf crc 14 ^^^ bitOf crc 10) <<< 7)
  + ((bitOf crc 0 ^^^ bitOf crc 15 ^^^ bitOf crc 11) <<< 8)
  + ((bitOf crc 1 ^^^ bitOf crc 12) <<< 9)
  + ((bitOf crc 2 ^^^ bitOf crc 13) <<< 10)
  + ((bitOf crc 3 ^^^ bitOf crc 14) <<< 11)
  + ((bitOf crc 4 ^^^ bitOf crc 15 ^^^ bitOf crc 12 ^^^ bitOf crc 8) <<< 12)
  + ((bitOf crc 5 ^^^ bitOf crc 13 ^^^ bitOf crc 9) <<< 13)
  + ((bitOf crc 6 ^^^ bitOf crc 14 ^^^ bitOf crc 10) <<< 14)
  + ((bitOf crc 7 ^^^ bitOf crc 15 ^^^ bitOf crc 11) <<< 15)

/-- `sx1302_lora_payload_crc` -/
def sx1302LoraPayloadCrc (data : List Byte) : BitVec 16 := data.foldl loraCrc16 0

/-! ## Metadata -/

/-- The values of `ifmod_config`. -/
inductive IfMod where
  | undefined
  | loraStd
  | loraMulti
  | fskStd
deriving DecidableEq, Repr

/-- `ifmod_config` -/
def ifmodConfig (if_chain : Byte) : IfMod :=
  if if_chain < 8 then .loraMulti
  else if if_chain = 8 then .loraStd
  else if if_chain = 9 then .fskStd
  else .undefined

variable (context : LgwContext) (fine : FineTimestamp) (counter_us : TimestampCounter)
  (pkt : RxPacket) (p : LgwPktRx)

/-- `CONTEXT_RF_CHAIN[i]` -/
def LgwContext.rfChain (i : Byte) : LgwConfRxrf := (context.rf_chain_cfg[i.toNat]?).getD default

/-- `CONTEXT_IF_CHAIN[i]` -/
def LgwContext.ifChain (i : Byte) : LgwConfRxif := (context.if_chain_cfg[i.toNat]?).getD default

/-- The CRC status of a packet; on the LoRa service channel the configuration can enable the CRC of
packets without header. -/
def crcStatus (ifmod : IfMod) (pkt : RxPacket) : Byte :=
  if pkt.crc_en || (ifmod == .loraStd && context.lora_service_cfg.implicit_crc_en) then
    if pkt.payload_crc_error then statCrcBad else statCrcOk
  else statNoCrc

/-- The datarate of a spreading factor. -/
def datarateOfSf (rx_rate_sf : Byte) : Word :=
  if 5 ≤ rx_rate_sf ∧ rx_rate_sf ≤ 12 then rx_rate_sf.setWidth 32 else drUndefined

/-- The coding rate constant of a coding rate. -/
def coderateOf (cr : Byte) : Byte := if 1 ≤ cr ∧ cr ≤ 4 then cr else crUndefined

/-- The frequency offset in Hz. -/
def freqOffsetHz (bandwidth : Byte) (frequency_offset_error : ℤ) : Word :=
  let scaled (lsb : Float32) := (Float32.ofInt frequency_offset_error * lsb).toInt32.toBitVec
  if bandwidth = bw125Khz then scaled 0.11920929
  else if bandwidth = bw250Khz then scaled 0.238418579
  else if bandwidth = bw500Khz then scaled 0.476837158
  else 0

/-- The part of the IF frequency that its register cannot hold. -/
def ifFreqError (if_freq_hz : Word) : Word :=
  if_freq_hz - ((if_freq_hz * 32).sdiv 15625 * 15625).sdiv 32

/-- `memcpy` of the payload. -/
def copyPayload (payload : Vector Byte 256) (data : List Byte) : Vector Byte 256 :=
  Vector.ofFn fun i => if i.val < data.length then data.getD i.val 0 else payload[i]

/-! ## Parsing -/

/-- The LoRa branch of `sx1302_parse`, with the timestamp correction. -/
def parseLora (ifmod : IfMod) (pkt : RxPacket) (p : LgwPktRx) :
    Except RegFailure (LgwPktRx × Word) :=
  let status := crcStatus context ifmod pkt
  if status = statCrcOk ∧ pkt.rxbytenb_modem > 0
      ∧ sx1302LoraPayloadCrc pkt.payload ≠ pkt.rx_crc16_value then .error .error
  else
    let bandwidth :=
      if ifmod = .loraMulti then bw125Khz else context.lora_service_cfg.bandwidth
    let datarate := datarateOfSf pkt.rx_rate_sf
    let cr :=
      if ifmod = .loraMulti ∨ context.lora_service_cfg.implicit_hdr = false then pkt.coding_rate
      else context.lora_service_cfg.implicit_coderate
    let if_freq_hz := (context.ifChain p.if_chain).freq_hz
    let freq_offset := freqOffsetHz bandwidth pkt.frequency_offset_error + ifFreqError if_freq_hz
    let timestamp_correction := timestampCounterCorrection context bandwidth (datarate.setWidth 8)
      (coderateOf cr) pkt.crc_en pkt.rxbytenb_modem
    let ftime :=
      if pkt.num_ts_metrics_stored > 0 ∧ pkt.timing_set ∧ status = statCrcOk then
        let pkt_freq_error :=
          Float.ofNat (p.freq_hz + freq_offset).toNat / Float.ofNat p.freq_hz.toNat - 1.0
        fine.precise_timestamp_calculate pkt.num_ts_metrics_stored pkt.timestamp_avg
          pkt.timestamp_cnt pkt.rx_rate_sf if_freq_hz pkt_freq_error
      else (false, 0)
    .ok ({ p with
      modulation := modLora
      status, bandwidth, datarate, freq_offset
      snr := Float32.ofInt pkt.snr_average.toInt / 4
      coderate := coderateOf cr
      ftime_received := ftime.1
      ftime := ftime.2 }, timestamp_correction)

/-- The FSK branch of `sx1302_parse`, with the timestamp correction. -/
def parseFsk : LgwPktRx × Word :=
  let rssic := p.rssic.toFloat
  ({ p with
    modulation := modFsk
    status := crcStatus context .fskStd pkt
    bandwidth := context.fsk_cfg.bandwidth
    datarate := context.fsk_cfg.datarate
    rssic := (90.636423 + 0.420835 * rssic + 0.007129 * Float.pow rssic 2
      + -0.000026 * Float.pow rssic 3).toFloat32
    coderate := crUndefined
    snr := -128.0
    rssis := -128.0 }, 680000 / context.fsk_cfg.datarate - 20)

/-- The branch of `sx1302_parse` for a packet of unexpected origin. -/
def parseUndefined : LgwPktRx × Word :=
  ({ p with
    status := statUndefined
    modulation := modUndefined
    rssic := -128.0
    rssis := -128.0
    snr := -128.0
    snr_min := -128.0
    snr_max := -128.0
    bandwidth := bwUndefined
    datarate := drUndefined
    coderate := crUndefined }, 0)

/-- The fields that `sx1302_parse` fills in for every modulation. -/
def parseCommon : LgwPktRx :=
  let if_chain := pkt.rx_channel_in
  let rf_chain := (context.ifChain if_chain).rf_chain
  { p with
    payload := copyPayload p.payload pkt.payload
    size := pkt.rxbytenb_modem.setWidth 16
    modem_id := pkt.modem_id
    if_chain, rf_chain
    freq_hz := (context.rfChain rf_chain).freq_hz + (context.ifChain if_chain).freq_hz
    rssic := Float32.ofNat pkt.rssi_chan_avg.toNat
    rssis := Float32.ofNat pkt.rssi_signal_avg.toNat }

/-- The branches of `sx1302_parse` for the modulations. -/
def parseModulation : Except RegFailure (LgwPktRx × Word) :=
  let ifmod := ifmodConfig pkt.rx_channel_in
  if ifmod = .loraMulti ∨ ifmod = .loraStd then parseLora context fine ifmod pkt p
  else if ifmod = .fskStd then .ok (parseFsk context pkt p)
  else .ok (parseUndefined p)

/-- The timestamp and the CRC, which `sx1302_parse` fills in at its end. -/
def parseEnd (parsed : LgwPktRx × Word) : LgwPktRx :=
  { parsed.1 with
    count_us := timestampPktExpand counter_us (pkt.timestamp_cnt / 32) + parsed.2
    crc := pkt.rx_crc16_value }

/-- `sx1302_parse` from the copy of the payload on. -/
def parsePacket : Except RegFailure LgwPktRx :=
  if pkt.rx_channel_in.toNat ≥ ifChainNb then .error .error
  else (parseModulation context fine pkt (parseCommon context pkt p)).map (parseEnd counter_us pkt)

/-- `sx1302_parse`. A packet that is taken from the buffer and then refused is gone. -/
def sx1302Parse (rx_buffer : RxBuffer) (p : LgwPktRx) : Except RegFailure LgwPktRx × RxBuffer :=
  match (rxBufferPop rx_buffer).val with
  | (.error .warning, rx_buffer) => (.error .warning, rxBufferDel rx_buffer)
  | (.error .error, rx_buffer) => (.error .error, rx_buffer)
  | (.ok pkt, rx_buffer) => (parsePacket context fine counter_us pkt p, rx_buffer)

/-- `sx1302_fetch` -/
def sx1302Fetch (rx_buffer : RxBuffer) (io : FifoRead) : Except RegFailure Byte × RxBuffer :=
  if rx_buffer.buffer_pkt_nb = 0 then
    match (rxBufferFetch (rxBufferNew rx_buffer) io).val with
    | (.error _, rx_buffer) => (.error .error, rx_buffer)
    | (.ok _, rx_buffer) => (.ok rx_buffer.buffer_pkt_nb, rx_buffer)
  else (.ok rx_buffer.buffer_pkt_nb, rx_buffer)

end RutosSdk.Hal
