import Mathlib.Algebra.Ring.Int.Defs
import Mathlib.Algebra.Ring.Nat
import RutosSdk.Lib.Bytes
import RutosSdk.Lib.Traced

/-! # The RX buffer

Reference: `libloragw/src/loragw_sx1302_rx.c`.

`rx_buffer_fetch` copies what the chip's FIFO holds into a 4096-byte buffer, moves to the first sync
word and counts the packets; `rx_buffer_pop` decodes one packet at the current index. Both compute
their offsets from bytes of the buffer, so every index they use is recorded.
-/

namespace RutosSdk.Hal

open Traced

/-! ## State -/

/-- The indices used into the arrays of `rx_buffer_t` and `rx_packet_t`. -/
inductive RxAccess where
  | buffer (i : ℕ)
  | timestampAvg (i : ℕ)
  | timestampStddev (i : ℕ)
deriving DecidableEq, Repr

/-- The size of `buffer` in `rx_buffer_t`. -/
abbrev rxBufferMax : ℕ := 4096

/-- `rx_buffer_t`. Index 4096 and up of `buffer` is what follows the array in memory. -/
structure RxBuffer where
  buffer : ℕ → Byte
  buffer_size : ℕ
  buffer_index : ℕ
  buffer_pkt_nb : Byte

/-- `rx_packet_t`, with the entries that are written of its arrays. The fields `rx_buffer_pop` does
not write are left out. -/
structure RxPacket where
  rxbytenb_modem : Byte
  rx_channel_in : Byte
  crc_en : Bool
  coding_rate : Byte
  rx_rate_sf : Byte
  modem_id : Byte
  frequency_offset_error : ℤ
  payload : List Byte
  payload_crc_error : Bool
  sync_error : Bool
  header_error : Bool
  timing_set : Bool
  snr_average : Byte
  rssi_chan_avg : Byte
  rssi_signal_avg : Byte
  timestamp_cnt : Word
  rx_crc16_value : BitVec 16
  num_ts_metrics_stored : Byte
  timestamp_avg : List Byte
  timestamp_stddev : List Byte
deriving DecidableEq, Repr

/-- What a function of the library returns instead of `LGW_REG_SUCCESS`. -/
inductive RegFailure where
  | error
  | warning
deriving DecidableEq, Repr

/-- What the chip answers to one `rx_buffer_fetch`: the two reads of the FIFO level, and the bytes
that `lgw_mem_rb` returns unless it fails. -/
structure FifoRead where
  nb_bytes_1 : BitVec 16
  nb_bytes_2 : BitVec 16
  mem_rb : Option (List Byte)

/-- A FIFO that is read without error. -/
def FifoRead.of (fifo : List Byte) : FifoRead :=
  ⟨BitVec.ofNat 16 fifo.length, BitVec.ofNat 16 fifo.length, some fifo⟩

/-! ## Packet layout -/

def syncwordByte0 : Byte := 0xA5
def syncwordByte1 : Byte := 0xC0

/-- `SX1302_PKT_HEAD_METADATA` -/
abbrev pktHeadMetadata : ℕ := 9
/-- `SX1302_PKT_TAIL_METADATA` -/
abbrev pktTailMetadata : ℕ := 14

/-- `SX1302_LORA_STD_MODEM_ID` -/
def loraStdModemId : Byte := 16
/-- `SX1302_FSK_MODEM_ID` -/
def fskModemId : Byte := 17

/-- `TAKE_N_BITS_FROM` -/
def takeNBitsFrom (b : Byte) (p n : ℕ) : Byte := (b >>> p) &&& BitVec.ofNat 8 (2 ^ n - 1)

/-- The number of bytes of a packet; at most 788, so the `uint16_t` sums are exact. -/
def pktNumBytes (payload_len num_ts_metrics : Byte) : ℕ :=
  pktHeadMetadata + payload_len.toNat + pktTailMetadata + 2 * num_ts_metrics.toNat

section Layout

variable (buffer : ℕ → Byte)

/-- `buffer[i]` -/
def byteAt (i : ℕ) : Traced RxAccess Byte := readAt buffer .buffer i

/-- The comparison of `buffer[idx]` and `buffer[idx + 1]` with the sync word; the second byte is not
read if the first one differs. -/
def syncwordAt (idx : ℕ) : Traced RxAccess Bool := do
  if (← byteAt buffer idx) = syncwordByte0 then
    return decide ((← byteAt buffer (idx + 1)) = syncwordByte1)
  else
    return false

/-- `SX1302_PKT_PAYLOAD_LENGTH` -/
def pktPayloadLength (start_index : ℕ) : Traced RxAccess Byte :=
  byteAt buffer (start_index + 2)

/-- `SX1302_PKT_NUM_TS_METRICS` -/
def pktNumTsMetrics (start_index : ℕ) : Traced RxAccess Byte :=
  byteAt buffer (start_index + 21)

/-- The other field macros: `n` bits from `p` on of the byte at an offset. -/
def pktBits (i p n : ℕ) : Traced RxAccess Byte := do
  return takeNBitsFrom (← byteAt buffer i) p n

/-- A field macro of one bit, as a `bool`. -/
def pktBit (i p : ℕ) : Traced RxAccess Bool := do
  return (← pktBits buffer i p 1) ≠ 0

end Layout

/-! ## Initialisation -/

variable (self : RxBuffer) (buffer : ℕ → Byte)

/-- `rx_buffer_del` -/
def rxBufferDel : RxBuffer :=
  { self with buffer_size := 0, buffer_index := 0, buffer_pkt_nb := 0 }

/-- `memset` of the buffer. -/
def RxBuffer.clear : RxBuffer :=
  { self with buffer := fun i => if i < rxBufferMax then 0 else self.buffer i }

/-- The static `rx_buffer` before its first use. -/
def RxBuffer.initial : RxBuffer := ⟨fun _ => 0, 0, 0, 0⟩

/-- `rx_buffer_new` -/
def rxBufferNew : RxBuffer := rxBufferDel self.clear

/-! ## Fetching -/

/-- `lgw_mem_rb` of `buffer_size` bytes into the cleared buffer. -/
def RxBuffer.load (data : List Byte) : Traced RxAccess RxBuffer := do
  touchRange .buffer 0 self.buffer_size
  return { self.clear with
    buffer := fun i => if i < self.buffer_size then data.getD i 0 else self.clear.buffer i }

/-- The search for the first sync word, with `left` more positions to try. -/
def findSyncword (buffer : ℕ → Byte) : ℕ → ℕ → Traced RxAccess ℕ
  | 0, idx => pure idx
  | left + 1, idx => do
      if (← syncwordAt buffer idx) = true then
        return idx
      else
        findSyncword buffer left (idx + 1)

/-- The `memmove` of the bytes from `idx` on to the front. -/
def RxBuffer.resync (idx : ℕ) : Traced RxAccess RxBuffer := do
  if idx ≠ 0 then
    let moved ← readRange self.buffer .buffer idx (self.buffer_size - idx)
    touchRange .buffer 0 (self.buffer_size - idx)
    return { self with
      buffer := fun i => if i < self.buffer_size - idx then moved.getD i 0 else self.buffer i
      buffer_size := self.buffer_size - idx }
  else
    return self

/-- The loop that counts the packets; none if a sync word is missing. Every turn advances `idx`, so
that `buffer_size` turns are enough. -/
def countPackets (buffer : ℕ → Byte) (buffer_size : ℕ) :
    ℕ → ℕ → Byte → Traced RxAccess (Option Byte)
  | 0, _, buffer_pkt_nb => pure (some buffer_pkt_nb)
  | turns + 1, idx, buffer_pkt_nb =>
    if idx < buffer_size then do
      if (← syncwordAt buffer idx) = true then
        let payload_len ← pktPayloadLength buffer idx
        let num_ts_metrics ← pktNumTsMetrics buffer (idx + payload_len.toNat)
        countPackets buffer buffer_size turns (idx + pktNumBytes payload_len num_ts_metrics)
          (buffer_pkt_nb + 1)
      else
        return none
    else
      pure (some buffer_pkt_nb)

/-- `rx_buffer_fetch` from the sanity check of the size on. -/
def RxBuffer.sync : Traced RxAccess RxBuffer := do
  if self.buffer_size < pktHeadMetadata + pktTailMetadata then
    return rxBufferDel self
  else
    let idx ← findSyncword self.buffer (self.buffer_size - 1) 0
    if idx > self.buffer_size - 2 then
      return rxBufferDel self
    else
      let self ← self.resync idx
      match ← countPackets self.buffer self.buffer_size self.buffer_size 0 self.buffer_pkt_nb with
      | none => return rxBufferDel self
      | some buffer_pkt_nb => return { self with buffer_pkt_nb, buffer_index := 0 }

/-- `rx_buffer_fetch` -/
def rxBufferFetch (io : FifoRead) : Traced RxAccess (Except RegFailure Unit × RxBuffer) := do
  let nb_bytes := if io.nb_bytes_2 > io.nb_bytes_1 then io.nb_bytes_2 else io.nb_bytes_1
  let self := { self with buffer_size := nb_bytes.toNat }
  if self.buffer_size > 0 then
    match io.mem_rb with
    | none => return (.error .error, self.clear)
    | some data => return (.ok (), ← (← self.load data).sync)
  else
    return (.ok (), { self with buffer_index := 0 })

/-! ## Popping -/

/-- The checksum loop: the 8-bit sum of all bytes but the last. -/
def pktChecksum (index pkt_num_bytes : ℕ) : Traced RxAccess Byte :=
  foldRange buffer .buffer (· + ·) index (pkt_num_bytes - 1) 0

/-- The loop over the timestamp metrics, with `n` turns left. -/
def pktTsMetrics (buffer : ℕ → Byte) (start : ℕ) : ℕ → ℕ → Traced RxAccess (List Byte)
  | _, 0 => pure []
  | i, n + 1 => do
      let avg ← pktNumTsMetrics buffer (start + 1 + i)
      touch (.timestampAvg i)
      touch (.timestampStddev i)
      return avg :: (← pktTsMetrics buffer start (i + 1) n)

/-- The signed value of the 20 bits of the frequency offset. -/
def freqOffsetError (b19_16 b15_8 b7_0 : Byte) : ℤ :=
  let error : ℤ := b19_16.toNat * 2 ^ 16 + b15_8.toNat * 2 ^ 8 + b7_0.toNat
  if error ≥ 2 ^ 19 then error - 2 ^ 20 else error

/-- The fields that `rx_buffer_pop` parses from the head and the tail of the packet at `index`. -/
def pktFields (index : ℕ) (rxbytenb_modem num_ts_metrics : Byte) : Traced RxAccess RxPacket := do
  let tail := index + rxbytenb_modem.toNat
  let modem_id ← pktBits buffer (index + 5) 0 8
  let rx_channel_in ← pktBits buffer (index + 3) 0 8
  let crc_en ← pktBit buffer (index + 4) 0
  let payload_crc_error ← pktBit buffer (tail + 9) 0
  let sync_error ← pktBit buffer (tail + 9) 2
  let header_error ← pktBit buffer (tail + 9) 3
  let timing_set ← pktBit buffer (tail + 9) 4
  let coding_rate ← pktBits buffer (index + 4) 1 3
  let rx_rate_sf ← pktBits buffer (index + 4) 4 4
  let rssi_chan_avg ← pktBits buffer (tail + 11) 0 8
  let rssi_signal_avg ← pktBits buffer (tail + 12) 0 8
  let crc_7_0 ← pktBits buffer (tail + 19) 0 8
  let crc_15_8 ← pktBits buffer (tail + 20) 0 8
  let snr_average ← pktBits buffer (tail + 10) 0 8
  let freq_19_16 ← pktBits buffer (index + 8) 0 4
  let freq_15_8 ← pktBits buffer (index + 7) 0 8
  let freq_7_0 ← pktBits buffer (index + 6) 0 8
  let ts_7_0 ← pktBits buffer (tail + 15) 0 8
  let ts_15_8 ← pktBits buffer (tail + 16) 0 8
  let ts_23_16 ← pktBits buffer (tail + 17) 0 8
  let ts_31_24 ← pktBits buffer (tail + 18) 0 8
  return {
    rxbytenb_modem, rx_channel_in, crc_en, coding_rate, rx_rate_sf, modem_id
    frequency_offset_error := freqOffsetError freq_19_16 freq_15_8 freq_7_0
    payload := []
    payload_crc_error, sync_error, header_error, timing_set, snr_average, rssi_chan_avg
    rssi_signal_avg
    timestamp_cnt := ts_31_24 ++ ts_23_16 ++ ts_15_8 ++ ts_7_0
    rx_crc16_value := crc_15_8 ++ crc_7_0
    num_ts_metrics_stored := num_ts_metrics
    timestamp_avg := []
    timestamp_stddev := [] }

/-- The part of `rx_buffer_pop` that parses the metadata of the packet at `index`. -/
def pktMetadata (index : ℕ) (rxbytenb_modem num_ts_metrics : Byte) : Traced RxAccess RxPacket := do
  let pkt ← pktFields buffer index rxbytenb_modem num_ts_metrics
  let timestamp_avg ← pktTsMetrics buffer (index + rxbytenb_modem.toNat) 0
    (2 * num_ts_metrics.toNat)
  return { pkt with
    timestamp_avg, timestamp_stddev := List.replicate (2 * num_ts_metrics.toNat) 0 }

/-- The range checks of the metadata; those of the FSK modem are not made. -/
def RxPacket.inRange (pkt : RxPacket) : Bool :=
  if pkt.modem_id > fskModemId then false
  else if pkt.modem_id ≤ loraStdModemId then
    if pkt.rx_channel_in > 9 then false
    else if pkt.rx_rate_sf < 5 ∨ pkt.rx_rate_sf > 12 then false
    else true
  else true

/-- `rx_buffer_pop` from the checksum on, for a packet that is complete in the buffer. -/
def popComplete (rxbytenb_modem num_ts_metrics : Byte) :
    Traced RxAccess (Except RegFailure RxPacket × RxBuffer) := do
  let pkt_num_bytes := pktNumBytes rxbytenb_modem num_ts_metrics
  let checksum_rcv ← byteAt self.buffer (self.buffer_index + pkt_num_bytes - 1)
  let checksum_calc ← pktChecksum self.buffer self.buffer_index pkt_num_bytes
  if checksum_rcv ≠ checksum_calc then
    return (.error .warning, self)
  else
    let pkt ← pktMetadata self.buffer self.buffer_index rxbytenb_modem num_ts_metrics
    if pkt.inRange = false then
      return (.error .error, self)
    else
      let payload ← readRange self.buffer .buffer (self.buffer_index + pktHeadMetadata)
        rxbytenb_modem.toNat
      return (.ok { pkt with payload }, { self with
        buffer_index := self.buffer_index + pkt_num_bytes
        buffer_pkt_nb := self.buffer_pkt_nb - 1 })

/-- `rx_buffer_pop`: the packet, or what is returned instead of it. -/
def rxBufferPop : Traced RxAccess (Except RegFailure RxPacket × RxBuffer) := do
  if self.buffer_index ≥ self.buffer_size then
    return (.error .error, self)
  else if (← syncwordAt self.buffer self.buffer_index) = false then
    return (.error .error, self)
  else
    let rxbytenb_modem ← pktPayloadLength self.buffer self.buffer_index
    let num_ts_metrics ← pktNumTsMetrics self.buffer (self.buffer_index + rxbytenb_modem.toNat)
    if self.buffer_index + pktNumBytes rxbytenb_modem num_ts_metrics > self.buffer_size then
      return (.error .warning, self)
    else
      popComplete self rxbytenb_modem num_ts_metrics

end RutosSdk.Hal
