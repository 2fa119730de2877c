import RutosSdk.Hal.RxSpec
import Mathlib.Tactic.Ring

/-! # The packet format of the RX buffer

What the packet engine writes into its FIFO for one packet, from the field macros of
`libloragw/src/loragw_sx1302_rx.c`: a head of 9 bytes, the payload, a tail of 13 bytes, the
timestamp metrics and an 8-bit sum of all that. A frame that stands in the buffer is decoded to its
fields.
-/

namespace RutosSdk.Hal

open Traced

/-- The content of one packet, with the bits that no field uses. -/
structure RxFrame where
  payload : List Byte
  length_payload : payload.length ≤ 255
  rx_channel_in : Byte
  crc_en : Bool
  coding_rate : BitVec 3
  rx_rate_sf : BitVec 4
  modem_id : Byte
  frequency_offset_error : BitVec 20
  unused_8 : BitVec 4
  payload_crc_error : Bool
  unused_9_1 : Bool
  sync_error : Bool
  header_error : Bool
  timing_set : Bool
  unused_9_5 : BitVec 3
  snr_average : Byte
  rssi_chan_avg : Byte
  rssi_signal_avg : Byte
  rssi_chan_max_delta : Byte
  rssi_sig_max_delta : Byte
  timestamp_cnt : Word
  rx_crc16_value : BitVec 16
  num_ts_metrics : ℕ
  num_ts_metrics_le : num_ts_metrics ≤ 127
  timestamp_avg : List Byte
  length_timestamp_avg : timestamp_avg.length = 2 * num_ts_metrics

namespace RxFrame

variable (f : RxFrame)

/-- The bytes in front of the payload. -/
def head : List Byte :=
  [syncwordByte0, syncwordByte1, BitVec.ofNat 8 f.payload.length, f.rx_channel_in,
    f.rx_rate_sf ++ f.coding_rate ++ BitVec.ofBool f.crc_en, f.modem_id,
    f.frequency_offset_error.extractLsb' 0 8, f.frequency_offset_error.extractLsb' 8 8,
    f.unused_8 ++ f.frequency_offset_error.extractLsb' 16 4]

/-- The bytes behind the payload. -/
def tail : List Byte :=
  [f.unused_9_5 ++ BitVec.ofBool f.timing_set ++ BitVec.ofBool f.header_error
      ++ BitVec.ofBool f.sync_error ++ BitVec.ofBool f.unused_9_1
      ++ BitVec.ofBool f.payload_crc_error,
    f.snr_average, f.rssi_chan_avg, f.rssi_signal_avg, f.rssi_chan_max_delta, f.rssi_sig_max_delta,
    f.timestamp_cnt.extractLsb' 0 8, f.timestamp_cnt.extractLsb' 8 8,
    f.timestamp_cnt.extractLsb' 16 8, f.timestamp_cnt.extractLsb' 24 8,
    f.rx_crc16_value.extractLsb' 0 8, f.rx_crc16_value.extractLsb' 8 8,
    BitVec.ofNat 8 f.num_ts_metrics]

/-- The packet without its checksum. -/
def body : List Byte := f.head ++ (f.payload ++ (f.tail ++ f.timestamp_avg))

/-- The bytes of the packet. -/
def encode : List Byte := f.body ++ [f.body.foldl (· + ·) 0]

/-- The packet that `rx_buffer_pop` makes of these bytes. -/
def toPacket : RxPacket where
  rxbytenb_modem := BitVec.ofNat 8 f.payload.length
  rx_channel_in := f.rx_channel_in
  crc_en := f.crc_en
  coding_rate := f.coding_rate.setWidth 8
  rx_rate_sf := f.rx_rate_sf.setWidth 8
  modem_id := f.modem_id
  frequency_offset_error := f.frequency_offset_error.toInt
  payload := f.payload
  payload_crc_error := f.payload_crc_error
  sync_error := f.sync_error
  header_error := f.header_error
  timing_set := f.timing_set
  snr_average := f.snr_average
  rssi_chan_avg := f.rssi_chan_avg
  rssi_signal_avg := f.rssi_signal_avg
  timestamp_cnt := f.timestamp_cnt
  rx_crc16_value := f.rx_crc16_value
  num_ts_metrics_stored := BitVec.ofNat 8 f.num_ts_metrics
  timestamp_avg := f.timestamp_avg
  timestamp_stddev := List.replicate (2 * f.num_ts_metrics) 0

theorem length_body : f.body.length = f.payload.length + 22 + 2 * f.num_ts_metrics := by
  simp only [body, head, tail, List.length_append, List.length_cons, List.length_nil,
    f.length_timestamp_avg]
  omega

theorem length_encode : f.encode.length = f.payload.length + 23 + 2 * f.num_ts_metrics := by
  rw [encode, List.length_append, length_body, List.length_singleton]
  omega

end RxFrame

/-! ## Fields of a byte -/

theorem takeNBitsFrom_eq (b : Byte) (p n : ℕ) :
    takeNBitsFrom b p n = (b.extractLsb' p n).setWidth 8 := by
  apply BitVec.eq_of_getLsbD_eq
  intro i hi
  rw [takeNBitsFrom, BitVec.getLsbD_and, BitVec.getLsbD_ushiftRight, BitVec.getLsbD_ofNat,
    Nat.testBit_two_pow_sub_one, BitVec.getLsbD_setWidth, BitVec.getLsbD_extractLsb']
  simp [hi, Bool.and_comm]

section Fields

variable {buffer : ℕ → Byte}

theorem pktBits_val (i p n : ℕ) :
    (pktBits buffer i p n).val = ((buffer i).extractLsb' p n).setWidth 8 :=
  takeNBitsFrom_eq (buffer i) p n

@[simp] theorem pktBits_byte_val (i : ℕ) : (pktBits buffer i 0 8).val = buffer i := by
  rw [pktBits_val]
  grind

@[simp] theorem pktBit_val (i p : ℕ) : (pktBit buffer i p).val = (buffer i).getLsbD p := by
  have hbit : (buffer i).extractLsb' p 1 = BitVec.ofBool ((buffer i).getLsbD p) := by grind
  rw [pktBit, bind_val, pure_val, pktBits_val, hbit]
  cases (buffer i).getLsbD p <;> rfl

theorem tsMetrics_val {start i : ℕ} {l : List Byte} (h : Holds buffer (start + i + 22) l) :
    (pktTsMetrics buffer start i l.length).val = l := by
  induction l generalizing i with
  | nil => rfl
  | cons b l ih =>
    obtain ⟨hb, hl⟩ := h
    have hbyte : buffer (start + 1 + i + 21) = b := by
      rw [← hb]
      congr 1
      omega
    have hrest := @ih (i + 1) (by convert hl using 1; omega)
    change buffer (start + 1 + i + 21) :: (pktTsMetrics buffer start (i + 1) l.length).val = b :: l
    rw [hbyte, hrest]

/-- The 20-bit two's complement value. -/
theorem freqOffsetError_eq (x : BitVec 20) :
    freqOffsetError ((x.extractLsb' 16 4).setWidth 8) (x.extractLsb' 8 8) (x.extractLsb' 0 8)
      = x.toInt := by
  simp only [freqOffsetError, BitVec.toNat_setWidth, BitVec.extractLsb'_toNat, BitVec.toInt,
    Nat.shiftRight_eq_div_pow]
  split <;> split <;> omega

end Fields

/-! ## A frame in the buffer -/

/-- The parts of a frame stand at their indices. -/
structure FrameAt (buffer : ℕ → Byte) (p : ℕ) (f : RxFrame) : Prop where
  body : Holds buffer p f.body
  head : Holds buffer p f.head
  payload : Holds buffer (p + 9) f.payload
  tail : Holds buffer (p + f.payload.length + 9) f.tail
  metrics : Holds buffer (p + f.payload.length + 22) f.timestamp_avg
  checksum : buffer (p + f.body.length) = f.body.foldl (· + ·) 0

theorem frameAt_of_holds {buffer : ℕ → Byte} {p : ℕ} {f : RxFrame}
    (h : Holds buffer p f.encode) : FrameAt buffer p f := by
  rw [RxFrame.encode, holds_append] at h
  obtain ⟨hbody, hsum⟩ := h
  have hparts := hbody
  rw [RxFrame.body, holds_append, holds_append, holds_append] at hparts
  obtain ⟨hhead, hpayload, htail, hmetrics⟩ := hparts
  refine ⟨hbody, hhead, hpayload, ?_, ?_, hsum.1⟩
  · convert htail using 1
    change _ = p + 9 + f.payload.length
    omega
  · convert hmetrics using 1
    change _ = p + 9 + f.payload.length + 13
    omega

namespace FrameAt

variable {buffer : ℕ → Byte} {p : ℕ} {f : RxFrame}

section

variable (h : FrameAt buffer p f)
include h

theorem hasSync : HasSync buffer p := ⟨h.head.1, h.head.2.1⟩

theorem payload_length : (buffer (p + 2)).toNat = f.payload.length := by
  have hlen : buffer (p + 2) = BitVec.ofNat 8 f.payload.length := h.head.2.2.1
  have := f.length_payload
  rw [hlen, BitVec.toNat_ofNat]
  omega

theorem tsIndex_eq : tsIndex buffer p = p + f.payload.length + 21 := by
  rw [tsIndex, h.payload_length]

theorem numTs_eq : numTs buffer p = f.num_ts_metrics := by
  have hnum : buffer (p + f.payload.length + 21) = BitVec.ofNat 8 f.num_ts_metrics :=
    h.tail.2.2.2.2.2.2.2.2.2.2.2.2.1
  have := f.num_ts_metrics_le
  rw [numTs, h.tsIndex_eq, hnum, BitVec.toNat_ofNat]
  omega

/-- The frame ends where its bytes do. -/
theorem frameEnd_eq : frameEnd buffer p = p + f.encode.length := by
  rw [Hal.frameEnd_eq, h.tsIndex_eq, h.numTs_eq, RxFrame.length_encode]
  omega

theorem checksumOk : ChecksumOk buffer p := by
  have hend := h.frameEnd_eq
  have hlen := f.length_encode
  have hbody := f.length_body
  have hbytes : pktNumBytes (buffer (p + 2)) (buffer (Hal.tsIndex buffer p)) - 1
      = f.body.length := by
    have : p + pktNumBytes (buffer (p + 2)) (buffer (Hal.tsIndex buffer p))
        = frameEnd buffer p := rfl
    omega
  rw [ChecksumOk, pktChecksum, hbytes, h.body.foldRange_val, ← h.checksum, hend]
  congr 1
  omega

/-- The fields of the head and the tail. -/
theorem pktFields_val :
    (pktFields buffer p (buffer (p + 2)) (buffer (Hal.tsIndex buffer p))).val
      = { f.toPacket with payload := [], timestamp_avg := [], timestamp_stddev := [] } := by
  have hlen : buffer (p + 2) = BitVec.ofNat 8 f.payload.length := h.head.2.2.1
  have hchannel : buffer (p + 3) = f.rx_channel_in := h.head.2.2.2.1
  have hflags : buffer (p + 4) = f.rx_rate_sf ++ f.coding_rate ++ BitVec.ofBool f.crc_en :=
    h.head.2.2.2.2.1
  have hmodem : buffer (p + 5) = f.modem_id := h.head.2.2.2.2.2.1
  have hfreq₀ : buffer (p + 6) = f.frequency_offset_error.extractLsb' 0 8 :=
    h.head.2.2.2.2.2.2.1
  have hfreq₁ : buffer (p + 7) = f.frequency_offset_error.extractLsb' 8 8 :=
    h.head.2.2.2.2.2.2.2.1
  have hfreq₂ : buffer (p + 8) = f.unused_8 ++ f.frequency_offset_error.extractLsb' 16 4 :=
    h.head.2.2.2.2.2.2.2.2.1
  obtain ⟨herror, hsnr, hchan, hsig, -, -, hts₀, hts₁, hts₂, hts₃, hcrc₀, hcrc₁, hnum, -⟩ := h.tail
  simp only [Nat.add_assoc, Nat.reduceAdd] at herror hsnr hchan hsig hts₀ hts₁ hts₂ hts₃
  simp only [Nat.add_assoc, Nat.reduceAdd] at hcrc₀ hcrc₁ hnum
  have hsf : ((f.rx_rate_sf ++ f.coding_rate ++ BitVec.ofBool f.crc_en).extractLsb' 4 4)
      = f.rx_rate_sf := by grind
  have hcr : ((f.rx_rate_sf ++ f.coding_rate ++ BitVec.ofBool f.crc_en).extractLsb' 1 3)
      = f.coding_rate := by grind
  have hfreq : (f.unused_8 ++ f.frequency_offset_error.extractLsb' 16 4).extractLsb' 0 4
      = f.frequency_offset_error.extractLsb' 16 4 := by grind
  simp only [pktFields, bind_val, pure_val, pktBits_byte_val, pktBit_val, h.payload_length,
    h.tsIndex_eq, Nat.add_assoc, Nat.reduceAdd]
  simp only [pktBits_val, hlen, hchannel, hflags, hmodem, hfreq₀, hfreq₁, hfreq₂, herror, hsnr,
    hchan, hsig, hts₀, hts₁, hts₂, hts₃, hcrc₀, hcrc₁, hnum, hsf, hcr, hfreq, freqOffsetError_eq]
  simp only [RxFrame.toPacket, RxPacket.mk.injEq, true_and, and_true]
  refine ⟨?_, ?_, ?_, ?_, ?_, ?_, ?_⟩ <;> grind

theorem metadataAt_eq : metadataAt buffer p = { f.toPacket with payload := [] } := by
  have hnum : (buffer (Hal.tsIndex buffer p)).toNat = f.num_ts_metrics := h.numTs_eq
  have hmetrics := @tsMetrics_val buffer (p + f.payload.length) 0 f.timestamp_avg h.metrics
  rw [f.length_timestamp_avg] at hmetrics
  rw [metadataAt, pktMetadata, bind_val, h.pktFields_val, bind_val, h.payload_length, hnum,
    hmetrics]
  rfl

theorem packetAt_eq : packetAt buffer p = f.toPacket := by
  rw [packetAt, h.metadataAt_eq, h.payload_length, h.payload.readRange_val]
  rfl

/-- A complete frame in range is decoded to its fields. -/
theorem frameVerdict_eq {size : ℕ} (hsize : p + f.encode.length ≤ size)
    (hrange : f.toPacket.inRange = true) : frameVerdict buffer size p = .ok f.toPacket := by
  have hmeta : (metadataAt buffer p).inRange = true := by
    rw [h.metadataAt_eq]
    exact hrange
  rw [frameVerdict, h.frameEnd_eq, if_pos ⟨hsize, h.checksumOk⟩, if_pos hmeta, h.packetAt_eq]

end

end FrameAt

/-! ## A sequence of frames -/

/-- The bytes of several packets, one behind the other. -/
def encodeAll (fs : List RxFrame) : List Byte := fs.flatMap RxFrame.encode

/-- The frames of a buffer that holds whole packets are these packets. -/
theorem frames_encodeAll {buffer : ℕ → Byte} {size p : ℕ} {fs : List RxFrame}
    (h : Holds buffer p (encodeAll fs)) (hsize : p + (encodeAll fs).length = size)
    (hrange : ∀ f ∈ fs, f.toPacket.inRange = true) :
    (∀ q ∈ frames buffer size size p, HasSync buffer q)
      ∧ (frames buffer size size p).map (frameVerdict buffer size)
        = fs.map fun f => .ok f.toPacket := by
  induction fs generalizing p with
  | nil =>
    have hle : size ≤ p := Nat.le_of_eq hsize.symm
    rw [frames_of_le hle]
    exact ⟨fun q hq => (by cases hq), rfl⟩
  | cons f fs ih =>
    have hcons : encodeAll (f :: fs) = f.encode ++ encodeAll fs := rfl
    rw [hcons, holds_append] at h
    rw [hcons, List.length_append] at hsize
    obtain ⟨hf, hfs⟩ := List.forall_mem_cons.mp hrange
    have hat := frameAt_of_holds h.1
    have hpos := f.length_encode
    rw [frames_of_lt (by omega) (by omega), if_pos hat.hasSync, hat.frameEnd_eq]
    obtain ⟨hsync, hverdict⟩ := ih h.2 (by omega) hfs
    refine ⟨List.forall_mem_cons.mpr ⟨hat.hasSync, hsync⟩, ?_⟩
    rw [List.map_cons, hverdict, hat.frameVerdict_eq (by omega) hf, List.map_cons]

end RutosSdk.Hal
