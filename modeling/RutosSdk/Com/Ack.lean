import RutosSdk.Com.Usb
import RutosSdk.Lib.Records

/-! # What an acknowledge says about the requests

Reference: `decode_ack_spi_bulk`, `mcu_spi_write` in `libloragw/src/loragw_mcu.c` and `lgw_usb_rb`
in `libloragw/src/loragw_usb.c`.

The acknowledge of a transfer should hold one record per request. The decoder walks it from record
to record without looking at the requests, and without looking whether a record ends within the
bytes received: behind those stand the bytes of the request that the buffer was sent with.
-/

namespace RutosSdk.Com

open Records

/-! ## Requests and records -/

/-- One request of a transfer; the size of a frame takes two bytes. -/
inductive SpiReq where
  | readWrite (req_id target : Byte) (frame : List Byte) (size_lt : frame.length < 65536)
  | readModifyWrite (req_id address_msb address_lsb bitmask data : Byte)

/-- The bytes of a request. -/
def SpiReq.encode : SpiReq → List Byte
  | .readWrite req_id target frame _ =>
    [req_id, reqTypeReadWrite, target] ++ sizeBytes frame.length ++ frame
  | .readModifyWrite req_id address_msb address_lsb bitmask data =>
    [req_id, reqTypeReadModifyWrite, address_msb, address_lsb, bitmask, data]

/-- The record of a request that was carried out. -/
inductive SpiAck where
  | readWrite (req_id : Byte) (frame : List Byte) (size_lt : frame.length < 65536)
  | readModifyWrite (req_id read_value modified_value : Byte)

/-- The bytes of a record, `SPI_STATUS_OK` among them. -/
def SpiAck.encode : SpiAck → List Byte
  | .readWrite req_id frame _ =>
    [req_id, reqTypeReadWrite, 0] ++ sizeBytes frame.length ++ frame
  | .readModifyWrite req_id read_value modified_value =>
    [req_id, reqTypeReadModifyWrite, 0, read_value, modified_value]

/-- The record belongs to the request: it has its number and type, and a frame as long. -/
def SpiAck.Answers : SpiAck → SpiReq → Prop
  | .readWrite req_id frame _, .readWrite req_id' _ frame' _ =>
    req_id = req_id' ∧ frame.length = frame'.length
  | .readModifyWrite req_id _ _, .readModifyWrite req_id' _ _ _ _ => req_id = req_id'
  | _, _ => False

variable (payload : ℕ → Byte) (x : Exchange) (stack : ℕ → Byte) (reqs : List SpiReq)

/-- The bytes are one record per request, in order. -/
def AnsweredBy (bytes : List Byte) : Prop :=
  ∃ acks, bytes = acks.flatMap SpiAck.encode ∧ List.Forall₂ SpiAck.Answers acks reqs

/-! ## The reader of a record -/

/-- The two bytes of a frame size. -/
def frameSize (i : ℕ) : ℕ := (payload (i + 3)).toNat * 256 + (payload (i + 4)).toNat

theorem frameSize_lt (i : ℕ) : frameSize payload i < 65536 := by
  unfold frameSize
  omega

theorem frameSize_eq_iff {payload : ℕ → Byte} {i n : ℕ} (hn : n < 65536) :
    frameSize payload i = n ↔ Stands payload (i + 3) (sizeBytes n) := by
  simp only [frameSize, sizeBytes, Stands, and_true, ← BitVec.toNat_inj, BitVec.toNat_ofNat,
    Nat.add_assoc, Nat.reduceAdd]
  omega

/-- The record at index `i`, if its type is known and its status is right. -/
def ackAt (i : ℕ) : Option SpiAck :=
  if payload (i + 2) ≠ 0 then none
  else if payload (i + 1) = reqTypeReadWrite then
    some (.readWrite (payload i)
      ((List.range (frameSize payload i)).map fun k => payload (i + 5 + k))
      (by simpa using frameSize_lt payload i))
  else if payload (i + 1) = reqTypeReadModifyWrite then
    some (.readModifyWrite (payload i) (payload (i + 3)) (payload (i + 4)))
  else none

variable {i buf_size : ℕ} {hdr : Vector Byte 4} {buf : ℕ → Byte}

theorem ackAt_eq_some_iff {payload : ℕ → Byte} {ack : SpiAck} :
    ackAt payload i = some ack ↔ Stands payload i ack.encode := by
  have hne : reqTypeReadModifyWrite ≠ reqTypeReadWrite := by decide
  have hne' := hne.symm
  cases ack with
  | readWrite req_id frame size_lt =>
    have hframe := @stands_iff_eq_map _ payload (i + 5) frame
    have hsize := @frameSize_eq_iff payload i frame.length size_lt
    rw [SpiAck.encode, stands_append, stands_append]
    simp only [Stands, List.length_append, List.length_cons, List.length_nil, and_true,
      show (sizeBytes frame.length).length = 2 from rfl, Nat.add_assoc, Nat.reduceAdd]
    rw [← hsize, hframe]
    unfold ackAt
    split_ifs with hstatus htype htype'
    · simp_all
    · rw [Option.some.injEq, SpiAck.readWrite.injEq]
      constructor
      · rintro ⟨rfl, rfl⟩
        simp_all
      · rintro ⟨⟨⟨rfl, -, -⟩, hlen⟩, heq⟩
        exact ⟨rfl, by rw [hlen]; exact heq.symm⟩
    · simp_all
    · simp_all
  | readModifyWrite req_id read_value modified_value =>
    simp only [SpiAck.encode, Stands, and_true, ackAt, Nat.add_assoc, Nat.reduceAdd]
    split_ifs with hstatus htype htype'
    · simp_all
    · simp_all
    · simp_all
    · simp_all

/-- The format of an acknowledge. -/
def ackFormat : Format Byte SpiAck where
  encode := SpiAck.encode
  encode_ne_nil ack := by cases ack <;> simp [SpiAck.encode]
  readAt := ackAt
  readAt_eq_some_iff := ackAt_eq_some_iff

/-! ## The walk of the decoder -/

theorem length_encode_readWrite (req_id : Byte) (frame : List Byte)
    (size_lt : frame.length < 65536) :
    (SpiAck.readWrite req_id frame size_lt).encode.length = 5 + frame.length := by
  simp [SpiAck.encode, sizeBytes]
  omega

/-- One turn of the loop of `decode_ack_spi_bulk` reads one record. -/
theorem decodeAckLoop_succ {size : ℕ} (fuel : ℕ) (hi : i < size) :
    decodeAckLoop payload size (fuel + 1) i
      = match ackAt payload i with
        | none => false
        | some ack => decodeAckLoop payload size fuel (i + ack.encode.length) := by
  have hne : reqTypeReadModifyWrite ≠ reqTypeReadWrite := by decide
  rw [decodeAckLoop, if_pos hi, ackAt]
  by_cases hstatus : payload (i + 2) = 0#8
  · by_cases htype : payload (i + 1) = reqTypeReadWrite
    · simp [hstatus, htype, frameSize, length_encode_readWrite]
    · by_cases htype' : payload (i + 1) = reqTypeReadModifyWrite
      · simp [hstatus, htype', hne, SpiAck.encode]
      · simp [hstatus, htype, htype']
  · simp [hstatus]

/-- With a turn for each byte left, the loop accepts what it can walk. -/
theorem decodeAckLoop_eq_true_iff {size fuel : ℕ} (hfuel : size ≤ fuel + i) :
    decodeAckLoop payload size fuel i = true ↔ ∃ acks, Walk ackFormat payload size i acks := by
  induction fuel generalizing i with
  | zero =>
    rw [decodeAckLoop]
    exact ⟨fun _ => ⟨[], .done (by omega)⟩, fun _ => rfl⟩
  | succ fuel ih =>
    by_cases hi : i < size
    · rw [decodeAckLoop_succ payload fuel hi]
      cases hack : ackAt payload i with
      | none =>
        refine ⟨nofun, ?_⟩
        rintro ⟨acks, hwalk⟩
        cases hwalk with
        | done hdone => omega
        | next _ hread _ => exact absurd (hack.symm.trans hread) nofun
      | some ack =>
        have hpos := List.length_pos_iff.mpr (ackFormat.encode_ne_nil ack)
        change 0 < ack.encode.length at hpos
        rw [ih (by omega)]
        constructor
        · rintro ⟨acks, hwalk⟩
          exact ⟨ack :: acks, .next hi hack hwalk⟩
        · rintro ⟨acks, hwalk⟩
          cases hwalk with
          | done hdone => omega
          | next _ hread hrest =>
            obtain rfl := Option.some.inj (hack.symm.trans hread)
            exact ⟨_, hrest⟩
    · rw [decodeAckLoop, if_neg hi]
      exact ⟨fun _ => ⟨[], .done (by omega)⟩, fun _ => rfl⟩

/-! ## The transfer -/

/-- The bytes of the acknowledge that the header announces. -/
def received (hdr : Vector Byte 4) : List Byte := x.payload.take (cmdGetSize hdr)

/-- The acknowledge comes as far as the decoder, and with the right type. -/
structure Delivered (x : Exchange) (hdr : Vector Byte 4) (buf_size : ℕ) : Prop where
  size_le : buf_size ≤ maxSizeCommand
  header_written : x.header_written = true
  payload_written : 0 < buf_size → x.payload_written = true
  hdr_eq : x.hdr = some hdr
  type_eq : cmdGetType hdr = ackMultipleSpi
  fits : cmdGetSize hdr ≤ buf_size
  complete : cmdGetSize hdr ≤ x.payload.length

/-- The bytes are right records, or end inside of one that the buffer they are read into
completes. -/
def Taken (buf : ℕ → Byte) (bytes : List Byte) : Prop :=
  Whole ackFormat bytes ∨ CutOff ackFormat buf 0 bytes

/-- Bytes copied to the beginning of the memory stand there. -/
theorem stands_overlay (buf : ℕ → Byte) (bytes : List Byte) :
    Stands (overlay buf bytes) 0 bytes := by
  refine stands_iff_eq_map.mpr (List.ext_getElem (by simp) ?_)
  intro k hk hk'
  simp [overlay, List.getElem?_eq_getElem hk]

/-- Behind them the memory is as it was. -/
theorem stands_overlay_behind (buf : ℕ → Byte) {bytes cells : List Byte}
    (hi : bytes.length ≤ i) : Stands (overlay buf bytes) i cells ↔ Stands buf i cells := by
  induction cells generalizing i with
  | nil => exact Iff.rfl
  | cons a cells ih =>
    rw [Stands, Stands, ih (by omega), overlay, List.getD_eq_getElem?_getD,
      List.getElem?_eq_none hi, Option.getD_none]

/-- A walk accepts the bytes copied to the memory if they are taken. -/
theorem exists_walk_overlay_iff (buf : ℕ → Byte) (bytes : List Byte) :
    (∃ acks, Walk ackFormat (overlay buf bytes) bytes.length 0 acks) ↔ Taken buf bytes := by
  have hwalk := @exists_walk_iff _ _ _ _ ackFormat _ (stands_overlay buf bytes)
  rw [Nat.zero_add] at hwalk
  rw [hwalk, Taken]
  simp only [CutOff, Nat.zero_add, stands_overlay_behind buf (Nat.le_refl bytes.length)]

theorem Delivered.length_received {x : Exchange} (h : Delivered x hdr buf_size) :
    (received x hdr).length = cmdGetSize hdr := by
  rw [received, List.length_take, Nat.min_eq_left h.complete]

/-- A delivered acknowledge is copied over the request and walked. -/
theorem mcuSpiWrite_of_delivered {x : Exchange} (h : Delivered x hdr buf_size) (buf : ℕ → Byte) :
    mcuSpiWrite x buf buf_size
      = ⟨decodeAckLoop (overlay buf (received x hdr)) (cmdGetSize hdr) (cmdGetSize hdr) 0,
          overlay buf (received x hdr), bytesOf buf buf_size⟩ := by
  have hpayload : ¬ (0 < buf_size ∧ x.payload_written = false) := by
    rintro ⟨hpos, hfalse⟩
    rw [h.payload_written hpos] at hfalse
    cases hfalse
  rw [mcuSpiWrite, if_neg (Nat.not_lt.mpr h.size_le), if_neg (by simp [h.header_written]),
    if_neg hpayload]
  simp only [readAck, h.hdr_eq, if_neg (Nat.not_lt.mpr h.fits), h.complete, decodeAckSpiBulk,
    h.type_eq, decide_true, Bool.true_and]
  rfl

/-- The exchange ends with an acknowledge that is delivered and taken. -/
def Acknowledged (buf : ℕ → Byte) (buf_size : ℕ) : Prop :=
  ∃ hdr, Delivered x hdr buf_size ∧ Taken buf (received x hdr)

/-- It succeeds exactly if it is acknowledged. -/
theorem mcuSpiWrite_ok_iff {x : Exchange} :
    (mcuSpiWrite x buf buf_size).ok = true ↔ Acknowledged x buf buf_size := by
  have hloop : ∀ {hdr}, Delivered x hdr buf_size →
      (decodeAckLoop (overlay buf (received x hdr)) (cmdGetSize hdr) (cmdGetSize hdr) 0 = true
        ↔ Taken buf (received x hdr)) := by
    intro hdr hdel
    rw [decodeAckLoop_eq_true_iff _ (Nat.le_add_right _ _), ← exists_walk_overlay_iff,
      hdel.length_received]
  constructor
  · intro h
    suffices hdel : ∃ hdr, Delivered x hdr buf_size by
      obtain ⟨hdr, hdel⟩ := hdel
      rw [mcuSpiWrite_of_delivered hdel] at h
      exact ⟨hdr, hdel, (hloop hdel).mp h⟩
    unfold mcuSpiWrite at h
    split_ifs at h with hsize hheader hpayload
    cases hhdr : x.hdr with
    | none => simp [readAck, hhdr] at h
    | some hdr =>
      simp only [readAck, hhdr] at h
      split_ifs at h with htype hfits
      · simp at h
      · simp at h
      · simp only [decodeAckSpiBulk, Bool.and_eq_true, decide_eq_true_eq] at h
        refine ⟨hdr, by omega, by simpa using hheader, ?_, hhdr, h.2.1, by omega, h.1⟩
        intro hpos
        simpa [hpos] using hpayload
  · rintro ⟨hdr, hdel, htaken⟩
    rw [mcuSpiWrite_of_delivered hdel]
    exact (hloop hdel).mpr htaken

/-! ## The read -/

/-- The request of `lgw_usb_rb` for as many bytes as `data` has. -/
def readRequest (spi_mux_target : Byte) (address : BitVec 16) (data : List Byte)
    (size_lt : data.length + 9 < 65536) : SpiReq :=
  -- `MCU_SPI_TARGET_SX1302` is zero, and so is the number of the request
  .readWrite 0 0
    ([spi_mux_target, address.extractLsb' 8 8 &&& 0x7F, address.extractLsb' 0 8, 0] ++ data)
    (by simp; omega)

/-- `lgw_usb_rb`: the bytes copied to `data` on success. -/
def lgwUsbRb (st : UsbState) (spi_mux_target : Byte) (address : BitVec 16) (data : List Byte)
    (size_lt : data.length + 9 < 65536) : Option (List Byte) :=
  if (st.client .sx1302).write_mode = .bulk then none
  else
    let in_out_buf := (readRequest spi_mux_target address data size_lt).encode
    let t := mcuSpiWrite x (overlay stack in_out_buf) (data.length + 9)
    if t.ok then some ((List.range data.length).map fun i => t.buf (9 + i)) else none

/-! ## What a success means -/

/-- The requests as they are sent, in front of what stands behind the buffer. -/
def requestBuffer : ℕ → Byte := overlay stack (reqs.flatMap SpiReq.encode)

/-- A transfer that succeeds has an acknowledge that is one record per request. -/
def TransferAnswered : Prop :=
  (mcuSpiWrite x (requestBuffer stack reqs) (reqs.flatMap SpiReq.encode).length).ok = true →
    ∃ hdr, x.hdr = some hdr ∧ AnsweredBy reqs (received x hdr)

/-- An acknowledge that is delivered does not end inside of a record that the request behind it
completes, and right records in it are those of the requests. -/
structure OwnAck (x : Exchange) (stack : ℕ → Byte) (reqs : List SpiReq) : Prop where
  complete : ∀ hdr, Delivered x hdr (reqs.flatMap SpiReq.encode).length →
    ¬CutOff ackFormat (requestBuffer stack reqs) 0 (received x hdr)
  own : ∀ hdr acks, Delivered x hdr (reqs.flatMap SpiReq.encode).length →
    received x hdr = acks.flatMap SpiAck.encode → List.Forall₂ SpiAck.Answers acks reqs

/-- An answer is the own acknowledge. -/
theorem transferAnswered_iff : TransferAnswered x stack reqs ↔ OwnAck x stack reqs := by
  constructor
  · intro h
    have hanswered : ∀ hdr, Delivered x hdr (reqs.flatMap SpiReq.encode).length →
        Taken (requestBuffer stack reqs) (received x hdr) → AnsweredBy reqs (received x hdr) := by
      intro hdr hdel htaken
      obtain ⟨hdr', hhdr', hanswered⟩ := h (mcuSpiWrite_ok_iff.mpr ⟨hdr, hdel, htaken⟩)
      obtain rfl := Option.some.inj (hdel.hdr_eq.symm.trans hhdr')
      exact hanswered
    have hstands := fun hdr => stands_overlay (requestBuffer stack reqs) (received x hdr)
    refine ⟨fun hdr hdel hcut => ?_, fun hdr acks hdel heq => ?_⟩
    · obtain ⟨acks, heq, -⟩ := hanswered hdr hdel (.inr hcut)
      refine @CutOff.not_whole _ _ _ _ ackFormat _ ?_ (hstands hdr) ⟨acks, heq⟩
      simpa only [CutOff, Nat.zero_add, stands_overlay_behind _ (Nat.le_refl _)] using hcut
    · obtain ⟨acks', heq', hanswers⟩ := hanswered hdr hdel (.inl ⟨acks, heq⟩)
      have hall : ackFormat.encodeAll acks = ackFormat.encodeAll acks' := heq.symm.trans heq'
      rwa [eq_of_encodeAll_eq (heq ▸ hstands hdr) hall]
  · intro h hok
    obtain ⟨hdr, hdel, ⟨acks, heq⟩ | hcut⟩ := mcuSpiWrite_ok_iff.mp hok
    · exact ⟨hdr, hdel.hdr_eq, acks, heq, h.own hdr acks hdel heq⟩
    · exact absurd hcut (h.complete hdr hdel)

section Read

variable (x : Exchange) (stack : ℕ → Byte) (st : UsbState) (spi_mux_target : Byte)
  (address : BitVec 16) (data : List Byte) (size_lt : data.length + 9 < 65536)

/-- A read that succeeds hands out bytes of the acknowledge. -/
def ReadFromAck : Prop :=
  ∀ out, lgwUsbRb x stack st spi_mux_target address data size_lt = some out →
    ∃ hdr, x.hdr = some hdr ∧ out = ((received x hdr).drop 9).take data.length

/-- An acknowledge of the read that is delivered and taken is as long as the request. -/
def ReadCovered : Prop :=
  (st.client .sx1302).write_mode ≠ .bulk →
    ∀ hdr, Delivered x hdr (data.length + 9) →
      Taken (requestBuffer stack [readRequest spi_mux_target address data size_lt])
          (received x hdr) →
        data = [] ∨ data.length + 9 ≤ cmdGetSize hdr

theorem readFromAck_iff :
    ReadFromAck x stack st spi_mux_target address data size_lt
      ↔ ReadCovered x stack st spi_mux_target address data size_lt := by
  have hbuf : overlay stack (readRequest spi_mux_target address data size_lt).encode
      = requestBuffer stack [readRequest spi_mux_target address data size_lt] := by
    simp [requestBuffer]
  unfold ReadFromAck ReadCovered
  simp only [lgwUsbRb, hbuf]
  constructor
  · intro h hmode hdr hdel htaken
    have hok := mcuSpiWrite_ok_iff.mpr ⟨hdr, hdel, htaken⟩
    rw [if_neg hmode, if_pos hok] at h
    obtain ⟨hdr', hhdr', heq⟩ := h _ rfl
    obtain rfl := Option.some.inj (hdel.hdr_eq.symm.trans hhdr')
    have hlen := congrArg List.length heq
    rw [List.length_map, List.length_range, List.length_take, List.length_drop,
      hdel.length_received] at hlen
    by_cases hnil : data = []
    · exact .inl hnil
    · have := List.length_pos_iff.mpr hnil
      exact .inr (by omega)
  · intro h out hout
    split_ifs at hout with hmode hok
    obtain ⟨hdr, hdel, htaken⟩ := mcuSpiWrite_ok_iff.mp hok
    obtain rfl := Option.some.inj hout
    refine ⟨hdr, hdel.hdr_eq, ?_⟩
    rw [mcuSpiWrite_of_delivered hdel]
    have hreceived := hdel.length_received
    rcases h hmode hdr hdel htaken with rfl | hle
    · rfl
    · refine List.ext_getElem (by simp; omega) ?_
      intro k hk hk'
      simp only [List.length_map, List.length_range] at hk
      simp [overlay, List.getElem?_eq_getElem (show 9 + k < (received x hdr).length by omega)]

end Read

/-- The acknowledge of a successful transfer is one record per request in order exactly if it is one
of these requests and not cut off inside of a record that the buffer completes; a successful read
hands out bytes of the acknowledge exactly if that is as long as the request. -/
theorem mcuSpiWrite_answered_iff (x : Exchange) (stack : ℕ → Byte) :
    (∀ reqs, TransferAnswered x stack reqs ↔ OwnAck x stack reqs)
      ∧ ∀ st spi_mux_target address data size_lt,
        ReadFromAck x stack st spi_mux_target address data size_lt
          ↔ ReadCovered x stack st spi_mux_target address data size_lt :=
  ⟨transferAnswered_iff x stack, readFromAck_iff x stack⟩

/-- The acknowledge of a read-modify-write that comes late, during the next exchange. -/
def lateAck : Exchange := ⟨true, true, some #v[7, 0, 5, 0x46], [0, reqTypeReadModifyWrite, 0, 0, 1]⟩

/-- A read of one byte takes it for its own, and hands out the byte it was called with. -/
theorem mcuSpiWrite_not_answered :
    ¬ TransferAnswered lateAck (fun _ => 0) [readRequest 0 0x5600 [0xAA] (by decide)]
      ∧ lgwUsbRb lateAck (fun _ => 0) .initial 0 0x5600 [0xAA] (by decide) = some [0xAA] := by
  refine ⟨?_, by decide⟩
  intro h
  obtain ⟨hdr, hhdr, acks, heq, hanswers⟩ := h (by decide)
  obtain rfl := Option.some.inj hhdr
  -- the only record is one of five bytes, and no frame of a read is as short
  cases hanswers with
  | @cons ack _ rest _ hack hrest =>
    cases hrest
    cases ack with
    | readWrite req_id frame size_lt =>
      have hbytes : 5 = 5 + frame.length := by
        have := congrArg List.length heq
        rwa [List.flatMap_cons, List.flatMap_nil, List.append_nil, length_encode_readWrite] at this
      have hframe : frame.length = 5 := hack.2
      omega
    | readModifyWrite req_id read_value modified_value => exact hack

end RutosSdk.Com
