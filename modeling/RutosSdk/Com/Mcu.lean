import Mathlib.Data.List.GetD
import Mathlib.Tactic.SplitIfs
import RutosSdk.Lib.Bytes

/-! # SPI requests through the MCU

Reference: `libloragw/src/loragw_mcu.c`.

A transfer is the payload of one `REQ_MULTIPLE_SPI` command. Its acknowledge is read into the buffer
the command was sent from, also when that is the storage of the bulk requests. What the port does
with a transfer is an `Exchange`, so that every pattern of failures is a sequence of them; a `read`
that never returns is not modelled.
-/

namespace RutosSdk.Com

/-- `MAX_SIZE_COMMAND` -/
def maxSizeCommand : ℕ := 4200
/-- `LGW_USB_BURST_CHUNK` -/
def usbBurstChunk : ℕ := 4096

/-- `ORDER_ID__ACK_MULTIPLE_SPI` -/
def ackMultipleSpi : Byte := 0x46
/-- `MCU_SPI_REQ_TYPE_READ_WRITE` -/
def reqTypeReadWrite : Byte := 0x01
/-- `MCU_SPI_REQ_TYPE_READ_MODIFY_WRITE` -/
def reqTypeReadModifyWrite : Byte := 0x02

/-! ## One exchange -/

/-- What happens on the port during one transfer: whether the two calls to `write` succeed, the
header of the acknowledge unless it cannot be read, and the bytes that follow it up to an error. -/
structure Exchange where
  header_written : Bool
  payload_written : Bool
  hdr : Option (Vector Byte 4)
  payload : List Byte

variable (hdr : Vector Byte 4) (x : Exchange) (buf : ℕ → Byte)

/-- `cmd_get_size` -/
def cmdGetSize : ℕ := hdr[1].toNat * 256 + hdr[2].toNat

/-- `cmd_get_type` -/
def cmdGetType : Byte := hdr[3]

/-- The memory with bytes copied to its beginning. -/
def overlay (bytes : List Byte) : ℕ → Byte :=
  fun i => bytes.getD i (buf i)

/-- The first bytes of the memory. -/
def bytesOf (size : ℕ) : List Byte := (List.range size).map buf

/-- `read_ack`: whether it succeeds, and the buffer of `buf_size` bytes. -/
def readAck (buf_size : ℕ) : Bool × (ℕ → Byte) :=
  match x.hdr with
  | none => (false, buf)
  | some hdr =>
    if cmdGetType hdr < 0x40 ∨ 0x46 < cmdGetType hdr then (false, buf)
    else if buf_size < cmdGetSize hdr then (false, buf)
    else (cmdGetSize hdr ≤ x.payload.length, overlay buf (x.payload.take (cmdGetSize hdr)))

/-- The loop of `decode_ack_spi_bulk` from index `i`. Every request takes at least five bytes, so
`size` iterations are enough. -/
def decodeAckLoop (payload : ℕ → Byte) (size : ℕ) : ℕ → ℕ → Bool
  | 0, _ => true
  | fuel + 1, i =>
    if i < size then
      let req_type := payload (i + 1)
      if req_type ≠ reqTypeReadWrite ∧ req_type ≠ reqTypeReadModifyWrite then false
      else if payload (i + 2) ≠ 0 then false
      else if req_type = reqTypeReadWrite then
        let frame_size := (payload (i + 3)).toNat * 256 + (payload (i + 4)).toNat
        decodeAckLoop payload size fuel (i + (5 + frame_size))
      else decodeAckLoop payload size fuel (i + 5)
    else true

/-- `decode_ack_spi_bulk` -/
def decodeAckSpiBulk (payload : ℕ → Byte) : Bool :=
  cmdGetType hdr = ackMultipleSpi && decodeAckLoop payload (cmdGetSize hdr) (cmdGetSize hdr) 0

/-- What a transfer leaves behind: the result, the buffer, and the bytes that were sent. -/
structure Transfer where
  ok : Bool
  buf : ℕ → Byte
  sent : List Byte

/-- `mcu_spi_write`, on a buffer that holds `buf_size` bytes. -/
def mcuSpiWrite (buf_size : ℕ) : Transfer :=
  if maxSizeCommand < buf_size then ⟨false, buf, []⟩
  else if x.header_written = false then ⟨false, buf, []⟩
  else if 0 < buf_size ∧ x.payload_written = false then ⟨false, buf, []⟩
  else
    let (read, buf') := readAck x buf buf_size
    let decoded := match x.hdr with
      | none => false
      | some hdr => decodeAckSpiBulk hdr buf'
    ⟨read && decoded, buf', bytesOf buf buf_size⟩

/-! ## Stored requests -/

/-- `spi_req_bulk_t`: an `uint16_t`, an `uint8_t` and `usbBurstChunk` bytes. -/
structure SpiReqBulk where
  size : ℕ
  nb_req : ℕ
  buffer : ℕ → Byte

variable (b : SpiReqBulk)

/-- The bytes of the stored requests. -/
def SpiReqBulk.content : List Byte := bytesOf b.buffer b.size

/-- There is room for one more request of the given size. -/
def SpiReqBulk.HasRoom (req_size : ℕ) : Prop := b.nb_req ≠ 255 ∧ b.size + req_size ≤ usbBurstChunk

instance (b : SpiReqBulk) (n : ℕ) : Decidable (b.HasRoom n) := inferInstanceAs (Decidable (_ ∧ _))

/-- `spi_req_bulk_insert` -/
def spiReqBulkInsert (req : List Byte) : Bool × SpiReqBulk :=
  if b.nb_req = 255 then (false, b)
  else if usbBurstChunk < b.size + req.length then (false, b)
  else
    (true,
      { size := b.size + req.length
        nb_req := b.nb_req + 1
        buffer := fun i => if i < b.size then b.buffer i else req.getD (i - b.size) (b.buffer i) })

/-- `mcu_spi_flush`: the bulk storage is reset only after a successful transfer. -/
def mcuSpiFlush : Bool × SpiReqBulk × List Byte :=
  let t := mcuSpiWrite x b.buffer b.size
  if t.ok then (true, ⟨0, 0, t.buf⟩, t.sent) else (false, { b with buffer := t.buf }, t.sent)

/-! ## What they do -/

/-- Bytes copied to the memory are its first ones. -/
theorem bytesOf_overlay (bytes : List Byte) : bytesOf (overlay buf bytes) bytes.length = bytes :=
  List.ext_getElem (by simp [bytesOf]) fun k hk hk' => by simp [bytesOf, overlay, hk']

@[simp] theorem length_bytesOf (size : ℕ) : (bytesOf buf size).length = size := by
  simp [bytesOf]

theorem spiReqBulkInsert_of_hasRoom {b : SpiReqBulk} {req : List Byte} (h : b.HasRoom req.length) :
    (spiReqBulkInsert b req).1 = true
      ∧ (spiReqBulkInsert b req).2.size = b.size + req.length
      ∧ (spiReqBulkInsert b req).2.nb_req = b.nb_req + 1
      ∧ (spiReqBulkInsert b req).2.content = b.content ++ req := by
  obtain ⟨hnb, hsize⟩ := h
  rw [spiReqBulkInsert, if_neg hnb, if_neg (Nat.not_lt.mpr hsize)]
  refine ⟨rfl, rfl, rfl, ?_⟩
  apply List.ext_getElem
  · simp [SpiReqBulk.content]
  · intro i hi hi'
    simp only [SpiReqBulk.content, bytesOf, List.getElem_map, List.getElem_range,
      List.getElem_append, List.length_map, List.length_range]
    split
    · rfl
    · rename_i hge
      simp only [SpiReqBulk.content, length_bytesOf, List.length_append] at hi'
      rw [List.getD_eq_getElem _ _ (by omega)]

theorem spiReqBulkInsert_of_not_hasRoom {b : SpiReqBulk} {req : List Byte}
    (h : ¬b.HasRoom req.length) : spiReqBulkInsert b req = (false, b) := by
  unfold SpiReqBulk.HasRoom at h
  unfold spiReqBulkInsert
  split
  · rfl
  · rw [if_pos (by omega)]

/-- A transfer sends the whole buffer or nothing. -/
theorem sent_cases (size : ℕ) :
    (mcuSpiWrite x buf size).sent = [] ∨ (mcuSpiWrite x buf size).sent = bytesOf buf size := by
  unfold mcuSpiWrite
  split_ifs
  · exact .inl rfl
  · exact .inl rfl
  · exact .inl rfl
  · exact .inr rfl

/-- A successful transfer has sent the whole buffer. -/
theorem sent_of_ok {x : Exchange} {buf : ℕ → Byte} {size : ℕ}
    (h : (mcuSpiWrite x buf size).ok = true) :
    (mcuSpiWrite x buf size).sent = bytesOf buf size := by
  unfold mcuSpiWrite at h ⊢
  split at h
  · exact absurd h Bool.false_ne_true
  · rename_i hsize
    split at h
    · exact absurd h Bool.false_ne_true
    · rename_i hheader
      split at h
      · exact absurd h Bool.false_ne_true
      · rename_i hpayload
        rw [if_neg hsize, if_neg hheader, if_neg hpayload]

end RutosSdk.Com
