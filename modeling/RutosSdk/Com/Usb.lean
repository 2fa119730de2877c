import RutosSdk.Com.Mcu

/-! # The two clients of the USB link

Reference: `libloragw/src/loragw_usb.c` and `libloragw/src/sx1261_usb.c`.

The SX1302 and the SX1261 functions each have a write mode and a count of requests of their own, and
share the storage of bulk requests in `loragw_mcu.c`. The functions of both are one definition with
the client as a parameter; the frames differ.
-/

namespace RutosSdk.Com

inductive Client where
  | sx1302
  | sx1261
deriving DecidableEq, Repr

/-- The other client of the link. -/
def Client.other : Client → Client
  | .sx1302 => .sx1261
  | .sx1261 => .sx1302

/-- `lgw_com_write_mode_t` -/
inductive WriteMode where
  | single
  | bulk
deriving DecidableEq, Repr

/-- `_lgw_write_mode` and `_lgw_spi_req_nb`, or `_sx1261_write_mode` and `_sx1261_spi_req_nb`. -/
structure ClientState where
  write_mode : WriteMode
  spi_req_nb : Byte
deriving DecidableEq, Repr

/-- The variables of the link. -/
structure UsbState where
  client : Client → ClientState
  bulk : SpiReqBulk

/-- The initial values. -/
def UsbState.initial : UsbState := ⟨fun _ => ⟨.single, 0⟩, ⟨0, 0, fun _ => 0⟩⟩

variable (x : Exchange) (stack : ℕ → Byte) (st : UsbState) (c : Client)

/-- The variables of one client assigned. -/
def UsbState.setClient (s : ClientState) : UsbState :=
  { st with client := fun d => if d = c then s else st.client d }

/-! ## Frames -/

/-- A write request: `lgw_usb_rmw`, `lgw_usb_wb` (`lgw_usb_w` is a burst of one byte) or
`sx1261_usb_w`. The size of the frame fits the variable that holds it. -/
inductive UsbRequest where
  | rmw (address : BitVec 16) (offs leng : ℕ) (data : Byte)
  | wb (spi_mux_target : Byte) (address : BitVec 16) (data : List Byte)
      (size_lt : data.length + 8 < 65536)
  | sx1261W (op_code : Byte) (data : List Byte) (size_lt : data.length + 6 < 256)

/-- The client that makes a request. -/
def UsbRequest.client : UsbRequest → Client
  | .rmw .. | .wb .. => .sx1302
  | .sx1261W .. => .sx1261

/-- The two bytes of a size, the most significant one first. -/
def sizeBytes (n : ℕ) : List Byte := [BitVec.ofNat 8 (n / 256), BitVec.ofNat 8 n]

/-- `in_out_buf`, with the request number as its first byte. -/
def UsbRequest.frame (spi_req_nb : Byte) : UsbRequest → List Byte
  | .rmw address offs leng data =>
    [spi_req_nb, reqTypeReadModifyWrite, address.extractLsb' 8 8, address.extractLsb' 0 8,
      BitVec.ofNat 8 (((1 <<< leng) - 1) <<< offs), data <<< offs]
  | .wb spi_mux_target address data _ =>
    -- `MCU_SPI_TARGET_SX1302` is zero
    [spi_req_nb, reqTypeReadWrite, 0] ++ sizeBytes (data.length + 3)
      ++ [spi_mux_target, 0x80 ||| (address.extractLsb' 8 8 &&& 0x7F), address.extractLsb' 0 8]
      ++ data
  | .sx1261W op_code data _ =>
    -- `MCU_SPI_TARGET_SX1261` is one
    [spi_req_nb, reqTypeReadWrite, 1] ++ sizeBytes (data.length + 1) ++ [op_code] ++ data

/-- `command_size` -/
def UsbRequest.commandSize : UsbRequest → ℕ
  | .rmw .. => 6
  | .wb _ _ data _ => data.length + 8
  | .sx1261W _ data _ => data.length + 6

@[simp] theorem length_frame (spi_req_nb : Byte) (r : UsbRequest) :
    (r.frame spi_req_nb).length = r.commandSize := by
  cases r <;> simp [UsbRequest.frame, UsbRequest.commandSize, sizeBytes]

/-- A burst of at most a chunk of data to the SX1302; `LGW_SPI_MUX_TARGET_SX1302` is zero. -/
def burst (addr : BitVec 16) (data : List Byte) (h : data.length ≤ usbBurstChunk) : UsbRequest :=
  .wb 0 addr data (by unfold usbBurstChunk at h; omega)

/-- `struct lgw_reg_s`, the members that are read. -/
structure LgwReg where
  addr : BitVec 16
  offs : ℕ
  sign : Bool
  leng : ℕ
  rdon : Bool
deriving DecidableEq, Repr

/-- The request of `reg_w`: a byte is written directly, and the rest read, modified and written
back. -/
def regRequest (r : LgwReg) (reg_value : Byte) : UsbRequest :=
  if r.leng = 8 ∧ r.offs = 0 then burst r.addr [reg_value] (show 1 ≤ usbBurstChunk by decide)
  else .rmw r.addr r.offs r.leng reg_value

/-! ## Functions -/

/-- What a call leaves behind: whether it succeeds, the variables, and the bytes sent to the MCU. -/
structure UsbResult where
  ok : Bool
  state : UsbState
  sent : List Byte

/-- `lgw_usb_rmw`, `lgw_usb_wb` and `sx1261_usb_w`. In bulk mode the count goes up even if the
request could not be stored. In single mode the frame is a local buffer, followed by `stack`. -/
def usbWrite (r : UsbRequest) : UsbResult :=
  let s := st.client r.client
  let frame := r.frame s.spi_req_nb
  if s.write_mode = .bulk then
    let (ok, bulk) := spiReqBulkInsert st.bulk frame
    ⟨ok, { st.setClient r.client { s with spi_req_nb := s.spi_req_nb + 1 } with bulk := bulk }, []⟩
  else
    let t := mcuSpiWrite x (overlay stack frame) r.commandSize
    ⟨t.ok, st, t.sent⟩

/-- `lgw_usb_set_write_mode` and `sx1261_usb_set_write_mode` -/
def usbSetWriteMode (write_mode : WriteMode) : UsbState :=
  st.setClient c { st.client c with write_mode := write_mode }

/-- `lgw_usb_flush` and `sx1261_usb_flush` -/
def usbFlush : UsbResult :=
  let s := st.client c
  if s.write_mode ≠ .bulk then ⟨false, st, []⟩
  else if s.spi_req_nb = 0 then ⟨true, st.setClient c { s with write_mode := .single }, []⟩
  else
    let (ok, bulk, sent) := mcuSpiFlush x st.bulk
    ⟨ok, { st.setClient c ⟨.single, 0⟩ with bulk := bulk }, sent⟩

/-- The frame of `lgw_usb_rb` or `sx1261_usb_r`, which both refuse to read in bulk mode: whether
the read succeeds, and the bytes sent. -/
def usbRead (frame : List Byte) : Bool × List Byte :=
  if (st.client c).write_mode = .bulk then (false, [])
  else
    let t := mcuSpiWrite x (overlay stack frame) frame.length
    (t.ok, t.sent)

/-! ## What they do -/

variable {st : UsbState} {c d : Client}

@[simp] theorem client_setClient (s : ClientState) : (st.setClient c s).client c = s := if_pos rfl

theorem client_setClient_of_ne (s : ClientState) (h : d ≠ c) :
    (st.setClient c s).client d = st.client d := if_neg h

/-- A request leaves the write modes alone. -/
theorem write_mode_usbWrite (x : Exchange) (stack : ℕ → Byte) (st : UsbState) (r : UsbRequest)
    (c : Client) :
    ((usbWrite x stack st r).state.client c).write_mode = (st.client c).write_mode := by
  unfold usbWrite UsbState.setClient
  dsimp only
  split_ifs
  · dsimp only
    split_ifs with h
    · rw [h]
    · rfl
  · rfl

theorem ne_other (c : Client) : c ≠ c.other := by cases c <;> decide

theorem eq_or_eq_other (c d : Client) : d = c ∨ d = c.other := by cases c <;> cases d <;> decide

end RutosSdk.Com
