import RutosSdk.Lib.Script
import RutosSdk.Com.Memory
import RutosSdk.Com.Usb

/-! # Register and memory writes over the USB link

Reference: `libloragw/src/loragw_reg.c`, `libloragw/src/loragw_com.c` and
`libloragw/inc/loragw_reg.h`.

The registers are those that `sx1302_send` writes, with their places in the table `loregs`. The link
is the USB one: on SPI, setting the write mode and flushing do nothing.
-/

namespace RutosSdk.Hal

open Com

/-! ## Registers -/

/-- The registers `SX1302_REG_TX_TOP_*` of an RF chain, named after their field, and the mail box of
the AGC firmware. Registers of several bytes are numbered from the least significant one. -/
inductive TxReg where
  | modulationType
  | txIfSrc
  | iOffset
  | qOffset
  | agcTxPwr
  | iqGain
  | freqRf (byte : Fin 3)
  | agcTxBw
  | freqDevH | freqDevL
  | mcuMailBoxWrData (byte : Fin 3)
  | testModFreq
  | modemBw
  | preambleSymbNbH | preambleSymbNbL
  | modemSf
  | chirpLowpass
  | codingRate
  | modemEn
  | cadrxtx
  | modemStart
  | continuous
  | chirpInvert
  | implicitHeader
  | crcEn
  | peak1Pos
  | peak2Pos
  | fineSynchEn
  | payloadLength
  | ppmOffsetHdrCtrl
  | ppmOffset
  | fskPktMode
  | fskCrcEn
  | fskCrcIbm
  | fskDcfreeEnc
  | fskGaussianEn
  | fskGaussianSelectBt
  | fskRefPatternEn
  | fskRefPatternSize
  | fskRefPattern (byte : Fin 8)
  | fskPreambleSeq
  | fskBitRateMsb
  | fskPreambleSizeMsb
  | fskPktLength
  | writeBuffer
  | txTrigImmediate
  | timerDelayedTrig (byte : Fin 4)
  | txTrigDelayed
  | txTrigGps
  | txStartDelayMsb
deriving DecidableEq, Repr

/-- `SX1302_REG_TX_TOP_A_BASE_ADDR` and `SX1302_REG_TX_TOP_B_BASE_ADDR` -/
def txTopBaseAddr (rf_chain : Byte) : ℕ := if rf_chain = 0 then 0x5200 else 0x5400

/-- `SX1302_REG_AGC_MCU_BASE_ADDR` -/
def agcMcuBaseAddr : ℕ := 0x5780

/-- Place in the page, offset and length of a register in `loregs`. -/
def TxReg.layout : TxReg → ℕ × ℕ × ℕ
  | .modulationType => (9, 0, 1)
  | .txIfSrc => (32, 0, 2)
  | .iOffset => (35, 0, 8)
  | .qOffset => (36, 0, 8)
  | .agcTxPwr => (13, 0, 8)
  | .iqGain => (34, 0, 2)
  | .freqRf byte => (39 - byte, 0, 8)
  | .agcTxBw => (12, 0, 8)
  | .freqDevH => (40, 0, 4)
  | .freqDevL => (41, 0, 8)
  | .mcuMailBoxWrData byte => (12 - byte, 0, 8)
  | .testModFreq => (42, 0, 8)
  | .modemBw => (96, 4, 4)
  | .preambleSymbNbH => (103, 0, 8)
  | .preambleSymbNbL => (102, 0, 8)
  | .modemSf => (96, 0, 4)
  | .chirpLowpass => (105, 4, 3)
  | .codingRate => (97, 0, 3)
  | .modemEn => (98, 6, 1)
  | .cadrxtx => (98, 4, 2)
  | .modemStart => (101, 7, 1)
  | .continuous => (105, 0, 1)
  | .chirpInvert => (105, 1, 1)
  | .implicitHeader => (98, 1, 1)
  | .crcEn => (98, 0, 1)
  | .peak1Pos => (109, 0, 5)
  | .peak2Pos => (110, 0, 5)
  | .fineSynchEn => (98, 7, 1)
  | .payloadLength => (99, 0, 8)
  | .ppmOffsetHdrCtrl => (97, 6, 2)
  | .ppmOffset => (97, 4, 2)
  | .fskPktMode => (65, 0, 1)
  | .fskCrcEn => (65, 1, 1)
  | .fskCrcIbm => (65, 4, 1)
  | .fskDcfreeEnc => (65, 2, 2)
  | .fskGaussianEn => (70, 0, 1)
  | .fskGaussianSelectBt => (70, 1, 2)
  | .fskRefPatternEn => (70, 3, 1)
  | .fskRefPatternSize => (70, 5, 3)
  | .fskRefPattern byte => (78 - byte, 0, 8)
  | .fskPreambleSeq => (70, 4, 1)
  | .fskBitRateMsb => (68, 0, 8)
  | .fskPreambleSizeMsb => (66, 0, 8)
  | .fskPktLength => (64, 0, 8)
  | .writeBuffer => (7, 0, 1)
  | .txTrigImmediate => (0, 0, 1)
  | .timerDelayedTrig byte => (4 - byte, 0, 8)
  | .txTrigDelayed => (0, 1, 1)
  | .txTrigGps => (0, 2, 1)
  | .txStartDelayMsb => (5, 0, 8)

/-- The entry of `loregs` for an RF chain; none of them is read-only, and two are signed. -/
def TxReg.loreg (r : TxReg) (rf_chain : Byte) : LgwReg :=
  let base := match r with
    | .mcuMailBoxWrData _ => agcMcuBaseAddr
    | _ => txTopBaseAddr rf_chain
  ⟨BitVec.ofNat 16 (base + r.layout.1), r.layout.2.1, r = .peak1Pos ∨ r = .peak2Pos, r.layout.2.2,
    false⟩

/-! ## The link -/

/-- The USB link with what the port will do with the transfers to come. -/
structure Link where
  usb : UsbState
  port : ℕ → Exchange
  stack : ℕ → Byte

/-- A sequence of calls on the link. -/
abbrev ComScript := Script Link

/-- `lgw_com_w`, `lgw_com_rmw`, `lgw_com_wb` and `sx1261_com_w`. In bulk mode nothing is
transferred. -/
def comWrite (r : UsbRequest) : ComScript Unit := fun l =>
  let res := usbWrite (l.port 0) l.stack l.usb r
  let port := if (l.usb.client r.client).write_mode = .bulk then l.port else fun n => l.port (n + 1)
  (if res.ok then some () else none, { l with usb := res.state, port := port })

/-- `lgw_com_set_write_mode` and `sx1261_com_set_write_mode` -/
def comSetWriteMode (c : Client) (write_mode : WriteMode) : ComScript Unit := fun l =>
  (some (), { l with usb := usbSetWriteMode l.usb c write_mode })

/-- `lgw_com_flush` and `sx1261_com_flush`. Without a counted request nothing is transferred. -/
def comFlush (c : Client) : ComScript Unit := fun l =>
  let res := usbFlush (l.port 0) l.usb c
  let port := if (l.usb.client c).spi_req_nb = 0 then l.port else fun n => l.port (n + 1)
  (if res.ok then some () else none, { l with usb := res.state, port := port })

/-- Calls in bulk mode, as `sx1302_send` and `sx1261_set_rx_params` make them: the mode is set, the
requests are stored, flushed, and the mode is set back. An error returns at once. -/
def bulkSession (c : Client) (calls : ComScript Unit) : ComScript Unit := do
  comSetWriteMode c .bulk
  calls
  comFlush c
  comSetWriteMode c .single

/-! ## Writes -/

/-- A call to `lgw_reg_w`, which keeps the low byte of the value, or to `lgw_reg_wb` with two bytes,
the most significant one first. -/
inductive TxWrite where
  | w (r : TxReg) (reg_value : Byte)
  | wb (r : TxReg) (data : BitVec 16)
deriving DecidableEq, Repr

/-- The request that a call makes. -/
def TxWrite.request (rf_chain : Byte) : TxWrite → UsbRequest
  | .w r reg_value => regRequest (r.loreg rf_chain) reg_value
  | .wb r data => burst (r.loreg rf_chain).addr [data.extractLsb' 8 8, data.extractLsb' 0 8]
      (show 2 ≤ usbBurstChunk by decide)

/-- Calls to `lgw_reg_w` and `lgw_reg_wb`, up to the first error. -/
def regWrites (rf_chain : Byte) (ws : List TxWrite) : ComScript Unit :=
  Script.all (fun w => comWrite (w.request rf_chain)) ws

/-- The writes of the branch that a `switch` takes; its default is an error. -/
def regSwitch (rf_chain : Byte) : Option (List TxWrite) → ComScript Unit
  | none => Script.fail
  | some ws => regWrites rf_chain ws

/-- One chunk of `lgw_mem_wb`, with the bytes of the buffer from its place on. -/
def memChunk (data : ℕ → Byte) (k : ℕ) (addr : BitVec 16) (size : ℕ) : UsbRequest :=
  burst addr (bytesOf (fun i => data (k * usbBurstChunk + i)) (min usbBurstChunk size))
    (by rw [length_bytesOf]; exact Nat.min_le_left _ _)

/-- The burst of a chunk: its status, and the link. -/
def memBurst (data : ℕ → Byte) (k : ℕ) (addr : BitVec 16) (size : ℕ) (l : Link) : Bool × Link :=
  let (res, l) := comWrite (memChunk data k addr size) l
  (res.isSome, l)

/-- `lgw_mem_wb` -/
def lgwMemWb (mem_addr : BitVec 16) (data : ℕ → Byte) (size : BitVec 16) : ComScript Unit :=
  fun l =>
    let (ok, l) := Memory.memTransfer usbBurstChunk (memBurst data) false mem_addr size.toNat l
    (if ok then some () else none, l)

end RutosSdk.Hal
