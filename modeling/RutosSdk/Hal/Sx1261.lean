import RutosSdk.Hal.Sx1302Send

/-! # Receive parameters of the SX1261

Reference: `sx1261_reg_w`, `sx1261_spectral_scan_abort` and `sx1261_set_rx_params` in
`libloragw/src/loragw_sx1261.c`, and `libloragw/inc/sx1261_defs.h`.
-/

namespace RutosSdk.Hal

open Com

/-- A call to `sx1261_reg_w`: the operation code and the data. -/
structure Sx1261Write where
  op_code : Byte
  data : List Byte
  size_lt : data.length + 6 < 256

/-- The request that a call makes. -/
def Sx1261Write.request (w : Sx1261Write) : UsbRequest := .sx1261W w.op_code w.data w.size_lt

/-- Calls to `sx1261_reg_w`, up to the first error. -/
def sx1261Writes (ws : List Sx1261Write) : ComScript Unit :=
  Script.all (fun w => comWrite w.request) ws

/-- `SX1261_WRITE_REGISTER` of the register at 0x089B. -/
def writeRssiWindow (value : Byte) : Sx1261Write := ⟨0x0D, [0x08, 0x9B, value], by simp⟩

/-- `sx1261_spectral_scan_abort` -/
def sx1261SpectralScanAbort : ComScript Unit := sx1261Writes [writeRssiWindow 0x00]

variable (freq_hz : Word) (bandwidth : Byte)

/-- `SX1261_SET_FS`, `SX1261_SET_RF_FREQUENCY`, the RSSI averaging window and
`SX1261_SET_PACKET_TYPE`. -/
def sx1261FrequencyWrites : List Sx1261Write :=
  let freq_reg := sx1250FreqToReg freq_hz
  [⟨0xC1, [], by simp⟩,
    ⟨0x86, [regByte freq_reg 3, regByte freq_reg 2, regByte freq_reg 1, regByte freq_reg 0],
      by simp⟩,
    writeRssiWindow (0x05 <<< 2),
    ⟨0x8A, [0x00], by simp⟩]

/-- `fsk_bw_reg` -/
def fskBwReg : Option Byte :=
  if bandwidth = bw125Khz then some 0x0A
  else if bandwidth = bw250Khz then some 0x09
  else none

/-- `SX1261_SET_MODULATION_PARAMS`, `SX1261_SET_PACKET_PARAMS` and `SX1261_SET_RX`. -/
def sx1261ModulationWrites (fsk_bw_reg : Byte) : List Sx1261Write :=
  [⟨0x8B, [0, 0x14, 0x00, 0x00, fsk_bw_reg, 0x02, 0xE9, 0x0F], by simp⟩,
    ⟨0x8C, [0x00, 0x20, 0x05, 0x20, 0x00, 0x01, 0xff, 0x00, 0x00], by simp⟩,
    ⟨0x82, [0xFF, 0xFF, 0xFF], by simp⟩]

/-- The calls of `sx1261_set_rx_params` in bulk mode. -/
def rxParamsWrites : ComScript Unit := do
  sx1261SpectralScanAbort
  sx1261Writes (sx1261FrequencyWrites freq_hz)
  match fskBwReg bandwidth with
  | none => Script.fail
  | some fsk_bw_reg => sx1261Writes (sx1261ModulationWrites fsk_bw_reg)

/-- `sx1261_set_rx_params` -/
def sx1261SetRxParams : ComScript Unit := bulkSession .sx1261 (rxParamsWrites freq_hz bandwidth)

end RutosSdk.Hal
