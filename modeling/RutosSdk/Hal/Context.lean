import RutosSdk.Lib.Bytes

/-! # HAL constants, packets and configuration context

Reference: `libloragw/inc/loragw_hal.h`.

Fixed-width integers are bit vectors, signed ones included. The structures carry the fields that
the modelled functions read or write.
-/

namespace RutosSdk.Hal

/-- `LGW_RF_CHAIN_NB` -/
abbrev rfChainNb : ℕ := 2
/-- `LGW_IF_CHAIN_NB` -/
abbrev ifChainNb : ℕ := 10

/-! ## Parameter values -/

def modUndefined : Byte := 0x00
def modCw : Byte := 0x08
def modLora : Byte := 0x10
def modFsk : Byte := 0x20

def bwUndefined : Byte := 0x00
def bw500Khz : Byte := 0x06
def bw250Khz : Byte := 0x05
def bw125Khz : Byte := 0x04

def drUndefined : Word := 0
def drFskMin : Word := 500
def drFskMax : Word := 250000

def crUndefined : Byte := 0

def statUndefined : Byte := 0x00
def statNoCrc : Byte := 0x01
def statCrcBad : Byte := 0x11
def statCrcOk : Byte := 0x10

def txImmediate : Byte := 0
def txTimestamped : Byte := 1
def txOnGps : Byte := 2

/-- `IS_LORA_BW` -/
def isLoraBw (bw : Byte) : Bool := bw == bw125Khz || bw == bw250Khz || bw == bw500Khz

/-- `IS_LORA_DR`, at the width of the datarate it is applied to. -/
def isLoraDr {w : ℕ} (dr : BitVec w) : Bool := 5 ≤ dr.toNat && dr.toNat ≤ 12

/-- `IS_LORA_CR` -/
def isLoraCr (cr : Byte) : Bool := 1 ≤ cr.toNat && cr.toNat ≤ 4

/-- `IS_FSK_DR` -/
def isFskDr (dr : Word) : Bool := drFskMin ≤ dr && dr ≤ drFskMax

/-- `IS_TX_MODE` -/
def isTxMode (mode : Byte) : Bool := mode == txImmediate || mode == txTimestamped || mode == txOnGps

/-! ## Packets -/

/-- `struct lgw_pkt_tx_s` -/
structure LgwPktTx where
  freq_hz : Word
  tx_mode : Byte
  count_us : Word
  rf_chain : Byte
  rf_power : Byte
  modulation : Byte
  freq_offset : Byte
  bandwidth : Byte
  datarate : Word
  coderate : Byte
  invert_pol : Bool
  f_dev : Byte
  preamble : BitVec 16
  no_crc : Bool
  no_header : Bool
  size : BitVec 16
  payload : Vector Byte 256
deriving DecidableEq, Repr

/-- A packet cleared with `memset`. -/
def LgwPktTx.zero : LgwPktTx where
  freq_hz := 0
  tx_mode := 0
  count_us := 0
  rf_chain := 0
  rf_power := 0
  modulation := 0
  freq_offset := 0
  bandwidth := 0
  datarate := 0
  coderate := 0
  invert_pol := false
  f_dev := 0
  preamble := 0
  no_crc := false
  no_header := false
  size := 0
  payload := Vector.replicate 256 0

instance : Inhabited LgwPktTx := ⟨LgwPktTx.zero⟩

/-! ## Configuration -/

/-- `struct lgw_rssi_tcomp_s` -/
structure LgwRssiTcomp where
  coeff_a : Float32
  coeff_b : Float32
  coeff_c : Float32
  coeff_d : Float32
  coeff_e : Float32

/-- `struct lgw_conf_rxrf_s` -/
structure LgwConfRxrf where
  enable : Bool
  freq_hz : Word
  rssi_offset : Float32
  rssi_tcomp : LgwRssiTcomp
  tx_enable : Bool

/-- `struct lgw_conf_rxif_s` -/
structure LgwConfRxif where
  rf_chain : Byte
  freq_hz : Word
  bandwidth : Byte
  datarate : Word
  sync_word_size : Byte
  implicit_hdr : Bool
  implicit_crc_en : Bool
  implicit_coderate : Byte

/-- `struct lgw_context_s` -/
structure LgwContext where
  is_started : Bool
  rf_chain_cfg : Vector LgwConfRxrf rfChainNb
  if_chain_cfg : Vector LgwConfRxif ifChainNb
  lora_service_cfg : LgwConfRxif
  fsk_cfg : LgwConfRxif
  ftime_enable : Bool

/-- An RF chain configuration cleared by static initialisation. -/
def LgwConfRxrf.zero : LgwConfRxrf where
  enable := false
  freq_hz := 0
  rssi_offset := 0
  rssi_tcomp := ⟨0, 0, 0, 0, 0⟩
  tx_enable := false

/-- An IF chain configuration cleared by static initialisation. -/
def LgwConfRxif.zero : LgwConfRxif where
  rf_chain := 0
  freq_hz := 0
  bandwidth := 0
  datarate := 0
  sync_word_size := 0
  implicit_hdr := false
  implicit_crc_en := false
  implicit_coderate := 0

instance : Inhabited LgwConfRxrf := ⟨LgwConfRxrf.zero⟩
instance : Inhabited LgwConfRxif := ⟨LgwConfRxif.zero⟩

/-- The initialiser of `lgw_context` in `loragw_hal.c`. -/
def LgwContext.initial : LgwContext where
  is_started := false
  rf_chain_cfg := Vector.replicate _ .zero
  if_chain_cfg := Vector.replicate _ .zero
  lora_service_cfg := { LgwConfRxif.zero with bandwidth := bw250Khz, datarate := 7 }
  fsk_cfg :=
    { LgwConfRxif.zero with bandwidth := bw125Khz, datarate := 50000, sync_word_size := 3 }
  ftime_enable := false

end RutosSdk.Hal
