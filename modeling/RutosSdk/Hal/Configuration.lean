import RutosSdk.Lib.CheckedCopy
import RutosSdk.Lib.Writes
import RutosSdk.Hal.Parse
import RutosSdk.Hal.Sx1302Send

/-! # Configuration calls

Reference: the `_setconf` functions of `libloragw/src/loragw_hal.c`.

The calls that configure the board, the RF and IF chains check their arguments and commit them if
everything is right. Those for the TX gains and the SX1261 commit while they check: what precedes
the first entry that does not pass is left in the context. An array that is written at an unchecked
index goes on as the memory behind it.
-/

namespace RutosSdk.Hal

open CheckedCopy Writes

/-! ## The context -/

/-- `lgw_com_type_t` -/
inductive LgwComType where
  | spi
  | usb
  | unknown
deriving DecidableEq, Repr

/-- A path of 64 characters. -/
abbrev Path := Vector Byte 64

/-- `strncpy` to a path, and the null character at its end. -/
def copyPath (src : Path) : Path :=
  Vector.ofFn fun i => if i.val < 63 then (src.toList.takeWhile (· ≠ 0)).getD i 0 else 0

/-- A path given by its text. -/
def pathOf (text : String) : Path :=
  Vector.ofFn fun i => BitVec.ofNat 8 ((text.toList.map Char.toNat).getD i 0)

/-- `struct lgw_conf_board_s` -/
structure LgwConfBoard where
  lorawan_public : Bool
  clksrc : Byte
  full_duplex : Bool
  com_type : LgwComType
  com_path : Path
deriving DecidableEq

/-- `struct lgw_conf_rxrf_s`, with the fields that reception does not read -/
structure RxrfConf extends LgwConfRxrf where
  type : LgwRadioType
  single_input_mode : Bool

/-- `struct lgw_conf_rxif_s`, with the fields that reception does not read -/
structure RxifConf extends LgwConfRxif where
  enable : Bool
  sync_word : BitVec 64
  implicit_payload_length : Byte

instance : Inhabited RxrfConf := ⟨⟨.zero, .none, false⟩⟩
instance : Inhabited RxifConf := ⟨⟨.zero, false, 0, 0⟩⟩

/-- `struct lgw_conf_chan_lbt_s` -/
structure LgwConfChanLbt where
  freq_hz : Word
  bandwidth : Byte
  scan_time_us : Word
  transmit_time_ms : BitVec 16
deriving DecidableEq, Repr

/-- `struct lgw_conf_lbt_s` -/
structure LgwConfLbt where
  enable : Bool
  rssi_target : Byte
  nb_channel : Byte
  channels : ℕ → LgwConfChanLbt

/-- `struct lgw_conf_sx1261_s` -/
structure LgwConfSx1261 where
  enable : Bool
  spi_path : Path
  rssi_offset : Byte
  lbt_conf : LgwConfLbt

/-- `struct lgw_context_s`, with all that the configuration calls read and write -/
structure ConfContext where
  is_started : Bool
  board_cfg : LgwConfBoard
  rf_chain_cfg : Vector RxrfConf rfChainNb
  if_chain_cfg : Vector RxifConf ifChainNb
  lora_service_cfg : RxifConf
  fsk_cfg : RxifConf
  tx_gain_lut : ℕ → LgwTxGainLut
  ftime_enable : Bool
  sx1261_cfg : LgwConfSx1261

variable (context : ConfContext)

/-- The gain table of the initialiser of `lgw_context`. -/
def initialGainLut : LgwTxGainLut where
  lut := fun i => if i = 0 then ⟨14, 0, 2, 3, 10, 0, 0, 0⟩ else ⟨0, 0, 0, 0, 0, 0, 0, 0⟩
  size := 1

/-- The initialiser of `lgw_context`. -/
def ConfContext.initial : ConfContext where
  is_started := false
  board_cfg := ⟨true, 0, false, .spi, pathOf "/dev/spidev0.0"⟩
  rf_chain_cfg := Vector.replicate _ default
  if_chain_cfg := Vector.replicate _ default
  lora_service_cfg := ⟨LgwContext.initial.lora_service_cfg, false, 0, 0⟩
  fsk_cfg := ⟨LgwContext.initial.fsk_cfg, false, 0xC194C1, 0⟩
  tx_gain_lut := fun _ => initialGainLut
  ftime_enable := false
  sx1261_cfg := ⟨false, pathOf "/dev/spidev0.1", 0, ⟨false, 0, 0, fun _ => ⟨0, 0, 0, 0⟩⟩⟩

/-- `CONTEXT_IF_CHAIN[i]` -/
def ConfContext.ifChain (i : ℕ) : RxifConf := (context.if_chain_cfg[i]?).getD default

/-! ## The calls

Each returns whether it has succeeded, and the context. -/

/-- `lgw_board_setconf` -/
def lgwBoardSetconf (conf : Option LgwConfBoard) (context : ConfContext) : Bool × ConfContext :=
  match conf with
  | none => (false, context)
  | some conf =>
    if context.is_started then (false, context)
    else if conf.com_type ≠ .spi ∧ conf.com_type ≠ .usb then (false, context)
    else (true, { context with board_cfg := { conf with com_path := copyPath conf.com_path } })

/-- `lgw_rxrf_setconf` -/
def lgwRxrfSetconf (rf_chain : Byte) (conf : Option RxrfConf) (context : ConfContext) :
    Bool × ConfContext :=
  match conf with
  | none => (false, context)
  | some conf =>
    if context.is_started then (false, context)
    else if !conf.enable then (true, context)
    else if rfChainNb ≤ rf_chain.toNat then (false, context)
    else if conf.type ≠ .sx1255 ∧ conf.type ≠ .sx1257 ∧ conf.type ≠ .sx1250 then (false, context)
    else if conf.freq_hz.toNat < 100000000 ∨ 1000000000 < conf.freq_hz.toNat then (false, context)
    else
      (true, { context with
        rf_chain_cfg := context.rf_chain_cfg.setIfInBounds rf_chain.toNat conf })

/-- The radio bandwidth for a channel bandwidth: `LGW_RF_RX_BANDWIDTH_250KHZ`,
`LGW_RF_RX_BANDWIDTH_500KHZ` and `LGW_RF_RX_BANDWIDTH_125KHZ`. -/
def rfRxBandwidth (bandwidth : Byte) : ℤ :=
  if bandwidth = bw250Khz then 1600000
  else if bandwidth = bw500Khz then 1600000
  else 1600000

/-- The channel bandwidth, `LGW_REF_BW` where `lgw_bw_getval` has none. -/
def channelBandwidth (bandwidth : Byte) : ℤ :=
  if lgwBwGetval bandwidth = -1 then 125000 else lgwBwGetval bandwidth

/-- The check of the IF frequency, in 32-bit arithmetic. -/
def ifFreqRefused (conf : RxifConf) : Bool :=
  let half := channelBandwidth conf.bandwidth / 2
  int32 (conf.freq_hz.toInt + half) > rfRxBandwidth conf.bandwidth / 2
    || int32 (conf.freq_hz.toInt - half) < -(rfRxBandwidth conf.bandwidth / 2)

/-- `IS_FSK_BW` -/
def isFskBw (bw : Byte) : Bool := 1 ≤ bw && bw ≤ 7

/-- The default bandwidth and datarate of a modem, where they are not given. -/
def RxifConf.filled (conf : RxifConf) (bandwidth : Byte) (datarate : Word) : RxifConf :=
  { conf with
    bandwidth := if conf.bandwidth = bwUndefined then bandwidth else conf.bandwidth
    datarate := if conf.datarate = drUndefined then datarate else conf.datarate }

/-- The fields of an IF chain that a configuration sets. -/
def ConfContext.setIfChain (if_chain : Byte) (conf : RxifConf) : ConfContext :=
  { context with
    if_chain_cfg := context.if_chain_cfg.setIfInBounds if_chain.toNat
      { context.ifChain if_chain.toNat with
        enable := conf.enable
        rf_chain := conf.rf_chain
        freq_hz := conf.freq_hz } }

/-- The LoRa service channel of a configuration. -/
def ConfContext.setLoraService (conf : RxifConf) : ConfContext :=
  { context with
    lora_service_cfg := { context.lora_service_cfg with
      bandwidth := conf.bandwidth
      datarate := conf.datarate
      implicit_hdr := conf.implicit_hdr
      implicit_payload_length := conf.implicit_payload_length
      implicit_crc_en := conf.implicit_crc_en
      implicit_coderate := conf.implicit_coderate } }

/-- The FSK channel of a configuration; a sync word of zero keeps the one there is. -/
def ConfContext.setFsk (conf : RxifConf) : ConfContext :=
  { context with
    fsk_cfg := { context.fsk_cfg with
      bandwidth := conf.bandwidth
      datarate := conf.datarate
      sync_word_size := if 0 < conf.sync_word then conf.sync_word_size
        else context.fsk_cfg.sync_word_size
      sync_word := if 0 < conf.sync_word then conf.sync_word else context.fsk_cfg.sync_word } }

/-- The part of `lgw_rxif_setconf` that depends on the modem of the IF chain. -/
def commitIfChain (if_chain : Byte) (conf : RxifConf) (context : ConfContext) :
    Bool × ConfContext :=
  match ifmodConfig if_chain with
  | .loraStd =>
    let conf := conf.filled bw250Khz 7
    if !isLoraBw conf.bandwidth || !isLoraDr conf.datarate then (false, context)
    else (true, (context.setIfChain if_chain conf).setLoraService conf)
  | .loraMulti =>
    let conf := conf.filled bw125Khz 7
    if conf.bandwidth != bw125Khz || !isLoraDr conf.datarate then (false, context)
    else (true, context.setIfChain if_chain conf)
  | .fskStd =>
    let conf := conf.filled bw250Khz 64000
    if !isFskBw conf.bandwidth || !isFskDr conf.datarate then (false, context)
    else (true, (context.setIfChain if_chain conf).setFsk conf)
  | .undefined => (false, context)

/-- `lgw_rxif_setconf` -/
def lgwRxifSetconf (if_chain : Byte) (conf : Option RxifConf) (context : ConfContext) :
    Bool × ConfContext :=
  match conf with
  | none => (false, context)
  | some conf =>
    if context.is_started then (false, context)
    else if ifChainNb ≤ if_chain.toNat then (false, context)
    else if !conf.enable then
      (true, { context with
        if_chain_cfg := context.if_chain_cfg.setIfInBounds if_chain.toNat
          { context.ifChain if_chain.toNat with
            enable := false
            freq_hz := 0 } })
    else if rfChainNb ≤ conf.rf_chain.toNat then (false, context)
    else if ifFreqRefused conf then (false, context)
    else commitIfChain if_chain conf context

/-- `lgw_txgain_setconf`; the RF chain is not checked. -/
def lgwTxgainSetconfChain (rf_chain : Byte) (conf : Option LgwTxGainLut)
    (context : ConfContext) : Bool × ConfContext :=
  match conf with
  | none => (false, context)
  | some conf =>
    let (ok, table) := lgwTxgainSetconf (context.tx_gain_lut rf_chain.toNat) conf
    (ok, { context with
      tx_gain_lut := Function.update context.tx_gain_lut rf_chain.toNat table })

/-- The channels that `lgw_sx1261_setconf` supports. -/
def lbtChannelSupported (channel : LgwConfChanLbt) : Bool :=
  (channel.bandwidth == bw125Khz || channel.bandwidth == bw250Khz)
    && (channel.scan_time_us == 128 || channel.scan_time_us == 5000)

/-- `lgw_sx1261_setconf`; the number of channels is not checked. -/
def lgwSx1261Setconf (conf : Option LgwConfSx1261) (context : ConfContext) : Bool × ConfContext :=
  match conf with
  | none => (false, context)
  | some conf =>
    let (ok, channels) := checkedCopy lbtChannelSupported id conf.lbt_conf.channels
      context.sx1261_cfg.lbt_conf.channels conf.lbt_conf.nb_channel.toNat
    (ok, { context with sx1261_cfg :=
      { conf with
        spi_path := copyPath conf.spi_path
        lbt_conf := { conf.lbt_conf with channels := channels } } })

/-- A configuration call; without a configuration for a null pointer. -/
inductive ConfCall where
  | board (conf : Option LgwConfBoard)
  | rxrf (rf_chain : Byte) (conf : Option RxrfConf)
  | rxif (if_chain : Byte) (conf : Option RxifConf)
  | txgain (rf_chain : Byte) (conf : Option LgwTxGainLut)
  | sx1261 (conf : Option LgwConfSx1261)

/-- What a call returns, and the context it leaves. -/
def ConfCall.exec (context : ConfContext) : ConfCall → Bool × ConfContext
  | .board conf => lgwBoardSetconf conf context
  | .rxrf rf_chain conf => lgwRxrfSetconf rf_chain conf context
  | .rxif if_chain conf => lgwRxifSetconf if_chain conf context
  | .txgain rf_chain conf => lgwTxgainSetconfChain rf_chain conf context
  | .sx1261 conf => lgwSx1261Setconf conf context

/-- The context after a sequence of calls. -/
def ConfContext.after (calls : List ConfCall) : ConfContext :=
  calls.foldl (fun context call => (call.exec context).2) context

theorem after_concat (calls : List ConfCall) (call : ConfCall) :
    context.after (calls ++ [call]) = (call.exec (context.after calls)).2 := by
  simp [ConfContext.after]

variable {context : ConfContext}

/-! ## The calls for the TX gains and the SX1261 -/

variable {conf table : LgwTxGainLut}

/-- A table of the right size is copied up to the first entry out of range. -/
theorem lgwTxgainSetconf_eq (hlow : 1 ≤ conf.size.toNat)
    (hhigh : conf.size.toNat ≤ txGainLutSizeMax) :
    lgwTxgainSetconf table conf
      = (decide (okCount gainInRange conf.lut conf.size.toNat = conf.size.toNat),
        ⟨copied contextGain conf.lut table.lut (okCount gainInRange conf.lut conf.size.toNat),
          conf.size⟩) := by
  rw [lgwTxgainSetconf, if_neg (by omega), find?_range_eq]
  by_cases hall : okCount gainInRange conf.lut conf.size.toNat = conf.size.toNat
  · rw [if_pos hall, hall]
    simp [copied, funext_iff]
  · simp [hall, copied, funext_iff]

theorem lgwTxgainSetconfChain_eq (rf_chain : Byte) (conf : LgwTxGainLut) :
    lgwTxgainSetconfChain rf_chain (some conf) context
      = ((lgwTxgainSetconf (context.tx_gain_lut rf_chain.toNat) conf).1,
        { context with
          tx_gain_lut := Function.update context.tx_gain_lut rf_chain.toNat
            (lgwTxgainSetconf (context.tx_gain_lut rf_chain.toNat) conf).2 }) := rfl

/-- The number of channels that are copied. -/
def LgwConfLbt.copiedChannels (conf : LgwConfLbt) : ℕ :=
  okCount lbtChannelSupported conf.channels conf.nb_channel.toNat

/-- A configuration over an earlier one: the channels from the first that is not supported are those
of the earlier one. -/
def LgwConfSx1261.over (conf old : LgwConfSx1261) : LgwConfSx1261 where
  enable := conf.enable
  spi_path := copyPath conf.spi_path
  rssi_offset := conf.rssi_offset
  lbt_conf :=
    { conf.lbt_conf with
      channels := copied id conf.lbt_conf.channels old.lbt_conf.channels
        conf.lbt_conf.copiedChannels }

/-- The settings are stored, and the channels up to the first that is not supported. -/
theorem lgwSx1261Setconf_eq (conf : LgwConfSx1261) :
    lgwSx1261Setconf (some conf) context
      = (decide (conf.lbt_conf.copiedChannels = conf.lbt_conf.nb_channel.toNat),
        { context with sx1261_cfg := conf.over context.sx1261_cfg }) := by
  rw [lgwSx1261Setconf, checkedCopy_eq]
  rfl

/-! ## Calls that fail -/

theorem snd_lgwBoardSetconf {conf : Option LgwConfBoard}
    (h : (lgwBoardSetconf conf context).1 = false) :
    (lgwBoardSetconf conf context).2 = context := by
  unfold lgwBoardSetconf at h ⊢
  split
  · rfl
  · dsimp only at h
    split_ifs at h ⊢ <;> rfl

theorem snd_lgwRxrfSetconf {rf_chain : Byte} {conf : Option RxrfConf}
    (h : (lgwRxrfSetconf rf_chain conf context).1 = false) :
    (lgwRxrfSetconf rf_chain conf context).2 = context := by
  unfold lgwRxrfSetconf at h ⊢
  split
  · rfl
  · dsimp only at h
    split_ifs at h ⊢ <;> rfl

theorem snd_commitIfChain {if_chain : Byte} {conf : RxifConf}
    (h : (commitIfChain if_chain conf context).1 = false) :
    (commitIfChain if_chain conf context).2 = context := by
  unfold commitIfChain at h ⊢
  cases hmod : ifmodConfig if_chain <;> rw [hmod] at h <;> dsimp only at h ⊢ <;>
    split_ifs at h ⊢ <;> rfl

theorem snd_lgwRxifSetconf {if_chain : Byte} {conf : Option RxifConf}
    (h : (lgwRxifSetconf if_chain conf context).1 = false) :
    (lgwRxifSetconf if_chain conf context).2 = context := by
  unfold lgwRxifSetconf at h ⊢
  split
  · rfl
  · dsimp only at h
    split_ifs at h ⊢
    · rfl
    · rfl
    · rfl
    · rfl
    · exact snd_commitIfChain h

/-- The table already has the size of a configuration, and its entries before the first that is out
of range. -/
structure GainsStored (table conf : LgwTxGainLut) : Prop where
  size : table.size = conf.size
  lut : ∀ i < okCount gainInRange conf.lut conf.size.toNat, table.lut i = contextGain (conf.lut i)

/-- The context already has the settings of a configuration, and its channels before the first that
is not supported. -/
structure Sx1261Stored (context conf : LgwConfSx1261) : Prop where
  enable : context.enable = conf.enable
  spi_path : context.spi_path = copyPath conf.spi_path
  rssi_offset : context.rssi_offset = conf.rssi_offset
  lbt_enable : context.lbt_conf.enable = conf.lbt_conf.enable
  rssi_target : context.lbt_conf.rssi_target = conf.lbt_conf.rssi_target
  nb_channel : context.lbt_conf.nb_channel = conf.lbt_conf.nb_channel
  channels : ∀ i < conf.lbt_conf.copiedChannels,
    context.lbt_conf.channels i = conf.lbt_conf.channels i

/-- All that a call stores before it can fail is in the context already. -/
def ConfCall.AlreadyStored (context : ConfContext) : ConfCall → Prop
  | .txgain rf_chain (some conf) =>
    (conf.size.toNat < 1 ∨ txGainLutSizeMax < conf.size.toNat)
      ∨ GainsStored (context.tx_gain_lut rf_chain.toNat) conf
  | .sx1261 (some conf) => Sx1261Stored context.sx1261_cfg conf
  | _ => True

theorem lgwTxgainSetconf_eq_self_iff :
    (lgwTxgainSetconf table conf).2 = table
      ↔ (conf.size.toNat < 1 ∨ txGainLutSizeMax < conf.size.toNat) ∨ GainsStored table conf := by
  by_cases hsize : conf.size.toNat < 1 ∨ txGainLutSizeMax < conf.size.toNat
  · rw [lgwTxgainSetconf, if_pos hsize]
    exact ⟨fun _ => .inl hsize, fun _ => rfl⟩
  · rw [lgwTxgainSetconf_eq (by omega) (by omega)]
    rw [LgwTxGainLut.mk.injEq, copied_eq_self_iff]
    exact ⟨fun h => .inr ⟨h.2.symm, h.1⟩,
      fun h => ⟨(h.resolve_left hsize).lut, (h.resolve_left hsize).size.symm⟩⟩

theorem setGains_eq_self_iff {rf_chain : ℕ} :
    { context with tx_gain_lut := Function.update context.tx_gain_lut rf_chain table } = context
      ↔ table = context.tx_gain_lut rf_chain := by
  obtain ⟨_, _, _, _, _, _, tx_gain_lut, _, _⟩ := context
  simp [ConfContext.mk.injEq, Function.update_eq_self_iff]

theorem setSx1261_eq_self_iff {cfg : LgwConfSx1261} :
    { context with sx1261_cfg := cfg } = context ↔ cfg = context.sx1261_cfg := by
  obtain ⟨_, _, _, _, _, _, _, _, sx1261_cfg⟩ := context
  simp [ConfContext.mk.injEq]

theorem over_eq_self_iff {conf old : LgwConfSx1261} :
    conf.over old = old ↔ Sx1261Stored old conf := by
  rw [LgwConfSx1261.over, LgwConfSx1261.mk.injEq, LgwConfLbt.mk.injEq, copied_eq_self_iff]
  constructor
  · rintro ⟨h1, h2, h3, h4, h5, h6, h7⟩
    exact ⟨h1.symm, h2.symm, h3.symm, h4.symm, h5.symm, h6.symm, h7⟩
  · rintro ⟨h1, h2, h3, h4, h5, h6, h7⟩
    exact ⟨h1.symm, h2.symm, h3.symm, h4.symm, h5.symm, h6.symm, h7⟩

/-- A call that fails leaves the context as it was exactly if it stores nothing new. -/
theorem snd_exec_eq_self_iff {call : ConfCall} (h : (call.exec context).1 = false) :
    (call.exec context).2 = context ↔ call.AlreadyStored context := by
  cases call with
  | board conf => exact iff_of_true (snd_lgwBoardSetconf h) trivial
  | rxrf rf_chain conf => exact iff_of_true (snd_lgwRxrfSetconf h) trivial
  | rxif if_chain conf => exact iff_of_true (snd_lgwRxifSetconf h) trivial
  | txgain rf_chain conf =>
    cases conf with
    | none => exact iff_of_true rfl trivial
    | some conf =>
      rw [ConfCall.exec, lgwTxgainSetconfChain_eq]
      exact setGains_eq_self_iff.trans lgwTxgainSetconf_eq_self_iff
  | sx1261 conf =>
    cases conf with
    | none => exact iff_of_true rfl trivial
    | some conf =>
      rw [ConfCall.exec, lgwSx1261Setconf_eq]
      exact setSx1261_eq_self_iff.trans over_eq_self_iff

/-- In a sequence of calls, every call that fails leaves the context as it was if and only if each
of them has stored nothing new before it fails. -/
theorem failing_calls_keep_context_iff (context : ConfContext) (calls : List ConfCall) :
    (∀ done call, done ++ [call] <+: calls → (call.exec (context.after done)).1 = false →
        (call.exec (context.after done)).2 = context.after done)
      ↔ ∀ done call, done ++ [call] <+: calls → (call.exec (context.after done)).1 = false →
        call.AlreadyStored (context.after done) := by
  constructor
  · intro h done call hdone hfail
    exact (snd_exec_eq_self_iff hfail).mp (h done call hdone hfail)
  · intro h done call hdone hfail
    exact (snd_exec_eq_self_iff hfail).mpr (h done call hdone hfail)

/-- A table of two entries, the second with a digital gain out of range. -/
def badGainTable : LgwTxGainLut where
  lut := fun i => if i = 0 then ⟨12, 0, 2, 3, 10, 0, 0, 0⟩ else ⟨20, 4, 2, 3, 10, 0, 0, 0⟩
  size := 2

theorem badGainTable_stored_in_part :
    ((ConfCall.txgain 0 (some badGainTable)).exec .initial).1 = false
      ∧ (((ConfCall.txgain 0 (some badGainTable)).exec .initial).2.tx_gain_lut 0).size = 2
      ∧ (ConfContext.initial.tx_gain_lut 0).size = 1
      ∧ ((ConfCall.txgain 0 (some badGainTable)).exec .initial).2 ≠ .initial := by
  have hsize :
      (((ConfCall.txgain 0 (some badGainTable)).exec .initial).2.tx_gain_lut 0).size = 2 := by
    decide
  refine ⟨by decide, hsize, rfl, fun h => ?_⟩
  rw [h] at hsize
  exact absurd hsize (by decide)

end RutosSdk.Hal
