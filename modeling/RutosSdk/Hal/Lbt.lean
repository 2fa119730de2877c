import RutosSdk.Hal.Airtime
import RutosSdk.Hal.Configuration

/-! # Listen before talk

Reference: `libloragw/src/loragw_lbt.c`.

`lgw_lbt_start` selects the channel of a packet and compares the packet's time on air, rounded to
milliseconds, with the transmit time of the channel less the 1.5 ms before departure at which the
channel is sensed.
-/

namespace RutosSdk.Hal

/-! ## Functions -/

/-- The calls that `lgw_lbt_start` makes on the SX1261. -/
inductive Sx1261Call where
  | setRxParams (freq_hz : Word) (bandwidth : Byte)
  | lbtStart (scan_time_us : Word) (threshold_dbm : Byte)
deriving DecidableEq, Repr

/-- What `lgw_lbt_start` depends on beside its arguments. -/
structure LbtEnv where
  context : LgwContext
  u32OfInf : Word
  /-- Which calls succeed. -/
  succeeds : Sx1261Call → Bool

/-- `is_equal_freq` -/
def isEqualFreq (a b : Word) : Bool := ((a.toNat : ℤ) - b.toNat).natAbs ≤ 10000

/-- `is_lbt_channel`: the first channel that matches. -/
def isLbtChannel (lbt_context : LgwConfLbt) (freq_hz : Word) (bandwidth : Byte) : Option ℕ :=
  (List.range lbt_context.nb_channel.toNat).find? fun i =>
    isEqualFreq freq_hz (lbt_context.channels i).freq_hz
      && bandwidth == (lbt_context.channels i).bandwidth

/-- `lgw_lbt_start`: whether it succeeds, and the calls it makes. -/
def lgwLbtStart (env : LbtEnv) (sx1261_context : LgwConfSx1261) (pkt : LgwPktTx) :
    Bool × List Sx1261Call :=
  match isLbtChannel sx1261_context.lbt_conf pkt.freq_hz pkt.bandwidth with
  | none => (false, [])
  | some selected =>
    let channel := sx1261_context.lbt_conf.channels selected
    if channel.transmit_time_ms.toNat * 1000 ≤ 1500 then (false, [])
    else
      let toa_ms := lgwTimeOnAir env.context env.u32OfInf pkt
      if toa_ms * 1000 > BitVec.ofNat 32 (channel.transmit_time_ms.toNat * 1000 - 1500) then
        (false, [])
      else
        let rx := .setRxParams pkt.freq_hz pkt.bandwidth
        let scan := .lbtStart channel.scan_time_us
          (sx1261_context.lbt_conf.rssi_target + sx1261_context.rssi_offset)
        if !env.succeeds rx then (false, [rx]) else (env.succeeds scan, [rx, scan])

/-! ## The selected channel -/

theorem isEqualFreq_iff (a b : Word) :
    isEqualFreq a b = true ↔ |(a.toNat : ℤ) - b.toNat| ≤ 10000 := by
  rw [isEqualFreq, decide_eq_true_iff, Int.abs_eq_natAbs]
  omega

/-- The selected channel is within the configured ones, near the frequency and of the bandwidth. -/
theorem isLbtChannel_eq_some {lbt_context : LgwConfLbt} {freq_hz : Word} {bandwidth : Byte} {i : ℕ}
    (h : isLbtChannel lbt_context freq_hz bandwidth = some i) :
    i < lbt_context.nb_channel.toNat
      ∧ |(freq_hz.toNat : ℤ) - (lbt_context.channels i).freq_hz.toNat| ≤ 10000
      ∧ (lbt_context.channels i).bandwidth = bandwidth := by
  have hmem := List.mem_of_find?_eq_some h
  have hmatch := List.find?_some h
  rw [Bool.and_eq_true, isEqualFreq_iff, beq_iff_eq] at hmatch
  exact ⟨List.mem_range.mp hmem, hmatch.1, hmatch.2.symm⟩

/-- `lgw_lbt_start` goes past its checks with a channel whose transmit time is not exceeded by the
time on air in milliseconds. -/
theorem selected_of_calls_ne_nil {env : LbtEnv} {sx1261_context : LgwConfSx1261} {pkt : LgwPktTx}
    (h : (lgwLbtStart env sx1261_context pkt).2 ≠ []) :
    ∃ i, isLbtChannel sx1261_context.lbt_conf pkt.freq_hz pkt.bandwidth = some i
      ∧ 1500 < (sx1261_context.lbt_conf.channels i).transmit_time_ms.toNat * 1000
      ∧ lgwTimeOnAir env.context env.u32OfInf pkt * 1000
        ≤ BitVec.ofNat 32
          ((sx1261_context.lbt_conf.channels i).transmit_time_ms.toNat * 1000 - 1500) := by
  unfold lgwLbtStart at h
  split at h
  · exact absurd rfl h
  · rename_i selected hselected
    dsimp only at h
    split_ifs at h with hshort hlong hrx
    · exact absurd rfl h
    · exact absurd rfl h
    all_goals exact ⟨selected, hselected, Nat.lt_of_not_le hshort, BitVec.not_lt.mp hlong⟩

/-! ## The time on air -/

/-- The time on air in microseconds: for LoRa as `lora_packet_time_on_air` gives it, for FSK the
exact one. -/
def timeOnAirUs (context : LgwContext) (packet : LgwPktTx) : ℚ :=
  if packet.modulation = modLora then
    (loraPacketTimeOnAir packet.bandwidth (packet.datarate.setWidth 8) packet.coderate
      packet.preamble packet.no_header packet.no_crc (packet.size.setWidth 8)).toNat
  else 8 * fskBytes context packet / packet.datarate.toNat * 1000000

/-- The time on air exceeds the rounded one by less than half a millisecond. -/
theorem timeOnAirUs_lt {context : LgwContext} {packet : LgwPktTx}
    (haccept : lgwSendAccepts context packet)
    (hmod : packet.modulation = modLora ∨ packet.modulation = modFsk) (u32OfInf : Word) :
    timeOnAirUs context packet < 1000 * (lgwTimeOnAir context u32OfInf packet).toNat + 500 := by
  rcases hmod with hmod | hmod
  · rw [timeOnAirUs, if_pos hmod, toNat_lgwTimeOnAir_lora hmod]
    exact_mod_cast (by omega)
  · obtain ⟨hlo, hhi, hsize⟩ := fsk_of_lgwSendAccepts haccept hmod
    have hle := le_tFsk_trunc (fskBytes_lt context hsize) hlo hhi
    have hpos : (0 : ℚ) < packet.datarate.toNat := by
      exact_mod_cast (by omega : 0 < packet.datarate.toNat)
    rw [timeOnAirUs, if_neg (by rw [hmod]; decide), toNat_lgwTimeOnAir_fsk haccept hmod]
    generalize (tFsk (fskBytes context packet) packet.datarate.toNat).trunc = trunc at *
    generalize fskBytes context packet = n at *
    have hle' : (8000 : ℚ) * n ≤ (trunc + 1) * packet.datarate.toNat := by exact_mod_cast hle
    have hquot : (8 : ℚ) * n / packet.datarate.toNat * 1000000
        = 8000 * n / packet.datarate.toNat * 1000 := by ring
    have hdiv : (8000 : ℚ) * n / packet.datarate.toNat ≤ trunc + 1 := (div_le_iff₀ hpos).mpr hle'
    push_cast
    linarith

/-- If `lgw_lbt_start` goes past its checks, the packet fits into the transmit time of the selected
channel, which has the packet's bandwidth and a frequency within 10 kHz. -/
theorem lgwLbtStart_fits {env : LbtEnv} {sx1261_context : LgwConfSx1261} {pkt : LgwPktTx}
    (haccept : lgwSendAccepts env.context pkt)
    (hmod : pkt.modulation = modLora ∨ pkt.modulation = modFsk)
    (hpast : (lgwLbtStart env sx1261_context pkt).2 ≠ []) :
    ∃ i, isLbtChannel sx1261_context.lbt_conf pkt.freq_hz pkt.bandwidth = some i
      ∧ timeOnAirUs env.context pkt
        ≤ 1000 * (sx1261_context.lbt_conf.channels i).transmit_time_ms.toNat - 1500
      ∧ (sx1261_context.lbt_conf.channels i).bandwidth = pkt.bandwidth
      ∧ |(pkt.freq_hz.toNat : ℤ) - (sx1261_context.lbt_conf.channels i).freq_hz.toNat| ≤ 10000 := by
  obtain ⟨i, hselected, hshort, hlong⟩ := selected_of_calls_ne_nil hpast
  obtain ⟨-, hfreq, hbandwidth⟩ := isLbtChannel_eq_some hselected
  refine ⟨i, hselected, ?_, hbandwidth, hfreq⟩
  have hlt := timeOnAirUs_lt haccept hmod env.u32OfInf
  have hbound := lgwTimeOnAir_le_of_lgwSendAccepts env.u32OfInf haccept
  have htime := (sx1261_context.lbt_conf.channels i).transmit_time_ms.isLt
  rw [BitVec.le_def, BitVec.toNat_mul, BitVec.toNat_ofNat,
    show (1000 : Word).toNat = 1000 from rfl] at hlong
  generalize (lgwTimeOnAir env.context env.u32OfInf pkt).toNat = toa_ms at *
  generalize (sx1261_context.lbt_conf.channels i).transmit_time_ms.toNat = transmit_time_ms at *
  -- nothing wraps around, and whole milliseconds less 1.5 ms leave two of them
  rw [Nat.mod_eq_of_lt (by omega), Nat.mod_eq_of_lt (by omega)] at hlong
  have hms : toa_ms + 2 ≤ transmit_time_ms := by omega
  have hms' : (toa_ms : ℚ) + 2 ≤ transmit_time_ms := by exact_mod_cast hms
  linarith

/-- A started concentrator, and an SX1261 that does what it is told. -/
def sampleLbtEnv : LbtEnv where
  context :=
    { LgwContext.initial with
      is_started := true
      rf_chain_cfg :=
        Vector.replicate _ { LgwConfRxrf.zero with enable := true, tx_enable := true } }
  u32OfInf := 0
  succeeds _ := true

/-- One channel at 867.1 MHz for packets of up to 400 ms. -/
def sampleLbtConf : LgwConfSx1261 :=
  ⟨true, Vector.replicate _ 0, 0, ⟨true, 0xB0, 1, fun _ => ⟨867100000, bw125Khz, 128, 400⟩⟩⟩

/-- A packet of 33 bytes at SF9, 5 kHz beside the channel. -/
def sampleLbtPacket : LgwPktTx :=
  { LgwPktTx.zero with
    freq_hz := 867105000
    modulation := modLora
    bandwidth := bw125Khz
    datarate := 9
    coderate := 1
    preamble := 8
    size := 33 }

/-- The sample packet is on the air for 246784 of the 398500 microseconds. -/
theorem lgwLbtStart_fits_samplePacket :
    timeOnAirUs sampleLbtEnv.context sampleLbtPacket = 246784
      ∧ timeOnAirUs sampleLbtEnv.context sampleLbtPacket ≤ 398500 := by
  obtain ⟨i, hselected, hfits, -, -⟩ := @lgwLbtStart_fits sampleLbtEnv sampleLbtConf sampleLbtPacket
    (by decide) (.inl rfl) (by decide)
  obtain rfl : 0 = i := Option.some.inj hselected
  have htime : ((sampleLbtConf.lbt_conf.channels 0).transmit_time_ms.toNat : ℚ) = 400 :=
    by exact_mod_cast (rfl : (400 : BitVec 16).toNat = 400)
  rw [htime] at hfits
  refine ⟨?_, by linarith⟩
  rw [timeOnAirUs, if_pos (show sampleLbtPacket.modulation = modLora from rfl)]
  exact_mod_cast (by decide : _ = 246784)

end RutosSdk.Hal
