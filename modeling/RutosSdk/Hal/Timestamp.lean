import Mathlib.Tactic.Linarith
import RutosSdk.Lib.Bytes
import RutosSdk.Lib.Circular

/-! # The timestamp counters of the concentrator

Reference: `libloragw/src/loragw_sx1302_timestamp.c`.

The chip counts 32 MHz ticks in 32 bits, which is 27 bits of microseconds; the library extends both
the free-running counter and the one latched at each PPS pulse to 32 bits with a wrap count of its
own. Reading a register moves the extended value forward by the distance between the 27-bit values,
whatever the time that really passed.
-/

namespace RutosSdk.Hal

open Circular

/-! ## State -/

/-- `struct timestamp_info_s` -/
structure TimestampInfo where
  counter_us_27bits_ref : Word
  counter_us_27bits_wrap : Byte
deriving DecidableEq, Repr

/-- `timestamp_counter_t` -/
structure TimestampCounter where
  inst : TimestampInfo
  pps : TimestampInfo
deriving DecidableEq, Repr

/-- `timestamp_counter_new` -/
def timestampCounterNew : TimestampCounter := ⟨⟨0, 0⟩, ⟨0, 0⟩⟩

/-- `MAX_TIMESTAMP_PPS_HISTORY` -/
abbrev maxTimestampPpsHistory : ℕ := 16

/-- `struct timestamp_pps_history_s`: a ring of the last PPS registers, `idx` being the latest. -/
structure TimestampPpsHistory where
  history : Vector Word maxTimestampPpsHistory
  idx : Fin maxTimestampPpsHistory
  size : ℕ
deriving DecidableEq, Repr

def TimestampPpsHistory.initial : TimestampPpsHistory := ⟨Vector.replicate _ 0, 0, 0⟩

/-- `timestamp_pps_history_save` -/
def timestampPpsHistorySave (h : TimestampPpsHistory) (timestamp_pps_reg : Word) :
    TimestampPpsHistory :=
  if timestamp_pps_reg ≠ h.history[h.idx] ∨ h.size = 0 then
    -- the increment of `idx` goes back to zero at the end of the ring
    let idx := if h.size > 0 then h.idx + 1 else h.idx
    { history := h.history.set idx timestamp_pps_reg
      idx := idx
      size := if h.size < maxTimestampPpsHistory then h.size + 1 else h.size }
  else h

/-! ## Functions -/

/-- The part of `timestamp_counter_update` for one of the two counters. -/
def TimestampInfo.update (self : TimestampInfo) (cnt_us : Word) : TimestampInfo where
  counter_us_27bits_ref := cnt_us
  counter_us_27bits_wrap :=
    if cnt_us < self.counter_us_27bits_ref then (self.counter_us_27bits_wrap + 1) % 32
    else self.counter_us_27bits_wrap

variable (self : TimestampCounter)

/-- `timestamp_counter_update` -/
def timestampCounterUpdate (pps inst : Word) : TimestampCounter where
  inst := self.inst.update inst
  pps := self.pps.update pps

/-- `(wrap << 27) | cnt_us` -/
def wrapAnd (wrap : Byte) (cnt_us : Word) : Word := wrap.setWidth 32 <<< 27 ||| cnt_us

/-- `timestamp_counter_expand` -/
def timestampCounterExpand (pps : Bool) (cnt_us : Word) : Word :=
  let tinfo := if pps then self.pps else self.inst
  wrapAnd tinfo.counter_us_27bits_wrap cnt_us

/-- `timestamp_pkt_expand` -/
def timestampPktExpand (pkt_cnt_us : Word) : Word :=
  let tinfo := self.inst
  let wrap_status := tinfo.counter_us_27bits_wrap
    - (if tinfo.counter_us_27bits_ref ≥ pkt_cnt_us then 0 else 1)
  wrapAnd (wrap_status &&& 0x1F) pkt_cnt_us

/-- `(b0<<24) | (b1<<16) | (b2<<8) | b3` -/
def bigEndian (b0 b1 b2 b3 : Byte) : Word :=
  b0.setWidth 32 <<< 24 ||| b1.setWidth 32 <<< 16 ||| b2.setWidth 32 <<< 8 ||| b3.setWidth 32

theorem bigEndian_extractLsb (v : Word) :
    bigEndian (v.extractLsb' 24 8) (v.extractLsb' 16 8) (v.extractLsb' 8 8) (v.extractLsb' 0 8)
      = v := by
  unfold bigEndian
  grind

/-- Bytes 0 to 3 of the register block: the PPS counter. -/
def ppsWord (buff : Vector Byte 8) : Word := bigEndian buff[0] buff[1] buff[2] buff[3]

/-- Bytes 4 to 7 of the register block: the free-running counter. -/
def instWord (buff : Vector Byte 8) : Word := bigEndian buff[4] buff[5] buff[6] buff[7]

/-- The most significant byte of either counter changed between two reads. -/
abbrev MsbChanged (first second : Vector Byte 8) : Prop :=
  first[0] ≠ second[0] ∨ first[4] ≠ second[4]

/-- The three register reads of `timestamp_counter_get`, `none` standing for a communication error.
Workaround for a chip issue: if a most significant byte changed between the first two, the result of
the third is used. -/
def readTwice (buff buff_wa buff_wa' : Option (Vector Byte 8)) : Option (Vector Byte 8) :=
  match buff, buff_wa with
  | some first, some second => if MsbChanged first second then buff_wa' else some first
  | _, _ => none

/-- What `timestamp_counter_get` works on and returns. -/
structure CounterGet where
  self : TimestampCounter
  history : TimestampPpsHistory
  inst : Word
  pps : Word
deriving DecidableEq

/-- `timestamp_counter_get`; on a communication error nothing is updated. -/
def timestampCounterGet (history : TimestampPpsHistory)
    (buff buff_wa buff_wa' : Option (Vector Byte 8)) : Option CounterGet :=
  match readTwice buff buff_wa buff_wa' with
  | none => none
  | some buff =>
    let self := timestampCounterUpdate self (ppsWord buff / 32) (instWord buff / 32)
    some
      { self := self
        history := timestampPpsHistorySave history (ppsWord buff)
        inst := timestampCounterExpand self false (instWord buff / 32)
        pps := timestampCounterExpand self true (ppsWord buff / 32) }

/-! ## The extended value -/

/-- The reference and the wrap count keep to their 27 and 5 bits. -/
structure TimestampInfo.Valid (i : TimestampInfo) : Prop where
  ref : i.counter_us_27bits_ref.toNat < 2 ^ 27
  wrap : i.counter_us_27bits_wrap.toNat < 32

/-- The 32-bit value that the reference stands for. -/
def TimestampInfo.value (i : TimestampInfo) : Word :=
  wrapAnd i.counter_us_27bits_wrap i.counter_us_27bits_ref

/-- The 27 bits of the chip. -/
def low27 (x : Word) : BitVec 27 := x.setWidth 27

theorem toNat_low27 {x : Word} (h : x.toNat < 2 ^ 27) : (low27 x).toNat = x.toNat := by
  rw [low27, BitVec.toNat_setWidth, Nat.mod_eq_of_lt h]

theorem toNat_wrapAnd {wrap : Byte} {cnt_us : Word} (hw : wrap.toNat < 32)
    (hc : cnt_us.toNat < 2 ^ 27) :
    (wrapAnd wrap cnt_us).toNat = wrap.toNat * 2 ^ 27 + cnt_us.toNat := by
  rw [wrapAnd, BitVec.toNat_or, BitVec.toNat_shiftLeft, BitVec.toNat_setWidth,
    Nat.mod_eq_of_lt (by omega), Nat.shiftLeft_eq, Nat.mod_eq_of_lt (by omega), ← Nat.shiftLeft_eq,
    ← Nat.shiftLeft_add_eq_or_of_lt hc]

/-- An update moves the extended value forward by the distance of the 27-bit values. -/
theorem TimestampInfo.update_value {i : TimestampInfo} (hi : i.Valid) {cnt_us : Word}
    (hc : cnt_us.toNat < 2 ^ 27) :
    (i.update cnt_us).Valid
      ∧ (i.update cnt_us).value
        = i.value + BitVec.ofNat 32 (ahead (low27 i.counter_us_27bits_ref) (low27 cnt_us)) := by
  have href := hi.ref
  have hwrap := hi.wrap
  have hvalid : (i.update cnt_us).Valid := by
    refine ⟨hc, ?_⟩
    simp only [TimestampInfo.update]
    split
    · rw [BitVec.toNat_umod]
      exact Nat.mod_lt _ (by decide)
    · exact hwrap
  refine ⟨hvalid, BitVec.eq_of_toNat_eq ?_⟩
  rw [BitVec.toNat_add, BitVec.toNat_ofNat, ahead_eq_ite, toNat_low27 href, toNat_low27 hc,
    TimestampInfo.value, TimestampInfo.value, toNat_wrapAnd hvalid.wrap hvalid.ref,
    toNat_wrapAnd hwrap href]
  simp only [TimestampInfo.update, BitVec.lt_def]
  split
  · rw [if_neg (by omega), BitVec.toNat_umod, BitVec.toNat_add,
      show BitVec.toNat (1 : Byte) = 1 from rfl, show BitVec.toNat (32 : Byte) = 32 from rfl]
    omega
  · rw [if_pos (by omega)]
    omega

/-- A packet is placed behind the last reading by the distance of the 27-bit values. -/
theorem timestampPktExpand_eq {self : TimestampCounter} (h : self.inst.Valid)
    {pkt_cnt_us : Word} (hp : pkt_cnt_us.toNat < 2 ^ 27) :
    timestampPktExpand self pkt_cnt_us
      = self.inst.value
        - BitVec.ofNat 32 (ahead (low27 pkt_cnt_us) (low27 self.inst.counter_us_27bits_ref)) := by
  have href := h.ref
  have hwrap := h.wrap
  have hmask : ∀ w : Byte, (w &&& 0x1F).toNat = w.toNat % 32 := by
    intro w
    rw [BitVec.toNat_and, show BitVec.toNat (0x1F : Byte) = 2 ^ 5 - 1 from rfl,
      Nat.and_two_pow_sub_one_eq_mod]
  apply BitVec.eq_of_toNat_eq
  rw [timestampPktExpand, toNat_wrapAnd (by rw [hmask]; omega) hp, hmask, BitVec.toNat_sub,
    BitVec.toNat_sub, BitVec.toNat_ofNat, ahead_eq_ite, toNat_low27 href, toNat_low27 hp,
    TimestampInfo.value, toNat_wrapAnd hwrap href]
  simp only [ge_iff_le, BitVec.le_def]
  split <;> simp only [show BitVec.toNat (0 : Byte) = 0 from rfl,
    show BitVec.toNat (1 : Byte) = 1 from rfl] <;> omega

end RutosSdk.Hal
