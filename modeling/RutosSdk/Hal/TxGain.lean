import RutosSdk.Lib.Bytes

/-! # TX gain tables

Reference: `lgw_txgain_setconf` in `libloragw/src/loragw_hal.c` and the search for `pow_index` in
`sx1302_send` of `libloragw/src/loragw_sx1302.c`.

A table is the array with the memory behind it, so that every index has an entry; `size` says how
many of them are in use. Powers are signed bytes.
-/

namespace RutosSdk.Hal

/-- `TX_GAIN_LUT_SIZE_MAX` -/
def txGainLutSizeMax : ℕ := 16

/-- `struct lgw_tx_gain_s` -/
structure LgwTxGain where
  rf_power : Byte
  dig_gain : Byte
  pa_gain : Byte
  dac_gain : Byte
  mix_gain : Byte
  offset_i : Byte
  offset_q : Byte
  pwr_idx : Byte
deriving DecidableEq, Repr

/-- `struct lgw_tx_gain_lut_s` -/
structure LgwTxGainLut where
  lut : ℕ → LgwTxGain
  size : Byte

/-- The gain ranges that `lgw_txgain_setconf` checks. -/
def gainInRange (g : LgwTxGain) : Bool :=
  g.dig_gain ≤ 3 && g.dac_gain ≤ 3 && 5 ≤ g.mix_gain && g.mix_gain ≤ 15 && g.pa_gain ≤ 3
    && g.pwr_idx ≤ 22

/-- The entry as it is copied to the context: the offsets are left to the calibration. -/
def contextGain (g : LgwTxGain) : LgwTxGain := { g with offset_i := 0, offset_q := 0 }

/-- `lgw_txgain_setconf` on the table of one RF chain: whether it succeeded, and the table. An entry
out of range stops the copy. -/
def lgwTxgainSetconf (context conf : LgwTxGainLut) : Bool × LgwTxGainLut :=
  if conf.size.toNat < 1 ∨ txGainLutSizeMax < conf.size.toNat then (false, context)
  else
    match (List.range conf.size.toNat).find? (fun i => !gainInRange (conf.lut i)) with
    | some k =>
      (false, ⟨fun i => if i < k then contextGain (conf.lut i) else context.lut i, conf.size⟩)
    | none =>
      (true, ⟨fun i => if i < conf.size.toNat then contextGain (conf.lut i) else context.lut i,
        conf.size⟩)

/-- The loop from `pow_index` down to zero, which is not compared. -/
def powIndexLoop (tx_lut : LgwTxGainLut) (rf_power : Byte) : ℕ → ℕ
  | 0 => 0
  | k + 1 =>
    if (tx_lut.lut (k + 1)).rf_power.sle rf_power then k + 1 else powIndexLoop tx_lut rf_power k

/-- The index of the entry that `sx1302_send` uses; `size - 1` is an `uint8_t`. -/
def powIndex (tx_lut : LgwTxGainLut) (rf_power : Byte) : ℕ :=
  powIndexLoop tx_lut rf_power (tx_lut.size - 1).toNat

/-! ## What they do -/

/-- An accepted table has an entry, and its powers are those of the context. -/
theorem lgwTxgainSetconf_eq_true {context conf table : LgwTxGainLut}
    (h : lgwTxgainSetconf context conf = (true, table)) :
    0 < conf.size.toNat ∧ table.size = conf.size
      ∧ ∀ i < conf.size.toNat, (table.lut i).rf_power = (conf.lut i).rf_power := by
  unfold lgwTxgainSetconf at h
  split at h
  · exact absurd (Prod.mk.inj h).1 (by decide)
  · rename_i hsize
    split at h
    · exact absurd (Prod.mk.inj h).1 (by decide)
    · obtain rfl := (Prod.mk.inj h).2
      refine ⟨by omega, rfl, ?_⟩
      intro i hi
      change (if i < conf.size.toNat then contextGain (conf.lut i) else _).rf_power = _
      rw [if_pos hi]
      rfl

/-- The loop finds the last entry up to `k` that is not above the power, or entry zero. -/
theorem powIndexLoop_spec (tx_lut : LgwTxGainLut) (rf_power : Byte) (k : ℕ) :
    powIndexLoop tx_lut rf_power k ≤ k
      ∧ (powIndexLoop tx_lut rf_power k = 0
        ∨ (tx_lut.lut (powIndexLoop tx_lut rf_power k)).rf_power.sle rf_power)
      ∧ ∀ j, powIndexLoop tx_lut rf_power k < j → j ≤ k →
        ¬(tx_lut.lut j).rf_power.sle rf_power := by
  induction k with
  | zero => exact ⟨Nat.le_refl 0, .inl rfl, fun j hj hj' => absurd hj (Nat.not_lt.mpr hj')⟩
  | succ k ih =>
    unfold powIndexLoop
    split
    · rename_i hle
      exact ⟨Nat.le_refl _, .inr hle, fun j hj hj' => absurd hj (Nat.not_lt.mpr hj')⟩
    · rename_i hgt
      obtain ⟨hbound, hfound, hrest⟩ := ih
      refine ⟨Nat.le_succ_of_le hbound, hfound, ?_⟩
      intro j hj hj'
      rcases Nat.lt_or_eq_of_le hj' with hlt | rfl
      · exact hrest j hj (Nat.le_of_lt_succ hlt)
      · exact hgt

end RutosSdk.Hal
