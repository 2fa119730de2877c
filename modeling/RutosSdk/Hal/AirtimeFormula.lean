import RutosSdk.Lib.Exact
import RutosSdk.Hal.Airtime

/-! # The LoRa air-time formula

Reference: `lora_packet_time_on_air` in `libloragw/src/loragw_aux.c`, and `SET_PPM_ON` in
`libloragw/inc/loragw_sx1302.h`.

The formula over the rationals has the low data rate optimisation as a parameter.
`lora_packet_time_on_air` takes it for granted from SF11 on, while `sx1302_send` programs it by
bandwidth and spreading factor. Where the two differ, the result is still right for a payload that
fills as many blocks either way.
-/

namespace RutosSdk.Hal

open Binary64 Rounding

/-! ## The computation in `double` -/

variable (wild : Double.WildCast) (bw : Byte) (sf : ℕ)

/-- The bits of the payload after those in the header block; negative if they are fewer than that
block holds. -/
def payloadBits (no_header no_crc : Bool) (size : ℕ) : ℤ :=
  8 * size + (if no_crc then 0 else 16) - 4 * sf + (if 7 ≤ sf then 8 else 0)
    + 20 * (if no_header then 0 else 1)

/-- The payload symbols in `double`, converted to `uint32_t`. -/
def nSymbolPayloadDouble (sf cr : Byte) (no_header no_crc : Bool) (size : Byte) : Word :=
  let de : ℕ := if 11 ≤ sf.toNat then 1 else 0
  let bits := max (payloadBits sf.toNat no_header no_crc size.toNat) 0
  let blocks := ((Double.ofInt bits).divNat (4 * (sf.toNat - 2 * de))).ceil
  (blocks.mul (.ofInt (cr.toNat + 4 : ℕ))).toUnsigned wild 32

/-- The symbols of the packet in `double`; the literals are 4.25 and 6.25. -/
def nSymbolDouble (sf cr : Byte) (n_symbol_preamble : BitVec 16) (no_header no_crc : Bool)
    (size : Byte) : Double :=
  (((Double.ofInt n_symbol_preamble.toNat).add
    (.finite (.literal (if 7 ≤ sf.toNat then 17 else 25) 4))).add (.ofInt (8 : ℕ))).add
      (.ofInt (nSymbolPayloadDouble wild sf cr no_header no_crc size).toNat)

/-- `lora_packet_time_on_air` with its operations in `double`, and the symbol time in its
`uint16_t`. -/
def loraPacketTimeOnAirDouble (sf cr : Byte) (n_symbol_preamble : BitVec 16)
    (no_header no_crc : Bool) (size : Byte) : Word :=
  if !isLoraDr sf then 0
  else if !isLoraBw bw then 0
  else if !isLoraCr cr then 0
  else
    let t_symbol_us : BitVec 16 := BitVec.ofNat 16 (tSymbolUs bw sf)
    let n_symbol := nSymbolDouble wild sf cr n_symbol_preamble no_header no_crc size
    (n_symbol.mul (.ofInt t_symbol_us.toNat)).toUnsigned wild 32

theorem near_ofInt_natCast {n : ℕ} (h : n < 2 ^ 53) : Double.Near (.ofInt n) n 0 := by
  have habs : |(n : ℤ)| < 2 ^ 53 := by
    exact_mod_cast h
  exact_mod_cast Double.near_ofInt_exact habs

/-- The literals 4.25 and 6.25 are exact. -/
theorem near_literal_quarters {quarters : ℕ} (h : quarters < 2 ^ 53) :
    Double.Near (.finite (.literal quarters 4)) (quarters / 4) 0 := by
  have hexact := @roundQuot_exact 53 quarters 4 quarters 2 (by decide) (by decide) h (by omega) rfl
  have hexact' : ((roundQuot 53 quarters 4).num : ℚ) * 4
      = quarters * 2 ^ (roundQuot 53 quarters 4).scale := by exact_mod_cast hexact
  refine Double.near_zero_iff.mpr ⟨_, rfl, ?_⟩
  rw [Fraction.val, div_eq_div_iff (by positivity) (by norm_num)]
  simpa [Fraction.literal] using hexact'

/-- The ceiling of a quotient of naturals, as an integer division. -/
theorem ceil_natCast_div (a : ℕ) {b : ℕ} (hb : 0 < b) : ⌈(a : ℚ) / b⌉ = ((a + b - 1) / b : ℕ) := by
  have hb' : (0 : ℚ) < b := by exact_mod_cast hb
  have hlt := Nat.lt_div_mul_add (a := a + b - 1) hb
  have hle := Nat.div_mul_le_self (a + b - 1) b
  generalize (a + b - 1) / b = c at *
  have hbelow : (c : ℤ) * b < a + b := by
    have : c * b < a + b := by omega
    exact_mod_cast this
  have habove : a ≤ c * b := by omega
  rw [Int.ceil_eq_iff, lt_div_iff₀ hb', div_le_iff₀ hb']
  constructor
  · have : ((c : ℤ) - 1) * b < a := by linarith
    exact_mod_cast this
  · exact_mod_cast habove

theorem payloadBits_toNat_le (no_header no_crc : Bool) {size : ℕ} (hsize : size ≤ 255) :
    (payloadBits sf no_header no_crc size).toNat ≤ 2100 := by
  unfold payloadBits
  split_ifs <;> omega

theorem toNat_nSymbolPayloadDouble {sf cr : Byte} (hsf : isLoraDr sf) (hcr : isLoraCr cr)
    (no_header no_crc : Bool) (size : Byte) :
    (nSymbolPayloadDouble wild sf cr no_header no_crc size).toNat
      = nSymbolPayload sf cr no_header no_crc size := by
  have hlt := nSymbolPayload_lt hsf hcr no_header no_crc size
  have hbits := payloadBits_toNat_le sf.toNat no_header no_crc (Nat.le_of_lt_succ size.isLt)
  simp only [isLoraDr, Bool.and_eq_true, decide_eq_true_eq] at hsf
  have hpayload : nSymbolPayload sf cr no_header no_crc size
      = ((payloadBits sf.toNat no_header no_crc size.toNat).toNat
          + 4 * (sf.toNat - 2 * if 11 ≤ sf.toNat then 1 else 0) - 1)
        / (4 * (sf.toNat - 2 * if 11 ≤ sf.toNat then 1 else 0)) * (cr.toNat + 4) := rfl
  have hper : 0 < 4 * (sf.toNat - 2 * if 11 ≤ sf.toNat then 1 else 0) := by
    split_ifs <;> omega
  simp only [nSymbolPayloadDouble]
  rw [← Int.toNat_eq_max]
  generalize (payloadBits sf.toNat no_header no_crc size.toNat).toNat = bits at *
  have hblocks := (near_ofInt_natCast (n := bits) (by omega)).ceil_divNat (by omega) hper
  rw [ceil_natCast_div bits hper] at hblocks
  generalize nSymbolPayload sf cr no_header no_crc size = symbols at *
  have hsymbols := hblocks.mul_exact (near_ofInt_natCast (n := cr.toNat + 4) (by omega))
    (m := symbols) (j := 0) (by omega) (by rw [Nat.abs_cast]; omega) (by rw [hpayload]; simp)
  have hvalue : ((symbols : ℤ) : ℚ) / 2 ^ 0 = (symbols : ℤ) := by simp
  rw [hvalue] at hsymbols
  rw [hsymbols.toUnsigned_exact (by positivity) (by push_cast; exact_mod_cast (by omega)) wild,
    Int.floor_intCast]
  simp
  omega

/-- The number of symbols is exact, a multiple of a quarter. -/
theorem near_nSymbolDouble {sf cr : Byte} (hsf : isLoraDr sf) (hcr : isLoraCr cr)
    (n_symbol_preamble : BitVec 16) (no_header no_crc : Bool) (size : Byte) :
    Double.Near (nSymbolDouble wild sf cr n_symbol_preamble no_header no_crc size)
      (nSymbolQuarters sf cr n_symbol_preamble no_header no_crc size / 4) 0 := by
  have hpre := n_symbol_preamble.isLt
  have hlt := nSymbolPayload_lt hsf hcr no_header no_crc size
  have hquarters : (if 7 ≤ sf.toNat then 17 else 25) ≤ 25 := by split_ifs <;> omega
  rw [nSymbolDouble, toNat_nSymbolPayloadDouble wild hsf hcr, nSymbolQuarters]
  generalize (if 7 ≤ sf.toNat then 17 else 25) = quarters at *
  generalize nSymbolPayload sf cr no_header no_crc size = symbols at *
  generalize n_symbol_preamble.toNat = preamble at *
  have habs (m : ℕ) (hm : m < 2 ^ 53) : |(m : ℤ)| < 2 ^ 53 := by
    exact_mod_cast hm
  have h₁ := (near_ofInt_natCast (n := preamble) (by omega)).add_exact
    (@near_literal_quarters quarters (by omega))
    (m := (4 * preamble + quarters : ℕ)) (j := 2) (by omega) (habs _ (by omega))
    (by push_cast; ring)
  have h₂ := h₁.add_exact (near_ofInt_natCast (n := 8) (by omega))
    (m := (4 * preamble + quarters + 32 : ℕ)) (j := 2) (by omega) (habs _ (by omega))
    (by push_cast; ring)
  have h₃ := h₂.add_exact (near_ofInt_natCast (n := symbols) (by omega))
    (m := (4 * preamble + quarters + 32 + 4 * symbols : ℕ)) (j := 2) (by omega)
    (habs _ (by omega)) (by push_cast; ring)
  norm_num at h₃ ⊢
  exact h₃

/-- No operation loses anything: the computation is that on integers. -/
theorem loraPacketTimeOnAirDouble_eq (sf cr : Byte) (n_symbol_preamble : BitVec 16)
    (no_header no_crc : Bool) (size : Byte) :
    loraPacketTimeOnAirDouble wild bw sf cr n_symbol_preamble no_header no_crc size
      = loraPacketTimeOnAir bw sf cr n_symbol_preamble no_header no_crc size := by
  unfold loraPacketTimeOnAirDouble loraPacketTimeOnAir
  split
  · rfl
  rename_i hsf
  split
  · rfl
  split
  · rfl
  rename_i hcr
  rw [Bool.not_eq_true', Bool.not_eq_false] at hsf hcr
  have hle := nSymbolQuarters_le hsf hcr n_symbol_preamble no_header no_crc size
  have hsymbol := @tSymbolUs_le bw sf hsf
  have hprod := Nat.mul_le_mul hle hsymbol
  have h := near_nSymbolDouble wild hsf hcr n_symbol_preamble no_header no_crc size
  dsimp only
  rw [BitVec.toNat_ofNat, Nat.mod_eq_of_lt (by omega)]
  generalize nSymbolQuarters sf cr n_symbol_preamble no_header no_crc size = quarters at *
  generalize tSymbolUs bw sf = symbol at *
  have htotal := h.mul_exact (near_ofInt_natCast (n := symbol) (by omega))
    (m := (quarters * symbol : ℕ)) (j := 2) (by omega)
    (by rw [Nat.abs_cast]; exact_mod_cast (by omega)) (by push_cast; ring)
  have hcast : (((quarters * symbol : ℕ) : ℤ) : ℚ) / 2 ^ 2 = (quarters * symbol : ℕ) / (4 : ℕ) := by
    norm_num
  have hfits : ((quarters * symbol : ℕ) : ℚ) / (4 : ℕ) < 2 ^ 32 := by
    rw [div_lt_iff₀ (by norm_num)]
    exact_mod_cast (by omega : quarters * symbol < 2 ^ 32 * 4)
  rw [hcast] at htotal
  rw [htotal.toUnsigned_exact (by positivity) hfits wild, Rat.floor_natCast_div_natCast]
  rfl

/-! ## The formula over the rationals -/

/-- The duration of a symbol in microseconds. -/
def symbolTime : ℚ := 2 ^ sf / (125000 * bwPow bw) * 1000000

/-- The LoRa air time in microseconds; `de` is one with the low data rate optimisation. -/
def loraAirTime (cr de : ℕ) (preamble : ℕ) (no_header no_crc : Bool) (size : ℕ) : ℚ :=
  (preamble + (if 7 ≤ sf then 17 / 4 else 25 / 4) + 8
    + ⌈max (payloadBits sf no_header no_crc size : ℚ) 0 / (4 * (sf - 2 * de))⌉ * (cr + 4))
    * symbolTime bw sf

/-- The bits that one block of symbols carries. -/
def blockBits (de : ℕ) : ℕ := 4 * (sf - 2 * de)

/-- The bits fill as many blocks with the optimisation as without. -/
def SameBlocks (bits : ℤ) : Prop :=
  ∃ k : ℕ, ((k : ℤ) - 1) * blockBits sf 0 < bits ∧ bits ≤ k * blockBits sf 1

/-- The symbol time is a whole number of microseconds. -/
theorem symbolTime_eq {sf : Byte} (hsf : 5 ≤ sf.toNat) :
    symbolTime bw sf.toNat = tSymbolUs bw sf := by
  obtain ⟨k, hk⟩ : 2 ∣ 2 ^ sf.toNat := dvd_pow_self 2 (by omega)
  have hk' : (2 : ℚ) ^ sf.toNat = 2 * k := by exact_mod_cast hk
  rw [symbolTime, hk', tSymbolUs, hk, bwPow]
  split_ifs
  · rw [Nat.div_one]
    push_cast
    ring
  · rw [show 2 * k * 8 / 2 = 8 * k by omega]
    push_cast
    ring
  · rw [show 2 * k * 8 / 4 = 4 * k by omega]
    push_cast
    ring

/-- The number of blocks that `a` bits fill, `b` bits to a block. -/
theorem blocks_eq_iff {a b : ℕ} (hb : 0 < b) (k : ℕ) :
    (a + b - 1) / b = k ↔ ((k : ℤ) - 1) * b < a ∧ (a : ℤ) ≤ k * b := by
  have hb' : (0 : ℚ) < b := by exact_mod_cast hb
  have hceil : (a + b - 1) / b = k ↔ ⌈(a : ℚ) / b⌉ = k := by
    rw [ceil_natCast_div a hb]
    exact Nat.cast_inj.symm
  rw [hceil, Int.ceil_eq_iff, lt_div_iff₀ hb', div_le_iff₀ hb']
  exact_mod_cast Iff.rfl

/-- A coarser division into blocks gives as many blocks exactly if one number fits both. -/
theorem blocks_eq_blocks_iff {bits : ℤ} {b c : ℕ} (hc : 0 < c) (hcb : c ≤ b) (hbits : -b < bits) :
    (bits.toNat + b - 1) / b = (bits.toNat + c - 1) / c
      ↔ ∃ k : ℕ, ((k : ℤ) - 1) * b < bits ∧ bits ≤ k * c := by
  have hb : 0 < b := by omega
  constructor
  · intro heq
    obtain ⟨hlo, -⟩ := (@blocks_eq_iff bits.toNat b hb _).mp rfl
    obtain ⟨-, hhi⟩ := (blocks_eq_iff hc _).mp heq.symm
    refine ⟨(bits.toNat + b - 1) / b, ?_, (Int.self_le_toNat bits).trans hhi⟩
    rcases lt_or_ge bits 0 with hneg | hpos
    · -- nothing is left after the header block
      have hzero : (bits.toNat + b - 1) / b = 0 := by
        rw [Int.toNat_of_nonpos hneg.le]
        exact Nat.div_eq_of_lt (by omega)
      rw [hzero]
      push_cast
      linarith
    · rwa [Int.toNat_of_nonneg hpos] at hlo
  · rintro ⟨k, hlo, hhi⟩
    have hkc : (0 : ℤ) ≤ k * c := by positivity
    have hle : (k : ℤ) * c ≤ k * b := by gcongr
    have hself : bits ≤ bits.toNat := Int.self_le_toNat bits
    have hlo' : ((k : ℤ) - 1) * c < bits.toNat := by
      rcases Nat.eq_zero_or_pos k with rfl | hk
      · push_cast
        linarith [Int.natCast_pos.mpr hc, Int.natCast_nonneg bits.toNat]
      · have : ((k : ℤ) - 1) * c ≤ (k - 1) * b := by
          have : (0 : ℤ) ≤ (k : ℤ) - 1 := by omega
          gcongr
        linarith
    rw [(blocks_eq_iff hb k).mpr ⟨by linarith, by omega⟩, (blocks_eq_iff hc k).mpr ⟨hlo', by omega⟩]

theorem payloadSymbols_eq_blocks (cr de : ℕ) (no_header no_crc : Bool) (size : ℕ) :
    payloadSymbols sf cr de (bit !no_header) (bit !no_crc) size
      = ((payloadBits sf no_header no_crc size).toNat + blockBits sf de - 1) / blockBits sf de
        * (cr + 4) := by
  have hbits : (payloadBits sf no_header no_crc size).toNat
      = 8 * size + 16 * bit (!no_crc) + (if 7 ≤ sf then 8 else 0) + 20 * bit (!no_header)
        - 4 * sf := by
    rw [payloadBits, bit_not, bit_not]
    split_ifs <;> omega
  rw [hbits]
  rfl

/-- The formula counts the symbols that the registers describe. -/
theorem loraAirTime_eq {sf : Byte} (hsf : isLoraDr sf) (cr : ℕ) {de : ℕ} (hde : de ≤ 1)
    (preamble : ℕ) (no_header no_crc : Bool) (size : ℕ) :
    loraAirTime bw sf.toNat cr de preamble no_header no_crc size
      = (loraQuarters sf.toNat cr de (bit !no_header) (bit !no_crc) preamble size
          * (tSymbolUs bw sf / 4) : ℕ) := by
  simp only [isLoraDr, Bool.and_eq_true, decide_eq_true_eq] at hsf
  have hblock : 0 < blockBits sf.toNat de := by
    unfold blockBits
    omega
  have hper : (4 * ((sf.toNat : ℚ) - 2 * de)) = (blockBits sf.toNat de : ℕ) := by
    rw [blockBits]
    push_cast [Nat.cast_sub (show 2 * de ≤ sf.toNat by omega)]
    ring
  have hbits : max (payloadBits sf.toNat no_header no_crc size : ℚ) 0
      = ((payloadBits sf.toNat no_header no_crc size).toNat : ℕ) := by
    rw [← Int.cast_natCast, Int.toNat_eq_max]
    push_cast
    rfl
  have hquarter := tSymbolUs_eq_quarters bw hsf.1
  rw [loraAirTime, symbolTime_eq bw hsf.1, hper, hbits, ceil_natCast_div _ hblock, loraQuarters,
    payloadSymbols_eq_blocks, hquarter, Nat.mul_div_cancel_left _ (by norm_num)]
  rw [Int.cast_natCast]
  split_ifs
  · push_cast
    ring
  · push_cast
    ring

/-! ## Where the result is exact -/

section

variable (wild : Double.WildCast) (packet : LgwPktTx) (de : ℕ)

/-- The air time of the packet by the formula. -/
def airTime : ℚ :=
  loraAirTime packet.bandwidth packet.datarate.toNat packet.coderate.toNat de
    packet.preamble.toNat packet.no_header packet.no_crc packet.size.toNat

/-- `lora_packet_time_on_air` returns the integer part of the formula, and neither the symbol time
nor the total overflows its type. -/
def TimeOnAirExact : Prop :=
  ((loraPacketTimeOnAirDouble wild packet.bandwidth (packet.datarate.setWidth 8) packet.coderate
      packet.preamble packet.no_header packet.no_crc (packet.size.setWidth 8)).toNat : ℤ)
    = ⌊airTime packet de⌋
  ∧ symbolTime packet.bandwidth packet.datarate.toNat < 2 ^ 16
  ∧ airTime packet de < 2 ^ 32

/-- The optimisation is programmed as `lora_packet_time_on_air` assumes it, or makes no difference
to the number of blocks. -/
def OptimisationAgrees : Prop :=
  setPpmOnTx packet.bandwidth packet.datarate = decide (11 ≤ packet.datarate.toNat)
    ∨ SameBlocks packet.datarate.toNat
      (payloadBits packet.datarate.toNat packet.no_header packet.no_crc packet.size.toNat)

end

/-- The optimisation that `lora_packet_time_on_air` takes for granted. -/
def assumedDe (sf : ℕ) : ℕ := if 11 ≤ sf then 1 else 0

theorem assumedDe_le (sf : ℕ) : assumedDe sf ≤ 1 := by
  unfold assumedDe
  split_ifs <;> omega

theorem isLoraDr_setWidth {dr : Word} (h : isLoraDr dr) :
    (dr.setWidth 8).toNat = dr.toNat ∧ isLoraDr (dr.setWidth 8) := by
  simp only [isLoraDr, Bool.and_eq_true, decide_eq_true_eq] at h ⊢
  have heq : (dr.setWidth 8).toNat = dr.toNat := by
    rw [BitVec.toNat_setWidth]
    omega
  rw [heq]
  exact ⟨rfl, h⟩

/-- The air time is a whole number of quarters of a symbol, hence of microseconds. -/
theorem airTime_eq {packet : LgwPktTx} (hdr : isLoraDr packet.datarate) {de : ℕ} (hde : de ≤ 1) :
    airTime packet de
      = (loraQuarters packet.datarate.toNat packet.coderate.toNat de (bit !packet.no_header)
          (bit !packet.no_crc) packet.preamble.toNat packet.size.toNat
        * (tSymbolUs packet.bandwidth (packet.datarate.setWidth 8) / 4) : ℕ) := by
  obtain ⟨hsf, hdr8⟩ := isLoraDr_setWidth hdr
  rw [airTime, ← hsf, loraAirTime_eq _ hdr8 _ hde]

/-- The computed time is that of the formula with the assumed optimisation. -/
theorem toNat_loraPacketTimeOnAirDouble (wild : Double.WildCast) {packet : LgwPktTx}
    (hbw : isLoraBw packet.bandwidth) (hdr : isLoraDr packet.datarate)
    (hcr : isLoraCr packet.coderate) (hsize : packet.size.toNat ≤ 255) :
    ((loraPacketTimeOnAirDouble wild packet.bandwidth (packet.datarate.setWidth 8) packet.coderate
        packet.preamble packet.no_header packet.no_crc (packet.size.setWidth 8)).toNat : ℚ)
      = airTime packet (assumedDe packet.datarate.toNat) := by
  obtain ⟨hsf, hdr8⟩ := isLoraDr_setWidth hdr
  have hlength : (packet.size.setWidth 8).toNat = packet.size.toNat := by
    rw [BitVec.toNat_setWidth]
    omega
  have hquarters : nSymbolQuarters (packet.datarate.setWidth 8) packet.coderate packet.preamble
        packet.no_header packet.no_crc (packet.size.setWidth 8)
      = loraQuarters packet.datarate.toNat packet.coderate.toNat
          (assumedDe packet.datarate.toNat) (bit !packet.no_header) (bit !packet.no_crc)
          packet.preamble.toNat packet.size.toNat := by
    rw [nSymbolQuarters, nSymbolPayload_eq, hsf, hlength]
    rfl
  have hfive : 5 ≤ (packet.datarate.setWidth 8).toNat := by
    simp only [isLoraDr, Bool.and_eq_true, decide_eq_true_eq] at hdr8
    exact hdr8.1
  rw [loraPacketTimeOnAirDouble_eq, toNat_loraPacketTimeOnAir hdr8 hbw hcr, hquarters,
    airTime_eq hdr (assumedDe_le _),
    Nat.mul_div_assoc _ (Dvd.intro _ (tSymbolUs_eq_quarters _ hfive).symm)]

/-- Two settings of the optimisation give the same air time exactly if the payload fills as many
blocks. -/
theorem airTime_eq_airTime_iff {packet : LgwPktTx} (hdr : isLoraDr packet.datarate) {de de' : ℕ}
    (hde : de ≤ 1) (hde' : de' ≤ 1) {bits : ℕ}
    (hbits : (payloadBits packet.datarate.toNat packet.no_header packet.no_crc
      packet.size.toNat).toNat = bits) :
    airTime packet de = airTime packet de' ↔
      (bits + blockBits packet.datarate.toNat de - 1) / blockBits packet.datarate.toNat de
        = (bits + blockBits packet.datarate.toNat de' - 1)
          / blockBits packet.datarate.toNat de' := by
  have hquarter : 0 < tSymbolUs packet.bandwidth (packet.datarate.setWidth 8) / 4 := by
    obtain ⟨-, hdr8⟩ := isLoraDr_setWidth hdr
    simp only [isLoraDr, Bool.and_eq_true, decide_eq_true_eq] at hdr8
    have hpow : 2 ^ 5 ≤ 2 ^ (packet.datarate.setWidth 8).toNat :=
      Nat.pow_le_pow_right (by decide) hdr8.1
    unfold tSymbolUs bwPow
    split_ifs <;> omega
  rw [airTime_eq hdr hde, airTime_eq hdr hde', Nat.cast_inj, Nat.mul_left_inj hquarter.ne',
    loraQuarters, loraQuarters, Nat.add_right_inj, Nat.mul_right_inj (by decide),
    payloadSymbols_eq_blocks, payloadSymbols_eq_blocks, Nat.mul_left_inj (by omega), hbits]

/-- The optimisation makes no packet shorter. -/
theorem airTime_mono {packet : LgwPktTx} (hdr : isLoraDr packet.datarate) {de de' : ℕ}
    (hde : de ≤ de') (hle : de' ≤ 1) : airTime packet de ≤ airTime packet de' := by
  have hsf := hdr
  simp only [isLoraDr, Bool.and_eq_true, decide_eq_true_eq] at hsf
  have hpayload := payloadSymbols_le hsf.1 hde hle packet.coderate.toNat (bit !packet.no_header)
    (bit !packet.no_crc) packet.size.toNat
  rw [airTime_eq hdr (hde.trans hle), airTime_eq hdr hle, loraQuarters, loraQuarters, Nat.cast_le]
  exact Nat.mul_le_mul_right _ (by omega)

/-- The programmed optimisation is the assumed one, or makes no difference, exactly if the air times
are the same. -/
theorem optimisationAgrees_iff {packet : LgwPktTx} (hdr : isLoraDr packet.datarate) :
    airTime packet (bit (setPpmOnTx packet.bandwidth packet.datarate))
        = airTime packet (assumedDe packet.datarate.toNat)
      ↔ OptimisationAgrees packet := by
  have hle := bit_setPpmOnTx_le packet.bandwidth packet.datarate
  have hblocks := @airTime_eq_airTime_iff packet hdr 0 1 (by omega) (by omega) _ rfl
  unfold OptimisationAgrees assumedDe
  by_cases heleven : 11 ≤ packet.datarate.toNat
  · cases hppm : setPpmOnTx packet.bandwidth packet.datarate
    · -- only here do the two differ
      have hbits : -(blockBits packet.datarate.toNat 0 : ℤ) < payloadBits packet.datarate.toNat
          packet.no_header packet.no_crc packet.size.toNat := by
        unfold payloadBits blockBits
        split_ifs <;> omega
      have hone : 0 < blockBits packet.datarate.toNat 1 := by
        unfold blockBits
        omega
      have hmore : blockBits packet.datarate.toNat 1 ≤ blockBits packet.datarate.toNat 0 := by
        unfold blockBits
        omega
      rw [blocks_eq_blocks_iff hone hmore hbits] at hblocks
      simpa [heleven, bit, SameBlocks] using hblocks
    · simp [heleven, bit]
  · rw [if_neg heleven] at hle ⊢
    cases hppm : setPpmOnTx packet.bandwidth packet.datarate
    · simp [heleven, bit]
    · rw [hppm] at hle
      exact absurd hle (by decide)

/-- The time on air is exactly that of the formula, with the optimisation that `sx1302_send`
programs, exactly if the optimisation agrees. -/
theorem timeOnAirExact_iff (wild : Double.WildCast) {packet : LgwPktTx}
    (hmod : packet.modulation = modLora) (hbw : isLoraBw packet.bandwidth)
    (hdr : isLoraDr packet.datarate) (hcr : isLoraCr packet.coderate)
    (hsize : packet.size.toNat ≤ 255) (env : SendEnv) (conf : SendConf) :
    ∃ ws, modemWrites env conf packet = some ws
      ∧ (TimeOnAirExact wild packet (written ws .ppmOffset) ↔ OptimisationAgrees packet) := by
  refine ⟨_, modemWrites_lora hmod env conf, ?_⟩
  rw [written_ppmOffset_loraModem, ← optimisationAgrees_iff hdr, TimeOnAirExact]
  have hcomputed := toNat_loraPacketTimeOnAirDouble wild hbw hdr hcr hsize
  have hbound : (loraPacketTimeOnAirDouble wild packet.bandwidth (packet.datarate.setWidth 8)
      packet.coderate packet.preamble packet.no_header packet.no_crc
      (packet.size.setWidth 8)).toNat ≤ 2185000000 := by
    rw [loraPacketTimeOnAirDouble_eq]
    exact loraPacketTimeOnAir_le _ _ _ _ _ _ _
  generalize (loraPacketTimeOnAirDouble wild packet.bandwidth (packet.datarate.setWidth 8)
    packet.coderate packet.preamble packet.no_header packet.no_crc
    (packet.size.setWidth 8)).toNat = toa at *
  have hmono := airTime_mono hdr (bit_setPpmOnTx_le packet.bandwidth packet.datarate)
    (assumedDe_le packet.datarate.toNat)
  have hwhole := @airTime_eq packet hdr (bit (setPpmOnTx packet.bandwidth packet.datarate))
    (bit_le_one _)
  have htotal : airTime packet (bit (setPpmOnTx packet.bandwidth packet.datarate)) < 2 ^ 32 := by
    have : (toa : ℚ) < 2 ^ 32 := by exact_mod_cast (by omega : toa < 2 ^ 32)
    unfold assumedDe at hcomputed
    linarith
  have hsymbol : symbolTime packet.bandwidth packet.datarate.toNat < 2 ^ 16 := by
    obtain ⟨hsf, hdr8⟩ := isLoraDr_setWidth hdr
    have hle := @tSymbolUs_le packet.bandwidth _ hdr8
    simp only [isLoraDr, Bool.and_eq_true, decide_eq_true_eq] at hdr8
    rw [← hsf, symbolTime_eq _ hdr8.1]
    exact_mod_cast lt_of_le_of_lt hle (by decide)
  rw [hwhole] at htotal ⊢
  rw [Int.floor_natCast, Nat.cast_inj, ← hcomputed, Nat.cast_inj]
  exact ⟨fun h => h.1.symm, fun h => ⟨h.symm, hsymbol, htotal⟩⟩

/-- A LoRa packet of 33 bytes. -/
def formulaTx (bandwidth : Byte) (datarate : Word) : LgwPktTx :=
  { LgwPktTx.zero with
    modulation := modLora
    bandwidth := bandwidth
    datarate := datarate
    coderate := 1
    preamble := 8
    size := 33 }

/-- At SF12 and 125 kHz the optimisation is on. -/
theorem timeOnAirExact_formulaTx :
    ∃ ws, modemWrites ⟨0, 0, 0, fun _ => 0⟩ sampleConf (formulaTx bw125Khz 12) = some ws
      ∧ TimeOnAirExact (fun _ _ _ => 0) (formulaTx bw125Khz 12) (written ws .ppmOffset) := by
  obtain ⟨ws, hws, hiff⟩ := @timeOnAirExact_iff (fun _ _ _ => 0) (formulaTx bw125Khz 12) rfl
    (by decide) (by decide) (by decide) (by decide) ⟨0, 0, 0, fun _ => 0⟩ sampleConf
  exact ⟨ws, hws, hiff.mpr (.inl (by decide))⟩

/-- At SF12 and 500 kHz the optimisation is off, but the time of seven blocks is returned for a
payload of six. -/
theorem timeOnAir_of_wide_channel :
    (modemWrites ⟨0, 0, 0, fun _ => 0⟩ sampleConf (formulaTx bw500Khz 12)).map
        (written · .ppmOffset) = some 0
      ∧ loraPacketTimeOnAirDouble (fun _ _ _ => 0) bw500Khz 12 1 8 false false 33 = 452608
      ∧ airTime (formulaTx bw500Khz 12) 0 = 411648
      ∧ ¬ TimeOnAirExact (fun _ _ _ => 0) (formulaTx bw500Khz 12) 0 := by
  have hcomputed :
      loraPacketTimeOnAirDouble (fun _ _ _ => 0) bw500Khz 12 1 8 false false 33 = 452608 := by
    rw [loraPacketTimeOnAirDouble_eq]
    decide
  have hformula : airTime (formulaTx bw500Khz 12) 0 = 411648 := by
    rw [airTime_eq (by decide) (by omega)]
    exact_mod_cast (by decide : _ = 411648)
  refine ⟨by decide, hcomputed, hformula, ?_⟩
  rintro ⟨hexact, -, -⟩
  rw [hformula] at hexact
  change ((loraPacketTimeOnAirDouble (fun _ _ _ => 0) bw500Khz 12 1 8 false false 33).toNat : ℤ)
    = ⌊(411648 : ℚ)⌋ at hexact
  rw [hcomputed, Int.floor_ofNat] at hexact
  exact absurd hexact (by decide)

end RutosSdk.Hal
