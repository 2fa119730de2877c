import RutosSdk.Hal.Context
import RutosSdk.Hal.TxGain
import Mathlib.Data.Int.Notation

/-! # The power a downlink is sent with

Reference: `get_tx_gain_lut_index` and the power check of `thread_down` in
`packet_forwarder/src/lora_pkt_fwd.c`.

The packet forwarder looks for the entry closest to the requested power from below, in a table of
any order. The HAL then looks for the last entry that is not above the power it is given. The two
agree when no entry of lower power stands behind the selected one.
-/

namespace RutosSdk.Forwarder

open Hal

/-- The variables of the search. -/
structure BestMatch where
  current_best_index : Option ℕ
  current_best_match : Byte

/-- One iteration of the search. -/
def bestMatchStep (txlut : LgwTxGainLut) (rf_power : Byte) (s : BestMatch) (pow_index : ℕ) :
    BestMatch :=
  let diff : ℤ := rf_power.toInt - (txlut.lut pow_index).rf_power.toInt
  if diff < 0 then s
  else if s.current_best_index = none ∨ diff < s.current_best_match.toNat then
    ⟨some pow_index, BitVec.ofInt 8 diff⟩
  else s

/-- `get_tx_gain_lut_index`: whether an entry was found, and `*lut_index`. -/
def getTxGainLutIndex (txlut : LgwTxGainLut) (rf_power : Byte) : Bool × Byte :=
  match ((List.range txlut.size.toNat).foldl (bestMatchStep txlut rf_power)
      ⟨none, 0xFF⟩).current_best_index with
  | some i => (true, BitVec.ofNat 8 i)
  | none => (false, 0)

/-- The power check of `thread_down`: the packet with the power it is queued with, and the value of
the warning sent to the server, if any. -/
def checkTxPower (txlut : LgwTxGainLut) (txpkt : LgwPktTx) : LgwPktTx × Option ℤ :=
  let (found, tx_lut_idx) := getTxGainLutIndex txlut txpkt.rf_power
  let power := (txlut.lut tx_lut_idx.toNat).rf_power
  if found = false ∨ power ≠ txpkt.rf_power then
    ({ txpkt with rf_power := power }, some power.toInt)
  else (txpkt, none)

/-! ## The selected power -/

/-- The largest power of the table that is not above the requested one; entry zero if all are. -/
def IsSelected (txlut : LgwTxGainLut) (rf_power power : Byte) : Prop :=
  (∃ i < txlut.size.toNat, (txlut.lut i).rf_power = power ∧ power.toInt ≤ rf_power.toInt
      ∧ ∀ j < txlut.size.toNat, (txlut.lut j).rf_power.toInt ≤ rf_power.toInt →
        (txlut.lut j).rf_power.toInt ≤ power.toInt)
    ∨ (∀ j < txlut.size.toNat, rf_power.toInt < (txlut.lut j).rf_power.toInt)
      ∧ power = (txlut.lut 0).rf_power

/-- What the search knows after the entries before `n`. -/
def Searched (txlut : LgwTxGainLut) (rf_power : Byte) (n : ℕ) (s : BestMatch) : Prop :=
  match s.current_best_index with
  | none => ∀ j < n, rf_power.toInt < (txlut.lut j).rf_power.toInt
  | some i => i < n ∧ (s.current_best_match.toNat : ℤ)
        = rf_power.toInt - (txlut.lut i).rf_power.toInt
      ∧ ∀ j < n, (txlut.lut j).rf_power.toInt ≤ rf_power.toInt →
        (txlut.lut j).rf_power.toInt ≤ (txlut.lut i).rf_power.toInt

/-- A difference of two signed bytes that is not negative is a byte. -/
theorem toNat_ofInt_sub {x y : Byte} (h : y.toInt ≤ x.toInt) :
    ((BitVec.ofInt 8 (x.toInt - y.toInt)).toNat : ℤ) = x.toInt - y.toInt := by
  have hx := @BitVec.toInt_lt 8 x
  have hy := @BitVec.le_toInt 8 y
  rw [BitVec.toNat_ofInt]
  omega

variable {rf_power : Byte} {txlut : LgwTxGainLut}

/-- One entry of the table. -/
theorem searched_bestMatchStep {n : ℕ} {s : BestMatch} (h : Searched txlut rf_power n s) :
    Searched txlut rf_power (n + 1) (bestMatchStep txlut rf_power s n) := by
  have hlast : ∀ {P : ℕ → Prop}, (∀ j < n, P j) → P n → ∀ j < n + 1, P j := by
    intro P hP hn j hj
    rcases Nat.lt_or_eq_of_le (Nat.le_of_lt_succ hj) with hlt | rfl
    · exact hP j hlt
    · exact hn
  unfold bestMatchStep
  obtain ⟨index, best⟩ := s
  by_cases habove : rf_power.toInt - (txlut.lut n).rf_power.toInt < 0
  · rw [if_pos habove]
    cases index with
    | none => exact hlast h (by omega)
    | some i =>
      obtain ⟨hi, hmatch, hmax⟩ := h
      exact ⟨by omega, hmatch, hlast hmax (fun hle => by omega)⟩
  · rw [if_neg habove]
    have hdiff := @toNat_ofInt_sub rf_power (txlut.lut n).rf_power (by omega)
    cases index with
    | none =>
      rw [if_pos (Or.inl rfl)]
      refine ⟨Nat.lt_succ_self n, hdiff, hlast (fun j hj hle => ?_) (fun _ => Int.le_refl _)⟩
      exact absurd (h j hj) (by omega)
    | some i =>
      obtain ⟨hi, hmatch, hmax⟩ := h
      dsimp only at hmatch
      by_cases hcloser : rf_power.toInt - (txlut.lut n).rf_power.toInt < best.toNat
      · rw [if_pos (Or.inr hcloser)]
        refine ⟨Nat.lt_succ_self n, hdiff, hlast (fun j hj hle => ?_) (fun _ => Int.le_refl _)⟩
        have := hmax j hj hle
        omega
      · rw [if_neg (by simpa using hcloser)]
        exact ⟨by omega, hmatch, hlast hmax (fun hle => by omega)⟩

theorem searched_foldl (txlut : LgwTxGainLut) (rf_power : Byte) (n : ℕ) :
    Searched txlut rf_power n ((List.range n).foldl (bestMatchStep txlut rf_power)
      ⟨none, 0xFF⟩) := by
  induction n with
  | zero => exact fun j hj => absurd hj (Nat.not_lt_zero j)
  | succ n ih =>
    rw [List.range_succ, List.foldl_append]
    exact searched_bestMatchStep ih

/-- The power at the index that the search returns. -/
theorem isSelected_getTxGainLutIndex (txlut : LgwTxGainLut) (rf_power : Byte) :
    IsSelected txlut rf_power
      (txlut.lut (getTxGainLutIndex txlut rf_power).2.toNat).rf_power := by
  have hsearched := searched_foldl txlut rf_power txlut.size.toNat
  unfold Searched at hsearched
  unfold getTxGainLutIndex
  split at hsearched
  · rename_i hnone
    rw [hnone]
    exact Or.inr ⟨hsearched, rfl⟩
  · rename_i i hsome
    obtain ⟨hi, hmatch, hmax⟩ := hsearched
    have hindex : (BitVec.ofNat 8 i).toNat = i := by
      rw [BitVec.toNat_ofNat]
      exact Nat.mod_eq_of_lt (by omega)
    rw [hsome]
    rw [hindex]
    exact Or.inl ⟨i, hi, rfl, by omega, hmax⟩

theorem IsSelected.unique {p q : Byte} (hp : IsSelected txlut rf_power p)
    (hq : IsSelected txlut rf_power q) : p = q := by
  rcases hp with ⟨i, hi, rfl, hle, hmax⟩ | ⟨hall, rfl⟩
  · rcases hq with ⟨j, hj, rfl, hle', hmax'⟩ | ⟨hall, -⟩
    · exact BitVec.eq_of_toInt_eq (Int.le_antisymm (hmax' i hi hle) (hmax j hj hle'))
    · exact absurd (hall i hi) (by omega)
  · rcases hq with ⟨j, hj, rfl, hle', -⟩ | ⟨-, rfl⟩
    · exact absurd (hall j hj) (by omega)
    · rfl

/-- A packet is queued with the selected power, and a warning reports it. -/
theorem checkTxPower_spec (txlut : LgwTxGainLut) (txpkt : LgwPktTx) {power : Byte}
    (h : IsSelected txlut txpkt.rf_power power) :
    (checkTxPower txlut txpkt).1 = { txpkt with rf_power := power }
      ∧ ∀ value, (checkTxPower txlut txpkt).2 = some value → value = power.toInt := by
  have hpower := (isSelected_getTxGainLutIndex txlut txpkt.rf_power).unique h
  unfold checkTxPower
  dsimp only
  rw [hpower]
  split
  · exact ⟨rfl, fun value hvalue => (Option.some.inj hvalue).symm⟩
  · rename_i hsame
    have hsame : power = txpkt.rf_power := Classical.byContradiction fun hne => hsame (Or.inr hne)
    exact ⟨by rw [hsame], fun value hvalue => absurd hvalue nofun⟩

/-- Some entry has the selected power. -/
theorem IsSelected.exists_index {power : Byte} (h : IsSelected txlut rf_power power)
    (hsize : 0 < txlut.size.toNat) : ∃ i < txlut.size.toNat, (txlut.lut i).rf_power = power := by
  rcases h with ⟨i, hi, heq, -⟩ | ⟨-, rfl⟩
  · exact ⟨i, hi, heq⟩
  · exact ⟨0, hsize, rfl⟩

/-! ## The programmed power -/

/-- The HAL picks an entry that is not above the power, and all entries behind it are. -/
theorem powIndex_spec {context conf table : LgwTxGainLut} {power : Byte} {i : ℕ}
    (haccept : lgwTxgainSetconf context conf = (true, table)) (hi : i < conf.size.toNat)
    (hidx : (conf.lut i).rf_power = power) :
    powIndex table power < conf.size.toNat
      ∧ (conf.lut (powIndex table power)).rf_power.toInt ≤ power.toInt
      ∧ ∀ j, powIndex table power < j → j < conf.size.toNat →
        power.toInt < (conf.lut j).rf_power.toInt := by
  obtain ⟨hsize, htable, hlut⟩ := lgwTxgainSetconf_eq_true haccept
  have hlast : (table.size - 1).toNat = conf.size.toNat - 1 := by
    rw [htable]
    exact BitVec.toNat_sub_of_le (BitVec.le_def.mpr hsize)
  obtain ⟨hbound, hfound, hbehind⟩ := powIndexLoop_spec table power (table.size - 1).toNat
  unfold powIndex
  generalize powIndexLoop table power (table.size - 1).toNat = p at hbound hfound hbehind ⊢
  have hp : p < conf.size.toNat := by omega
  have habove : ∀ j, p < j → j < conf.size.toNat → power.toInt < (conf.lut j).rf_power.toInt := by
    intro j hj hj'
    have hnot := hbehind j hj (by omega)
    rw [hlut j hj', BitVec.sle_iff_toInt_le] at hnot
    omega
  refine ⟨hp, ?_, habove⟩
  rcases hfound with rfl | hle
  · -- the search has reached the first entry, which is then the one of the power
    have hzero : ¬0 < i := fun hlt => by
      have := habove i hlt hi
      rw [hidx] at this
      omega
    obtain rfl : i = 0 := by omega
    exact Int.le_of_eq (congrArg BitVec.toInt hidx)
  · rwa [hlut p hp, BitVec.sle_iff_toInt_le] at hle

/-- The last entry that is not above a power has that very power exactly when each entry of lower
power is followed by one of that power. -/
theorem last_not_above_iff {powers : ℕ → Byte} {n p : ℕ} {power : Byte} (hp : p < n)
    (hle : (powers p).toInt ≤ power.toInt)
    (habove : ∀ j, p < j → j < n → power.toInt < (powers j).toInt) :
    powers p = power ↔ ∀ j < n, (powers j).toInt < power.toInt →
      ∃ k, j < k ∧ k < n ∧ powers k = power := by
  constructor
  · intro heq j hj hlt
    refine ⟨p, ?_, hp, heq⟩
    apply Nat.lt_of_not_le
    intro hpj
    rcases Nat.lt_or_eq_of_le hpj with hpj | rfl
    · exact absurd (habove j hpj hj) (by omega)
    · rw [heq] at hlt
      omega
  · intro hcond
    apply BitVec.eq_of_toInt_eq
    apply Int.le_antisymm hle
    apply Int.not_lt.mp
    intro hlt
    obtain ⟨k, hk, hk', heq⟩ := hcond p hp hlt
    have := habove k hk hk'
    rw [heq] at this
    omega

/-- The HAL never programs an entry above the power the packet was queued with. It programs an entry
of that very power exactly when each entry of lower power is followed by one of that power. -/
theorem programmed_power_iff {context conf table : LgwTxGainLut}
    (haccept : lgwTxgainSetconf context conf = (true, table)) (txpkt : LgwPktTx) {power : Byte}
    (hpower : IsSelected conf txpkt.rf_power power) : let queued := (checkTxPower conf txpkt).1
    let programmed := (table.lut (powIndex table queued.rf_power)).rf_power
    queued.rf_power = power
      ∧ (∀ value, (checkTxPower conf txpkt).2 = some value → value = power.toInt)
      ∧ programmed.toInt ≤ power.toInt
      ∧ (programmed = power ↔ ∀ j < conf.size.toNat,
        (conf.lut j).rf_power.toInt < power.toInt →
          ∃ k, j < k ∧ k < conf.size.toNat ∧ (conf.lut k).rf_power = power) := by
  obtain ⟨hsize, -, hlut⟩ := lgwTxgainSetconf_eq_true haccept
  obtain ⟨hqueued, hwarning⟩ := checkTxPower_spec conf txpkt hpower
  obtain ⟨i, hi, hidx⟩ := hpower.exists_index hsize
  obtain ⟨hp, hle, habove⟩ := powIndex_spec haccept hi hidx
  intro queued programmed
  have hrf : queued.rf_power = power := by
    rw [show queued = _ from hqueued]
  have hprogrammed : programmed = (conf.lut (powIndex table power)).rf_power := by
    rw [show programmed = _ from congrArg (fun x => (table.lut (powIndex table x)).rf_power) hrf]
    exact hlut _ hp
  rw [hprogrammed]
  exact ⟨hrf, hwarning, hle, last_not_above_iff hp hle habove⟩

/-- A table entry with the given power and gains in range. -/
def gainEntry (rf_power : Byte) : LgwTxGain := ⟨rf_power, 0, 0, 3, 15, 0, 0, 0⟩

/-- The table of the given powers. -/
def gainTable (powers : List Byte) : LgwTxGainLut :=
  ⟨fun i => gainEntry (powers.getD i 0), BitVec.ofNat 8 powers.length⟩

/-- In a table of ascending powers, a request for 12 dBm is sent with 10 dBm. -/
theorem programmed_power_ascending :
    let queued := (checkTxPower (gainTable [10, 14]) { LgwPktTx.zero with rf_power := 12 }).1
    (lgwTxgainSetconf (gainTable []) (gainTable [10, 14])).1 = true
      ∧ ((lgwTxgainSetconf (gainTable []) (gainTable [10, 14])).2.lut
          (powIndex (lgwTxgainSetconf (gainTable []) (gainTable [10, 14])).2
            queued.rf_power)).rf_power = 10 := by
  refine ⟨by decide, ?_⟩
  refine (@programmed_power_iff (gainTable []) (gainTable [10, 14]) _ rfl
    { LgwPktTx.zero with rf_power := 12 } 10 ?_).2.2.2.mpr ?_
  · exact Or.inl ⟨0, by decide, by decide, by decide, by decide⟩
  · have hnone : ∀ j < (gainTable [10, 14]).size.toNat,
        ¬((gainTable [10, 14]).lut j).rf_power.toInt < BitVec.toInt (10 : Byte) := by
      decide
    exact fun j hj hlt => absurd hlt (hnone j hj)

/-- In the table with the two powers the other way round, a request for 14 dBm selects that power
and the HAL programs 10 dBm. -/
theorem programmed_power_descending :
    let queued := (checkTxPower (gainTable [14, 10]) { LgwPktTx.zero with rf_power := 14 }).1
    let table := (lgwTxgainSetconf (gainTable []) (gainTable [14, 10])).2
    (lgwTxgainSetconf (gainTable []) (gainTable [14, 10])).1 = true ∧ queued.rf_power = 14
      ∧ (table.lut (powIndex table queued.rf_power)).rf_power = 10 := by
  decide

end RutosSdk.Forwarder
