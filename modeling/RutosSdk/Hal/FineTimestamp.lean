import RutosSdk.Hal.PpsHistory

/-! # The reference of a fine timestamp

Reference: `precise_timestamp_calculate` in `libloragw/src/loragw_sx1302_timestamp.c`.

The fine timestamp of a packet is its time since the last PPS pulse before it. That pulse is the one
of the register if the packet is not more than 32 million ticks behind it; otherwise the history is
searched from index 0 on for a pulse that is less than 32 million ticks before the packet. A real
second is not exactly 32 million ticks, so there can be two such pulses, or none. The arithmetic in
floating point, by which the result is computed from the reference, is a parameter here.
-/

namespace RutosSdk.Hal.PpsHistory

open Circular

/-! ## The function -/

/-- The arithmetic in floating point: the offset of the preamble with the frequency error of the
packet, and the result from the distance to the reference and the ticks of one second. -/
structure FineArithmetic where
  withFreqError : Word → Word
  resultFtime : (diff_pps xtal_pps : Word) → Word

/-- `offset_preamble_hdr` -/
def offsetPreambleHdr (sf : ℕ) : Word :=
  256 * (1 <<< sf) * (8 + 4 + if sf = 5 ∨ sf = 6 then 2 else 0) + 256 * ((1 <<< sf) / 4 - 1)

/-- `timestamp_cnt_end_of_preamble`: the time of the packet. -/
def endOfPreamble (k : FineArithmetic) (sf : ℕ) (timestamp_cnt : Word) : Word :=
  timestamp_cnt - k.withFreqError (offsetPreambleHdr sf) + 2138

/-- `xtal_correct`, which is 32e6 over these ticks, is above 1.2 or below 0.8. -/
def XtalInvalid (xtal_pps : Word) : Prop :=
  6 * xtal_pps.toNat < 5 * 32000000 ∨ 5 * 32000000 < 4 * xtal_pps.toNat

instance (xtal_pps : Word) : Decidable (XtalInvalid xtal_pps) :=
  inferInstanceAs (Decidable (_ ∨ _))

/-- What a call leaves: its status, what it wrote to `result_ftime`, the pulse that it took for its
reference, and the history. -/
structure Precise where
  ret : ℤ
  result_ftime : Option Word
  timestamp_pps : Option Word
  history : TimestampPpsHistory
deriving DecidableEq

/-- The search in the history. -/
def searchHistory (h : TimestampPpsHistory) (timestamp_cnt : Word) : Option ℕ :=
  (List.range h.size).find? fun i => (timestamp_cnt - slot h i).toNat < 32000000

/-- From the check of `xtal_correct` on. -/
def finish (k : FineArithmetic) (h : TimestampPpsHistory)
    (timestamp_cnt timestamp_pps xtal_pps : Word) : Precise :=
  if XtalInvalid xtal_pps then ⟨-1, none, some timestamp_pps, h⟩
  else
    let result_ftime := k.resultFtime (timestamp_cnt - timestamp_pps) xtal_pps
    ⟨if 1000000000 < result_ftime.toNat then -1 else 0, some result_ftime, some timestamp_pps, h⟩

/-- `precise_timestamp_calculate`; `lgw_reg_rb` is the register that is read, or `none` if that
fails. -/
def preciseTimestampCalculate (h : TimestampPpsHistory) (k : FineArithmetic) (sf : ℕ)
    (timestamp_cnt : Word) (lgw_reg_rb : Option Word) : Precise :=
  if h.size < maxTimestampPpsHistory then ⟨-1, none, none, h⟩
  else
    let timestamp_cnt := endOfPreamble k sf timestamp_cnt
    match lgw_reg_rb with
    | none => ⟨0, none, none, h⟩
    | some timestamp_pps_reg =>
      let h := timestampPpsHistorySave h timestamp_pps_reg
      if 32000000 < (timestamp_cnt - timestamp_pps_reg).toNat then
        -- the pulse is after the packet, we need to rewind
        match searchHistory h timestamp_cnt with
        | none => ⟨-1, none, none, h⟩
        | some i => finish k h timestamp_cnt (slot h i) (slot h (i + 1) - slot h i)
      else
        finish k h timestamp_cnt timestamp_pps_reg
          (slot h h.idx.val - slot h (h.idx.val + 15))

/-! ## What is expected of it -/

/-- The values that were saved before a call and the one that the call reads, in which each pulse
follows the one before. -/
structure Session where
  reads : List Word
  lgw_reg_rb : Option Word
  spaced : (reads ++ lgw_reg_rb.toList).IsChain FollowsOrSame

/-- The last 16 pulses, by their age. -/
def stored (ps : List Word) (j : ℕ) : Word := ps.getD (ps.length - 16 + j) 0

/-- Pulse `j` of the last 16 is the latest one that is not after the packet; times are counted from
the oldest one on. -/
structure LatestAt (ps : List Word) (t : Word) (j : ℕ) : Prop where
  lt : j < 16
  not_after : ahead (stored ps 0) (stored ps j) ≤ ahead (stored ps 0) t
  later : ∀ k, j < k → k < 16 → ahead (stored ps 0) t < ahead (stored ps 0) (stored ps k)

/-- The history covers the time from its oldest pulse to a second after its latest one, when there
must be another. -/
def Covered (ps : List Word) (t : Word) : Prop :=
  ahead (stored ps 0) t ≤ ahead (stored ps 0) (stored ps 15) + 32100000

/-- The call takes the pulse for its reference and computes the result from it. -/
def Uses (r : Precise) (p : Word) : Prop := r.timestamp_pps = some p ∧ r.result_ftime ≠ none

/-- What is expected of the history and of a call. -/
structure TakesReference (s : Session) (k : FineArithmetic) (sf : ℕ) (timestamp_cnt : Word) :
    Prop where
  ring : HoldsLast (pulses s.reads) (saveAll s.reads)
  distinct : ∀ a b, a < b → b < (pulses s.reads).length → (pulses s.reads).length ≤ a + 16 →
    (pulses s.reads).getD a 0 ≠ (pulses s.reads).getD b 0
  reference : ∀ reg, s.lgw_reg_rb = some reg → 16 ≤ (pulses s.reads).length →
    ∀ j, LatestAt (pulses (s.reads ++ [reg])) (endOfPreamble k sf timestamp_cnt) j →
      Covered (pulses (s.reads ++ [reg])) (endOfPreamble k sf timestamp_cnt) →
        Uses (preciseTimestampCalculate (saveAll s.reads) k sf timestamp_cnt (some reg))
          (stored (pulses (s.reads ++ [reg])) j)
  success : (preciseTimestampCalculate (saveAll s.reads) k sf timestamp_cnt s.lgw_reg_rb).ret = 0 →
    (preciseTimestampCalculate (saveAll s.reads) k sf timestamp_cnt s.lgw_reg_rb).result_ftime
      ≠ none

/-! ## Distances to the packet -/

variable {a b i : ℕ}

section

variable {ps : List Word} {t : Word} {j : ℕ}

theorem ahead_stored (h : ps.IsChain Follows) (hn : 16 ≤ ps.length) (hab : a ≤ b) (hb : b < 16) :
    31900000 * (b - a) ≤ ahead (stored ps a) (stored ps b)
      ∧ ahead (stored ps a) (stored ps b) ≤ 32100000 * (b - a) := by
  have := @ahead_pulse ps h (ps.length - 16 + a) (b - a) (by omega) (by omega)
  rwa [show ps.length - 16 + a + (b - a) = ps.length - 16 + b by omega] at this

/-- From the oldest pulse on, the distances add up. -/
theorem ahead_stored_add (h : ps.IsChain Follows) (hn : 16 ≤ ps.length) (hab : a ≤ b)
    (hb : b < 16) :
    ahead (stored ps 0) (stored ps b)
      = ahead (stored ps 0) (stored ps a) + ahead (stored ps a) (stored ps b) := by
  have ha := ahead_stored h hn (Nat.zero_le a) (by omega)
  have hb := ahead_stored h hn hab hb
  refine ahead_add_of_lt ?_
  omega

section

variable (hj : LatestAt ps t j) (h : ps.IsChain Follows) (hn : 16 ≤ ps.length)
include hj h hn

/-- A pulse before the latest one is further away by the distance of the two. -/
theorem LatestAt.ahead_of_le (ha : a ≤ j) :
    ahead (stored ps a) t = ahead (stored ps a) (stored ps j) + ahead (stored ps j) t := by
  have hsum := ahead_stored_add h hn ha hj.lt
  have hnot_after := hj.not_after
  rw [ahead_sub_of_le (show ahead (stored ps 0) (stored ps a) ≤ ahead (stored ps 0) t by omega),
    ahead_sub_of_le hnot_after]
  omega

/-- A pulse after the packet is most of a turn away. -/
theorem LatestAt.far_of_lt (hlt : j < a) (ha : a < 16) : 32100000 < ahead (stored ps a) t := by
  have hbound := (ahead_stored h hn (Nat.zero_le a) ha).2
  rw [Circular.ahead_of_lt (hj.later a hlt ha)]
  omega

/-- Less than 32 million ticks before the packet there are at most two pulses: the latest one and
the one before it. -/
theorem LatestAt.eq_of_near (ha : a < 16) (hnear : ahead (stored ps a) t < 32000000) :
    (a = j ∨ a + 1 = j) ∧ ahead (stored ps j) t < 32000000 := by
  rcases Nat.lt_or_ge j a with hlt | hle
  · have := hj.far_of_lt h hn hlt ha
    omega
  · have hsum := hj.ahead_of_le h hn hle
    have hgap := (ahead_stored h hn hle hj.lt).1
    omega

end

/-! ## The search -/

/-- The index of the ring at which pulse `j` of the last 16 stands. -/
def ringIndex (ps : List Word) (j : ℕ) : ℕ := (ps.length - 16 + j) % 16

variable {h : TimestampPpsHistory}

theorem HoldsLast.slot_stored (hl : HoldsLast ps h) (hn : 16 ≤ ps.length) (hj : j < 16)
    (hi : i % 16 = ringIndex ps j) : slot h i = stored ps j := by
  rw [slot_congr h hi]
  exact hl.slots (ps.length - 16 + j) (by omega) (by omega)

theorem exists_ringIndex (ps : List Word) (hi : i < 16) : ∃ a < 16, ringIndex ps a = i :=
  ⟨(i + 16 - (ps.length - 16) % 16) % 16, by omega, by unfold ringIndex; omega⟩

theorem searchHistory_eq_some (hl : HoldsLast ps h) (hn : 16 ≤ ps.length) (ha : a < 16)
    (hnear : ahead (stored ps a) t < 32000000)
    (hfirst : ∀ b < 16, ringIndex ps b < ringIndex ps a → ¬ahead (stored ps b) t < 32000000) :
    searchHistory h t = some (ringIndex ps a) := by
  have hsize : h.size = 16 := by
    rw [hl.size]
    omega
  have hlt : ∀ b, ringIndex ps b < 16 := fun b => Nat.mod_lt _ (by decide)
  have hslot : ∀ b < 16, slot h (ringIndex ps b) = stored ps b := fun b hb =>
    hl.slot_stored hn hb (Nat.mod_eq_of_lt (hlt b))
  rw [searchHistory, hsize, List.find?_range_eq_some]
  refine ⟨decide_eq_true ?_, List.mem_range.mpr (hlt a), fun i hi => ?_⟩
  · rw [hslot a ha]
    exact hnear
  · obtain ⟨b, hb, rfl⟩ := exists_ringIndex ps (Nat.lt_trans hi (hlt a))
    rw [hslot b hb, Bool.not_eq_true', decide_eq_false_iff_not]
    exact hfirst b hb hi

theorem searchHistory_eq_none (hl : HoldsLast ps h) (hn : 16 ≤ ps.length)
    (hfar : ∀ a < 16, ¬ahead (stored ps a) t < 32000000) : searchHistory h t = none := by
  have hsize : h.size = 16 := by
    rw [hl.size]
    omega
  rw [searchHistory, hsize, List.find?_range_eq_none]
  intro i hi
  obtain ⟨a, ha, rfl⟩ := exists_ringIndex ps hi
  rw [hl.slot_stored hn ha (Nat.mod_eq_of_lt hi), Bool.not_eq_true', decide_eq_false_iff_not]
  exact hfar a ha

/-- The pulse before the latest one is not found instead of it: there is none, or it is far enough
from the packet, or the latest one comes first in the ring. -/
def NotHidden (ps : List Word) (t : Word) (j : ℕ) : Prop :=
  j = 0 ∨ 32000000 ≤ ahead (stored ps (j - 1)) t ∨ ringIndex ps j = 0

section

variable (hj : LatestAt ps t j) (hc : ps.IsChain Follows) (hl : HoldsLast ps h)
  (hn : 16 ≤ ps.length)
include hj hc hl hn

theorem LatestAt.searchHistory_of_notHidden (hnear : ahead (stored ps j) t < 32000000)
    (hclear : NotHidden ps t j) : searchHistory h t = some (ringIndex ps j) := by
  refine searchHistory_eq_some hl hn hj.lt hnear fun b hb hbefore hnear' => ?_
  rcases (hj.eq_of_near hc hn hb hnear').1 with rfl | rfl
  · exact Nat.lt_irrefl _ hbefore
  · rcases hclear with hzero | hfar | hfirst
    · omega
    · rw [Nat.add_sub_cancel] at hfar
      omega
    · omega

theorem LatestAt.searchHistory_of_hidden (hhidden : ¬NotHidden ps t j) :
    searchHistory h t = some (ringIndex ps (j - 1)) := by
  unfold NotHidden at hhidden
  push Not at hhidden
  obtain ⟨hpos, hnear, hindex⟩ := hhidden
  have hlt := hj.lt
  have hnext : ringIndex ps (j - 1) + 1 = ringIndex ps j := by
    unfold ringIndex at hindex ⊢
    omega
  refine searchHistory_eq_some hl hn (by omega) hnear fun b hb hbefore hnear' => ?_
  rcases (hj.eq_of_near hc hn hb hnear').1 with rfl | rfl
  · omega
  · rw [Nat.add_sub_cancel] at hbefore
    exact Nat.lt_irrefl _ hbefore

theorem LatestAt.searchHistory_of_far (hfar : ¬ahead (stored ps j) t < 32000000) :
    searchHistory h t = none :=
  searchHistory_eq_none hl hn fun _ ha hnear => hfar (hj.eq_of_near hc hn ha hnear).2

end

end

/-! ## The reference -/

/-- The pulse of the register is the reference up to 32 million ticks after it. Before it, the
latest pulse not after the packet is found if it is less than that before the packet, and not
hidden. -/
def IsFound (ps : List Word) (t : Word) (j : ℕ) : Prop :=
  if j = 15 then ahead (stored ps 15) t ≤ 32000000
  else ahead (stored ps j) t < 32000000 ∧ NotHidden ps t j

section

variable {k : FineArithmetic} {h : TimestampPpsHistory} {t : Word}

variable {p : Word}

theorem not_xtalInvalid {q : Word} (h : Follows p q) : ¬XtalInvalid (q - p) := by
  have hlow : 31900000 ≤ (q - p).toNat := h.1
  have hhigh : (q - p).toNat ≤ 32100000 := h.2
  unfold XtalInvalid
  omega

theorem uses_finish_iff {q xtal_pps : Word} (hxtal : ¬XtalInvalid xtal_pps) :
    Uses (finish k h t p xtal_pps) q ↔ p = q := by
  rw [finish, if_neg hxtal, Uses]
  simp

theorem ret_finish_ne_zero {xtal_pps : Word} (hnone : (finish k h t p xtal_pps).result_ftime
    = none) : (finish k h t p xtal_pps).ret ≠ 0 := by
  rw [finish] at hnone ⊢
  split at hnone
  · rw [if_pos ‹_›]
    exact (by decide : (-1 : ℤ) ≠ 0)
  · cases hnone

end

section

variable {ps : List Word} {h : TimestampPpsHistory} {k : FineArithmetic} {sf : ℕ}
  {timestamp_cnt reg : Word} {j : ℕ}

theorem stored_last (hps : ps.getLast? = some reg) (hn : 16 ≤ ps.length) : stored ps 15 = reg := by
  rw [getLast?_eq_getD (by omega), Option.some.injEq] at hps
  rw [← hps, stored, show ps.length - 16 + 15 = ps.length - 1 by omega]

theorem follows_stored (hc : ps.IsChain Follows) (hn : 16 ≤ ps.length) (hj : j + 1 < 16) :
    Follows (stored ps j) (stored ps (j + 1)) := by
  have := ahead_stored hc hn (Nat.le_add_right j 1) hj
  rwa [Nat.add_sub_cancel_left] at this

theorem calculate_of_register (hsize : h.size = 16)
    (hle : ¬32000000 < (endOfPreamble k sf timestamp_cnt - reg).toNat) :
    preciseTimestampCalculate h k sf timestamp_cnt (some reg)
      = finish k (timestampPpsHistorySave h reg) (endOfPreamble k sf timestamp_cnt) reg
        (slot (timestampPpsHistorySave h reg) (timestampPpsHistorySave h reg).idx.val
          - slot (timestampPpsHistorySave h reg)
            ((timestampPpsHistorySave h reg).idx.val + 15)) := by
  rw [preciseTimestampCalculate, if_neg (by rw [hsize]; decide)]
  exact if_neg hle

theorem calculate_of_found (hsize : h.size = 16)
    (hlt : 32000000 < (endOfPreamble k sf timestamp_cnt - reg).toNat)
    (hfound : searchHistory (timestampPpsHistorySave h reg) (endOfPreamble k sf timestamp_cnt)
      = some i) :
    preciseTimestampCalculate h k sf timestamp_cnt (some reg)
      = finish k (timestampPpsHistorySave h reg) (endOfPreamble k sf timestamp_cnt)
        (slot (timestampPpsHistorySave h reg) i)
        (slot (timestampPpsHistorySave h reg) (i + 1)
          - slot (timestampPpsHistorySave h reg) i) := by
  rw [preciseTimestampCalculate, if_neg (by rw [hsize]; decide)]
  refine (if_pos hlt).trans ?_
  rw [hfound]

theorem calculate_of_not_found (hsize : h.size = 16)
    (hlt : 32000000 < (endOfPreamble k sf timestamp_cnt - reg).toNat)
    (hnone : searchHistory (timestampPpsHistorySave h reg) (endOfPreamble k sf timestamp_cnt)
      = none) (p : Word) :
    ¬Uses (preciseTimestampCalculate h k sf timestamp_cnt (some reg)) p := by
  have hcall : preciseTimestampCalculate h k sf timestamp_cnt (some reg)
      = ⟨-1, none, none, timestampPpsHistorySave h reg⟩ := by
    rw [preciseTimestampCalculate, if_neg (by rw [hsize]; decide)]
    refine (if_pos hlt).trans ?_
    rw [hnone]
  rw [hcall]
  exact fun huses => huses.2 rfl

/-- The call finds a pulse in the history and computes the result from it. -/
theorem uses_found_iff (hsize : h.size = 16) (hl : HoldsLast ps (timestampPpsHistorySave h reg))
    (hc : ps.IsChain Follows) (hn : 16 ≤ ps.length)
    (hlt : 32000000 < (endOfPreamble k sf timestamp_cnt - reg).toNat) (ha : a + 1 < 16)
    (hfound : searchHistory (timestampPpsHistorySave h reg) (endOfPreamble k sf timestamp_cnt)
      = some (ringIndex ps a)) (p : Word) :
    Uses (preciseTimestampCalculate h k sf timestamp_cnt (some reg)) p ↔ stored ps a = p := by
  have hslot : slot (timestampPpsHistorySave h reg) (ringIndex ps a) = stored ps a :=
    hl.slot_stored hn (by omega) (Nat.mod_mod _ _)
  have hnext : slot (timestampPpsHistorySave h reg) (ringIndex ps a + 1) = stored ps (a + 1) :=
    hl.slot_stored hn ha (by unfold ringIndex; omega)
  rw [calculate_of_found hsize hlt hfound, hslot, hnext]
  exact uses_finish_iff (not_xtalInvalid (follows_stored hc hn ha))

/-- A call with a full history takes the right pulse if and only if that one is found. -/
theorem uses_iff_isFound (hsize : h.size = 16) (hl : HoldsLast ps (timestampPpsHistorySave h reg))
    (hc : ps.IsChain Follows) (hn : 16 ≤ ps.length) (hps : ps.getLast? = some reg)
    (hj : LatestAt ps (endOfPreamble k sf timestamp_cnt) j) :
    Uses (preciseTimestampCalculate h k sf timestamp_cnt (some reg)) (stored ps j)
      ↔ IsFound ps (endOfPreamble k sf timestamp_cnt) j := by
  have hlast := stored_last hps hn
  rw [IsFound]
  by_cases hj_last : j = 15
  · subst hj_last
    rw [if_pos rfl, hlast]
    by_cases hle : ahead reg (endOfPreamble k sf timestamp_cnt) ≤ 32000000
    · -- the register is the reference
      have hidx : (timestampPpsHistorySave h reg).idx.val % 16 = ringIndex ps 15 := by
        rw [hl.idx]
        unfold ringIndex
        omega
      have hslot := hl.slot_stored hn (by decide : 15 < 16) hidx
      have hprev := hl.slot_stored hn (by decide : 14 < 16)
        (show ((timestampPpsHistorySave h reg).idx.val + 15) % 16 = ringIndex ps 14 by
          unfold ringIndex at hidx ⊢; omega)
      rw [calculate_of_register hsize (Nat.not_lt.mpr hle), hslot, hprev]
      rw [uses_finish_iff (not_xtalInvalid (follows_stored hc hn (by decide : 14 + 1 < 16)))]
      exact iff_of_true rfl hle
    · -- more than 32 million ticks behind the last pulse none is found
      have hnone := hj.searchHistory_of_far hc hl hn (by rw [hlast]; omega)
      exact iff_of_false (calculate_of_not_found hsize (Nat.not_le.mp hle) hnone reg) hle
  · have hlt : 32000000 < (endOfPreamble k sf timestamp_cnt - reg).toNat := by
      have hlt_last : j < 15 := Nat.lt_of_le_of_ne (Nat.le_of_lt_succ hj.lt) hj_last
      have hfar := hj.far_of_lt hc hn hlt_last (by decide)
      rw [hlast] at hfar
      exact Nat.lt_trans (by decide) hfar
    rw [if_neg hj_last]
    by_cases hnear : ahead (stored ps j) (endOfPreamble k sf timestamp_cnt) < 32000000
    swap
    · have hnone := hj.searchHistory_of_far hc hl hn hnear
      exact iff_of_false (calculate_of_not_found hsize hlt hnone _) fun hfound => hnear hfound.1
    rw [and_iff_right hnear]
    have hj_lt := hj.lt
    by_cases hhidden : NotHidden ps (endOfPreamble k sf timestamp_cnt) j
    · have hfound := hj.searchHistory_of_notHidden hc hl hn hnear hhidden
      rw [uses_found_iff hsize hl hc hn hlt (by omega) hfound]
      exact iff_of_true rfl hhidden
    · -- the pulse before the right one is found first
      have hfound := hj.searchHistory_of_hidden hc hl hn hhidden
      have hpos : j ≠ 0 := fun h => hhidden (.inl h)
      rw [uses_found_iff hsize hl hc hn hlt (by omega) hfound]
      refine iff_of_false (fun hsame => ?_) hhidden
      have hgap := (ahead_stored hc hn (Nat.sub_le j 1) hj.lt).1
      rw [hsame, ahead_self] at hgap
      omega

/-- With the register read, a call that succeeds has written the result. -/
theorem written_of_success
    (hret : (preciseTimestampCalculate h k sf timestamp_cnt (some reg)).ret = 0) :
    (preciseTimestampCalculate h k sf timestamp_cnt (some reg)).result_ftime ≠ none := by
  rw [preciseTimestampCalculate] at hret ⊢
  split
  · rename_i hsize
    rw [if_pos hsize] at hret
    exact absurd hret (show ¬(-1 : ℤ) = 0 by decide)
  · rename_i hsize
    rw [if_neg hsize] at hret
    dsimp only at hret ⊢
    split at hret
    · rename_i hlt
      rw [if_pos hlt]
      split at hret
      · exact absurd hret (show ¬(-1 : ℤ) = 0 by decide)
      · exact fun hnone => ret_finish_ne_zero hnone hret
    · rename_i hle
      rw [if_neg hle]
      exact fun hnone => ret_finish_ne_zero hnone hret

end

/-! ## When the right reference is taken -/

section

variable (s : Session) (k : FineArithmetic) (sf : ℕ) (timestamp_cnt : Word)

/-- If the history is full, the register can be read, and for a packet in the time that is covered
the latest pulse not after it is found. -/
def ReferenceFound : Prop :=
  16 ≤ (pulses s.reads).length → ∃ reg, s.lgw_reg_rb = some reg
    ∧ ∀ j, LatestAt (pulses (s.reads ++ [reg])) (endOfPreamble k sf timestamp_cnt) j →
      Covered (pulses (s.reads ++ [reg])) (endOfPreamble k sf timestamp_cnt) →
        IsFound (pulses (s.reads ++ [reg])) (endOfPreamble k sf timestamp_cnt) j

theorem Session.distinct (hab : a < b) (hb : b < (pulses s.reads).length)
    (hrecent : (pulses s.reads).length ≤ a + 16) :
    (pulses s.reads).getD a 0 ≠ (pulses s.reads).getD b 0 := by
  intro hsame
  have hgap := @ahead_pulse _ (isChain_pulses s.spaced.left_of_append) a (b - a) (by omega)
    (by omega)
  rw [show a + (b - a) = b by omega, hsame, ahead_self] at hgap
  omega

/-- The history is as expected; and so is a call if and only if the register can be read and the
right pulse is found. -/
theorem takesReference_iff :
    TakesReference s k sf timestamp_cnt ↔ ReferenceFound s k sf timestamp_cnt := by
  have hring := holdsLast_saveAll s.reads
  have hsize : 16 ≤ (pulses s.reads).length → (saveAll s.reads).size = 16 := by
    intro hfull
    rw [hring.size]
    omega
  -- what a call with a full history does, for each value of the register
  have hcall (reg : Word) (hreg : s.lgw_reg_rb = some reg)
      (hfull : 16 ≤ (pulses s.reads).length) (j : ℕ)
      (hj : LatestAt (pulses (s.reads ++ [reg])) (endOfPreamble k sf timestamp_cnt) j) :
      Uses (preciseTimestampCalculate (saveAll s.reads) k sf timestamp_cnt (some reg))
          (stored (pulses (s.reads ++ [reg])) j)
        ↔ IsFound (pulses (s.reads ++ [reg])) (endOfPreamble k sf timestamp_cnt) j := by
    have hspaced := s.spaced
    rw [hreg] at hspaced
    have hl : HoldsLast (pulses (s.reads ++ [reg]))
        (timestampPpsHistorySave (saveAll s.reads) reg) :=
      saveAll_append s.reads reg ▸ holdsLast_saveAll (s.reads ++ [reg])
    refine uses_iff_isFound (hsize hfull) hl (isChain_pulses hspaced)
      (Nat.le_trans hfull (length_pulses_le s.reads reg)) ?_ hj
    rw [pulses_append, getLast?_record]
  constructor
  · intro htakes hfull
    cases hreg : s.lgw_reg_rb with
    | none =>
      have hsuccess := htakes.success
      rw [hreg, preciseTimestampCalculate, if_neg (by rw [hsize hfull]; decide)] at hsuccess
      exact absurd rfl (hsuccess rfl)
    | some reg =>
      refine ⟨reg, rfl, fun j hj hcovered => (hcall reg hreg hfull j hj).mp ?_⟩
      exact htakes.reference reg hreg hfull j hj hcovered
  · intro hfound
    refine ⟨hring, fun a b => s.distinct, fun reg hreg hfull j hj hcovered => ?_, fun hret => ?_⟩
    · obtain ⟨reg', hreg', hall⟩ := hfound hfull
      obtain rfl := Option.some.inj (hreg.symm.trans hreg')
      exact (hcall reg hreg hfull j hj).mpr (hall j hj hcovered)
    · cases hreg : s.lgw_reg_rb with
      | some reg =>
        rw [hreg] at hret
        exact written_of_success hret
      | none =>
        have hshort : ¬16 ≤ (pulses s.reads).length := by
          intro hfull
          obtain ⟨reg, hreg', -⟩ := hfound hfull
          rw [hreg] at hreg'
          cases hreg'
        have hsmall : (saveAll s.reads).size < 16 := by
          rw [hring.size]
          omega
        rw [hreg, preciseTimestampCalculate, if_pos hsmall] at hret
        exact absurd hret (show ¬(-1 : ℤ) = 0 by decide)

end

/-- Arithmetic without a frequency error and without a correction of the second. -/
def plainArithmetic : FineArithmetic where
  withFreqError := id
  resultFtime diff_pps _ := BitVec.ofNat 32 (diff_pps.toNat * 125 / 4)

/-- Sixteen pulses of a clock that is slow by two parts in a million. -/
def slowPulses : List Word := (List.range 16).map fun i => BitVec.ofNat 32 (31999936 * i)

/-- The register is read once more, or that fails. -/
def slowSession (fails : Bool) : Session where
  reads := slowPulses
  lgw_reg_rb := if fails then none else some (BitVec.ofNat 32 (31999936 * 15))
  spaced := by cases fails <;> decide

/-- A packet with spreading factor 7, ten ticks after pulse 8. -/
def slowPacket : Word := BitVec.ofNat 32 (31999936 * 8 + 10 + 401152 - 2138)

/-- Pulse 7 is taken for the reference; and if the register cannot be read, the call reports success
without a result. -/
theorem slowSession_not_takesReference :
    (preciseTimestampCalculate (saveAll slowPulses) plainArithmetic 7 slowPacket
        (some (BitVec.ofNat 32 (31999936 * 15)))).timestamp_pps
        = some (BitVec.ofNat 32 (31999936 * 7))
      ∧ ¬TakesReference (slowSession false) plainArithmetic 7 slowPacket
      ∧ (preciseTimestampCalculate (saveAll slowPulses) plainArithmetic 7 slowPacket none).ret = 0
      ∧ ¬TakesReference (slowSession true) plainArithmetic 7 slowPacket := by
  have hwrong : (preciseTimestampCalculate (saveAll slowPulses) plainArithmetic 7 slowPacket
      (some (BitVec.ofNat 32 (31999936 * 15)))).timestamp_pps
      = some (BitVec.ofNat 32 (31999936 * 7)) := by decide
  have hsilent : (preciseTimestampCalculate (saveAll slowPulses) plainArithmetic 7 slowPacket
      none).ret = 0 ∧ (preciseTimestampCalculate (saveAll slowPulses) plainArithmetic 7 slowPacket
      none).result_ftime = none := by decide
  refine ⟨hwrong, fun h => ?_, hsilent.1, fun h => h.success hsilent.1 hsilent.2⟩
  have hlater : ∀ a < 16, 8 < a →
      ahead (stored (pulses (slowPulses ++ [BitVec.ofNat 32 (31999936 * 15)])) 0)
          (endOfPreamble plainArithmetic 7 slowPacket)
        < ahead (stored (pulses (slowPulses ++ [BitVec.ofNat 32 (31999936 * 15)])) 0)
          (stored (pulses (slowPulses ++ [BitVec.ofNat 32 (31999936 * 15)])) a) := by
    decide
  have huses := h.reference _ rfl (by decide) 8
    ⟨by decide, by decide, fun a hlt ha => hlater a ha hlt⟩
    (by unfold Covered; decide)
  exact absurd (hwrong.symm.trans huses.1) (by decide)

end RutosSdk.Hal.PpsHistory
