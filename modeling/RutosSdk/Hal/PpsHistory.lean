import Mathlib.Data.List.Chain
import Mathlib.Data.List.GetD
import RutosSdk.Hal.Timestamp

/-! # The history of PPS pulses

Reference: `timestamp_pps_history_save` in `libloragw/src/loragw_sx1302_timestamp.c`.

The register with the counter at the last pulse is read more often than there are pulses, and every
value that was read is given to `timestamp_pps_history_save`. The ring keeps the last 16 pulses: the
pulse with number `i` stands at index `i % 16`. Pulses are about 32 million ticks apart, so those in
the ring are less than a turn of the counter apart, and their distances add up.
-/

namespace RutosSdk.Hal.PpsHistory

open Circular

variable (reads : List Word) (h : TimestampPpsHistory)

/-- The history after the register was saved with each of the values. -/
def saveAll : TimestampPpsHistory := reads.foldl timestampPpsHistorySave .initial

/-- A value is a new pulse if it is not that of the last one. -/
def record (ps : List Word) (timestamp_pps_reg : Word) : List Word :=
  if ps.getLast? = some timestamp_pps_reg then ps else ps ++ [timestamp_pps_reg]

/-- The pulses of which the register was read, in their order. -/
def pulses : List Word := reads.foldl record []

theorem saveAll_append (reg : Word) :
    saveAll (reads ++ [reg]) = timestampPpsHistorySave (saveAll reads) reg := by
  rw [saveAll, List.foldl_append]
  rfl

theorem pulses_append (reg : Word) : pulses (reads ++ [reg]) = record (pulses reads) reg := by
  rw [pulses, List.foldl_append]
  rfl

theorem getLast?_record (ps : List Word) (reg : Word) : (record ps reg).getLast? = some reg := by
  rw [record]
  split_ifs with h
  · exact h
  · exact List.getLast?_concat

/-! ## The ring -/

/-- The value at an index of the ring, counted round. -/
def slot (i : ℕ) : Word := h.history.get ⟨i % 16, Nat.mod_lt i (by decide)⟩

/-- The ring holds the last pulses, each at the index of its number. -/
structure HoldsLast (ps : List Word) (h : TimestampPpsHistory) : Prop where
  size : h.size = min ps.length 16
  idx : h.idx.val = (ps.length - 1) % 16
  slots : ∀ i < ps.length, ps.length ≤ i + 16 → slot h i = ps.getD i 0

theorem get_idx : h.history.get h.idx = slot h h.idx.val := by
  have hidx : h.idx.val % 16 = h.idx.val := Nat.mod_eq_of_lt h.idx.isLt
  simp only [slot, hidx]

theorem slot_congr {i j : ℕ} (hij : i % 16 = j % 16) : slot h i = slot h j := by
  simp only [slot, hij]

theorem slot_set (idx : Fin maxTimestampPpsHistory) (reg : Word) (size i : ℕ) :
    slot ⟨h.history.set idx reg idx.isLt, idx, size⟩ i
      = if idx.val = i % 16 then reg else slot h i := by
  exact Vector.getElem_set idx.isLt (Nat.mod_lt i (by decide))

theorem holdsLast_initial : HoldsLast [] .initial :=
  ⟨rfl, rfl, fun i hi => absurd hi (Nat.not_lt_zero i)⟩

/-- The first value of all is stored at the index that is there. -/
theorem save_of_empty {h : TimestampPpsHistory} (hsize : h.size = 0) (reg : Word) :
    timestampPpsHistorySave h reg = ⟨h.history.set h.idx reg h.idx.isLt, h.idx, 1⟩ := by
  rw [timestampPpsHistorySave, if_pos (.inr hsize)]
  simp only [hsize, Nat.lt_irrefl, gt_iff_lt, if_false]
  rfl

/-- A value that was stored last is not stored again. -/
theorem save_of_same {h : TimestampPpsHistory} (hsize : h.size ≠ 0) {reg : Word}
    (hsame : reg = h.history.get h.idx) : timestampPpsHistorySave h reg = h :=
  if_neg fun hor => hor.elim (fun hne => hne hsame) hsize

/-- Any other value is stored at the next index. -/
theorem save_of_new {h : TimestampPpsHistory} (hsize : h.size ≠ 0) {reg : Word}
    (hnew : reg ≠ h.history.get h.idx) :
    timestampPpsHistorySave h reg
      = ⟨h.history.set (h.idx + 1 : Fin _) reg (h.idx + 1).isLt, h.idx + 1,
        if h.size < 16 then h.size + 1 else h.size⟩ := by
  rw [timestampPpsHistorySave, if_pos (.inl hnew)]
  simp only [gt_iff_lt, Nat.pos_of_ne_zero hsize, if_true]

section

variable {ps : List Word} {h : TimestampPpsHistory}

theorem HoldsLast.last_eq (hl : HoldsLast ps h) (hpos : 0 < ps.length) :
    h.history.get h.idx = ps.getD (ps.length - 1) 0 := by
  rw [get_idx, ← hl.slots (ps.length - 1) (by omega) (by omega)]
  exact slot_congr h (by rw [hl.idx, Nat.mod_mod])

theorem getLast?_eq_getD (hpos : 0 < ps.length) :
    ps.getLast? = some (ps.getD (ps.length - 1) 0) := by
  rw [List.getLast?_eq_getElem?, List.getD_eq_getElem?_getD,
    List.getElem?_eq_getElem (by omega), Option.getD_some]

/-- A new pulse takes the place of the one that is 16 pulses older. -/
theorem HoldsLast.push (hl : HoldsLast ps h) (hpos : 0 < ps.length) (reg : Word) :
    HoldsLast (ps ++ [reg]) ⟨h.history.set (h.idx + 1 : Fin _) reg (h.idx + 1).isLt, h.idx + 1,
      if h.size < 16 then h.size + 1 else h.size⟩ := by
  have hnext : (h.idx + 1).val = ps.length % 16 := by
    rw [Fin.val_add, hl.idx]
    show ((ps.length - 1) % 16 + 1) % 16 = ps.length % 16
    omega
  have hlength : (ps ++ [reg]).length = ps.length + 1 := by simp
  refine ⟨?_, ?_, fun i hi hrecent => ?_⟩
  · show (if h.size < 16 then h.size + 1 else h.size) = _
    rw [hl.size, hlength]
    split_ifs <;> omega
  · rw [hlength, Nat.add_sub_cancel]
    exact hnext
  · rw [hlength] at hi hrecent
    rw [slot_set, hnext]
    rcases Nat.lt_succ_iff_lt_or_eq.mp hi with hlt | rfl
    · rw [if_neg (by omega), List.getD_append _ _ _ _ hlt]
      exact hl.slots i hlt (by omega)
    · rw [if_pos rfl, List.getD_append_right _ _ _ _ (Nat.le_refl _), Nat.sub_self]
      rfl

/-- A save records the value. -/
theorem HoldsLast.save (hl : HoldsLast ps h) (reg : Word) :
    HoldsLast (record ps reg) (timestampPpsHistorySave h reg) := by
  rcases Nat.eq_zero_or_pos ps.length with hzero | hpos
  · obtain rfl := List.length_eq_zero_iff.mp hzero
    have hfirst : h.idx.val = 0 := hl.idx
    rw [save_of_empty hl.size]
    refine ⟨rfl, hfirst, fun i hi _ => ?_⟩
    obtain rfl : i = 0 := Nat.lt_one_iff.mp hi
    rw [slot_set, if_pos (by exact hfirst)]
    rfl
  · have hsome : h.size ≠ 0 := by
      rw [hl.size]
      omega
    have hlast := hl.last_eq hpos
    rw [record, getLast?_eq_getD hpos, ← hlast]
    by_cases hsame : reg = h.history.get h.idx
    · rw [save_of_same hsome hsame, if_pos (congrArg some hsame.symm)]
      exact hl
    · rw [save_of_new hsome hsame, if_neg fun heq => hsame (Option.some.inj heq).symm]
      exact hl.push hpos reg

end

variable (reads : List Word)

/-- After any sequence of values the ring holds the last pulses. -/
theorem holdsLast_saveAll : HoldsLast (pulses reads) (saveAll reads) := by
  induction reads using List.reverseRecOn with
  | nil => exact holdsLast_initial
  | append_singleton reads reg ih =>
    rw [pulses_append, saveAll_append]
    exact ih.save reg

/-! ## The distances of pulses -/

/-- The next pulse is between 31.9 and 32.1 million ticks later. -/
def Follows (p q : Word) : Prop := 31900000 ≤ ahead p q ∧ ahead p q ≤ 32100000

/-- The next value is that of the same pulse, or of the next one. -/
def FollowsOrSame (p q : Word) : Prop := p = q ∨ Follows p q

instance (p q : Word) : Decidable (Follows p q) := inferInstanceAs (Decidable (_ ∧ _))

instance (p q : Word) : Decidable (FollowsOrSame p q) := inferInstanceAs (Decidable (_ ∨ _))

theorem getLast?_pulses : (pulses reads).getLast? = reads.getLast? := by
  induction reads using List.reverseRecOn with
  | nil => rfl
  | append_singleton reads reg _ =>
    rw [pulses_append, getLast?_record, List.getLast?_concat]

theorem isChain_pulses {reads : List Word} (h : reads.IsChain FollowsOrSame) :
    (pulses reads).IsChain Follows := by
  induction reads using List.reverseRecOn with
  | nil => exact .nil
  | append_singleton reads reg ih =>
    obtain ⟨hreads, -, hlast⟩ := List.isChain_append.mp h
    rw [pulses_append, record]
    split_ifs with hsame
    · exact ih hreads
    · refine List.isChain_append.mpr ⟨ih hreads, .singleton reg, fun p hp q hq => ?_⟩
      obtain rfl := Option.some.inj hq
      rw [getLast?_pulses] at hp hsame
      refine (hlast p hp reg rfl).resolve_left fun heq => hsame ?_
      rw [← heq]
      exact hp

theorem length_pulses_le (reg : Word) :
    (pulses reads).length ≤ (pulses (reads ++ [reg])).length := by
  rw [pulses_append, record]
  split_ifs
  · exact Nat.le_refl _
  · rw [List.length_append]
    exact Nat.le_add_right _ _

/-- By induction on the number of pulses between: the distances add up. -/
theorem ahead_pulse {ps : List Word} (h : ps.IsChain Follows) {a d : ℕ} (hd : d ≤ 16)
    (hlength : a + d < ps.length) :
    31900000 * d ≤ ahead (ps.getD a 0) (ps.getD (a + d) 0)
      ∧ ahead (ps.getD a 0) (ps.getD (a + d) 0) ≤ 32100000 * d := by
  induction d with
  | zero => simp
  | succ d ih =>
    have hstep : Follows (ps.getD (a + d) 0) (ps.getD (a + d + 1) 0) := by
      rw [List.getD_eq_getElem _ _ (show a + d < ps.length by omega),
        List.getD_eq_getElem _ _ (show a + d + 1 < ps.length by omega)]
      exact List.isChain_iff_getElem.mp h (a + d) (by omega)
    obtain ⟨hlow', hhigh'⟩ := hstep
    have hsum : ahead (ps.getD a 0) (ps.getD (a + d) 0)
        + ahead (ps.getD (a + d) 0) (ps.getD (a + d + 1) 0) < 2 ^ 32 := by omega
    rw [← Nat.add_assoc, ahead_add_of_lt hsum]
    omega

end RutosSdk.Hal.PpsHistory
