import Mathlib.Data.List.MinMax
import Mathlib.Data.Nat.Count
import RutosSdk.Fsb.PowerLoss

/-! # Failsafe boots

Reference: `boot_failsafe` in `cmd/tlt/mt7621/tltboot.c` of U-Boot, and the functions of
`lib/tlt/fsb.c` that it calls.

Every boot loads the configuration, picks a slot, marks it and saves. What a run of boots picks is
decided by the configurations it goes through, each the one before with the picked slot marked.
-/

namespace RutosSdk.Fsb

variable {bc : FsbConfig} {i j : ℕ}

/-! ## Slots -/

theorem slot_setSlot_self (bc : FsbConfig) (hi : i < fsbConfigNumSlots) (slot : FsbSlotinfo) :
    (bc.setSlot i slot).slot i = slot := by
  simp [FsbConfig.slot, FsbConfig.setSlot, List.getD_eq_getElem?_getD, hi]

theorem slot_setSlot_of_ne (bc : FsbConfig) (hij : i ≠ j) (slot : FsbSlotinfo) :
    (bc.setSlot i slot).slot j = bc.slot j := by
  simp [FsbConfig.slot, FsbConfig.setSlot, List.getD_eq_getElem?_getD, List.getElem?_set_ne hij]

@[simp] theorem chosen_setSlot (bc : FsbConfig) (i : ℕ) (slot : FsbSlotinfo) :
    (bc.setSlot i slot).chosen = bc.chosen := rfl

@[simp] theorem slot_sealed (crc32 : Word → List Byte → Word) (bc : FsbConfig)
    (i : ℕ) : (bc.sealed crc32).slot i = bc.slot i := rfl

@[simp] theorem chosen_sealed (crc32 : Word → List Byte → Word)
    (bc : FsbConfig) : (bc.sealed crc32).chosen = bc.chosen := rfl

/-! ## The pick -/

/-- The four criteria of `fsb_slotinfo_compare` as the digits of one number. -/
def FsbSlotinfo.rank (slot : FsbSlotinfo) : ℕ :=
  ((slot.force.toNat * 16 + slot.priority.toNat) * 2 + slot.successful_boot.toNat) * 16
    + slot.tries_remaining.toNat

theorem eq_iff_toNat_eq (a b : Bool) : a = b ↔ a.toNat = b.toNat := by
  cases a <;> cases b <;> decide

theorem fsbSlotinfoCompare_neg (a b : FsbSlotinfo) :
    fsbSlotinfoCompare a b < 0 ↔ b.rank < a.rank := by
  have := Bool.toNat_lt a.successful_boot
  have := Bool.toNat_lt b.successful_boot
  rw [fsbSlotinfoCompare, FsbSlotinfo.rank, FsbSlotinfo.rank]
  simp only [ne_eq, eq_iff_toNat_eq, BitVec.toNat_eq]
  split_ifs <;> omega

/-- The search returns the first slot of the highest rank among the bootable ones. -/
theorem fsbConfigGetBestBootableSlot_eq (bc : FsbConfig) :
    fsbConfigGetBestBootableSlot bc
      = ((List.range fsbConfigNumSlots).filter fun i => (bc.slot i).bootable).argmax
        fun i => (bc.slot i).rank := by
  rw [fsbConfigGetBestBootableSlot, List.argmax, List.foldl_filter]
  congr 1
  funext chosen i
  cases hboot : (bc.slot i).bootable with
  | false => simp [bestSlotStep, hboot]
  | true =>
    cases chosen with
    | none => simp [bestSlotStep, List.argAux, hboot]
    | some k => simp [bestSlotStep, List.argAux, hboot, fsbSlotinfoCompare_neg]

theorem best_eq_none_iff :
    fsbConfigGetBestBootableSlot bc = none
      ↔ ∀ i < fsbConfigNumSlots, (bc.slot i).bootable = false := by
  simp [fsbConfigGetBestBootableSlot_eq, List.argmax_eq_none, List.filter_eq_nil_iff]

/-- The best slot is bootable, and no bootable slot ranks higher. -/
theorem best_eq_some (h : fsbConfigGetBestBootableSlot bc = some i) :
    i < fsbConfigNumSlots ∧ (bc.slot i).bootable = true
      ∧ ∀ j < fsbConfigNumSlots, (bc.slot j).bootable = true →
        (bc.slot j).rank ≤ (bc.slot i).rank := by
  rw [fsbConfigGetBestBootableSlot_eq] at h
  have hmem := List.argmax_mem h
  rw [List.mem_filter, List.mem_range] at hmem
  refine ⟨hmem.1, hmem.2, fun j hj hboot => ?_⟩
  have hmemj : j ∈ (List.range fsbConfigNumSlots).filter fun i => (bc.slot i).bootable := by
    rw [List.mem_filter, List.mem_range]
    exact ⟨hj, hboot⟩
  exact List.le_of_mem_argmax (f := fun i => (bc.slot i).rank) hmemj h

theorem pick_of_best (h : fsbConfigGetBestBootableSlot bc = some i) : fsbConfigPickSlot bc = i := by
  rw [fsbConfigPickSlot, h]

theorem pick_of_none (h : fsbConfigGetBestBootableSlot bc = none) :
    fsbConfigPickSlot bc = bc.chosen.toNat := by
  rw [fsbConfigPickSlot, h]

theorem pick_lt (hchosen : bc.chosen.toNat < fsbConfigNumSlots) :
    fsbConfigPickSlot bc < fsbConfigNumSlots := by
  cases hbest : fsbConfigGetBestBootableSlot bc with
  | none => rwa [pick_of_none hbest]
  | some k =>
    rw [pick_of_best hbest]
    exact (best_eq_some hbest).1

/-- The pick is a bootable slot as soon as there is one. -/
theorem bootable_pick (hi : i < fsbConfigNumSlots) (hboot : (bc.slot i).bootable = true) :
    fsbConfigGetBestBootableSlot bc = some (fsbConfigPickSlot bc)
      ∧ (bc.slot (fsbConfigPickSlot bc)).bootable = true := by
  cases hbest : fsbConfigGetBestBootableSlot bc with
  | none => rw [best_eq_none_iff.mp hbest i hi] at hboot; cases hboot
  | some k =>
    rw [pick_of_best hbest]
    exact ⟨rfl, (best_eq_some hbest).2.1⟩

/-! ## The mark -/

theorem slot_mark_self (bc : FsbConfig) (hi : i < fsbConfigNumSlots) :
    (fsbConfigMarkSlot bc i).slot i = (bc.slot i).marked := slot_setSlot_self _ hi _

theorem slot_mark_of_ne (bc : FsbConfig) (hij : i ≠ j) :
    (fsbConfigMarkSlot bc i).slot j = bc.slot j := slot_setSlot_of_ne _ hij _

theorem toNat_chosen_mark (bc : FsbConfig) (hi : i < fsbConfigNumSlots) :
    (fsbConfigMarkSlot bc i).chosen.toNat = i := by
  rw [fsbConfigMarkSlot, chosen_setSlot, BitVec.toNat_ofNat]
  exact Nat.mod_eq_of_lt (hi.trans (by decide))

theorem toNat_tries_marked (slot : FsbSlotinfo) (h : slot.tries_remaining.toNat < 15) :
    slot.marked.tries_remaining.toNat = slot.tries_remaining.toNat - 1 := by
  have hne : slot.tries_remaining ≠ 15 := by
    rintro h15
    rw [h15] at h
    exact absurd h (by decide)
  rw [FsbSlotinfo.marked]
  by_cases h0 : slot.tries_remaining = 0
  · simp [h0]
  · simp only [ne_eq, h0, hne, not_false_eq_true, and_self, if_true]
    bv_omega

/-! ## One boot -/

section Run

variable (crc32 : Word → List Byte → Word)

/-- `boot_failsafe` up to its switch, with no failure of the flash: the slot and what is left in the
flash. -/
def bootFailsafe (flash : Flash) : ℕ × Flash :=
  let ctx := fsbContextLoad crc32 .none flash
  let slot := fsbConfigPickSlot ctx.config_active
  let ctx := { ctx with config_new := fsbConfigMarkSlot ctx.config_new slot }
  (slot, (fsbContextSave crc32 .allDone ctx flash).2.2)

/-- The flash after a number of boots. -/
def Flash.boots (flash : Flash) : ℕ → Flash
  | 0 => flash
  | n + 1 => (bootFailsafe crc32 (flash.boots n)).2

/-- The configuration that one more boot leaves. -/
def FsbConfig.boot (bc : FsbConfig) : FsbConfig :=
  (fsbConfigMarkSlot bc (fsbConfigPickSlot bc)).sealed crc32

end Run

variable {crc32 : Word → List Byte → Word} {flash : Flash}

/-- A save that is done loads back, also when it is skipped since nothing has changed. -/
theorem fsbConfigLoad_fsbContextSave {ctx : FsbContext} (hne : flash.primary ≠ [])
    (hactive : ctx.config_active = fsbConfigLoad crc32 .none flash) :
    fsbConfigLoad crc32 .none (fsbContextSave crc32 .allDone ctx flash).2.2
      = ctx.config_new.sealed crc32 := by
  rw [fsbContextSave]
  split_ifs with hsame
  · rw [hsame, hactive]
  · exact fsbConfigLoad_eq (stored_fsbConfigSave_of_success (valid_sealed _) hne
      (fsbConfigSave_allDone crc32 flash _))

theorem primary_fsbContextSave_ne_nil {fates : SaveFates} {ctx : FsbContext}
    (hne : flash.primary ≠ []) : (fsbContextSave crc32 fates ctx flash).2.2.primary ≠ [] := by
  rw [fsbContextSave]
  split_ifs
  · exact hne
  · exact primary_fsbConfigSave_ne_nil fates _ hne

theorem fsbConfigLoad_bootFailsafe (hne : flash.primary ≠ []) :
    fsbConfigLoad crc32 .none (bootFailsafe crc32 flash).2
      = (fsbConfigLoad crc32 .none flash).boot crc32 :=
  fsbConfigLoad_fsbContextSave hne rfl

theorem primary_boots_ne_nil (hne : flash.primary ≠ []) (n : ℕ) :
    (flash.boots crc32 n).primary ≠ [] := by
  induction n with
  | zero => exact hne
  | succ n ih => exact primary_fsbContextSave_ne_nil ih

theorem fsbConfigLoad_boots_succ (hne : flash.primary ≠ []) (n : ℕ) :
    fsbConfigLoad crc32 .none (flash.boots crc32 (n + 1))
      = (fsbConfigLoad crc32 .none (flash.boots crc32 n)).boot crc32 :=
  fsbConfigLoad_bootFailsafe (primary_boots_ne_nil hne n)

/-! ## What a boot does to a slot -/

theorem toNat_chosen_boot (hchosen : bc.chosen.toNat < fsbConfigNumSlots) :
    (bc.boot crc32).chosen.toNat = fsbConfigPickSlot bc := by
  rw [FsbConfig.boot, chosen_sealed, toNat_chosen_mark bc (pick_lt hchosen)]

theorem slot_boot_of_pick (hchosen : bc.chosen.toNat < fsbConfigNumSlots)
    (hpick : fsbConfigPickSlot bc = i) : (bc.boot crc32).slot i = (bc.slot i).marked := by
  have hi := pick_lt hchosen
  rw [FsbConfig.boot, slot_sealed, hpick]
  exact slot_mark_self bc (hpick ▸ hi)

theorem slot_boot_of_ne (hpick : fsbConfigPickSlot bc ≠ i) :
    (bc.boot crc32).slot i = bc.slot i := by
  rw [FsbConfig.boot, slot_sealed, slot_mark_of_ne bc hpick]

/-- A boot takes one of the tries of the slot that it picks as the best one, and adds none to any.
-/
theorem tries_boot (hchosen : bc.chosen.toNat < fsbConfigNumSlots)
    (htries : (bc.slot i).tries_remaining.toNat < 15) :
    ((bc.boot crc32).slot i).tries_remaining.toNat
        + (if fsbConfigGetBestBootableSlot bc = some i then 1 else 0)
      ≤ (bc.slot i).tries_remaining.toNat := by
  by_cases hpick : fsbConfigPickSlot bc = i
  · rw [slot_boot_of_pick hchosen hpick, toNat_tries_marked _ htries]
    split_ifs with hbest
    · have hboot := (best_eq_some hbest).2.1
      have hpos : (bc.slot i).tries_remaining.toNat ≠ 0 := by
        intro h0
        rw [FsbSlotinfo.bootable, show (bc.slot i).tries_remaining = 0 from
          BitVec.eq_of_toNat_eq h0] at hboot
        simp at hboot
      omega
    · omega
  · rw [slot_boot_of_ne hpick, if_neg fun hbest => hpick (pick_of_best hbest)]
    omega

/-- A boot clears the flag of the slot that it picks, and sets none. -/
theorem force_boot (hchosen : bc.chosen.toNat < fsbConfigNumSlots) :
    ((bc.boot crc32).slot i).force.toNat
        + (if fsbConfigGetBestBootableSlot bc = some i ∧ (bc.slot i).force = true then 1 else 0)
      ≤ (bc.slot i).force.toNat := by
  by_cases hpick : fsbConfigPickSlot bc = i
  · rw [slot_boot_of_pick hchosen hpick]
    split_ifs with hforce
    · simp [FsbSlotinfo.marked, hforce.2]
    · simp [FsbSlotinfo.marked]
  · rw [slot_boot_of_ne hpick, if_neg fun hbest => hpick (pick_of_best hbest.1)]
    omega

/-! ## Runs of boots -/

section

variable (hne : flash.primary ≠ [])
  (hchosen : (fsbConfigLoad crc32 .none flash).chosen.toNat < fsbConfigNumSlots)
include hne hchosen

theorem chosen_boots_lt (n : ℕ) :
    (fsbConfigLoad crc32 .none (flash.boots crc32 n)).chosen.toNat < fsbConfigNumSlots := by
  induction n with
  | zero => exact hchosen
  | succ n ih =>
    rw [fsbConfigLoad_boots_succ hne, toNat_chosen_boot ih]
    exact pick_lt ih

/-- The tries that are left and the boots that have used one. -/
theorem tries_boots (htries : ((fsbConfigLoad crc32 .none flash).slot i).tries_remaining.toNat < 15)
    (n : ℕ) :
    ((fsbConfigLoad crc32 .none (flash.boots crc32 n)).slot i).tries_remaining.toNat
        + Nat.count (fun k => fsbConfigGetBestBootableSlot
          (fsbConfigLoad crc32 .none (flash.boots crc32 k)) = some i) n
      ≤ ((fsbConfigLoad crc32 .none flash).slot i).tries_remaining.toNat := by
  induction n with
  | zero => exact Nat.le_refl _
  | succ n ih =>
    have hstep := @tries_boot _ i crc32 (chosen_boots_lt hne hchosen n) (by omega)
    rw [fsbConfigLoad_boots_succ hne, Nat.count_succ]
    omega

end

/-- The flag that is left and the boots that it has decided. -/
theorem force_boots (hne : flash.primary ≠ [])
    (hchosen : (fsbConfigLoad crc32 .none flash).chosen.toNat < fsbConfigNumSlots) (n : ℕ) :
    ((fsbConfigLoad crc32 .none (flash.boots crc32 n)).slot i).force.toNat
        + Nat.count (fun k => fsbConfigGetBestBootableSlot
            (fsbConfigLoad crc32 .none (flash.boots crc32 k)) = some i
          ∧ ((fsbConfigLoad crc32 .none (flash.boots crc32 k)).slot i).force = true) n
      ≤ ((fsbConfigLoad crc32 .none flash).slot i).force.toNat := by
  induction n with
  | zero => exact Nat.le_refl _
  | succ n ih =>
    have hstep := @force_boot _ i crc32 (chosen_boots_lt hne hchosen n)
    rw [fsbConfigLoad_boots_succ hne, Nat.count_succ]
    omega

variable (crc32) in
/-- The slot picked by the boot before, or the stored one if there has been none. -/
def Flash.lastPicked (flash : Flash) : ℕ → ℕ
  | 0 => (fsbConfigLoad crc32 .none flash).chosen.toNat
  | n + 1 => (bootFailsafe crc32 (flash.boots crc32 n)).1

theorem toNat_chosen_boots (hne : flash.primary ≠ [])
    (hchosen : (fsbConfigLoad crc32 .none flash).chosen.toNat < fsbConfigNumSlots) (n : ℕ) :
    (fsbConfigLoad crc32 .none (flash.boots crc32 n)).chosen.toNat = flash.lastPicked crc32 n := by
  cases n with
  | zero => rfl
  | succ n =>
    rw [fsbConfigLoad_boots_succ hne, toNat_chosen_boot (chosen_boots_lt hne hchosen n)]
    rfl

/-- An unbootable pick is the fallback to the last one. -/
theorem pick_of_not_bootable (hpick : (bc.slot (fsbConfigPickSlot bc)).bootable = false) :
    (∀ i < fsbConfigNumSlots, (bc.slot i).bootable = false)
      ∧ fsbConfigPickSlot bc = bc.chosen.toNat := by
  cases hbest : fsbConfigGetBestBootableSlot bc with
  | none => exact ⟨best_eq_none_iff.mp hbest, pick_of_none hbest⟩
  | some k =>
    rw [pick_of_best hbest, (best_eq_some hbest).2.1] at hpick
    cases hpick

theorem priority_le_of_rank_le {a b : FsbSlotinfo} (hforce : b.force = false)
    (hrank : a.rank ≤ b.rank) : a.priority.toNat ≤ b.priority.toNat := by
  have := Bool.toNat_lt b.successful_boot
  rw [FsbSlotinfo.rank, FsbSlotinfo.rank, hforce] at hrank
  simp only [Bool.toNat_false] at hrank
  omega

/-- A bootable pick without the flag has the highest priority of the bootable slots. -/
theorem priority_le_pick (hboot : (bc.slot (fsbConfigPickSlot bc)).bootable = true)
    (hpick : fsbConfigPickSlot bc < fsbConfigNumSlots)
    (hforce : (bc.slot (fsbConfigPickSlot bc)).force = false) (hj : j < fsbConfigNumSlots)
    (hbootj : (bc.slot j).bootable = true) :
    (bc.slot j).priority.toNat ≤ (bc.slot (fsbConfigPickSlot bc)).priority.toNat :=
  priority_le_of_rank_le hforce ((best_eq_some (bootable_pick hpick hboot).1).2.2 j hj hbootj)

/-- Consecutive boots: the slots picked are within range; a slot is picked as the best one at most
as often as it has tries, unless these are not counted; a flag decides one boot at most; an
unbootable slot is picked only when all are, and is the last one picked; and without the flag the
pick has the highest priority among the bootable slots. -/
theorem boots_pick (hne : flash.primary ≠ [])
    (hchosen : (fsbConfigLoad crc32 .none flash).chosen.toNat < fsbConfigNumSlots) (n : ℕ) :
    let bc := fsbConfigLoad crc32 .none (flash.boots crc32 n)
    let picked := (bootFailsafe crc32 (flash.boots crc32 n)).1
    picked < fsbConfigNumSlots
      ∧ (∀ i, ((fsbConfigLoad crc32 .none flash).slot i).tries_remaining.toNat ≤ 14 →
        Nat.count (fun k => fsbConfigGetBestBootableSlot
            (fsbConfigLoad crc32 .none (flash.boots crc32 k)) = some i) n
          ≤ ((fsbConfigLoad crc32 .none flash).slot i).tries_remaining.toNat)
      ∧ (∀ i, Nat.count (fun k => fsbConfigGetBestBootableSlot
            (fsbConfigLoad crc32 .none (flash.boots crc32 k)) = some i
          ∧ ((fsbConfigLoad crc32 .none (flash.boots crc32 k)).slot i).force = true) n ≤ 1)
      ∧ ((bc.slot picked).bootable = false →
        (∀ i < fsbConfigNumSlots, (bc.slot i).bootable = false) ∧ picked = flash.lastPicked crc32 n)
      ∧ ((bc.slot picked).bootable = true → (bc.slot picked).force = false →
        ∀ j < fsbConfigNumSlots, (bc.slot j).bootable = true →
          (bc.slot j).priority.toNat ≤ (bc.slot picked).priority.toNat) := by
  intro bc picked
  have hpick : picked < fsbConfigNumSlots := pick_lt (chosen_boots_lt hne hchosen n)
  refine ⟨hpick, fun i htries => ?_, fun i => ?_, fun hboot => ?_, fun hboot hforce j hj => ?_⟩
  · have := tries_boots hne hchosen (Nat.lt_succ_of_le htries) n
    omega
  · have := @force_boots i crc32 flash hne hchosen n
    have := Bool.toNat_lt ((fsbConfigLoad crc32 .none flash).slot i).force
    omega
  · rw [← toNat_chosen_boots hne hchosen n]
    exact pick_of_not_bootable hboot
  · exact priority_le_pick hboot hpick hforce hj

theorem boots_pick_erased :
    (Flash.erased 2).primary ≠ []
      ∧ (bootFailsafe (fun _ _ => 0) ((Flash.erased 2).boots (fun _ _ => 0) 4)).1
        < fsbConfigNumSlots :=
  ⟨by decide, (@boots_pick (fun _ _ => 0) (Flash.erased 2) (by decide) (by decide) 4).1⟩

end RutosSdk.Fsb
