import RutosSdk.Fsb.Config

/-! # Saves that are cut by a loss of power

A save writes the secondary partition first, then the primary one. Between the two, one partition
always holds what it held before; but an erase of the secondary partition relies on the primary one
to hold a valid entry, which nothing checks.
-/

namespace RutosSdk.Fsb

open List AppendLog

variable {crc32 : Word → List Byte → Word}

/-! ## What a loss of power leaves -/

variable (crc32) in
/-- The write is done, or it is cut and leaves the entry blank, complete, or neither blank nor
valid. -/
def WriteFate.PowerLoss (bc : FsbConfig) : WriteFate → Prop
  | .done => True
  | .failed _ => False
  | .cut entry => entry = .blank ∨ entry = bc ∨ (entry ≠ .blank ∧ entry.valid crc32 = false)

variable (crc32) in
/-- The erase is done, or it is cut and leaves some sectors blank and at most one with entries that
are not valid. -/
def EraseFate.PowerLoss (sector : ℕ) : EraseFate → Prop
  | .done => True
  | .failed _ => False
  | .cut n torn => sector ∣ n ∧ torn.length ≤ sector ∧ ∀ entry ∈ torn, entry.valid crc32 = false

variable (crc32) in
/-- The operations succeed, but for the one during which the power is lost. -/
structure PartitionFates.PowerLoss (sector : ℕ) (bc : FsbConfig) (fates : PartitionFates) :
    Prop where
  read : fates.readFails = false
  erase : fates.erase.PowerLoss crc32 sector
  write : fates.write.PowerLoss crc32 bc

variable (crc32) in
/-- A loss of power at some point of a save, or none. -/
structure SaveFates.PowerLoss (sector : ℕ) (bc : FsbConfig) (fates : SaveFates) : Prop where
  secondary : fates.secondary.PowerLoss crc32 sector bc
  primary : fates.primary.PowerLoss crc32 sector bc

theorem SaveFates.powerLoss_allDone (sector : ℕ) (bc : FsbConfig) :
    SaveFates.allDone.PowerLoss crc32 sector bc :=
  ⟨⟨rfl, trivial, trivial⟩, ⟨rfl, trivial, trivial⟩⟩

/-! ## One partition -/

@[simp] theorem valid_blank : FsbConfig.blank.valid crc32 = false := by
  have hmagic : FsbConfig.blank.magic ≠ fsbConfigMagic := by decide
  simp [FsbConfig.valid, hmagic]

theorem valid_sealed (bc : FsbConfig) : (bc.sealed crc32).valid crc32 = true := by
  rw [FsbConfig.valid, Bool.and_eq_true, decide_eq_true_eq, decide_eq_true_eq]
  exact ⟨rfl, rfl⟩

theorem WriteFate.PowerLoss.valid_eq_false_or {bc entry : FsbConfig}
    (h : (WriteFate.cut entry).PowerLoss crc32 bc) : entry = bc ∨ entry.valid crc32 = false := by
  rcases h with rfl | rfl | ⟨-, h⟩
  · exact .inr valid_blank
  · exact .inl rfl
  · exact .inr h

variable (crc32) in
/-- The partition has room for one more entry. -/
def HasRoom (partition : List FsbConfig) : Prop :=
  nextPlace (FsbConfig.valid crc32) .blank (partition.take fsbConfigArraySizeMax) ≠ none

instance (partition : List FsbConfig) : Decidable (HasRoom crc32 partition) :=
  inferInstanceAs (Decidable (_ ≠ none))

variable {partition : List FsbConfig} {bc : FsbConfig}

variable (crc32 partition bc) in
/-- How the write of an entry to a partition may end: it is complete, or it is cut with the current
entry kept, with the new one in place already, or after the erase of a partition without room. -/
inductive Written : Ending × List FsbConfig → Prop where
  | complete {left : List FsbConfig} (h : fsbPartitionRead crc32 false left = some bc) :
      Written (.success, left)
  | kept {left : List FsbConfig}
      (h : fsbPartitionRead crc32 false left = fsbPartitionRead crc32 false partition) :
      Written (.lost, left)
  | early {left : List FsbConfig} (h : fsbPartitionRead crc32 false left = some bc) :
      Written (.lost, left)
  | emptied {left : List FsbConfig} (hroom : ¬HasRoom crc32 partition)
      (h : fsbPartitionRead crc32 false left = none) : Written (.lost, left)

theorem fsbPartitionRead_eq (partition : List FsbConfig) :
    fsbPartitionRead crc32 false partition
      = lastValid (FsbConfig.valid crc32) (partition.take fsbConfigArraySizeMax) := rfl

theorem written_fsbFlashWrite {fate : WriteFate} (hfate : fate.PowerLoss crc32 bc)
    (hbc : bc.valid crc32 = true) {new_idx : ℕ}
    (hplace : nextPlace (FsbConfig.valid crc32) .blank (partition.take fsbConfigArraySizeMax)
      = some new_idx) :
    Written crc32 partition bc (fsbFlashWrite fate partition new_idx bc) := by
  have hnew : fsbPartitionRead crc32 false (partition.set new_idx bc) = some bc := by
    rw [fsbPartitionRead_eq, take_set]
    exact lastValid_set_of_valid hplace hbc
  cases fate with
  | done => exact .complete hnew
  | failed left => exact hfate.elim
  | cut entry =>
    rcases hfate.valid_eq_false_or with rfl | hentry
    · exact .early hnew
    · refine .kept ?_
      rw [fsbPartitionRead_eq, fsbPartitionRead_eq, take_set]
      exact lastValid_set_of_not_valid hplace valid_blank hentry

/-- A write at the beginning of an erased partition. -/
theorem written_fsbFlashWrite_erased {fate : WriteFate} (hfate : fate.PowerLoss crc32 bc)
    (hbc : bc.valid crc32 = true) (hroom : ¬HasRoom crc32 partition) (hne : partition ≠ []) :
    Written crc32 partition bc
      (fsbFlashWrite fate (List.replicate partition.length .blank) 0 bc) := by
  have hpos : 0 < min fsbConfigArraySizeMax partition.length :=
    Nat.lt_min.mpr ⟨by decide, length_pos_iff.mpr hne⟩
  have hread : ∀ entry,
      fsbPartitionRead crc32 false ((List.replicate partition.length .blank).set 0 entry)
        = lastValid (FsbConfig.valid crc32)
          ((List.replicate (min fsbConfigArraySizeMax partition.length) .blank).set 0 entry) := by
    intro entry
    rw [fsbPartitionRead_eq, take_set, take_replicate]
  have hnew := (hread bc).trans (lastValid_set_replicate valid_blank hbc hpos)
  cases fate with
  | done => exact .complete hnew
  | failed left => exact hfate.elim
  | cut entry =>
    rcases hfate.valid_eq_false_or with rfl | hentry
    · exact .early hnew
    · refine .emptied hroom ((hread entry).trans (lastValid_eq_none_iff.mpr ?_))
      intro a ha
      rcases mem_or_eq_of_mem_set ha with ha | rfl
      · rw [eq_of_mem_replicate ha]
        exact valid_blank
      · exact hentry

theorem written_fsbPartitionWrite {fates : PartitionFates} {sector : ℕ}
    (hfates : fates.PowerLoss crc32 sector bc) (hbc : bc.valid crc32 = true)
    (hne : partition ≠ []) :
    Written crc32 partition bc (fsbPartitionWrite crc32 fates partition bc) := by
  rw [fsbPartitionWrite, if_neg (by simp [hfates.read])]
  cases hplace : nextPlace (FsbConfig.valid crc32) .blank
      (partition.take fsbConfigArraySizeMax) with
  | some new_idx => exact written_fsbFlashWrite hfates.write hbc hplace
  | none =>
    have hroom : ¬HasRoom crc32 partition := fun h => h hplace
    have herase := hfates.erase
    cases hfate : fates.erase with
    | done => exact written_fsbFlashWrite_erased hfates.write hbc hroom hne
    | failed left =>
      rw [hfate] at herase
      exact herase.elim
    | cut n torn =>
      rw [hfate] at herase
      have hwiped := @lastValid_wiped _ (FsbConfig.valid crc32) .blank torn valid_blank
        herase.2.2 n (partition.take fsbConfigArraySizeMax)
      rw [← take_wiped] at hwiped
      rcases hwiped with hkept | hempty
      · exact .kept hkept
      · exact .emptied hroom hempty

/-- With all operations done the write succeeds. -/
theorem fsbPartitionWrite_allDone (crc32 : Word → List Byte → Word) (partition : List FsbConfig)
    (bc : FsbConfig) : (fsbPartitionWrite crc32 .allDone partition bc).1 = .success := by
  rw [fsbPartitionWrite, if_neg (by decide)]
  cases nextPlace (FsbConfig.valid crc32) .blank (partition.take fsbConfigArraySizeMax) <;> rfl

/-- A write that succeeds has had no failure that matters. -/
theorem fsbPartitionWrite_eq_allDone {fates : PartitionFates}
    (hend : (fsbPartitionWrite crc32 fates partition bc).1 = .success) :
    fsbPartitionWrite crc32 fates partition bc = fsbPartitionWrite crc32 .allDone partition bc := by
  have hwrite : ∀ l i, (fsbFlashWrite fates.write l i bc).1 = .success →
      fsbFlashWrite fates.write l i bc = fsbFlashWrite .done l i bc := by
    intro l i h
    cases hfate : fates.write with
    | done => rfl
    | failed left => rw [hfate] at h; cases h
    | cut entry => rw [hfate] at h; cases h
  rw [fsbPartitionWrite] at hend ⊢
  rw [fsbPartitionWrite, if_neg (by decide : ¬PartitionFates.allDone.readFails = true)]
  split_ifs at hend ⊢ with hread
  cases hplace : nextPlace (FsbConfig.valid crc32) .blank
      (partition.take fsbConfigArraySizeMax) with
  | some new_idx =>
    rw [hplace] at hend
    exact hwrite _ _ hend
  | none =>
    rw [hplace] at hend
    cases hfate : fates.erase with
    | done =>
      rw [hfate] at hend
      exact hwrite _ _ hend
    | failed left => rw [hfate] at hend; cases hend
    | cut n torn => rw [hfate] at hend; cases hend

/-- The entry of a write that succeeds is read back. -/
theorem fsbPartitionRead_of_success {fates : PartitionFates} (hbc : bc.valid crc32 = true)
    (hne : partition ≠ []) (hend : (fsbPartitionWrite crc32 fates partition bc).1 = .success) :
    fsbPartitionRead crc32 false (fsbPartitionWrite crc32 fates partition bc).2 = some bc := by
  rw [fsbPartitionWrite_eq_allDone hend]
  have hend' := fsbPartitionWrite_allDone crc32 partition bc
  have hwritten := @written_fsbPartitionWrite crc32 partition bc .allDone 1
    ⟨rfl, trivial, trivial⟩ hbc hne
  revert hend' hwritten
  generalize fsbPartitionWrite crc32 .allDone partition bc = r
  intro hend' hwritten
  cases hwritten with
  | complete h => exact h
  | kept h => cases hend'
  | early h => cases hend'
  | emptied hroom h => cases hend'

@[simp] theorem length_fsbPartitionWrite (fates : PartitionFates) (partition : List FsbConfig)
    (bc : FsbConfig) :
    (fsbPartitionWrite crc32 fates partition bc).2.length = partition.length := by
  have hwrite : ∀ l i, (fsbFlashWrite fates.write l i bc).2.length = l.length := by
    intro l i
    cases hfate : fates.write <;> simp [fsbFlashWrite]
  have herase : (fsbFlashErase fates.erase partition).2.length = partition.length := by
    cases hfate : fates.erase <;> simp [fsbFlashErase]
  rw [fsbPartitionWrite]
  split
  · rfl
  · split
    · exact hwrite _ _
    · split
      · rename_i heq
        rw [hwrite, ← herase, heq]
      · rename_i heq
        exact herase

/-! ## One save -/

variable {flash : Flash}

/-- A save either stops in the secondary partition, or completes it and goes on in the primary
one. -/
theorem fsbConfigSave_cases (fates : SaveFates) (flash : Flash) (bc : FsbConfig) :
    ((fsbPartitionWrite crc32 fates.secondary flash.secondary bc).1 ≠ .success
        ∧ fsbConfigSave crc32 fates flash bc
          = ((fsbPartitionWrite crc32 fates.secondary flash.secondary bc).1,
            ⟨flash.primary, (fsbPartitionWrite crc32 fates.secondary flash.secondary bc).2⟩))
      ∨ ((fsbPartitionWrite crc32 fates.secondary flash.secondary bc).1 = .success
        ∧ fsbConfigSave crc32 fates flash bc
          = ((fsbPartitionWrite crc32 fates.primary flash.primary bc).1,
            ⟨(fsbPartitionWrite crc32 fates.primary flash.primary bc).2,
              (fsbPartitionWrite crc32 fates.secondary flash.secondary bc).2⟩)) := by
  rw [fsbConfigSave]
  rcases hsec : fsbPartitionWrite crc32 fates.secondary flash.secondary bc with ⟨ending, left⟩
  cases ending with
  | success => exact .inr ⟨rfl, rfl⟩
  | error => exact .inl ⟨by simp, rfl⟩
  | lost => exact .inl ⟨by simp, rfl⟩

theorem stored_eq_of_primary {bc : FsbConfig}
    (h : fsbPartitionRead crc32 false flash.primary = some bc) :
    flash.stored crc32 .none = some bc := by
  rw [Flash.stored, ReadFaults.none]
  rw [h]
  rfl

theorem stored_eq_of_primary_none (h : fsbPartitionRead crc32 false flash.primary = none) :
    flash.stored crc32 .none = fsbPartitionRead crc32 false flash.secondary := by
  rw [Flash.stored, ReadFaults.none]
  rw [h, Option.none_or]

theorem fsbConfigLoad_eq {bc : FsbConfig} (h : flash.stored crc32 .none = some bc) :
    fsbConfigLoad crc32 .none flash = bc := by
  rw [fsbConfigLoad, h]
  rfl

/-- A save that is complete is loaded back, whatever the partitions held. -/
theorem stored_fsbConfigSave_of_success {fates : SaveFates} (hbc : bc.valid crc32 = true)
    (hne : flash.primary ≠ []) (hend : (fsbConfigSave crc32 fates flash bc).1 = .success) :
    (fsbConfigSave crc32 fates flash bc).2.stored crc32 .none = some bc := by
  rcases @fsbConfigSave_cases crc32 fates flash bc with ⟨hcut, heq⟩ | ⟨-, heq⟩
  · rw [heq] at hend
    exact absurd hend hcut
  · rw [heq] at hend ⊢
    exact stored_eq_of_primary (fsbPartitionRead_of_success hbc hne hend)

theorem fsbConfigSave_allDone (crc32 : Word → List Byte → Word) (flash : Flash)
    (bc : FsbConfig) : (fsbConfigSave crc32 .allDone flash bc).1 = .success := by
  rcases @fsbConfigSave_cases crc32 .allDone flash bc with ⟨hcut, -⟩ | ⟨-, heq⟩
  · exact absurd (fsbPartitionWrite_allDone crc32 flash.secondary bc) hcut
  · rw [heq]
    exact fsbPartitionWrite_allDone crc32 flash.primary bc

/-- A save keeps the sizes of the partitions. -/
theorem length_fsbConfigSave (fates : SaveFates) (flash : Flash) (bc : FsbConfig) :
    (fsbConfigSave crc32 fates flash bc).2.primary.length = flash.primary.length
      ∧ (fsbConfigSave crc32 fates flash bc).2.secondary.length = flash.secondary.length := by
  rcases @fsbConfigSave_cases crc32 fates flash bc with ⟨-, heq⟩ | ⟨-, heq⟩
  · rw [heq]
    exact ⟨rfl, length_fsbPartitionWrite _ _ _⟩
  · rw [heq]
    exact ⟨length_fsbPartitionWrite _ _ _, length_fsbPartitionWrite _ _ _⟩

theorem primary_fsbConfigSave_ne_nil (fates : SaveFates) (bc : FsbConfig)
    (hne : flash.primary ≠ []) : (fsbConfigSave crc32 fates flash bc).2.primary ≠ [] := by
  rw [← length_pos_iff, (length_fsbConfigSave fates flash bc).1]
  exact length_pos_iff.mpr hne

/-- A cut in the primary partition leaves the old configuration or the new one: the secondary
partition is complete by then. -/
theorem stored_of_written_primary {r : Ending × List FsbConfig} {secondary : List FsbConfig}
    (h : Written crc32 flash.primary bc r) (hsec : fsbPartitionRead crc32 false secondary = some bc)
    (hpri : fsbPartitionRead crc32 false flash.primary ≠ none) :
    Flash.stored crc32 .none ⟨r.2, secondary⟩ = flash.stored crc32 .none
      ∨ Flash.stored crc32 .none ⟨r.2, secondary⟩ = some bc := by
  obtain ⟨old, hold⟩ := Option.ne_none_iff_exists'.mp hpri
  cases h with
  | complete h => exact .inr (stored_eq_of_primary h)
  | kept h =>
    refine .inl ?_
    rw [stored_eq_of_primary hold]
    exact stored_eq_of_primary (h.trans hold)
  | early h => exact .inr (stored_eq_of_primary h)
  | emptied hroom h => exact .inr ((stored_eq_of_primary_none h).trans hsec)

theorem fsbPartitionRead_ne_nil (h : fsbPartitionRead crc32 false partition ≠ none) :
    partition ≠ [] := by
  rintro rfl
  exact h rfl

variable {sector : ℕ}

/-- A save that is cut anywhere leaves the old configuration or the new one. -/
theorem stored_fsbConfigSave {fates : SaveFates}
    (hprimary : fsbPartitionRead crc32 false flash.primary ≠ none)
    (hsecondary : flash.secondary ≠ []) (hbc : bc.valid crc32 = true)
    (hfates : fates.PowerLoss crc32 sector bc) :
    (fsbConfigSave crc32 fates flash bc).2.stored crc32 .none = flash.stored crc32 .none
      ∨ (fsbConfigSave crc32 fates flash bc).2.stored crc32 .none = some bc := by
  have hpri := written_fsbPartitionWrite hfates.primary hbc (fsbPartitionRead_ne_nil hprimary)
  rcases @fsbConfigSave_cases crc32 fates flash bc with ⟨-, heq⟩ | ⟨hend, heq⟩
  · -- the power is lost before the primary partition is touched
    obtain ⟨old, hold⟩ := Option.ne_none_iff_exists'.mp hprimary
    rw [heq, stored_eq_of_primary hold]
    exact .inl (stored_eq_of_primary hold)
  · rw [heq]
    exact stored_of_written_primary hpri (fsbPartitionRead_of_success hbc hsecondary hend) hprimary

/-- With a valid entry in the part of the primary partition that is read, a save that is cut
anywhere leaves the old configuration or the new one, a complete save leaves the new one, and so
does the next complete save after a cut one. -/
theorem fsbConfigSave_survives_power_loss {fates : SaveFates} {sector : ℕ}
    (hprimary : fsbPartitionRead crc32 false flash.primary ≠ none)
    (hsecondary : flash.secondary ≠ []) (hbc : bc.valid crc32 = true)
    (hfates : fates.PowerLoss crc32 sector bc) :
    (fsbConfigLoad crc32 .none (fsbConfigSave crc32 fates flash bc).2
          = fsbConfigLoad crc32 .none flash
        ∨ fsbConfigLoad crc32 .none (fsbConfigSave crc32 fates flash bc).2 = bc)
      ∧ ((fsbConfigSave crc32 fates flash bc).1 = .success →
        fsbConfigLoad crc32 .none (fsbConfigSave crc32 fates flash bc).2 = bc)
      ∧ ∀ (next : FsbConfig) (fates' : SaveFates), next.valid crc32 = true →
        (fsbConfigSave crc32 fates' (fsbConfigSave crc32 fates flash bc).2 next).1 = .success →
        fsbConfigLoad crc32 .none
          (fsbConfigSave crc32 fates' (fsbConfigSave crc32 fates flash bc).2 next).2 = next := by
  have hne := fsbPartitionRead_ne_nil hprimary
  refine ⟨?_, fun hend => ?_, fun next fates' hnext hend => ?_⟩
  · rcases stored_fsbConfigSave hprimary hsecondary hbc hfates with hold | hnew
    · rw [fsbConfigLoad, hold]
      exact .inl rfl
    · exact .inr (fsbConfigLoad_eq hnew)
  · exact fsbConfigLoad_eq (stored_fsbConfigSave_of_success hbc hne hend)
  · exact fsbConfigLoad_eq (stored_fsbConfigSave_of_success hnext
      (primary_fsbConfigSave_ne_nil fates bc hne) hend)

/-- The default configuration for the given slot, with its magic number and checksum. -/
def sampleConfig (chosen : Byte) : FsbConfig :=
  { fsbConfigDefault with chosen := chosen }.sealed fun _ _ => 0

theorem fsbConfigSave_survives_power_loss_sampleConfig :
    (sampleConfig 1).valid (fun _ _ => 0) = true
      ∧ fsbConfigLoad (fun _ _ => 0) .none (fsbConfigSave (fun _ _ => 0) .allDone
          ⟨[sampleConfig 0], [sampleConfig 0]⟩ (sampleConfig 1)).2 = sampleConfig 1 :=
  ⟨by decide, (@fsbConfigSave_survives_power_loss (fun _ _ => 0) (sampleConfig 1)
    ⟨[sampleConfig 0], [sampleConfig 0]⟩ .allDone 1 (by decide) (by decide) (by decide)
    (SaveFates.powerLoss_allDone 1 _)).2.1 (by decide)⟩

/-- The primary partition has 4097 entries, and only the last one is valid: it is not read. The
secondary partition is erased before its new entry is written, and a cut in between leaves the
default configuration. -/
theorem entry_beyond_array_not_read :
    ∃ (flash : Flash) (fates : SaveFates),
      (∃ entry ∈ flash.primary, entry.valid (fun _ _ => 0) = true)
        ∧ flash.secondary ≠ [] ∧ (sampleConfig 1).valid (fun _ _ => 0) = true
        ∧ fates.PowerLoss (fun _ _ => 0) 1 (sampleConfig 1)
        ∧ fsbConfigLoad (fun _ _ => 0) .none flash = sampleConfig 0
        ∧ fsbConfigLoad (fun _ _ => 0) .none
          (fsbConfigSave (fun _ _ => 0) fates flash (sampleConfig 1)).2 = fsbConfigDefault := by
  obtain ⟨size, hsize⟩ : ∃ size, size = fsbConfigArraySizeMax := ⟨_, rfl⟩
  have hnone : fsbPartitionRead (fun _ _ => 0) false
      (List.replicate size FsbConfig.blank ++ [sampleConfig 0]) = none := by
    rw [fsbPartitionRead_eq, take_left' (by rw [length_replicate, hsize])]
    exact lastValid_replicate valid_blank _
  refine ⟨⟨List.replicate size FsbConfig.blank ++ [sampleConfig 0], [sampleConfig 0]⟩,
    ⟨⟨false, .cut 1 [], .done⟩, .allDone⟩, ⟨sampleConfig 0, ?_, by decide⟩, ?_, by decide,
    ⟨⟨rfl, ⟨one_dvd 1, by simp, by simp⟩, trivial⟩, rfl, trivial, trivial⟩, ?_, ?_⟩
  · exact mem_append_right _ (mem_singleton_self _)
  · exact cons_ne_nil _ _
  · rw [fsbConfigLoad, stored_eq_of_primary_none hnone]
    rfl
  · rw [fsbConfigSave, show fsbPartitionWrite (fun _ _ => 0) ⟨false, .cut 1 [], .done⟩
      [sampleConfig 0] (sampleConfig 1) = (.lost, [FsbConfig.blank]) by decide]
    rw [fsbConfigLoad, stored_eq_of_primary_none hnone]
    rfl

/-! ## Runs of saves -/

/-- A save and what becomes of it. -/
structure Save where
  bc : FsbConfig
  fates : SaveFates

variable (crc32) in
/-- The save is of a configuration with its checksum, and at most the power is lost. -/
structure Save.PowerLoss (sector : ℕ) (save : Save) : Prop where
  valid : save.bc.valid crc32 = true
  fates : save.fates.PowerLoss crc32 sector save.bc

variable (crc32) in
/-- The flash after one more save. -/
def Flash.save (flash : Flash) (save : Save) : Flash :=
  (fsbConfigSave crc32 save.fates flash save.bc).2

variable (crc32) in
/-- The flash after a run of saves. -/
def Flash.saves (flash : Flash) (run : List Save) : Flash := run.foldl (Flash.save crc32) flash

/-- Two partitions of the given size, erased. -/
def Flash.erased (size : ℕ) : Flash := ⟨List.replicate size .blank, List.replicate size .blank⟩

variable (crc32) in
/-- The secondary partition has room for an entry, or the primary one holds a valid entry. -/
def Flash.SafeToSave (flash : Flash) : Prop :=
  HasRoom crc32 flash.secondary ∨ fsbPartitionRead crc32 false flash.primary ≠ none

instance (flash : Flash) : Decidable (flash.SafeToSave crc32) :=
  inferInstanceAs (Decidable (_ ∨ _))

@[simp] theorem saves_concat (flash : Flash) (run : List Save) (save : Save) :
    flash.saves crc32 (run ++ [save]) = (flash.saves crc32 run).save crc32 save := by
  simp [Flash.saves]

theorem stored_ne_none_of_secondary {bc : FsbConfig}
    (h : fsbPartitionRead crc32 false flash.secondary = some bc) :
    flash.stored crc32 .none ≠ none := by
  cases hpri : fsbPartitionRead crc32 false flash.primary with
  | none =>
    rw [stored_eq_of_primary_none hpri, h]
    exact Option.some_ne_none bc
  | some old =>
    rw [stored_eq_of_primary hpri]
    exact Option.some_ne_none old

theorem length_secondary_saves (flash : Flash) (run : List Save) :
    (flash.saves crc32 run).secondary.length = flash.secondary.length := by
  induction run using List.reverseRecOn with
  | nil => rfl
  | append_singleton run save ih =>
    rw [saves_concat, ← ih]
    exact (length_fsbConfigSave _ _ _).2

/-- With room in the secondary partition nothing is erased there: it keeps its entry or gets the new
one. -/
theorem stored_save_of_hasRoom {save : Save} (hsave : save.PowerLoss crc32 sector)
    (hne : flash.secondary ≠ []) (hroom : HasRoom crc32 flash.secondary)
    (hstored : flash.stored crc32 .none ≠ none)
    (hprimary : fsbPartitionRead crc32 false flash.primary = none) :
    (flash.save crc32 save).stored crc32 .none ≠ none := by
  have hkept : fsbPartitionRead crc32 false flash.secondary ≠ none := by
    rwa [stored_eq_of_primary_none hprimary] at hstored
  have hleft : ∃ bc, fsbPartitionRead crc32 false
      (fsbPartitionWrite crc32 save.fates.secondary flash.secondary save.bc).2 = some bc := by
    rw [← Option.ne_none_iff_exists']
    have hsec := written_fsbPartitionWrite hsave.fates.secondary hsave.valid hne
    revert hsec
    generalize fsbPartitionWrite crc32 save.fates.secondary flash.secondary save.bc = r
    intro hsec
    cases hsec with
    | complete h => simp [h]
    | kept h => rwa [h]
    | early h => simp [h]
    | emptied hfull h => exact absurd hroom hfull
  obtain ⟨bc, hbc⟩ := hleft
  rw [Flash.save]
  rcases @fsbConfigSave_cases crc32 save.fates flash save.bc with ⟨-, heq⟩ | ⟨-, heq⟩ <;>
  · rw [heq]
    exact stored_ne_none_of_secondary hbc

/-- A save of a store that is safe to save keeps a configuration. -/
theorem stored_save_ne_none {save : Save} (hsave : save.PowerLoss crc32 sector)
    (hne : flash.secondary ≠ []) (hsafe : flash.SafeToSave crc32)
    (hstored : flash.stored crc32 .none ≠ none) :
    (flash.save crc32 save).stored crc32 .none ≠ none := by
  by_cases hprimary : fsbPartitionRead crc32 false flash.primary = none
  · exact stored_save_of_hasRoom hsave hne (hsafe.resolve_right (not_not_intro hprimary)) hstored
      hprimary
  · rcases stored_fsbConfigSave hprimary hne hsave.valid hsave.fates with hold | hnew
    · rwa [Flash.save, hold]
    · rw [Flash.save, hnew]
      exact Option.some_ne_none _

/-- A store that is not safe to save can lose everything: the secondary partition is the only one
with a valid entry, and its erase may be the last thing that happens. -/
theorem exists_save_stored_eq_none (hsector : 0 < sector) (hsafe : ¬flash.SafeToSave crc32)
    (hbc : bc.valid crc32 = true) :
    ∃ save : Save, save.PowerLoss crc32 sector
      ∧ (flash.save crc32 save).stored crc32 .none = none := by
  rw [Flash.SafeToSave, not_or, not_not] at hsafe
  obtain ⟨hfull, hprimary⟩ := hsafe
  have hplace := not_not.mp hfull
  refine ⟨⟨bc, ⟨⟨false, .cut (sector * flash.secondary.length) [], .done⟩, .allDone⟩⟩,
    ⟨hbc, ⟨rfl, ⟨Nat.dvd_mul_right _ _, Nat.zero_le _, by simp⟩, trivial⟩,
      (SaveFates.powerLoss_allDone sector bc).primary⟩, ?_⟩
  have hwrite : fsbPartitionWrite crc32
      ⟨false, .cut (sector * flash.secondary.length) [], .done⟩ flash.secondary bc
        = (.lost, wiped .blank (sector * flash.secondary.length) [] flash.secondary) := by
    rw [fsbPartitionWrite, if_neg Bool.false_ne_true, hplace]
    rfl
  rw [Flash.save, fsbConfigSave, hwrite]
  rw [stored_eq_of_primary_none (by exact hprimary), fsbPartitionRead_eq,
    wiped_all (Nat.le_mul_of_pos_left _ hsector), take_replicate]
  exact lastValid_replicate valid_blank _

/-- A store survives every loss of power in a save exactly if it is safe to save. -/
theorem stored_saves_ne_none_iff (hsector : 0 < sector) (hne : flash.secondary ≠ [])
    (hstored : flash.stored crc32 .none ≠ none) (hbc : bc.valid crc32 = true) :
    (∀ save : Save, save.PowerLoss crc32 sector →
        (flash.save crc32 save).stored crc32 .none ≠ none)
      ↔ flash.SafeToSave crc32 := by
  constructor
  · intro hkept
    by_contra hsafe
    obtain ⟨save, hsave, hlost⟩ := exists_save_stored_eq_none hsector hsafe hbc
    exact hkept save hsave hlost
  · intro hsafe save hsave
    exact stored_save_ne_none hsave hne hsafe hstored

/-- One configuration in partitions of two entries. -/
theorem stored_saves_ne_none_sampleConfig : (sampleConfig 0).valid (fun _ _ => 0) = true
    ∧ ∀ save : Save, save.PowerLoss (fun _ _ => 0) 2 →
      (((Flash.erased 2).saves (fun _ _ => 0) [⟨sampleConfig 0, .allDone⟩]).save (fun _ _ => 0)
        save).stored (fun _ _ => 0) .none ≠ none := by
  have hbc : (sampleConfig 0).valid (fun _ _ => 0) = true := by decide
  exact ⟨hbc, (stored_saves_ne_none_iff Nat.two_pos (by decide) (by decide) hbc).mpr (by decide)⟩

/-- After a first complete save to erased partitions, a configuration is found after any run of
saves, each of which may be cut, as long as every save finds a store that is safe to save. -/
theorem saves_keep_a_configuration {size sector : ℕ} (hsize : 0 < size) {first : FsbConfig}
    (hfirst : first.valid crc32 = true) {run : List Save}
    (hrun : ∀ save ∈ run, save.PowerLoss crc32 sector)
    (hsafe : ∀ done save, done ++ [save] <+: run →
      ((Flash.erased size).saves crc32 (⟨first, .allDone⟩ :: done)).SafeToSave crc32) :
    ∀ done, done <+: run →
      ((Flash.erased size).saves crc32 (⟨first, .allDone⟩ :: done)).stored crc32 .none ≠ none := by
  intro done
  -- induction on the saves done; the last one finds a safe store that holds a configuration
  induction done using List.reverseRecOn with
  | nil =>
    intro _
    have hne : (Flash.erased size).primary ≠ [] := by
      simp [Flash.erased, Nat.pos_iff_ne_zero.mp hsize]
    have hstored :=
      stored_fsbConfigSave_of_success hfirst hne (fsbConfigSave_allDone crc32 _ first)
    exact ne_of_eq_of_ne hstored (Option.some_ne_none first)
  | append_singleton done save ih =>
    intro hdone
    have hmem : save ∈ run := hdone.subset (by simp)
    rw [← cons_append, saves_concat]
    refine stored_save_ne_none (hrun save hmem) ?_ (hsafe done save hdone)
      (ih ((prefix_append done [save]).trans hdone))
    rw [← length_pos_iff, length_secondary_saves]
    simpa [Flash.erased] using hsize

/-- A loss of power before the primary partition is written. -/
def cutBeforePrimary : SaveFates := ⟨.allDone, ⟨false, .done, .cut .blank⟩⟩

theorem saves_keep_a_configuration_cutBeforePrimary :
    (sampleConfig 0).valid (fun _ _ => 0) = true
      ∧ ((Flash.erased 2).saves (fun _ _ => 0)
        [⟨sampleConfig 0, .allDone⟩, ⟨sampleConfig 1, cutBeforePrimary⟩]).stored (fun _ _ => 0)
          .none ≠ none := by
  refine ⟨by decide, @saves_keep_a_configuration (fun _ _ => 0) 2 1 (by decide) (sampleConfig 0)
    (by decide) [⟨sampleConfig 1, cutBeforePrimary⟩] ?_ ?_ _ (prefix_refl _)⟩
  · intro save hsave
    rw [mem_singleton.mp hsave]
    exact ⟨by decide, ⟨rfl, trivial, trivial⟩, ⟨rfl, trivial, .inl rfl⟩⟩
  · intro done save hdone
    have hlength := hdone.length_le
    rw [length_append, length_singleton, length_singleton] at hlength
    rw [length_eq_zero_iff.mp (by omega : done.length = 0)]
    decide

/-- Partitions of two entries: the second save leaves the primary partition one entry behind, so the
third erases only the secondary one. The fourth then erases the primary partition and is cut before
it is written, and the fifth erases the secondary one. -/
def losingRun : List Save :=
  [⟨sampleConfig 1, cutBeforePrimary⟩, ⟨sampleConfig 0, .allDone⟩,
    ⟨sampleConfig 1, cutBeforePrimary⟩,
    ⟨sampleConfig 0, ⟨⟨false, .cut 2 [], .done⟩, .allDone⟩⟩]

theorem losingRun_loses_all :
    (∀ save ∈ losingRun, save.PowerLoss (fun _ _ => 0) 2)
      ∧ ((Flash.erased 2).saves (fun _ _ => 0)
        (⟨sampleConfig 0, .allDone⟩ :: losingRun)).stored (fun _ _ => 0) .none = none
      ∧ fsbConfigLoad (fun _ _ => 0) .none ((Flash.erased 2).saves (fun _ _ => 0)
        (⟨sampleConfig 0, .allDone⟩ :: losingRun)) = fsbConfigDefault := by
  refine ⟨?_, by decide, by decide⟩
  have hvalid : ∀ chosen, chosen = 0 ∨ chosen = 1 →
      (sampleConfig chosen).valid (fun _ _ => 0) = true := by
    rintro chosen (rfl | rfl) <;> decide
  have hcut : cutBeforePrimary.PowerLoss (fun _ _ => 0) 2 (sampleConfig 1) :=
    ⟨⟨rfl, trivial, trivial⟩, ⟨rfl, trivial, .inl rfl⟩⟩
  intro save hsave
  simp only [losingRun, mem_cons, not_mem_nil, or_false] at hsave
  rcases hsave with rfl | rfl | rfl | rfl
  · exact ⟨hvalid 1 (.inr rfl), hcut⟩
  · exact ⟨hvalid 0 (.inl rfl), SaveFates.powerLoss_allDone 2 _⟩
  · exact ⟨hvalid 1 (.inr rfl), hcut⟩
  · exact ⟨hvalid 0 (.inl rfl), ⟨rfl, ⟨Nat.dvd_refl 2, by simp, by simp⟩, trivial⟩,
      (SaveFates.powerLoss_allDone 2 _).primary⟩

end RutosSdk.Fsb
