import RutosSdk.Fsb.Boot

/-! # Updates of a slot

Reference: `lib/tlt/fsupdate.c` of U-Boot.

An update makes its slot unbootable, writes the image, and only then gives the slot the highest
priority and one try. The power may be lost at any point, also within the saves of the
configuration, and `ubiformat` may fail; it leaves anything in the slot then.
-/

namespace RutosSdk.Fsb

/-! ## The update -/

/-- `FSB_SLOT_NAND_A` -/
abbrev fsbSlotNandA : ℕ := 0

/-- `FSB_SLOT_NAND_B` -/
abbrev fsbSlotNandB : ℕ := 1

/-- `FSB_SLOT_RECOVERY` -/
abbrev fsbSlotRecovery : ℕ := 2

/-- `getprimary` -/
def getprimary (ctx : FsbContext) : ℕ :=
  if fsbConfigPickSlot ctx.config_new = fsbSlotNandB then fsbSlotNandA else fsbSlotNandB

/-- `getsecondary` -/
def getsecondary (primary : ℕ) : ℕ :=
  if primary = fsbSlotNandB then fsbSlotNandA else fsbSlotNandB

/-- A slot that is not updated: its flag is cleared, and its priority is lowered if it is that of
the primary slot or above. -/
def FsbSlotinfo.demoted (slot : FsbSlotinfo) (priority : BitVec 4) : FsbSlotinfo :=
  { slot with
    force := false
    priority := if 9 ≤ slot.priority then priority else slot.priority }

/-- What `mark_update_begin` makes of the configuration. -/
def FsbConfig.updateBegin (bc : FsbConfig) (primary : ℕ) : FsbConfig :=
  let secondary := getsecondary primary
  let bc := bc.setSlot fsbSlotRecovery ((bc.slot fsbSlotRecovery).demoted 1)
  let bc := bc.setSlot secondary ((bc.slot secondary).demoted 8)
  bc.setSlot primary
    { bc.slot primary with
      force := false
      priority := 0
      successful_boot := false
      tries_remaining := 1 }

/-- The flash with the configuration, and what the slots hold. -/
structure Device where
  flash : Flash
  images : ℕ → List Byte

/-- What becomes of an update. -/
inductive UpdateFate where
  /-- The power is lost before the first save. -/
  | cutBeforeBegin
  /-- The power is lost during the first save. -/
  | cutInBegin (fates : SaveFates)
  /-- The power is lost during `ubiformat`. -/
  | cutInFormat (left : List Byte)
  /-- `ubiformat` fails. -/
  | formatFails (left : List Byte)
  /-- The power is lost before the second save. -/
  | cutBeforeEnd
  /-- The power is lost during the second save. -/
  | cutInEnd (fates : SaveFates)
  | done

section Update

variable (crc32 : Word → List Byte → Word)

/-- The slot that an update overwrites. -/
def Device.updated (device : Device) : ℕ := getprimary (fsbContextLoad crc32 .none device.flash)

/-- A first save that is cut finds a valid entry in the primary partition to fall back to. -/
def UpdateFate.PowerLoss (sector : ℕ) (device : Device) : UpdateFate → Prop
  | .cutInBegin fates => fsbPartitionRead crc32 false device.flash.primary ≠ none
    ∧ device.flash.secondary ≠ []
    ∧ fates.PowerLoss crc32 sector (((fsbConfigLoad crc32 .none device.flash).updateBegin
      (device.updated crc32)).sealed crc32)
  | _ => True

end Update

/-! ## The configurations of an update -/

variable {bc : FsbConfig} {primary i : ℕ}

theorem bootable_eq_false_of_priority {slot : FsbSlotinfo} (h : slot.priority = 0) :
    slot.bootable = false := by
  simp [FsbSlotinfo.bootable, h]

variable (ctx : FsbContext) {fate : UpdateFate}

section

variable (hprimary : primary = fsbSlotNandA ∨ primary = fsbSlotNandB)
include hprimary

end

/-- The slot is out of use: it has no priority, and it is not the one to fall back to. -/
structure FsbConfig.Spares (bc : FsbConfig) (primary : ℕ) : Prop where
  chosen : bc.chosen.toNat < fsbConfigNumSlots
  priority : (bc.slot primary).priority = 0
  pick : fsbConfigPickSlot bc ≠ primary

theorem pick_ne_of_not_bootable (hboot : (bc.slot primary).bootable = false)
    (hchosen : bc.chosen.toNat ≠ primary) : fsbConfigPickSlot bc ≠ primary := by
  intro hpick
  have hfallback := (pick_of_not_bootable (hpick ▸ hboot)).2
  exact hchosen (hfallback.symm.trans hpick)

variable {crc32 : Word → List Byte → Word}

theorem FsbConfig.Spares.boot (h : bc.Spares primary) : (bc.boot crc32).Spares primary := by
  have hchosen := @toNat_chosen_boot bc crc32 h.chosen
  have hpriority : ((bc.boot crc32).slot primary).priority = 0 := by
    rw [slot_boot_of_ne h.pick]
    exact h.priority
  refine ⟨?_, hpriority, pick_ne_of_not_bootable (bootable_eq_false_of_priority hpriority) ?_⟩
  · rw [hchosen]
    exact pick_lt h.chosen
  · rw [hchosen]
    exact h.pick

variable {device : Device}

end RutosSdk.Fsb
