import Mathlib.Data.BitVec
import RutosSdk.Lib.AppendLog
import RutosSdk.Lib.Bytes

/-! # The boot configuration and its store

Reference: `fsb.h`, `fsb.c` and `fsb_flash.c` of `package/teltonika/fsb/src`, and of U-Boot the same
functions in `include/tlt/fsb.h`, `lib/tlt/fsb.c` and `board/mediatek/mt7621/fsb_flash.c`.

`crc32` of the kernel and of U-Boot is a parameter. A partition is the list of its entries. What
becomes of an operation on the flash is an argument: it is done, or it fails and leaves anything
behind, or the power is lost in its course.
-/

namespace RutosSdk.Fsb

open AppendLog

/-! ## The configuration -/

/-- `fsb_slotinfo` -/
structure FsbSlotinfo where
  priority : BitVec 4
  tries_remaining : BitVec 4
  successful_boot : Bool
  force : Bool
  reserved : BitVec 6
deriving DecidableEq, Repr

/-- `FSB_CONFIG_NUM_SLOTS` -/
abbrev fsbConfigNumSlots : ℕ := 3

/-- `FSB_CONFIG_MAGIC` -/
def fsbConfigMagic : Word := 0xBABAB0E1

/-- `fsb_config` -/
structure FsbConfig where
  magic : Word
  version : Byte
  chosen : Byte
  slots : Vector FsbSlotinfo fsbConfigNumSlots
  crc32 : Word
deriving DecidableEq, Repr

/-- The two bytes of a slot; the first bit-field takes the low bits. -/
def FsbSlotinfo.bytes (slot : FsbSlotinfo) : List Byte :=
  [slot.tries_remaining ++ slot.priority,
    slot.reserved ++ (BitVec.ofBool slot.force ++ BitVec.ofBool slot.successful_boot)]

/-- The bytes before the checksum, in the order of memory. -/
def FsbConfig.head (bc : FsbConfig) : List Byte :=
  [bc.magic.extractLsb' 0 8, bc.magic.extractLsb' 8 8, bc.magic.extractLsb' 16 8,
      bc.magic.extractLsb' 24 8, bc.version, bc.chosen]
    ++ bc.slots.toList.flatMap FsbSlotinfo.bytes

/-- A slot of an erased entry. -/
def FsbSlotinfo.blank : FsbSlotinfo := ⟨0xF, 0xF, true, true, 0x3F⟩

/-- An erased entry: all bytes are 0xFF. -/
def FsbConfig.blank : FsbConfig where
  magic := 0xFFFFFFFF
  version := 0xFF
  chosen := 0xFF
  slots := Vector.replicate fsbConfigNumSlots .blank
  crc32 := 0xFFFFFFFF

/-- `fsb_config_default` -/
def fsbConfigDefault : FsbConfig where
  magic := 0
  version := 1
  chosen := 0
  slots := #v[⟨2, 5, false, false, 0⟩, ⟨2, 5, false, false, 0⟩, ⟨0, 15, false, false, 0⟩]
  crc32 := 0

/-- The slot at an index; the callers stay below `fsbConfigNumSlots`. -/
def FsbConfig.slot (bc : FsbConfig) (i : ℕ) : FsbSlotinfo := bc.slots.toList.getD i .blank

/-- An assignment to the slot at an index. -/
def FsbConfig.setSlot (bc : FsbConfig) (i : ℕ) (slot : FsbSlotinfo) : FsbConfig :=
  { bc with slots := bc.slots.setIfInBounds i slot }

/-! ## The slot to boot -/

/-- `fsb_slotinfo_compare` -/
def fsbSlotinfoCompare (a b : FsbSlotinfo) : ℤ :=
  if a.force ≠ b.force then b.force.toNat - a.force.toNat
  else if a.priority ≠ b.priority then b.priority.toNat - a.priority.toNat
  else if a.successful_boot ≠ b.successful_boot then
    b.successful_boot.toNat - a.successful_boot.toNat
  else if a.tries_remaining ≠ b.tries_remaining then
    b.tries_remaining.toNat - a.tries_remaining.toNat
  else 0

/-- The slot can be booted. -/
def FsbSlotinfo.bootable (slot : FsbSlotinfo) : Bool :=
  slot.priority ≠ 0 && slot.tries_remaining ≠ 0

/-- One turn of the search for the best slot; `none` is the index -1. -/
def bestSlotStep (bc : FsbConfig) (chosen : Option ℕ) (i : ℕ) : Option ℕ :=
  if !(bc.slot i).bootable then chosen
  else
    match chosen with
    | none => some i
    | some k => if fsbSlotinfoCompare (bc.slot i) (bc.slot k) < 0 then some i else some k

/-- `fsb_config_get_best_bootable_slot` -/
def fsbConfigGetBestBootableSlot (bc : FsbConfig) : Option ℕ :=
  (List.range fsbConfigNumSlots).foldl (bestSlotStep bc) none

/-- `fsb_config_pick_slot` -/
def fsbConfigPickSlot (bc : FsbConfig) : ℕ :=
  match fsbConfigGetBestBootableSlot bc with
  | some slot => slot
  | none => bc.chosen.toNat

/-- A slot that has been picked. -/
def FsbSlotinfo.marked (slot : FsbSlotinfo) : FsbSlotinfo :=
  { slot with
    force := false
    tries_remaining :=
      if slot.tries_remaining ≠ 0 ∧ slot.tries_remaining ≠ 15 then slot.tries_remaining - 1
      else slot.tries_remaining }

/-- `fsb_config_mark_slot` -/
def fsbConfigMarkSlot (bc : FsbConfig) (slot_idx : ℕ) : FsbConfig :=
  { bc with chosen := BitVec.ofNat 8 slot_idx }.setSlot slot_idx (bc.slot slot_idx).marked

/-! ## Partitions -/

/-- `FSB_CONFIG_ARRAY_SIZE_MAX` -/
def fsbConfigArraySizeMax : ℕ := 4096

/-- What becomes of the write of an entry. -/
inductive WriteFate where
  | done
  | failed (left : ℕ → FsbConfig)
  | cut (entry : FsbConfig)

/-- What becomes of the erase of a partition. -/
inductive EraseFate where
  | done
  | failed (left : ℕ → FsbConfig)
  | cut (n : ℕ) (torn : List FsbConfig)

/-- What becomes of the operations of one `fsb_partition_write`; the allocation of the buffer fails
like the read. -/
structure PartitionFates where
  readFails : Bool
  erase : EraseFate
  write : WriteFate

/-- All operations succeed. -/
def PartitionFates.allDone : PartitionFates := ⟨false, .done, .done⟩

/-- How a call ends: it returns zero or not, or the power is lost before it returns. -/
inductive Ending where
  | success
  | error
  | lost
deriving DecidableEq, Repr

/-- `fsb_flash_write` -/
def fsbFlashWrite (fate : WriteFate) (partition : List FsbConfig) (idx : ℕ) (bc : FsbConfig) :
    Ending × List FsbConfig :=
  match fate with
  | .done => (.success, partition.set idx bc)
  | .failed left => (.error, (List.range partition.length).map left)
  | .cut entry => (.lost, partition.set idx entry)

/-- `fsb_flash_erase` -/
def fsbFlashErase (fate : EraseFate) (partition : List FsbConfig) : Ending × List FsbConfig :=
  match fate with
  | .done => (.success, List.replicate partition.length .blank)
  | .failed left => (.error, (List.range partition.length).map left)
  | .cut n torn => (.lost, wiped .blank n torn partition)

section Store

variable (crc32 : Word → List Byte → Word)

/-- `fsb_config_crc_calc` -/
def fsbConfigCrcCalc (bc : FsbConfig) : Word := crc32 fsbConfigMagic bc.head

/-- The magic number and the checksum are right. -/
def FsbConfig.valid (bc : FsbConfig) : Bool :=
  bc.magic = fsbConfigMagic && bc.crc32 = fsbConfigCrcCalc crc32 bc

/-- `fsb_partition_read`; at most `FSB_CONFIG_ARRAY_SIZE_MAX` entries are read. -/
def fsbPartitionRead (readFails : Bool) (partition : List FsbConfig) : Option FsbConfig :=
  if readFails then none
  else lastValid (FsbConfig.valid crc32) (partition.take fsbConfigArraySizeMax)

/-- `fsb_partition_write`; the place is the first free one behind the last valid entry. -/
def fsbPartitionWrite (fates : PartitionFates) (partition : List FsbConfig) (bc : FsbConfig) :
    Ending × List FsbConfig :=
  if fates.readFails then (.error, partition)
  else
    match nextPlace (FsbConfig.valid crc32) .blank (partition.take fsbConfigArraySizeMax) with
    | some new_idx => fsbFlashWrite fates.write partition new_idx bc
    | none =>
      match fsbFlashErase fates.erase partition with
      | (.success, erased) => fsbFlashWrite fates.write erased 0 bc
      | r => r

/-! ## The store -/

/-- The two partitions. -/
structure Flash where
  primary : List FsbConfig
  secondary : List FsbConfig
deriving DecidableEq

/-- Which of the two partitions cannot be read. -/
structure ReadFaults where
  primary : Bool
  secondary : Bool
deriving DecidableEq, Repr

/-- Both partitions can be read. -/
def ReadFaults.none : ReadFaults := ⟨false, false⟩

/-- What `fsb_config_load` finds before it falls back to the default. -/
def Flash.stored (faults : ReadFaults) (flash : Flash) : Option FsbConfig :=
  (fsbPartitionRead crc32 faults.primary flash.primary).or
    (fsbPartitionRead crc32 faults.secondary flash.secondary)

/-- `fsb_config_load` -/
def fsbConfigLoad (faults : ReadFaults) (flash : Flash) : FsbConfig :=
  (flash.stored crc32 faults).getD fsbConfigDefault

/-- What becomes of the operations of one `fsb_config_save`. -/
structure SaveFates where
  secondary : PartitionFates
  primary : PartitionFates

/-- All operations succeed. -/
def SaveFates.allDone : SaveFates := ⟨.allDone, .allDone⟩

/-- `fsb_config_save` -/
def fsbConfigSave (fates : SaveFates) (flash : Flash) (bc : FsbConfig) : Ending × Flash :=
  match fsbPartitionWrite crc32 fates.secondary flash.secondary bc with
  | (.success, secondary) =>
    let (ending, primary) := fsbPartitionWrite crc32 fates.primary flash.primary bc
    (ending, ⟨primary, secondary⟩)
  | (ending, secondary) => (ending, ⟨flash.primary, secondary⟩)

/-! ## The context -/

/-- `fsb_context` -/
structure FsbContext where
  config_new : FsbConfig
  config_active : FsbConfig
deriving DecidableEq, Repr

/-- `fsb_context_load` -/
def fsbContextLoad (faults : ReadFaults) (flash : Flash) : FsbContext :=
  ⟨fsbConfigLoad crc32 faults flash, fsbConfigLoad crc32 faults flash⟩

/-- A configuration with its magic number and checksum set. -/
def FsbConfig.sealed (bc : FsbConfig) : FsbConfig :=
  let bc := { bc with magic := fsbConfigMagic }
  { bc with crc32 := fsbConfigCrcCalc crc32 bc }

/-- `fsb_context_save`; `config_active` is updated whether or not the save has succeeded. -/
def fsbContextSave (fates : SaveFates) (ctx : FsbContext) (flash : Flash) :
    Ending × FsbContext × Flash :=
  let config_new := ctx.config_new.sealed crc32
  if config_new = ctx.config_active then (.success, { ctx with config_new := config_new }, flash)
  else
    let (ending, flash) := fsbConfigSave crc32 fates flash config_new
    (ending, ⟨config_new, config_new⟩, flash)

end Store

end RutosSdk.Fsb
