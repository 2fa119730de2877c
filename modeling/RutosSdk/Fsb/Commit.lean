import RutosSdk.Fsb.PowerLoss

/-! # Commits through the proc files

Reference: `fsb_main.c` of `package/teltonika/fsb/src`.

The files of a slot change `config_new`, and the file `commit` saves it. A save is skipped when
`config_new` is the same as `config_active`, which stands for what is in the flash. But
`config_active` is updated by a save that has failed too, and it may have been loaded from one
partition while the other one holds something else.
-/

namespace RutosSdk.Fsb

variable {crc32 : Word → List Byte → Word}

/-! ## The files -/

/-- What a write to a proc file returns; there is no return when the power is lost. -/
inductive ProcReturn where
  | count
  | efault
  | einval
  | eio
  | lost
deriving DecidableEq, Repr

/-- What is written to a proc file: it cannot be copied, it is not a number for `kstrtoul`, or it is
one. -/
inductive UserText where
  | fault
  | other
  | number (val : ℕ)
deriving DecidableEq, Repr

/-- The write to a file of a slot, for a field with the given maximum. -/
def fsbProcSlotWrite (max : ℕ) (set : ℕ → FsbSlotinfo) (slot : FsbSlotinfo) :
    UserText → ProcReturn × FsbSlotinfo
  | .fault => (.efault, slot)
  | .other => (.einval, slot)
  | .number val => if max < val then (.einval, slot) else (.count, set val)

variable (slot : FsbSlotinfo) (text : UserText)

/-- `fsb_proc_slotprio_write` -/
def fsbProcSlotprioWrite : ProcReturn × FsbSlotinfo :=
  fsbProcSlotWrite 15 (fun val => { slot with priority := BitVec.ofNat 4 val }) slot text

/-- `fsb_proc_slottries_write` -/
def fsbProcSlottriesWrite : ProcReturn × FsbSlotinfo :=
  fsbProcSlotWrite 15 (fun val => { slot with tries_remaining := BitVec.ofNat 4 val }) slot text

/-- `fsb_proc_slotsuccess_write` -/
def fsbProcSlotsuccessWrite : ProcReturn × FsbSlotinfo :=
  fsbProcSlotWrite 1 (fun val => { slot with successful_boot := val % 2 = 1 }) slot text

/-- `fsb_proc_slotforce_write` -/
def fsbProcSlotforceWrite : ProcReturn × FsbSlotinfo :=
  fsbProcSlotWrite 1 (fun val => { slot with force := val % 2 = 1 }) slot text

/-- The files of a slot. -/
inductive SlotFile where
  | priority
  | tries_remaining
  | successful_boot
  | force
deriving DecidableEq, Repr

/-- The write to a file of a slot. -/
def SlotFile.write : SlotFile → FsbSlotinfo → UserText → ProcReturn × FsbSlotinfo
  | .priority => fsbProcSlotprioWrite
  | .tries_remaining => fsbProcSlottriesWrite
  | .successful_boot => fsbProcSlotsuccessWrite
  | .force => fsbProcSlotforceWrite

variable (crc32) in
/-- `fsb_proc_commit_write` -/
def fsbProcCommitWrite (fates : SaveFates) (ctx : FsbContext) (flash : Flash) :
    UserText → ProcReturn × FsbContext × Flash
  | .fault => (.efault, ctx, flash)
  | .other => (.einval, ctx, flash)
  | .number val =>
    if val ≠ 1 then (.einval, ctx, flash)
    else
      match fsbContextSave crc32 fates ctx flash with
      | (.success, ctx, flash) => (.count, ctx, flash)
      | (.error, ctx, flash) => (.eio, ctx, flash)
      | (.lost, ctx, flash) => (.lost, ctx, flash)

/-! ## Runs -/

/-- One operation: a write to a file of a slot, any other change to `config_new`, or a write to
`commit` with what becomes of the flash operations of a save. -/
inductive ProcOp where
  | slot (file : SlotFile) (i : Fin fsbConfigNumSlots) (text : UserText)
  | change (bc : FsbConfig)
  | commit (text : UserText) (fates : SaveFates)

/-- The state of the module. `inSync` is a history variable: the last save that was not skipped has
succeeded, or there was none and both partitions held `config_active` when it was loaded. -/
structure ProcState where
  ctx : FsbContext
  flash : Flash
  inSync : Bool

/-- Both partitions yield the configuration. -/
structure Flash.Holds (crc32 : Word → List Byte → Word) (flash : Flash)
    (bc : FsbConfig) : Prop where
  primary : fsbPartitionRead crc32 false flash.primary = some bc
  secondary : fsbPartitionRead crc32 false flash.secondary = some bc

variable (crc32) in
/-- The save of a commit is skipped. -/
def FsbContext.Unchanged (ctx : FsbContext) : Prop :=
  ctx.config_new.sealed crc32 = ctx.config_active

section Run

variable (crc32 : Word → List Byte → Word)

instance (flash : Flash) (bc : FsbConfig) : Decidable (flash.Holds crc32 bc) :=
  decidable_of_iff (fsbPartitionRead crc32 false flash.primary = some bc
    ∧ fsbPartitionRead crc32 false flash.secondary = some bc)
    ⟨fun h => ⟨h.1, h.2⟩, fun h => ⟨h.primary, h.secondary⟩⟩

instance (ctx : FsbContext) : Decidable (ctx.Unchanged crc32) := inferInstanceAs (Decidable (_ = _))

/-- `fsb_module_init` -/
def fsbModuleInit (faults : ReadFaults) (flash : Flash) : ProcState :=
  let ctx := fsbContextLoad crc32 faults flash
  ⟨ctx, flash, decide (flash.Holds crc32 ctx.config_active)⟩

/-- One operation. -/
def ProcState.step (s : ProcState) : ProcOp → ProcState
  | .slot file i text =>
    { s with ctx.config_new :=
        s.ctx.config_new.setSlot i (file.write (s.ctx.config_new.slot i) text).2 }
  | .change bc => { s with ctx.config_new := bc }
  | .commit text fates =>
    let r := fsbProcCommitWrite crc32 fates s.ctx s.flash text
    ⟨r.2.1, r.2.2, if text = .number 1 ∧ ¬s.ctx.Unchanged crc32 then r.1 = .count else s.inSync⟩

/-- A run of operations. -/
def ProcState.run (s : ProcState) (ops : List ProcOp) : ProcState :=
  ops.foldl (ProcState.step crc32) s

end Run

/-! ## What holds along a run -/

variable {s : ProcState} {bc : FsbConfig} {flash : Flash}

variable {fates : SaveFates}

/-- A save that is done leaves both partitions with the configuration. -/
theorem holds_fsbConfigSave (hbc : bc.valid crc32 = true) (hprimary : flash.primary ≠ [])
    (hsecondary : flash.secondary ≠ []) (hend : (fsbConfigSave crc32 fates flash bc).1 = .success) :
    (fsbConfigSave crc32 fates flash bc).2.Holds crc32 bc := by
  rcases @fsbConfigSave_cases crc32 fates flash bc with ⟨hcut, heq⟩ | ⟨hsec, heq⟩
  · rw [heq] at hend
    exact absurd hend hcut
  · rw [heq] at hend ⊢
    exact ⟨fsbPartitionRead_of_success hbc hprimary hend,
      fsbPartitionRead_of_success hbc hsecondary hsec⟩

/-- A commit that is neither refused nor skipped saves. -/
theorem fsbProcCommitWrite_save {fates : SaveFates} {ctx : FsbContext}
    (hchanged : ¬ctx.Unchanged crc32) :
    ((fsbProcCommitWrite crc32 fates ctx flash (.number 1)).1 = .count ↔
        (fsbConfigSave crc32 fates flash (ctx.config_new.sealed crc32)).1 = .success)
      ∧ (fsbProcCommitWrite crc32 fates ctx flash (.number 1)).2
        = (⟨ctx.config_new.sealed crc32, ctx.config_new.sealed crc32⟩,
          (fsbConfigSave crc32 fates flash (ctx.config_new.sealed crc32)).2) := by
  have hsave : fsbContextSave crc32 fates ctx flash
      = ((fsbConfigSave crc32 fates flash (ctx.config_new.sealed crc32)).1,
        ⟨ctx.config_new.sealed crc32, ctx.config_new.sealed crc32⟩,
        (fsbConfigSave crc32 fates flash (ctx.config_new.sealed crc32)).2) := if_neg hchanged
  rw [fsbProcCommitWrite, if_neg (not_not_intro rfl), hsave]
  cases (fsbConfigSave crc32 fates flash (ctx.config_new.sealed crc32)).1 <;> simp

/-- A commit with nothing to save returns at once. -/
theorem fsbProcCommitWrite_skip {ctx : FsbContext} (hsame : ctx.Unchanged crc32) :
    fsbProcCommitWrite crc32 fates ctx flash (.number 1)
      = (.count, ⟨ctx.config_active, ctx.config_active⟩, flash) := by
  have hsave : fsbContextSave crc32 fates ctx flash
      = (.success, { ctx with config_new := ctx.config_new.sealed crc32 }, flash) := if_pos hsame
  rw [fsbProcCommitWrite, if_neg (not_not_intro rfl), hsave, hsame]

/-- Any other text is refused. -/
theorem fsbProcCommitWrite_refused {ctx : FsbContext} {text : UserText} (htext : text ≠ .number 1) :
    (fsbProcCommitWrite crc32 fates ctx flash text).1 ≠ .count
      ∧ (fsbProcCommitWrite crc32 fates ctx flash text).2 = (ctx, flash) := by
  cases text with
  | fault | other => exact ⟨by simp [fsbProcCommitWrite], rfl⟩
  | number val =>
    have hval : val ≠ 1 := fun h => htext (congrArg _ h)
    rw [fsbProcCommitWrite, if_pos hval]
    exact ⟨by simp, rfl⟩

variable (crc32) in
/-- While in sync, both partitions hold `config_active`. -/
structure ProcState.Inv (s : ProcState) : Prop where
  primary : s.flash.primary ≠ []
  secondary : s.flash.secondary ≠ []
  inSync : s.inSync = true → s.flash.Holds crc32 s.ctx.config_active

theorem inv_fsbModuleInit (faults : ReadFaults) (hprimary : flash.primary ≠ [])
    (hsecondary : flash.secondary ≠ []) : (fsbModuleInit crc32 faults flash).Inv crc32 :=
  ⟨hprimary, hsecondary, of_decide_eq_true⟩

theorem secondary_fsbConfigSave_ne_nil (fates : SaveFates) (bc : FsbConfig)
    (hne : flash.secondary ≠ []) : (fsbConfigSave crc32 fates flash bc).2.secondary ≠ [] := by
  rw [← List.length_pos_iff, (length_fsbConfigSave fates flash bc).2]
  exact List.length_pos_iff.mpr hne

/-- One operation keeps the invariant. -/
theorem ProcState.Inv.step (h : s.Inv crc32) (op : ProcOp) : (s.step crc32 op).Inv crc32 := by
  cases op with
  | slot file i text | change bc => exact ⟨h.primary, h.secondary, h.inSync⟩
  | commit text fates =>
    rw [ProcState.step]
    by_cases htext : text = .number 1
    · subst htext
      by_cases hsame : s.ctx.Unchanged crc32
      · rw [fsbProcCommitWrite_skip hsame]
        rw [if_neg fun hsave => hsave.2 hsame]
        exact ⟨h.primary, h.secondary, h.inSync⟩
      · -- the history variable says whether this save succeeds
        obtain ⟨hret, hleft⟩ := @fsbProcCommitWrite_save crc32 s.flash fates s.ctx hsame
        rw [hleft, if_pos ⟨rfl, hsame⟩]
        refine ⟨primary_fsbConfigSave_ne_nil fates _ h.primary,
          secondary_fsbConfigSave_ne_nil fates _ h.secondary, fun hend => ?_⟩
        exact holds_fsbConfigSave (valid_sealed _) h.primary h.secondary
          (hret.mp (of_decide_eq_true hend))
    · rw [(fsbProcCommitWrite_refused htext).2, if_neg fun hsave => htext hsave.1]
      exact ⟨h.primary, h.secondary, h.inSync⟩

theorem ProcState.Inv.run (h : s.Inv crc32) (ops : List ProcOp) : (s.run crc32 ops).Inv crc32 := by
  induction ops generalizing s with
  | nil => exact h
  | cons op ops ih => exact ih (h.step op)

/-- A commit that returns without an error leaves `config_new` in both partitions, provided that it
is in sync whenever it has nothing to save. -/
theorem ProcState.Inv.holds_of_count {text : UserText} (h : s.Inv crc32)
    (hsync : s.ctx.Unchanged crc32 → s.inSync = true)
    (hret : (fsbProcCommitWrite crc32 fates s.ctx s.flash text).1 = .count) :
    (fsbProcCommitWrite crc32 fates s.ctx s.flash text).2.2.Holds crc32
      (fsbProcCommitWrite crc32 fates s.ctx s.flash text).2.1.config_new := by
  by_cases htext : text = .number 1
  · subst htext
    by_cases hsame : s.ctx.Unchanged crc32
    · rw [fsbProcCommitWrite_skip hsame]
      exact h.inSync (hsync hsame)
    · obtain ⟨hcount, hleft⟩ := @fsbProcCommitWrite_save crc32 s.flash fates s.ctx hsame
      rw [hleft]
      exact holds_fsbConfigSave (valid_sealed _) h.primary h.secondary (hcount.mp hret)
  · exact absurd hret (fsbProcCommitWrite_refused htext).1

/-- In a run from the start of the module in which no commit has nothing to save while the flash is
out of sync, every commit that returns without an error leaves `config_new` as the last valid entry
of both partitions. -/
theorem commits_written {faults : ReadFaults} {ops : List ProcOp} (hprimary : flash.primary ≠ [])
    (hsecondary : flash.secondary ≠ [])
    (hsync : ∀ done text fates, done ++ [.commit text fates] <+: ops →
      ((fsbModuleInit crc32 faults flash).run crc32 done).ctx.Unchanged crc32 →
      ((fsbModuleInit crc32 faults flash).run crc32 done).inSync = true) :
    ∀ done text fates, done ++ [.commit text fates] <+: ops →
      let before := (fsbModuleInit crc32 faults flash).run crc32 done
      let after := (fsbProcCommitWrite crc32 fates before.ctx before.flash text).2
      (fsbProcCommitWrite crc32 fates before.ctx before.flash text).1 = .count →
        after.2.Holds crc32 after.1.config_new := by
  intro done text fates hdone before after hret
  have hinv : before.Inv crc32 := (inv_fsbModuleInit faults hprimary hsecondary).run done
  exact hinv.holds_of_count (hsync done text fates hdone) hret

/-- A commit to erased partitions. -/
theorem commits_written_erased :
    (fsbProcCommitWrite (fun _ _ => 0) .allDone
        (fsbModuleInit (fun _ _ => 0) .none (Flash.erased 2)).ctx (Flash.erased 2) (.number 1)).1
          = .count
      ∧ (fsbProcCommitWrite (fun _ _ => 0) .allDone
        (fsbModuleInit (fun _ _ => 0) .none (Flash.erased 2)).ctx (Flash.erased 2)
          (.number 1)).2.2.Holds (fun _ _ => 0) (sampleConfig 0) := by
  refine ⟨by decide, @commits_written (fun _ _ => 0) (Flash.erased 2) .none
    [.commit (.number 1) .allDone] (by decide) (by decide) ?_ [] (.number 1) .allDone
    (List.prefix_refl _) (by decide)⟩
  intro done text fates hdone
  have hlength := hdone.length_le
  rw [List.length_append, List.length_singleton, List.length_singleton] at hlength
  rw [List.length_eq_zero_iff.mp (by omega : done.length = 0)]
  decide

/-- A commit fails in its first write, and is repeated: it returns without an error, and both
partitions are as blank as before. -/
def repeatedCommit : List ProcOp :=
  [.commit (.number 1) ⟨⟨false, .done, .failed fun _ => .blank⟩, .allDone⟩,
    .commit (.number 1) .allDone]

theorem repeatedCommit_not_written :
    let before := (fsbModuleInit (fun _ _ => 0) .none (Flash.erased 2)).run (fun _ _ => 0)
      (repeatedCommit.take 1)
    let after := fsbProcCommitWrite (fun _ _ => 0) .allDone before.ctx before.flash (.number 1)
    (fsbProcCommitWrite (fun _ _ => 0) ⟨⟨false, .done, .failed fun _ => .blank⟩, .allDone⟩
        (fsbModuleInit (fun _ _ => 0) .none (Flash.erased 2)).ctx (Flash.erased 2) (.number 1)).1
          = .eio
      ∧ after.1 = .count ∧ ¬after.2.2.Holds (fun _ _ => 0) after.2.1.config_new
      ∧ after.2.2 = Flash.erased 2 := by
  decide

end RutosSdk.Fsb
