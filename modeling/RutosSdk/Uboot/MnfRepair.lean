import RutosSdk.Lib.Regions
import RutosSdk.Uboot.Mnf

/-! # What the manufacturer information commands change

A command changes the flash only through its last step, and there it writes back a copy that differs
in the fields it has converted. The fields do not overlap, so `repair` writes each of them on its
own. What a restore function makes is judged valid once it went through the flash, and a second
`repair` finds nothing to do.
-/

namespace RutosSdk.Uboot

open List Regions

/-! ## Fields as regions -/

/-- Where a field lies. -/
def MnfField.region (field : MnfField) : Region := ⟨field.offset, field.length⟩

theorem mnfFields_within :
    ∀ field ∈ mnfFields, field.region.offset + field.region.length ≤ MNF_INFO_SIZE := by
  decide

theorem mnfFields_apart : mnfFields.Pairwise fun f g => f.region.Apart g.region := by
  decide

variable {field : MnfField} {cfg : Config} {env : Env} {s' : MnfState} {argv : List (List Byte)}
  {k : ℕ}

theorem mem_mnfFields_of_getField {name : List Byte} (h : mnfCmdGetField name = some field) :
    field ∈ mnfFields := by
  unfold mnfCmdGetField at h
  split at h
  · exact mem_of_find?_eq_some h
  · exact mem_of_find?_eq_some h

theorem length_hexstrToBin (char : ℕ → Byte) (i n : ℕ) : (hexstrToBin char i n).2.length = n := by
  induction n generalizing i with
  | zero => rfl
  | succ n ih =>
    rw [hexstrToBin]
    split
    · exact length_replicate
    · split
      · exact congrArg Nat.succ (ih (i + 1))
      · exact length_replicate

theorem length_applyMnfOrder (field : MnfField) (buf : List Byte) :
    (applyMnfOrder field buf).length = buf.length := by
  unfold applyMnfOrder
  split
  · exact length_reverse
  · rfl

theorem length_mnfStrToField (field : MnfField) (input : List Byte) (behind : ℕ → Byte) :
    (mnfStrToField field input behind).2.length = field.length := by
  rw [mnfStrToField]
  split
  · dsimp only
    split
    · exact length_hexstrToBin _ _ _
    · exact (length_applyMnfOrder _ _).trans (length_hexstrToBin _ _ _)
  · rw [length_applyMnfOrder, length_append, length_replicate]
    have : (input.take field.length).length ≤ field.length := length_take_le _ _
    omega

theorem copyTo_eq_write {buf : List Byte} (hbuf : buf.length = field.length) (cache : List Byte) :
    copyTo cache field buf = write cache field.region buf := by
  rw [copyTo, take_of_length_le (Nat.le_of_eq hbuf)]
  rfl

/-! ## One field -/

/-- The restore function judges the text of the field in the flash invalid. -/
def Invalid (cfg : Config) (s : MnfState) (field : MnfField) : Prop :=
  (restoreFunc cfg 0 field (fieldText s field)).1 = true

instance (cfg : Config) (s : MnfState) (field : MnfField) : Decidable (Invalid cfg s field) :=
  inferInstanceAs (Decidable (_ = true))

/-- The random number plays no part in the judgement. -/
theorem restoreFunc_fst (cfg : Config) (nid nid' : BitVec 24) (field : MnfField)
    (old : List Byte) : (restoreFunc cfg nid field old).1 = (restoreFunc cfg nid' field old).1 := by
  unfold restoreFunc
  split <;> rfl

/-- The bytes that the restore function makes of a field. -/
def restoredBytes (cfg : Config) (env : Env) (s : MnfState) (field : MnfField) : List Byte :=
  (mnfStrToField field (restoreFunc cfg env.nid field (fieldText s field)).2 env.behind).2

/-- The bytes that a repair gives a field, if it writes it. -/
def repairedBytes (cfg : Config) (env : Env) (force : Bool) (s : MnfState)
    (field : MnfField) : Option (List Byte) :=
  if Invalid cfg s field ∨ force = true then some (restoredBytes cfg env s field) else none

theorem repairedBytes_eq_some {force : Bool} {s : MnfState} {buf : List Byte} :
    repairedBytes cfg env force s field = some buf
      ↔ (Invalid cfg s field ∨ force = true) ∧ restoredBytes cfg env s field = buf := by
  unfold repairedBytes
  split <;> simp_all

theorem fits_repairedBytes (cfg : Config) (env : Env) (force : Bool) (s : MnfState)
    (hsize : s.flash.length = MNF_INFO_SIZE) {fields : List MnfField} (hsub : fields ⊆ mnfFields) :
    Fits MnfField.region (repairedBytes cfg env force s) s.flash.length fields where
  within field hf := hsize ▸ mnfFields_within field (hsub hf)
  sized field _ buf hbuf := by
    obtain ⟨-, rfl⟩ := repairedBytes_eq_some.mp hbuf
    exact length_mnfStrToField _ _ _

theorem mnfCmdRepairField_eq (cfg : Config) (env : Env) (flags : Flags) (s : MnfState)
    (field : MnfField) :
    mnfCmdRepairField cfg env flags s field
      = { s with
          cache := (repairedBytes cfg env flags.force s field).elim s.cache
            (write s.cache field.region) } := by
  have hinvalid : (restoreFunc cfg env.nid field (fieldText s field)).1 = true
      ↔ Invalid cfg s field := by
    rw [restoreFunc_fst cfg env.nid 0]
    rfl
  simp only [mnfCmdRepairField, repairedBytes, hinvalid]
  by_cases h : Invalid cfg s field ∨ flags.force = true
  · rw [if_pos h, if_pos h]
    exact congrArg (MnfState.mk s.flash) (copyTo_eq_write (length_mnfStrToField _ _ _) _)
  · rw [if_neg h, if_neg h]
    rfl

/-- The loop of `do_repair`: what it does to a field depends on the flash only. -/
theorem foldl_mnfCmdRepairField (cfg : Config) (env : Env) (flags : Flags) (s : MnfState)
    (fields : List MnfField) :
    fields.foldl (mnfCmdRepairField cfg env flags) s
      = { s with
          cache := writeAll MnfField.region (repairedBytes cfg env flags.force s) s.cache
            fields } := by
  induction fields generalizing s with
  | nil => rfl
  | cons field fields ih =>
    rw [foldl_cons, mnfCmdRepairField_eq, ih, writeAll_cons]
    rfl

/-! ## Whole commands -/

/-- A command fails and the flash is as it was, or it succeeds and the flash has the property. -/
inductive Ends (s : MnfState) (Written : List Byte → Prop) (r : MnfState × ℕ) : Prop
  | failed (hret : r.2 ≠ 0) (hflash : r.1.flash = s.flash)
  | written (hret : r.2 = 0) (hflash : Written r.1.flash)

namespace Ends

variable {s : MnfState} {Written : List Byte → Prop} {r : MnfState × ℕ}

theorem error : Ends s Written (s, 1) := .failed Nat.one_ne_zero rfl

/-- The last step of a command: the prompt, then the write. -/
theorem finalize (env : Env) (flags : Flags) (hflash : s'.flash = s.flash)
    (hcache : Written s'.cache) : Ends s Written (mnfCmdWriteFinalize env flags s') := by
  unfold mnfCmdWriteFinalize
  split
  · exact .failed Nat.one_ne_zero hflash
  · exact .written rfl hcache

theorem unchanged_of_error (h : Ends s Written r) (hret : r.2 ≠ 0) : r.1.flash = s.flash := by
  cases h with
  | failed _ hflash => exact hflash
  | written hzero _ => exact absurd hzero hret

theorem written_of_ok (h : Ends s Written r) (hret : r.2 = 0) : Written r.1.flash := by
  cases h with
  | failed hne _ => exact absurd hret hne
  | written _ hflash => exact hflash

theorem written_of_changed (h : Ends s Written r) (hne : r.1.flash ≠ s.flash) :
    Written r.1.flash := by
  cases h with
  | failed _ hflash => exact absurd hflash hne
  | written _ hflash => exact hflash

end Ends

/-- The flash with other bytes in the field that the first argument names. -/
def WritesNamed (s : MnfState) (argv : List (List Byte)) (flash : List Byte) : Prop :=
  ∃ field buf, argv.head?.bind mnfCmdGetField = some field ∧ buf.length = field.length ∧
    flash = write s.flash field.region buf

theorem doSet_ends (env : Env) (s : MnfState) (argv : List (List Byte)) :
    Ends s (WritesNamed s argv) (doSet env s argv) := by
  unfold doSet
  split
  · rename_i name value args
    split
    · exact .error
    · split
      · exact .error
      · rename_i field hfield
        have hlen := length_mnfStrToField field value env.behind
        dsimp only
        split
        · exact .error
        · exact .finalize env _ rfl ⟨field, _, hfield, hlen, copyTo_eq_write hlen _⟩
  · exact .error

theorem doRestore_ends (cfg : Config) (env : Env) (s : MnfState) (argv : List (List Byte)) :
    Ends s (WritesNamed s argv) (doRestore cfg env s argv) := by
  unfold doRestore
  split
  · rename_i name args
    split
    · exact .error
    · split
      · exact .error
      · rename_i flags _ _ field hfield
        rw [mnfCmdRepairField_eq]
        refine .finalize env _ rfl ⟨field, restoredBytes cfg env s field, hfield,
          length_mnfStrToField _ _ _, ?_⟩
        -- `restore` forces the write, whatever the judgement
        have hforced : repairedBytes cfg env true (mnfFlashWriteInit s) field
            = some (restoredBytes cfg env s field) :=
          repairedBytes_eq_some.mpr ⟨.inr rfl, rfl⟩
        rw [hforced]
        rfl
  · exact .error

/-- The flash with every field repaired, under the flags of the arguments. -/
def WritesRepaired (cfg : Config) (env : Env) (s : MnfState) (argv : List (List Byte))
    (flash : List Byte) : Prop :=
  ∃ flags, mnfCmdParseFlags argv = some flags ∧
    flash = writeAll MnfField.region (repairedBytes cfg env flags.force s) s.flash mnfFields

theorem doRepair_ends (cfg : Config) (env : Env) (s : MnfState) (argv : List (List Byte)) :
    Ends s (WritesRepaired cfg env s argv) (doRepair cfg env s argv) := by
  unfold doRepair
  split
  · exact .error
  · rename_i flags hflags
    rw [foldl_mnfCmdRepairField]
    exact .finalize env _ rfl ⟨flags, hflags, rfl⟩

/-- Without the argument the flag is not set. -/
theorem force_eq_false {flags : Flags} (h : mnfCmdParseFlags argv = some flags)
    (hforce : str "FORCE" ∉ argv) : flags.force = false := by
  suffices ∀ start : Flags, start.force = false →
      argv.foldlM (fun flags arg =>
        if arg = str "CONFIRM" then some { flags with confirm := true }
        else if arg = str "FORCE" then some { flags with force := true }
        else none) start = some flags → flags.force = false from this _ rfl h
  clear h
  induction argv with
  | nil =>
    rintro start hstart h
    cases h
    exact hstart
  | cons arg argv ih =>
    intro start hstart h
    rw [foldlM_cons] at h
    have hne : ¬arg = str "FORCE" := fun heq => hforce (heq ▸ mem_cons_self)
    split at h
    · exact ih (fun hmem => hforce (mem_cons_of_mem _ hmem)) ⟨true, start.force⟩ hstart h
    · cases h

/-! ## What a restore function makes is judged valid -/

theorem hexcharToInt_intToHexchar :
    ∀ val < 16, intToHexchar val ≠ 0 ∧ hexcharToInt (intToHexchar val) = some val := by
  decide

theorem nibbles_or (b : Byte) :
    BitVec.ofNat 8 (b.toNat / 16) <<< 4 ||| BitVec.ofNat 8 (b.toNat % 16) = b := by
  revert b
  decide

/-- The digits of some bytes are read as these bytes, whatever stands behind them. -/
theorem hexstrToBin_digits {char : ℕ → Byte} (bs : List Byte) {i : ℕ} (n : ℕ)
    (h : ∀ k, (hk : k < bs.length) → char ((i + k) * 2) = intToHexchar (bs[k].toNat / 16) ∧
      char ((i + k) * 2 + 1) = intToHexchar (bs[k].toNat % 16)) :
    bs <+: (hexstrToBin char i (bs.length + n)).2 := by
  induction bs generalizing i with
  | nil => exact nil_prefix
  | cons b bs ih =>
    obtain ⟨hhigh, hlow⟩ := h 0 (Nat.succ_pos _)
    obtain ⟨hne, hhigh'⟩ := hexcharToInt_intToHexchar (b.toNat / 16) (by omega)
    obtain ⟨-, hlow'⟩ := hexcharToInt_intToHexchar (b.toNat % 16) (by omega)
    simp only [Nat.add_zero, getElem_cons_zero] at hhigh hlow
    have hrest := ih (i := i + 1) fun k hk => by
      have := h (k + 1) (Nat.succ_lt_succ hk)
      rwa [Nat.add_left_comm, Nat.add_comm k] at this
    rw [length_cons, Nat.add_right_comm, hexstrToBin, hhigh, hlow, if_neg hne, hhigh', hlow']
    exact cons_prefix_cons.mpr ⟨(nibbles_or b).symm, hrest⟩

/-- What the conversions need of the fields that have a restore function other than `clear`. -/
theorem mnfFields_shape : ∀ field ∈ mnfFields, field.reversed = false ∧
    (field.restore_func = .restoreMac → field.binary = true ∧ field.length = 6) ∧
    (field.restore_func = .restoreName → field.binary = false ∧ field.length = 12) ∧
    (field.restore_func = .restoreNum → field.binary = false) := by
  decide

theorem applyMnfOrder_eq (hrev : field.reversed = false) (buf : List Byte) :
    applyMnfOrder field buf = buf := by
  rw [applyMnfOrder, hrev]
  rfl

theorem applyMnfOrder_applyMnfOrder (field : MnfField) (buf : List Byte) :
    applyMnfOrder field (applyMnfOrder field buf) = buf := by
  unfold applyMnfOrder
  split
  · exact reverse_reverse buf
  · rfl

/-- A text in a field of characters, read back: the padding is not part of it. -/
theorem mnfFieldToStr_mnfStrToField (hbin : field.binary = false) (input : List Byte)
    (behind : ℕ → Byte) :
    mnfFieldToStr field (mnfStrToField field input behind).2
      = (input.take field.length).takeWhile fun b => b &&& 0x80 = 0 := by
  have hfull := length_mnfStrToField field input behind
  rw [← length_applyMnfOrder field] at hfull
  rw [mnfFieldToStr, hbin, if_neg Bool.false_ne_true, take_of_length_le (Nat.le_of_eq hfull),
    mnfStrToField, hbin, if_neg Bool.false_ne_true]
  rw [applyMnfOrder_applyMnfOrder, takeWhile_append]
  have hpadding (n : ℕ) :
      (List.replicate n (0xff : Byte)).takeWhile (fun b => b &&& 0x80 = 0) = [] := by
    cases n <;> rfl
  rw [hpadding, append_nil]
  split
  · rename_i hall
    exact ((List.takeWhile_prefix _).eq_of_length hall).symm
  · rfl

/-- A text that begins with the vendor's part of the address is stored and read back so. -/
theorem restoredMac_valid (hbin : field.binary = true) (hrev : field.reversed = false)
    (hlen : field.length = 6) (nid : BitVec 24) (behind : ℕ → Byte) :
    str "001E42" <+: mnfFieldToStr field
      (mnfStrToField field ((str "001E42" ++ hex06 nid).map toUpper) behind).2 := by
  have hupper : (str "001E42" ++ hex06 nid).map toUpper
      = str "001E42" ++ (hex06 nid).map toUpper := by
    rw [map_append, show (str "001E42").map toUpper = str "001E42" by decide]
  rw [hupper]
  generalize (hex06 nid).map toUpper = rest
  have hchar (i : ℕ) (hi : i < 6) :
      charAt (str "001E42" ++ rest) behind i = (str "001E42").getD i 0 := by
    have hlong : i < (str "001E42" ++ rest).length :=
      Nat.lt_of_lt_of_le hi (prefix_append (str "001E42") rest).length_le
    rw [charAt, if_pos hlong, getD_eq_getElem?_getD, List.getElem?_append_left hi,
      getD_eq_getElem?_getD]
  have hparsed : [0x00, 0x1e, 0x42] <+:
      (hexstrToBin (charAt (str "001E42" ++ rest) behind) 0 6).2 := by
    refine hexstrToBin_digits [0x00, 0x1e, 0x42] 3 fun k hk => ?_
    have hk' : k < 3 := hk
    rw [hchar _ (by omega), hchar _ (by omega)]
    revert k
    decide
  have hbytes : [0x00, 0x1e, 0x42] <+: (mnfStrToField field (str "001E42" ++ rest) behind).2 := by
    rw [mnfStrToField, hbin, if_pos rfl, hlen]
    dsimp only
    rw [applyMnfOrder_eq hrev]
    split
    · exact hparsed
    · exact hparsed
  obtain ⟨tail, htail⟩ := hbytes
  rw [mnfFieldToStr, hbin, if_pos rfl, applyMnfOrder_eq hrev, ← htail]
  exact ⟨binToHexstr tail, rfl⟩

theorem goodModels_ascii (board : Board) :
    ∀ m ∈ goodModels board, m.length ≤ 12 ∧ ∀ b ∈ m, b &&& 0x80 = 0 := by
  cases board <;> simp [goodModels, str]

theorem restoredName_valid (hbin : field.binary = false) (hlen : field.length = 12) {board : Board}
    {model name : List Byte} (hmodel : model ∈ goodModels board) (hpre : model <+: name)
    (behind : ℕ → Byte) : model <+: mnfFieldToStr field (mnfStrToField field name behind).2 := by
  obtain ⟨hshort, hascii⟩ := goodModels_ascii board model hmodel
  obtain ⟨rest, rfl⟩ := hpre
  rw [mnfFieldToStr_mnfStrToField hbin, hlen, take_append, take_of_length_le hshort,
    takeWhile_append_of_pos fun b hb => decide_eq_true (hascii b hb)]
  exact prefix_append _ _

theorem restoredNum_eq (hbin : field.binary = false) (behind : ℕ → Byte) :
    mnfFieldToStr field (mnfStrToField field (List.replicate field.length 0x30) behind).2
      = List.replicate field.length 0x30 := by
  rw [mnfFieldToStr_mnfStrToField hbin, take_of_length_le (by simp)]
  refine (List.takeWhile_prefix _).eq_of_length ?_
  rw [takeWhile_replicate, if_pos (by decide)]

/-- A field that holds what its restore function made is judged valid. -/
theorem not_invalid_of_restored
    (hdefault : ∃ model ∈ goodModels cfg.board, model <+: cfg.mnf_default) {s : MnfState}
    (hmem : field ∈ mnfFields) (hread : mnfFlashRead s' field = restoredBytes cfg env s field) :
    ¬Invalid cfg s' field := by
  obtain ⟨hrev, hmac, hname, hnum⟩ := mnfFields_shape field hmem
  unfold Invalid fieldText
  rw [hread, restoredBytes]
  cases hfunc : field.restore_func with
  | restoreMac =>
    obtain ⟨hbin, hlen⟩ := hmac hfunc
    have hpre := restoredMac_valid hbin hrev hlen env.nid env.behind
    simp only [restoreFunc, hfunc]
    simpa using hpre
  | restoreName =>
    obtain ⟨hbin, hlen⟩ := hname hfunc
    obtain ⟨model, hmodel, hpre⟩ := hdefault
    have hpre := restoredName_valid hbin hlen hmodel hpre env.behind
    simp only [restoreFunc, hfunc]
    simpa using ⟨model, hmodel, hpre⟩
  | restoreNum =>
    have heq := restoredNum_eq (hnum hfunc) env.behind
    simp only [restoreFunc, hfunc]
    rw [heq]
    simp [isDigit]
  | clear =>
    simp [restoreFunc, hfunc]

/-! ## The frame of the commands -/

/-- Byte `k` of the flash differs in the two states. -/
def Changed (s s' : MnfState) (k : ℕ) : Prop := s'.flash[k]? ≠ s.flash[k]?

theorem Changed.flash_ne {s : MnfState} (h : Changed s s' k) : s'.flash ≠ s.flash :=
  fun heq => h (congrArg (·[k]?) heq)

theorem WritesNamed.covers {s : MnfState} (hsize : s.flash.length = MNF_INFO_SIZE)
    (h : WritesNamed s argv s'.flash) (hk : Changed s s' k) :
    ∃ field, argv.head?.bind mnfCmdGetField = some field ∧ field.region.Covers k := by
  obtain ⟨field, buf, hfield, hbuf, hflash⟩ := h
  obtain ⟨name, -, hname⟩ := Option.bind_eq_some_iff.mp hfield
  have hwithin := mnfFields_within field (mem_mnfFields_of_getField hname)
  refine ⟨field, hfield, ?_⟩
  by_contra hout
  exact hk (hflash ▸ getElem?_write_of_not_covers (hsize ▸ hwithin) hbuf hout)

theorem WritesRepaired.covers {s : MnfState} (hsize : s.flash.length = MNF_INFO_SIZE)
    (h : WritesRepaired cfg env s argv s'.flash) (hforce : str "FORCE" ∉ argv)
    (hk : Changed s s' k) : ∃ field ∈ mnfFields, field.region.Covers k ∧ Invalid cfg s field := by
  obtain ⟨flags, hflags, hflash⟩ := h
  by_contra hnone
  refine hk (hflash ▸ getElem?_writeAll (fits_repairedBytes cfg env _ s hsize (List.Subset.refl _))
    fun field hmem hsome hcovers => hnone ⟨field, hmem, hcovers, ?_⟩)
  obtain ⟨buf, hbuf⟩ := Option.isSome_iff_exists.mp hsome
  rcases (repairedBytes_eq_some.mp hbuf).1 with hinvalid | hforced
  · exact hinvalid
  · exact absurd hforced (by rw [force_eq_false hflags hforce]; exact Bool.false_ne_true)

/-- After a repair every field is judged valid: it was so before, or it holds what was made. -/
theorem WritesRepaired.valid (hdefault : ∃ model ∈ goodModels cfg.board, model <+: cfg.mnf_default)
    {s : MnfState} (hsize : s.flash.length = MNF_INFO_SIZE)
    (h : WritesRepaired cfg env s argv s'.flash) (hmem : field ∈ mnfFields) :
    ¬Invalid cfg s' field := by
  obtain ⟨flags, -, hflash⟩ := h
  have hread : mnfFlashRead s' field
      = (repairedBytes cfg env flags.force s field).getD (mnfFlashRead s field) := by
    have := read_writeAll (fits_repairedBytes cfg env flags.force s hsize (List.Subset.refl _))
      mnfFields_apart hmem
    rwa [← hflash] at this
  cases hnew : repairedBytes cfg env flags.force s field with
  | none =>
    rw [hnew, Option.getD_none] at hread
    have hbefore : ¬Invalid cfg s field := by
      intro hinvalid
      rw [repairedBytes, if_pos (.inl hinvalid)] at hnew
      exact Option.some_ne_none _ hnew
    unfold Invalid fieldText at hbefore ⊢
    rwa [hread]
  | some buf =>
    rw [hnew, Option.getD_some, ← (repairedBytes_eq_some.mp hnew).2] at hread
    exact not_invalid_of_restored hdefault hmem hread

/-- A repair without force finds nothing to do where every field is judged valid. -/
theorem doRepair_of_valid {s : MnfState} (hvalid : ∀ field ∈ mnfFields, ¬Invalid cfg s field)
    (env : Env) (hforce : str "FORCE" ∉ argv) : (doRepair cfg env s argv).1.flash = s.flash := by
  by_contra hne
  obtain ⟨flags, hflags, hflash⟩ := (doRepair_ends cfg env s argv).written_of_changed hne
  refine hne (hflash.trans (writeAll_eq_self fun field hmem => ?_))
  rw [repairedBytes, force_eq_false hflags hforce, if_neg]
  rintro (hinvalid | hforced)
  · exact hvalid field hmem hinvalid
  · exact Bool.false_ne_true hforced

theorem mnfCmdEntry_unchanged_of_error (cfg : Config) (env : Env) (s : MnfState) (cmd : Command)
    (hret : (mnfCmdEntry cfg env s cmd).2 ≠ 0) : (mnfCmdEntry cfg env s cmd).1.flash = s.flash := by
  cases cmd with
  | set argv => exact (doSet_ends env s argv).unchanged_of_error hret
  | restore argv => exact (doRestore_ends cfg env s argv).unchanged_of_error hret
  | repair argv => exact (doRepair_ends cfg env s argv).unchanged_of_error hret

/-- On every partition, where the default model name begins with an accepted model: an error leaves
the partition unchanged; `set` and `restore` change bytes of the named field only; `repair` without
force changes bytes of fields judged invalid only; and a second `repair` without force, after one
that has succeeded, changes nothing. -/
theorem mnfCmdEntry_frame (cfg : Config)
    (hdefault : ∃ model ∈ goodModels cfg.board, model <+: cfg.mnf_default) (env : Env)
    (s : MnfState) (hsize : s.flash.length = MNF_INFO_SIZE) :
    (∀ cmd, (mnfCmdEntry cfg env s cmd).2 ≠ 0 →
      (mnfCmdEntry cfg env s cmd).1.flash = s.flash) ∧
    (∀ cmd argv, cmd = .set argv ∨ cmd = .restore argv →
      ∀ k, Changed s (mnfCmdEntry cfg env s cmd).1 k →
        ∃ field, argv.head?.bind mnfCmdGetField = some field ∧ field.region.Covers k) ∧
    (∀ argv, str "FORCE" ∉ argv → ∀ k, Changed s (mnfCmdEntry cfg env s (.repair argv)).1 k →
      ∃ field ∈ mnfFields, field.region.Covers k ∧ Invalid cfg s field) ∧
    (∀ argv, (mnfCmdEntry cfg env s (.repair argv)).2 = 0 →
      ∀ env' argv', str "FORCE" ∉ argv' →
        (mnfCmdEntry cfg env' (mnfCmdEntry cfg env s (.repair argv)).1 (.repair argv')).1.flash
          = (mnfCmdEntry cfg env s (.repair argv)).1.flash) := by
  refine ⟨mnfCmdEntry_unchanged_of_error cfg env s, ?_, ?_, ?_⟩
  · rintro cmd argv (rfl | rfl) k hk
    · exact ((doSet_ends env s argv).written_of_changed hk.flash_ne).covers hsize hk
    · exact ((doRestore_ends cfg env s argv).written_of_changed hk.flash_ne).covers hsize hk
  · intro argv hforce k hk
    exact ((doRepair_ends cfg env s argv).written_of_changed hk.flash_ne).covers hsize hforce hk
  · intro argv hret env' argv' hforce
    have hwritten := (doRepair_ends cfg env s argv).written_of_ok hret
    exact doRepair_of_valid (fun _ hmem => hwritten.valid hdefault hsize hmem) env' hforce

/-- The erased partition of a RUTM board, repaired twice. -/
theorem mnfCmdEntry_frame_erased : let cfg : Config := ⟨.rutm, str "RUTM08000000"⟩
    let env : Env := ⟨none, 0, fun _ => 0⟩
    let s : MnfState := ⟨List.replicate MNF_INFO_SIZE 0xff, []⟩
    let s' := (mnfCmdEntry cfg env s (.repair [str "CONFIRM"])).1
    (mnfCmdEntry cfg env s' (.repair [str "CONFIRM"])).1.flash = s'.flash :=
  (mnfCmdEntry_frame ⟨.rutm, str "RUTM08000000"⟩
    ⟨str "RUTM08", by decide, by decide⟩ ⟨none, 0, fun _ => 0⟩
    ⟨List.replicate MNF_INFO_SIZE 0xff, []⟩ length_replicate).2.2.2
    [str "CONFIRM"] rfl _ [str "CONFIRM"] (by decide)

end RutosSdk.Uboot
