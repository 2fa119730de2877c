import RutosSdk.Uboot.Text

/-! # The manufacturer information of the boot loader

Reference: `cmd/tlt/mnf_cmd.c`, `lib/tlt/mnf_lib.c`, and `mnf_fields.c` and `mnf_flash.c` of
`board/mediatek/mt7621`, in `package/boot/uboot-mt7621/src`.

The fields lie in a partition of 64 KiB. A command reads the partition into a cache, changes fields
there, asks for confirmation, and then erases the partition and writes the whole cache. Fields are
converted to text and back; each has a function that judges its text and makes a new one. The flash
never fails here.
-/

namespace RutosSdk.Uboot

/-! ## Characters -/

/-- `int_to_hexchar` -/
def intToHexchar (val : ℕ) : Byte := hexChars.getD val 0

/-- `hexchar_to_int`; `strchr` finds the zero at the end of `hex_chars` too. -/
def hexcharToInt (c : Byte) : Option ℕ := (hexChars ++ [0]).idxOf? (toUpper c)

/-! ## Fields -/

/-- The restore functions of `mnf_fields.c`. -/
inductive RestoreFunc where
  | restoreMac
  | restoreName
  | restoreNum
  | clear
deriving DecidableEq, Repr

/-- `mnf_field_t` -/
structure MnfField where
  short_name : Byte
  long_name : List Byte
  offset : ℕ
  length : ℕ
  restore_func : RestoreFunc
  binary : Bool := false
  reversed : Bool := false
deriving DecidableEq, Repr

/-- `mnf_fields` -/
def mnfFields : List MnfField :=
  [⟨0x6d, str "mac", 0x00, 6, .restoreMac, true, false⟩,
    ⟨0x6e, str "name", 0x10, 12, .restoreName, false, false⟩,
    ⟨0x77, str "wps", 0x20, 8, .clear, false, false⟩,
    ⟨0x73, str "sn", 0x30, 10, .restoreNum, false, false⟩,
    ⟨0x62, str "batch", 0x40, 4, .restoreNum, false, false⟩,
    ⟨0x48, str "hwver", 0x50, 4, .restoreNum, false, false⟩,
    ⟨0x4c, str "hwver_lo", 0x54, 4, .restoreNum, false, false⟩,
    ⟨0x42, str "branch", 0x58, 4, .clear, false, false⟩,
    ⟨0x57, str "wifi_pass", 0x90, 16, .clear, false, false⟩,
    ⟨0x78, str "passwd", 0xa0, 106, .clear, false, false⟩,
    ⟨0x43, str "simcfg", 0x110, 32, .clear, false, false⟩,
    ⟨0x50, str "profiles", 0x130, 128, .clear, false, false⟩,
    ⟨0x63, str "mob_cfg", 0x66, 4, .clear, false, false⟩,
    ⟨0x49, str "mob_vidpid", 0x80, 8, .clear, true, false⟩]

/-- The boards with this table, and for each the models that `restore_name` takes. -/
inductive Board where
  | rutm
  | atrm50
  | tap200
  | otd16x
  | otd5
deriving DecidableEq, Repr

/-- `good_models` -/
def goodModels : Board → List (List Byte)
  | .rutm =>
    [str "RUTM08", str "RUTM09", str "RUTM10", str "RUTM11", str "RUTM12", str "RUTM13",
      str "RUTM14", str "RUTM16", str "RUTM20", str "RUTM30", str "RUTM31", str "RUTMR1",
      str "RUTM50", str "RUTM51", str "RUTM52", str "RUTM54", str "RUTM55", str "RUTM56",
      str "RUTM59"]
  | .atrm50 => [str "ATRM50"]
  | .tap200 => [str "TAP200"]
  | .otd16x => [str "OTD16X"]
  | .otd5 => [str "OTD5"]

/-- The build: its board, and `CONFIG_DEVICE_MODEL_MNF_DEFAULT`. -/
structure Config where
  board : Board
  mnf_default : List Byte

/-! ## Text and back -/

variable (cfg : Config) (field : MnfField)

/-- `apply_mnf_order` -/
def applyMnfOrder (buf : List Byte) : List Byte :=
  if field.reversed then buf.reverse else buf

/-- `bin_to_hexstr` -/
def binToHexstr (input : List Byte) : List Byte :=
  input.flatMap fun b => [intToHexchar (b.toNat / 16), intToHexchar (b.toNat % 16)]

/-- `mnf_field_to_str` -/
def mnfFieldToStr (input : List Byte) : List Byte :=
  let input := applyMnfOrder field input
  if field.binary then binToHexstr input
  else (input.take field.length).takeWhile fun b => b &&& 0x80 = 0

/-- The characters of a string, the zero at its end, and what the memory holds behind it. -/
def charAt (input : List Byte) (behind : ℕ → Byte) (i : ℕ) : Byte :=
  if i < input.length then input.getD i 0
  else if i = input.length then 0
  else behind (i - input.length - 1)

/-- `hexstr_to_bin` from byte `i` on, with `n` bytes to go; the bytes it leaves are `0xff`. -/
def hexstrToBin (char : ℕ → Byte) (i : ℕ) : ℕ → Bool × List Byte
  | 0 => (false, [])
  | n + 1 =>
    if char (i * 2) = 0 then (false, List.replicate (n + 1) 0xff)
    else
      match hexcharToInt (char (i * 2)), hexcharToInt (char (i * 2 + 1)) with
      | some high, some low =>
        let rest := hexstrToBin char (i + 1) n
        (rest.1, (BitVec.ofNat 8 high <<< 4 ||| BitVec.ofNat 8 low) :: rest.2)
      | _, _ => (true, List.replicate (n + 1) 0xff)

/-- `mnf_str_to_field`: whether it fails, and the bytes of the field. -/
def mnfStrToField (input : List Byte) (behind : ℕ → Byte) : Bool × List Byte :=
  if field.binary then
    let parsed := hexstrToBin (charAt input behind) 0 field.length
    if parsed.1 then parsed else (false, applyMnfOrder field parsed.2)
  else
    let copied := input.take field.length
    (false, applyMnfOrder field (copied ++ List.replicate (field.length - copied.length) 0xff))

/-! ## Restore functions -/

/-- `%06x` -/
def hex06 (nid : BitVec 24) : List Byte :=
  [20, 16, 12, 8, 4, 0].map fun shift =>
    (str "0123456789abcdef").getD ((nid >>> shift).toNat % 16) 0

/-- What a restore function answers: whether the old text is invalid, and the new text. `nid` is the
random number of `restore_mac`. -/
def restoreFunc (nid : BitVec 24) (field : MnfField) (old : List Byte) : Bool × List Byte :=
  match field.restore_func with
  | .restoreMac => (¬(str "001E42").isPrefixOf old, (str "001E42" ++ hex06 nid).map toUpper)
  | .restoreName => (¬(goodModels cfg.board).any (·.isPrefixOf old), cfg.mnf_default)
  | .restoreNum =>
    (¬(field.length ≤ old.length ∧ (old.take field.length).all isDigit),
      List.replicate field.length 0x30)
  | .clear => (false, [])

/-! ## The flash -/

def MNF_INFO_SIZE : ℕ := 0x10000

/-- The partition, and `mnf_cache`. -/
structure MnfState where
  flash : List Byte
  cache : List Byte
deriving DecidableEq

variable (s : MnfState)

/-- `mnf_flash_read` -/
def mnfFlashRead (field : MnfField) : List Byte := (s.flash.drop field.offset).take field.length

/-- `mnf_flash_write_init` -/
def mnfFlashWriteInit : MnfState := { s with cache := s.flash }

/-- `memcpy` to an offset of the cache. -/
def copyTo (cache : List Byte) (field : MnfField) (buf : List Byte) : List Byte :=
  cache.take field.offset ++ buf.take field.length ++ cache.drop (field.offset + field.length)

/-- `mnf_flash_write` -/
def mnfFlashWrite (field : MnfField) (buf : List Byte) : MnfState :=
  { s with cache := copyTo s.cache field buf }

/-- `mnf_flash_write_finalize`: all is erased, and the cache is written. -/
def mnfFlashWriteFinalize : MnfState := { s with flash := s.cache }

/-! ## Commands -/

/-- `mnf_cmd_flags` -/
structure Flags where
  confirm : Bool
  force : Bool
deriving DecidableEq, Repr

/-- `mnf_cmd_parse_flags` -/
def mnfCmdParseFlags (argv : List (List Byte)) : Option Flags :=
  argv.foldlM (fun flags arg =>
    if arg = str "CONFIRM" then some { flags with confirm := true }
    else if arg = str "FORCE" then some { flags with force := true }
    else none) ⟨false, false⟩

/-- `mnf_cmd_get_field` -/
def mnfCmdGetField (name : List Byte) : Option MnfField :=
  match name with
  | [c] => mnfFields.find? (·.short_name = c)
  | name => mnfFields.find? (·.long_name = name)

/-- What a command gets from outside: the answer at the prompt, if there is one, the random number,
and what the memory holds behind its arguments. -/
structure Env where
  readline : Option (List Byte)
  nid : BitVec 24
  behind : ℕ → Byte

variable (env : Env)

/-- `mnf_cmd_write_finalize` -/
def mnfCmdWriteFinalize (flags : Flags) (s : MnfState) : MnfState × ℕ :=
  if ¬flags.confirm ∧ env.readline ≠ some (str "yes") then (s, 1)
  else (mnfFlashWriteFinalize s, 0)

/-- The text of a field in the flash. -/
def fieldText (field : MnfField) : List Byte := mnfFieldToStr field (mnfFlashRead s field)

/-- `mnf_cmd_repair_field` -/
def mnfCmdRepairField (flags : Flags) (s : MnfState) (field : MnfField) : MnfState :=
  let restored := restoreFunc cfg env.nid field (fieldText s field)
  if restored.1 ∨ flags.force then
    mnfFlashWrite s field (mnfStrToField field restored.2 env.behind).2
  else s

/-- `do_set` -/
def doSet (s : MnfState) : List (List Byte) → MnfState × ℕ
  | name :: value :: args =>
    match mnfCmdParseFlags args with
    | none => (s, 1)
    | some flags =>
      match mnfCmdGetField name with
      | none => (s, 1)
      | some field =>
        let buf := mnfStrToField field value env.behind
        if buf.1 then (s, 1)
        else mnfCmdWriteFinalize env flags (mnfFlashWrite (mnfFlashWriteInit s) field buf.2)
  | _ => (s, 1)

/-- `do_restore` -/
def doRestore (s : MnfState) : List (List Byte) → MnfState × ℕ
  | name :: args =>
    match mnfCmdParseFlags args with
    | none => (s, 1)
    | some flags =>
      match mnfCmdGetField name with
      | none => (s, 1)
      | some field =>
        mnfCmdWriteFinalize env flags
          (mnfCmdRepairField cfg env { flags with force := true } (mnfFlashWriteInit s) field)
  | [] => (s, 1)

/-- `do_repair` -/
def doRepair (s : MnfState) (args : List (List Byte)) : MnfState × ℕ :=
  match mnfCmdParseFlags args with
  | none => (s, 1)
  | some flags =>
    mnfCmdWriteFinalize env flags
      (mnfFields.foldl (mnfCmdRepairField cfg env flags) (mnfFlashWriteInit s))

/-- The commands that write, with their arguments. -/
inductive Command where
  | set (argv : List (List Byte))
  | restore (argv : List (List Byte))
  | repair (argv : List (List Byte))

/-- `mnf_cmd_entry`, for these commands. -/
def mnfCmdEntry (s : MnfState) : Command → MnfState × ℕ
  | .set argv => doSet env s argv
  | .restore argv => doRestore cfg env s argv
  | .repair argv => doRepair cfg env s argv

end RutosSdk.Uboot
