import RutosSdk.Uboot.Text

/-! # The handlers of the failsafe web server

Reference: `failsafe/failsafe.c` in `package/boot/uboot-mt7621/src`.

`/flashing` takes an upload and checks it, and `/result` flashes the upload that was accepted last
and tells whether that succeeded. All they know of each other is in `g_state`, which starts out
zeroed.
-/

namespace RutosSdk.Uboot

/-- `enum upload_tp` -/
inductive UploadTp where
  | unknown
  | uboot
  | firmware
deriving DecidableEq, Repr

/-- Where uploads lie: in the free RAM, at an offset from the upload address, or in the buffer of a
connection. -/
inductive Ptr where
  | ram (offset : ℕ)
  | buf (conn offset : ℕ)
deriving DecidableEq, Repr

/-- `struct httpd_form_value`, without the file name, which no handler reads. -/
structure FormValue where
  name : List Byte
  data : Ptr
  size : ℕ
deriving DecidableEq, Repr

/-- `struct g_state_t`, without the fields that are never read. -/
structure GState where
  upl_tp : UploadTp := .unknown
  upload_data_id : Word := 0
  upload_data : Option Ptr := none
  upload_size : ℕ := 0
  upgrade_success : Bool := false
  data_size : ℕ := 0
  err : ℤ := 0
  finished : Bool := false
deriving DecidableEq, Repr

/-- What the checks of an upload rest on: the manifest of a firmware image, the checksum of
`lib/crc32.c` and the model of the build. -/
structure Checks where
  fwtool_validate_manifest : List Byte → Bool
  crc32 : List Byte → Word
  device_model : List Byte

def MIN_UPLOAD_SIZE : ℕ := 10240
def MAX_UPLOAD_SIZE : ℕ := 104857600
def CRC_LEN : ℕ := 10
def VERSION_LEN : ℕ := 10
def DEV_NAME_LEN : ℕ := 12

/-! ## `flashing_handler` -/

variable (checks : Checks) (mem : Ptr → ℕ → List Byte) (upload_id : Word) (g : GState)
  (values : List FormValue)

/-- `httpd_request_find_value` -/
def httpdRequestFindValue (name : List Byte) : Option FormValue := values.find? (·.name = name)

/-- `simple_strtoll` of the text of a checksum: the number, when there is one and it is not zero. -/
def parseCrc (text : List Byte) : Option Word :=
  let (crc, rest) :=
    match text with
    | 0x2d :: cp => (-BitVec.ofNat 32 (simpleStrtoull cp).1, (simpleStrtoull cp).2)
    | cp => (BitVec.ofNat 32 (simpleStrtoull cp).1, (simpleStrtoull cp).2)
  if crc = 0 ∨ rest.length = text.length then none else some crc

/-- The checks of a boot loader: its checksum is at the end, and its model before the version. -/
def ubootValid (fw : List Byte) : Bool :=
  match parseCrc (strncpy (fw.drop (fw.length - CRC_LEN)) CRC_LEN) with
  | none => false
  | some crc_current =>
    checks.crc32 (fw.take (fw.length - CRC_LEN)) = crc_current
      ∧ (strstr (strncpy (fw.drop (fw.length - DEV_NAME_LEN - VERSION_LEN - CRC_LEN)) DEV_NAME_LEN)
        checks.device_model).isSome

/-- The number of bytes that are to be flashed of an upload that passes its checks. -/
def uploadAccepted (tp : UploadTp) (fw : List Byte) (size : ℕ) : Option ℕ :=
  if size < MIN_UPLOAD_SIZE then none
  else if MAX_UPLOAD_SIZE < size then none
  else
    match tp with
    | .firmware => if checks.fwtool_validate_manifest fw then some size else none
    | .uboot => if ubootValid checks fw then some (size - CRC_LEN) else none
    | .unknown => some size

/-- The pages that `flashing_handler` answers with. -/
inductive Page where
  | flashing
  | fail
  | redirect
deriving DecidableEq, Repr

/-- `flashing_handler`, for one of the two uploads. -/
def flashingUpload (tp : UploadTp) (fw : FormValue) : GState × Page :=
  match uploadAccepted checks tp (mem fw.data fw.size) fw.size with
  | none => ({ g with err := 1, upl_tp := .unknown }, .fail)
  | some size =>
    ({ upl_tp := tp, upload_data_id := upload_id, upload_data := some fw.data, upload_size := size,
       data_size := size, upgrade_success := false, err := 0, finished := false }, .flashing)

/-- `flashing_handler`, for a new request. -/
def flashingHandler : GState × Page :=
  match httpdRequestFindValue values (str "firmware"),
    httpdRequestFindValue values (str "uboot") with
  | some fw, _ => flashingUpload checks mem upload_id g .firmware fw
  | none, some fw => flashingUpload checks mem upload_id g .uboot fw
  | none, none => ({ g with upl_tp := .unknown }, .redirect)

/-- `flashing_handler` accepts one of the values, or no upload is known after it. -/
inductive FlashingEnds (checks : Checks) (mem : Ptr → ℕ → List Byte) (upload_id : Word)
    (g : GState) (values : List FormValue) : GState × Page → Prop
  | accepted {tp : UploadTp} {fw : FormValue} {size : ℕ} (htp : tp ≠ .unknown) (hfw : fw ∈ values)
    (hpass : uploadAccepted checks tp (mem fw.data fw.size) fw.size = some size) :
    FlashingEnds checks mem upload_id g values
      ({ upl_tp := tp, upload_data_id := upload_id, upload_data := some fw.data
         upload_size := size, data_size := size, upgrade_success := false, err := 0
         finished := false }, .flashing)
  | refused {err : ℤ} {page : Page} (hpage : page ≠ .flashing) :
    FlashingEnds checks mem upload_id g values ({ g with err := err, upl_tp := .unknown }, page)

theorem flashingHandler_ends :
    FlashingEnds checks mem upload_id g values
      (flashingHandler checks mem upload_id g values) := by
  have hupload : ∀ {tp : UploadTp} {fw : FormValue}, tp ≠ .unknown → fw ∈ values →
      FlashingEnds checks mem upload_id g values
        (flashingUpload checks mem upload_id g tp fw) := by
    intro tp fw htp hfw
    unfold flashingUpload
    split
    · exact .refused (by decide)
    · rename_i size hpass
      exact .accepted htp hfw hpass
  unfold flashingHandler
  split
  · rename_i fw hfind
    exact hupload (by decide) (List.mem_of_find?_eq_some hfind)
  · rename_i fw _ hfind
    exact hupload (by decide) (List.mem_of_find?_eq_some hfind)
  · exact .refused (by decide)

/-- What `update_fw` or `update_uboot` is called for. -/
structure Update where
  tp : UploadTp
  data : Option Ptr
  size : ℕ
deriving DecidableEq, Repr

/-- The upload that is known. -/
def GState.update : Update := ⟨g.upl_tp, g.upload_data, g.upload_size⟩

/-- The upload that the call of `flashing_handler` accepted, as it is to be flashed. -/
def acceptedBy (r : GState × Page) : Option Update :=
  if r.2 = .flashing then some r.1.update else none

theorem acceptedBy_of_ne {g : GState} {page : Page} (h : page ≠ .flashing) :
    acceptedBy (g, page) = none := if_neg h

/-! ## `result_handler` -/

/-- The part of `result_handler` that flashes: the new state, and the call of a flashing function if
there is one, which returns `ret`. The field `end` is `finished` here. -/
def flashUpload (ret : ℤ) (g : GState) : GState × Option Update :=
  if 0 < g.data_size then
    if g.upload_data_id = upload_id ∧ g.err = 0 then
      match g.upl_tp with
      | .firmware =>
        ({ g with err := ret, finished := true }, some ⟨.firmware, g.upload_data, g.upload_size⟩)
      | .uboot =>
        ({ g with err := ret, finished := true }, some ⟨.uboot, g.upload_data, g.data_size⟩)
      | .unknown => ({ g with err := 1, finished := true }, none)
    else ({ g with err := 1 }, none)
  else ({ g with finished := true }, none)

/-- The part of `result_handler` that answers: the new state, and the success it reports, if it
reports. `rand` is the random number that replaces the identifier. -/
def reportResult (rand : Word) (g : GState) : GState × Option Bool :=
  if g.err ≠ 0 then ({ g with upload_data_id := rand, upl_tp := .unknown }, some false)
  else if g.finished then
    ({ g with upgrade_success := true, upload_data_id := rand, upl_tp := .unknown }, some true)
  else (g, none)

end RutosSdk.Uboot
