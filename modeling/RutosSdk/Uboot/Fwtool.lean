import Mathlib.Algebra.Ring.Int.Defs
import Mathlib.Algebra.Ring.Nat
import Mathlib.Data.List.TakeWhile
import RutosSdk.Lib.Traced
import RutosSdk.Uboot.Text

/-! # The manifest of a firmware file

Reference: `fwtool_validate_manifest` with `check_modX_blv1` and `validate_hw_mods` in
`package/boot/uboot-mt7621/src/lib/tlt/fwtool.c`.

A firmware file ends in a signature with a trailer, and before it stands the manifest with another
trailer. Each trailer gives the size of its part. The function goes back over the two from the end
of the file, copies the manifest into a buffer of 4096 bytes and looks for texts there. Every byte
of the file and of the buffer that is read or written is recorded.
-/

namespace RutosSdk.Uboot.Fwtool

open List Traced Search

/-- A byte of the file, or of the buffer. -/
inductive Access where
  | file (i : ℤ)
  | buf (i : ℤ)
deriving DecidableEq

/-- `enum fwtool_ret_id` -/
inductive FwtoolRet where
  | firmwareValid
  | errorInvalidFile
deriving DecidableEq, Repr

def FWIMAGE_MAGIC : Word := 0x46577830

/-- `sizeof(buffer)` -/
def BUFFER_SIZE : ℕ := 4096

/-- The fields of `struct fwimage_trailer` that are used; they are stored with the high byte first.
-/
structure FwimageTrailer where
  magic : Word
  size : Word
deriving DecidableEq

/-! ## The texts in the buffer -/

section

variable (buffer : List Byte)

/-- `strstr` from a place in the buffer: it takes the length of the string first, and so reads up to
the zero at its end. -/
def strstrAt (ptr : ℕ) (pat : List Byte) : Traced Access (Option ℕ) := do
  let s := cstr (buffer.drop ptr)
  touchRange (fun i => .buf i) ptr (s.length + 1)
  return (strstr s pat).map (ptr + ·)

/-- `while (isdigit(*ptr)) ptr++` -/
def skipDigits (ptr : ℕ) : Traced Access ℕ := do
  let digits := (buffer.drop ptr).takeWhile isDigit
  touchRange (fun i => .buf i) ptr (digits.length + 1)
  return ptr + digits.length

/-- How many characters are the same before the first that are not. -/
def matching : List Byte → List Byte → ℕ
  | c :: s, d :: pat => if c = d then matching s pat + 1 else 0
  | _, _ => 0

/-- `!strncmp(ptr, pat, strlen(pat))`, which reads up to the first difference. -/
def strncmpAt (ptr : ℕ) (pat : List Byte) : Traced Access Bool := do
  touchRange (fun i => .buf i) ptr (min pat.length (matching (buffer.drop ptr) pat + 1))
  return pat.isPrefixOf (buffer.drop ptr)

/-- The loop of `check_modX_blv1`: whether it ends without a modem `blv1`. Each round moves the
pointer, so there are less of them than bytes. -/
def modLoop : (rounds ptr : ℕ) → Traced Access Bool
  | 0, _ => return true
  | rounds + 1, ptr => do
      match ← strstrAt buffer ptr (str "\"mod") with
      | none => return true
      | some ptr =>
        let c ← readAt (buffer.getD · 0) (fun i => .buf i) (ptr + 4)
        if isDigit c then
          let ptr ← skipDigits buffer (ptr + 4)
          let found ← strncmpAt buffer ptr (str "\": \"blv1\"")
          if found then return false else modLoop rounds ptr
        else modLoop rounds (ptr + 4)

/-- `check_modX_blv1`: `true` for 1. `mob_cfg` is the text of that field, empty if it cannot be
read. -/
def checkModXBlv1 (mob_cfg : List Byte) : Traced Access Bool :=
  if mob_cfg ≠ str "0001" then return false else modLoop buffer BUFFER_SIZE 0

/-- The checks of the text in the buffer; `model` is `CONFIG_DEVICE_MODEL_MANIFEST`. -/
def checkText (mob_cfg model : List Byte) : Traced Access FwtoolRet := do
  let devices ← strstrAt buffer 0 (str "supported_devices")
  if devices = none then return .errorInvalidFile
  else
    let vendor ← strstrAt buffer 0 (str "teltonika,")
    if vendor = none then return .errorInvalidFile
    else
      let device ← strstrAt buffer 0 model
      if device = none then return .errorInvalidFile
      else
        let unsupported ← checkModXBlv1 buffer mob_cfg
        return if unsupported then .errorInvalidFile else .firmwareValid

end

/-! ## The trailers -/

section

variable (mem : ℤ → Byte)

/-- `memcpy` from the file. -/
def readFile (offset : ℤ) (n : ℕ) : Traced Access (List Byte) :=
  readRange (fun k => mem (offset + k)) (fun k => .file (offset + k)) 0 n

def readTrailer (offset : ℤ) : Traced Access FwimageTrailer := do
  let bytes ← readFile mem offset 16
  return ⟨be32 bytes, be32 (bytes.drop 12)⟩

/-- The trailer is refused. -/
def Refused (length : Word) (tr : FwimageTrailer) : Prop :=
  tr.magic ≠ FWIMAGE_MAGIC ∨ length ≤ tr.size

instance (length : Word) (tr : FwimageTrailer) : Decidable (Refused length tr) :=
  inferInstanceAs (Decidable (_ ∨ _))

/-- `len`, after it was cut to the size of the buffer; the comparison is one of unsigned numbers. -/
def copyLen (size : Word) : ℕ := min (size - 16).toNat BUFFER_SIZE

/-- The buffer when the manifest was copied to it and `buffer[len - 1]` set to zero. -/
def bufferOf (copied : List Byte) : List Byte :=
  copied.dropLast ++ List.replicate (BUFFER_SIZE - copied.dropLast.length) 0

/-- From the manifest on, which has the given size and a trailer at `offset`. -/
def checkManifest (offset size : Word) (mob_cfg model : List Byte) : Traced Access FwtoolRet := do
  let offset := offset - (size - 16 - 8)
  let len := copyLen size
  let copied ← readFile mem offset.toInt len
  touchRange (fun i => .buf i) 0 len
  touch (.buf ((len : ℤ) - 1))
  checkText (bufferOf copied) mob_cfg model

/-- `fwtool_validate_manifest` -/
def fwtoolValidateManifest (length : Word) (mob_cfg model : List Byte) : Traced Access FwtoolRet :=
  if length < 32 then return .errorInvalidFile
  else do
    let tr ← readTrailer mem (length - 16).toInt
    if Refused length tr then return .errorInvalidFile
    else
      let offset := length - 16 - tr.size
      let tr ← readTrailer mem offset.toInt
      if Refused length tr then return .errorInvalidFile
      else checkManifest mem offset tr.size mob_cfg model

end

/-! ## What is expected of it -/

/-- The byte is one of the file, or of the buffer. -/
def InBounds (length : Word) : Access → Prop
  | .file i => 0 ≤ i ∧ i < length.toNat
  | .buf i => 0 ≤ i ∧ i < BUFFER_SIZE

/-- Nothing but the file and the buffer is touched, and other memory plays no part. -/
structure StaysInside (mem : ℤ → Byte) (length : Word) : Prop where
  bounds : ∀ mob_cfg model,
    (fwtoolValidateManifest mem length mob_cfg model).All (InBounds length)
  verdict : ∀ mob_cfg model mem', (∀ i : ℤ, 0 ≤ i → i < length.toNat → mem' i = mem i) →
    (fwtoolValidateManifest mem' length mob_cfg model).val
      = (fwtoolValidateManifest mem length mob_cfg model).val

/-! ## The buffer is never left -/

section

variable {buffer s rest pat : List Byte} {length : Word} {ptr : ℕ}

theorem matching_le (hpat : 0 ∉ pat) (s rest : List Byte) :
    matching (s ++ 0 :: rest) pat ≤ s.length := by
  induction s generalizing pat with
  | nil =>
    cases pat with
    | nil => exact Nat.le_refl 0
    | cons d pat =>
      have hd : ¬0 = d := fun h => hpat (by rw [h]; exact mem_cons_self)
      rw [nil_append, matching, if_neg hd]
      exact Nat.le_refl 0
  | cons c s ih =>
    cases pat with
    | nil => exact Nat.zero_le _
    | cons d pat =>
      rw [cons_append, matching]
      split
      · exact Nat.succ_le_succ (ih fun h => hpat (mem_cons_of_mem d h))
      · exact Nat.zero_le _

/-- The buffer holds the string `s`, whose end lies in it. -/
structure HoldsString (buffer s : List Byte) : Prop where
  eq : ∃ rest, buffer = s ++ 0 :: rest
  no_zero : 0 ∉ s
  length_lt : s.length < BUFFER_SIZE

namespace HoldsString

variable (h : HoldsString buffer s)

include h

theorem drop (hptr : ptr ≤ s.length) : ∃ rest, buffer.drop ptr = s.drop ptr ++ 0 :: rest := by
  obtain ⟨rest, rfl⟩ := h.eq
  exact ⟨rest, drop_append_of_le_length hptr⟩

theorem cstr_drop (hptr : ptr ≤ s.length) : cstr (buffer.drop ptr) = s.drop ptr := by
  obtain ⟨rest, hdrop⟩ := h.drop hptr
  have hpass : ∀ c ∈ s.drop ptr, decide (c ≠ 0) = true := fun c hc =>
    decide_eq_true fun hzero => h.no_zero (hzero ▸ mem_of_mem_drop hc)
  rw [hdrop, cstr, takeWhile_append_of_pos hpass, takeWhile_cons_of_neg (by simp), append_nil]

/-- What is read up to the end of the string lies in the buffer. -/
theorem all_touchRange {n : ℕ} (hn : ptr + n ≤ s.length + 1) :
    (touchRange (fun i : ℕ => Access.buf i) ptr n).All (InBounds length) := by
  rw [all_touchRange_iff]
  intro i _ hi
  have := h.length_lt
  constructor
  · exact Int.natCast_nonneg i
  · omega

theorem all_strstrAt (hptr : ptr ≤ s.length) : (strstrAt buffer ptr pat).All (InBounds length) := by
  rw [strstrAt, all_bind_iff]
  refine ⟨h.all_touchRange ?_, all_pure _⟩
  rw [h.cstr_drop hptr, length_drop]
  omega

/-- The place that is found leaves room for the pattern. -/
theorem strstrAt_some (hptr : ptr ≤ s.length) {p : ℕ}
    (hfound : (strstrAt buffer ptr pat).val = some p) : p + pat.length ≤ s.length := by
  have hval : (strstr (cstr (buffer.drop ptr)) pat).map (ptr + ·) = some p := hfound
  rw [h.cstr_drop hptr] at hval
  obtain ⟨i, hi, rfl⟩ := Option.map_eq_some_iff.mp hval
  have := length_le_of_findSub hi
  rw [length_drop] at this
  omega

/-- The digits end before the string does. -/
theorem skipDigits_le (hptr : ptr ≤ s.length) :
    ptr + ((buffer.drop ptr).takeWhile isDigit).length ≤ s.length := by
  obtain ⟨rest, hdrop⟩ := h.drop hptr
  have hle : ((buffer.drop ptr).takeWhile isDigit).length ≤ (s.drop ptr).length := by
    rw [hdrop, takeWhile_append]
    split
    · rw [takeWhile_cons_of_neg (by decide), append_nil]
    · exact (List.takeWhile_prefix _).length_le
  rw [length_drop] at hle
  omega

theorem all_strncmpAt (hpat : 0 ∉ pat) (hptr : ptr ≤ s.length) :
    (strncmpAt buffer ptr pat).All (InBounds length) := by
  obtain ⟨rest, hdrop⟩ := h.drop hptr
  have hle := matching_le hpat (s.drop ptr) rest
  rw [← hdrop, length_drop] at hle
  rw [strncmpAt, all_bind_iff]
  exact ⟨h.all_touchRange (by omega), all_pure _⟩

/-- By induction on the rounds: the pointer does not pass the end of the string. -/
theorem all_modLoop (rounds : ℕ) (hptr : ptr ≤ s.length) :
    (modLoop buffer rounds ptr).All (InBounds length) := by
  induction rounds generalizing ptr with
  | zero => exact all_pure _
  | succ rounds ih =>
    rw [modLoop, all_bind_iff]
    refine ⟨h.all_strstrAt hptr, ?_⟩
    cases hfound : (strstrAt buffer ptr (str "\"mod")).val with
    | none => exact all_pure _
    | some p =>
      have hp : p + 4 ≤ s.length := h.strstrAt_some hptr hfound
      have hlt := h.length_lt
      rw [all_bind_iff, all_readAt_iff, all_ite_iff, all_bind_iff, all_bind_iff, all_ite_iff]
      refine ⟨⟨Int.natCast_nonneg _, ?_⟩, fun _ => ⟨?_, ?_, fun _ => all_pure _, fun _ => ?_⟩,
        fun _ => ih hp⟩
      · omega
      · rw [skipDigits, all_bind_iff]
        have := h.skipDigits_le hp
        exact ⟨h.all_touchRange (by omega), all_pure _⟩
      · exact h.all_strncmpAt (by decide) (h.skipDigits_le hp)
      · exact ih (h.skipDigits_le hp)

theorem all_checkText (mob_cfg model : List Byte) :
    (checkText buffer mob_cfg model).All (InBounds length) := by
  have hstrstr (pat : List Byte) : (strstrAt buffer 0 pat).All (InBounds length) :=
    h.all_strstrAt (Nat.zero_le _)
  have hmod : (checkModXBlv1 buffer mob_cfg).All (InBounds length) := by
    rw [checkModXBlv1, all_ite_iff]
    exact ⟨fun _ => all_pure _, fun _ => h.all_modLoop _ (Nat.zero_le _)⟩
  simp only [checkText, all_bind_iff, all_ite_iff, all_pure, hstrstr, hmod, implies_true, and_self]

end HoldsString

/-- The buffer ends in zeros, and with `buffer[len - 1]` at least one. -/
theorem holdsString_bufferOf {copied : List Byte} (h : copied.length ≤ BUFFER_SIZE) :
    HoldsString (bufferOf copied) (cstr (bufferOf copied)) := by
  have hlength : copied.dropLast.length < BUFFER_SIZE := by
    rw [length_dropLast, BUFFER_SIZE] at *
    omega
  have hmem : (0 : Byte) ∈ bufferOf copied := by
    refine mem_append_right _ (mem_replicate.mpr ⟨?_, rfl⟩)
    omega
  have hsplit := eq_takeWhile_append_cons hmem
  refine ⟨⟨_, hsplit⟩, fun hzero => ?_, ?_⟩
  · have hpass := mem_takeWhile_imp hzero
    exact absurd hpass (by decide)
  · have htotal := congrArg List.length hsplit
    rw [bufferOf, length_append, length_replicate, length_append, length_cons] at htotal
    rw [cstr, bufferOf]
    omega

end

/-! ## Reads of the file -/

variable {mob_cfg model : List Byte}

section

variable {mem mem' : ℤ → Byte} {length : Word} {offset : ℤ} {n : ℕ}

theorem all_readFile_iff : (readFile mem offset n).All (InBounds length)
    ↔ n = 0 ∨ 0 ≤ offset ∧ offset + n ≤ length.toNat := by
  rw [readFile, all_readRange_iff]
  constructor
  · intro h
    rcases Nat.eq_zero_or_pos n with hzero | hpos
    · exact .inl hzero
    · have hfirst : 0 ≤ offset + (0 : ℕ) := (h 0 (Nat.le_refl 0) (by omega)).1
      have hlast : offset + (n - 1 : ℕ) < length.toNat := (h (n - 1) (by omega) (by omega)).2
      exact .inr (by omega)
  · rintro (rfl | ⟨hnonneg, hle⟩) i _ hi
    · omega
    · exact ⟨show 0 ≤ offset + i by omega, show offset + i < length.toNat by omega⟩

theorem length_readFile_val : (readFile mem offset n).val.length = n := length_readRange_val 0 n

theorem all_readTrailer_iff : (readTrailer mem offset).All (InBounds length)
    ↔ 0 ≤ offset ∧ offset + 16 ≤ length.toNat := by
  rw [readTrailer, all_bind_iff, all_readFile_iff]
  simp

/-- Bytes of the file that are read are the same in every memory that holds it. -/
theorem readFile_val_congr (hall : (readFile mem offset n).All (InBounds length))
    (hagree : ∀ i : ℤ, 0 ≤ i → i < length.toNat → mem' i = mem i) :
    (readFile mem' offset n).val = (readFile mem offset n).val := by
  refine readRange_congr fun i hi => ?_
  rcases all_readFile_iff.mp hall with hzero | ⟨hnonneg, hle⟩
  · omega
  · exact hagree (offset + (0 + i : ℕ)) (by omega) (by omega)

/-- The trailer at an offset of the file. -/
def trailerAt (mem : ℤ → Byte) (offset : ℤ) : FwimageTrailer := (readTrailer mem offset).val

theorem trailerAt_congr (hall : (readTrailer mem offset).All (InBounds length))
    (hagree : ∀ i : ℤ, 0 ≤ i → i < length.toNat → mem' i = mem i) :
    trailerAt mem' offset = trailerAt mem offset := by
  rw [readTrailer, all_bind_iff] at hall
  have hbytes := readFile_val_congr hall.1 hagree
  simp only [trailerAt, readTrailer, bind_val, pure_val, hbytes]

theorem checkManifest_val_congr {offset size : Word}
    (hall : (checkManifest mem offset size mob_cfg model).All (InBounds length))
    (hagree : ∀ i : ℤ, 0 ≤ i → i < length.toNat → mem' i = mem i) :
    (checkManifest mem' offset size mob_cfg model).val
      = (checkManifest mem offset size mob_cfg model).val := by
  rw [checkManifest, all_bind_iff] at hall
  have hcopied := readFile_val_congr hall.1 hagree
  simp only [checkManifest, bind_val, hcopied]

/-! ## The sizes in the trailers -/

/-- The manifest has at least one byte behind its first 16 and begins in the file; or its size is
less than 16, and 4096 bytes are copied for it that all lie in the file. -/
def ManifestFits (length : Word) (offset : ℤ) (size : ℕ) : Prop :=
  16 < size ∧ 0 ≤ offset + 24 - size ∧ offset + 24 - size < 2 ^ 31
    ∨ size < 16 ∧ offset + 24 - size + BUFFER_SIZE ≤ length.toNat

/-- The file is too short; or it is not too long for an `int`, and its last trailer is refused or
gives a size that leaves room for the trailer before it; and that one is refused as well, or its
manifest fits. -/
def SizesFit (mem : ℤ → Byte) (length : Word) : Prop :=
  let last := trailerAt mem (length.toNat - 16)
  let offset : ℤ := length.toNat - 16 - last.size.toNat
  length < 32 ∨ length.toNat < 2 ^ 31 + 16 ∧
    (Refused length last ∨ 0 ≤ offset ∧
      (Refused length (trailerAt mem offset)
        ∨ ManifestFits length offset (trailerAt mem offset).size.toNat))

theorem toInt_eq (x : Word) :
    x.toInt = if x.toNat < 2 ^ 31 then (x.toNat : ℤ) else x.toNat - 2 ^ 32 := by
  rw [BitVec.toInt_eq_toNat_cond]
  split_ifs <;> omega

theorem toNat_size_sub (size : Word) : (size - 16).toNat = (size.toNat + 2 ^ 32 - 16) % 2 ^ 32 := by
  bv_omega

theorem toNat_manifest_offset (offset size : Word) :
    (offset - (size - 16 - 8)).toNat = (offset.toNat + 2 ^ 32 + 24 - size.toNat) % 2 ^ 32 := by
  bv_omega

theorem toNat_offset_sub (length size : Word) :
    (length - 16 - size).toNat = (length.toNat + 2 ^ 33 - 16 - size.toNat) % 2 ^ 32 := by
  bv_omega

theorem toNat_size_lt {tr : FwimageTrailer} (h : ¬Refused length tr) :
    tr.size.toNat < length.toNat :=
  Nat.not_le.mp fun hle => h (.inr hle)

theorem all_checkManifest_iff {offset size : Word} (hoffset : offset.toNat + 16 ≤ length.toNat)
    (hlength : length.toNat < 2 ^ 31 + 16) (hsize : size.toNat < length.toNat) :
    (checkManifest mem offset size mob_cfg model).All (InBounds length)
      ↔ ManifestFits length offset.toNat size.toNat := by
  have hlen : copyLen size ≤ BUFFER_SIZE := Nat.min_le_right _ _
  have hbuffer : (touchRange (fun i : ℕ => Access.buf i) 0 (copyLen size)).All
      (InBounds length) := by
    rw [all_touchRange_iff]
    exact fun i _ hi => ⟨Int.natCast_nonneg i, show (i : ℤ) < BUFFER_SIZE by omega⟩
  have hlast : InBounds length (.buf ((copyLen size : ℤ) - 1)) ↔ 1 ≤ copyLen size := by
    show 0 ≤ (copyLen size : ℤ) - 1 ∧ (copyLen size : ℤ) - 1 < BUFFER_SIZE ↔ _
    omega
  have htext (copied : List Byte) (h : copied.length = copyLen size) :
      (checkText (bufferOf copied) mob_cfg model).All (InBounds length) :=
    (holdsString_bufferOf (by omega)).all_checkText mob_cfg model
  rw [checkManifest, all_bind_iff, all_bind_iff, all_bind_iff, all_readFile_iff, all_touch_iff,
    hlast, and_iff_right hbuffer, and_iff_left (htext _ length_readFile_val), toInt_eq,
    toNat_manifest_offset, ManifestFits, copyLen, toNat_size_sub, BUFFER_SIZE]
  split_ifs <;> omega

end

/-! ## When the function stays inside -/

section

variable (mem : ℤ → Byte) (length : Word)

/-- The reads are in bounds exactly if the sizes fit. -/
theorem all_fwtoolValidateManifest_iff (mob_cfg model : List Byte) :
    (fwtoolValidateManifest mem length mob_cfg model).All (InBounds length)
      ↔ SizesFit mem length := by
  rw [fwtoolValidateManifest, SizesFit]
  by_cases hshort : length < 32
  · rw [if_pos hshort]
    exact iff_of_true (all_pure _) (.inl hshort)
  have hlength : 32 ≤ length.toNat := Nat.not_lt.mp hshort
  rw [if_neg hshort, or_iff_right hshort, all_bind_iff, all_readTrailer_iff, toInt_eq,
    toNat_size_sub]
  by_cases hlong : length.toNat < 2 ^ 31 + 16
  swap
  · refine iff_of_false (fun h => ?_) fun h => hlong h.1
    split_ifs at h <;> omega
  have hlast : (length - 16).toInt = length.toNat - 16 := by
    rw [toInt_eq, toNat_size_sub]
    split_ifs <;> omega
  rw [and_iff_right hlong, ← toNat_size_sub, ← toInt_eq, hlast,
    and_iff_right (show (0 : ℤ) ≤ length.toNat - 16 ∧ _ by omega), ← trailerAt, all_ite_iff]
  generalize trailerAt mem (length.toNat - 16) = last
  by_cases hlast_refused : Refused length last
  · exact iff_of_true ⟨fun _ => all_pure _, fun h => absurd hlast_refused h⟩ (.inl hlast_refused)
  rw [and_iff_right fun h => absurd h hlast_refused, forall_prop_of_true hlast_refused,
    or_iff_right hlast_refused, all_bind_iff, all_readTrailer_iff]
  by_cases hroom : (0 : ℤ) ≤ length.toNat - 16 - last.size.toNat
  swap
  · refine iff_of_false (fun h => ?_) fun h => hroom h.1
    have := h.1
    rw [toInt_eq, toNat_offset_sub] at this
    split_ifs at this <;> omega
  have hoffset : (length - 16 - last.size).toNat = length.toNat - 16 - last.size.toNat := by
    rw [toNat_offset_sub]
    omega
  have hoffset' : (length - 16 - last.size).toInt = length.toNat - 16 - last.size.toNat := by
    rw [toInt_eq, hoffset]
    split_ifs <;> omega
  rw [and_iff_right hroom, hoffset', and_iff_right ⟨hroom, by omega⟩, ← trailerAt, all_ite_iff]
  generalize htrailer : trailerAt mem (length.toNat - 16 - last.size.toNat) = trailer
  by_cases hrefused : Refused length trailer
  · exact iff_of_true ⟨fun _ => all_pure _, fun h => absurd hrefused h⟩ (.inl hrefused)
  rw [and_iff_right fun h => absurd h hrefused, forall_prop_of_true hrefused, or_iff_right hrefused,
    all_checkManifest_iff (by omega) hlong (toNat_size_lt hrefused), hoffset,
    show ((length.toNat - 16 - last.size.toNat : ℕ) : ℤ)
      = length.toNat - 16 - last.size.toNat by omega]

theorem fwtoolValidateManifest_val_congr {mem' : ℤ → Byte}
    (hall : (fwtoolValidateManifest mem length mob_cfg model).All (InBounds length))
    (hagree : ∀ i : ℤ, 0 ≤ i → i < length.toNat → mem' i = mem i) :
    (fwtoolValidateManifest mem' length mob_cfg model).val
      = (fwtoolValidateManifest mem length mob_cfg model).val := by
  unfold fwtoolValidateManifest at hall ⊢
  by_cases hshort : length < 32
  · rw [if_pos hshort, if_pos hshort]
  rw [if_neg hshort, all_bind_iff, all_ite_iff] at hall
  rw [if_neg hshort, if_neg hshort, bind_val, bind_val, ← trailerAt, ← trailerAt,
    trailerAt_congr hall.1 hagree]
  have hrest := hall.2.2
  rw [← trailerAt] at hrest
  generalize trailerAt mem (length - 16).toInt = last at hrest ⊢
  by_cases hlast_refused : Refused length last
  · rw [if_pos hlast_refused, if_pos hlast_refused]
  replace hrest := hrest hlast_refused
  rw [all_bind_iff, all_ite_iff] at hrest
  rw [if_neg hlast_refused, if_neg hlast_refused, bind_val, bind_val, ← trailerAt, ← trailerAt,
    trailerAt_congr hrest.1 hagree]
  have hmanifest := hrest.2.2
  rw [← trailerAt] at hmanifest
  generalize trailerAt mem (length - 16 - last.size).toInt = trailer at hmanifest ⊢
  by_cases hrefused : Refused length trailer
  · rw [if_pos hrefused, if_pos hrefused]
  · rw [if_neg hrefused, if_neg hrefused]
    exact checkManifest_val_congr (hmanifest hrefused) hagree

/-- Only the file and the buffer are touched, and only the file decides, if and only if the sizes in
the trailers fit the file. -/
theorem staysInside_iff : StaysInside mem length ↔ SizesFit mem length := by
  constructor
  · intro h
    exact (all_fwtoolValidateManifest_iff mem length [] []).mp (h.bounds [] [])
  · intro h
    have hall := fun mob_cfg model =>
      (all_fwtoolValidateManifest_iff mem length mob_cfg model).mpr h
    exact ⟨hall, fun mob_cfg model mem' hagree =>
      fwtoolValidateManifest_val_congr mem length (hall mob_cfg model) hagree⟩

end

/-- A file of 10240 zeros up to two trailers at its end, with the size that the last one gives and a
manifest of 16 bytes. -/
def sampleFile (size : BitVec 16) (i : ℤ) : Byte :=
  if i < 10208 then 0
  else ([0x46, 0x57, 0x78, 0x30, 0, 0, 0, 0, 0, 0, 0, 0, 0, 0, 0, 0x10,
    0x46, 0x57, 0x78, 0x30, 0, 0, 0, 0, 0, 0, 0, 0, 0, 0, size.extractLsb' 8 8,
    size.extractLsb' 0 8] : List Byte).getD (i - 10208).toNat 0

/-- With a signature as large as the file, what stands before the file is read; with one of 16
bytes, the byte before the buffer is set. -/
theorem sampleFile_not_staysInside :
    .file (-15) ∈ (fwtoolValidateManifest (sampleFile 10239) 10240 [] []).log
      ∧ ¬StaysInside (sampleFile 10239) 10240
      ∧ .buf (-1) ∈ (fwtoolValidateManifest (sampleFile 16) 10240 [] []).log
      ∧ ¬StaysInside (sampleFile 16) 10240 := by
  have hfile : .file (-15) ∈ (fwtoolValidateManifest (sampleFile 10239) 10240 [] []).log := by
    decide
  have hbuf : .buf (-1) ∈ (fwtoolValidateManifest (sampleFile 16) 10240 [] []).log := by
    decide
  refine ⟨hfile, fun h => ?_, hbuf, fun h => ?_⟩
  · exact absurd (h.bounds [] [] _ hfile).1 (by decide)
  · exact absurd (h.bounds [] [] _ hbuf).1 (by decide)

end RutosSdk.Uboot.Fwtool
