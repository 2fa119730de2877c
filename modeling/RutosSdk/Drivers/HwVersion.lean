import RutosSdk.Drivers.FixTypes
import RutosSdk.Drivers.MnfReadable
import RutosSdk.Lib.Decimal
import RutosSdk.Uboot.Mnf
import RutosSdk.Uboot.Post

/-! # The full hardware version

Reference: `boot_multidtb` in `package/boot/uboot-mt7621/src/cmd/tlt/mt7628/tltboot.c`, and
`mnf_info_get_full_hw_version` in
`target/linux/generic/files/drivers/sysfs-mnfinfo/sysfs-mnfinfo.c`.

The version is put together from two fields of four digits, `hwver` and `hwver_lo`. The boot loader
does so to choose a device tree, and passes the number on the command line. The kernel takes it from
there until its driver is probed, and puts it together itself from then on. Whether the number on
the command line has both parts is told by a second argument, `is_full_hwver`, which is not the boot
loader's but that of the device tree.
-/

namespace RutosSdk.Drivers.HwVersion

open List MnfInfo MnfReadable
open FixTypes
open Uboot.Httpd (decimal)

/-- The partition with the manufacturer information, whose two fields are made of digits. -/
structure MnfPartition where
  before : List Byte
  hwver : List Byte
  hwver_lo : List Byte
  behind : List Byte
  length_before : before.length = 0x50
  length_hwver : hwver.length = 4
  length_hwver_lo : hwver_lo.length = 4
  digits_hwver : ∀ c ∈ hwver, isDigit c = true
  digits_hwver_lo : ∀ c ∈ hwver_lo, isDigit c = true

namespace MnfPartition

variable (p : MnfPartition)

def content : List Byte := p.before ++ p.hwver ++ p.hwver_lo ++ p.behind

/-- The number in `hwver`. -/
def major : ℕ := decimal p.hwver

/-- The number in `hwver_lo`. -/
def minor : ℕ := decimal p.hwver_lo

end MnfPartition

/-- `if (hwver > 99) hwver /= 100`: a version of the radio behind the one of the board is left out.
-/
def withoutRf (hwver : ℤ) : ℤ := if 99 < hwver then hwver / 100 else hwver

/-! ## The boot loader -/

/-- The fields `hwver` and `hwver_lo` of `mnf_fields`. -/
def hwverField : Uboot.MnfField := ⟨0x48, str "hwver", 0x50, 4, .restoreNum, false, false⟩

@[inherit_doc hwverField]
def hwverLoField : Uboot.MnfField := ⟨0x4c, str "hwver_lo", 0x54, 4, .restoreNum, false, false⟩

variable (p : MnfPartition)

/-- `mnf_get_field`, when the flash does not fail. -/
def mnfGetField (field : Uboot.MnfField) : List Byte :=
  Uboot.mnfFieldToStr field (Uboot.mnfFlashRead ⟨p.content, []⟩ field)

/-- `simple_strtol` with the base ten. -/
def simpleStrtol : List Byte → ℤ
  | 0x2d :: cp => (-Uboot.simpleStrtoul cp).toInt
  | cp => (Uboot.simpleStrtoul cp).toInt

/-- `hwver_hi` at the end of `boot_multidtb`: the number that the device trees are compared with. -/
def bootHwver : ℤ :=
  let hwver_hi := withoutRf (simpleStrtol (mnfGetField p hwverField))
  let hwver_lo := withoutRf (simpleStrtol (mnfGetField p hwverLoField))
  100 * hwver_hi + hwver_lo

/-- The value of the argument `hwver=%ld`. -/
def hwverArgument : List Byte := (Decimal.signed (bootHwver p)).map fun c => BitVec.ofNat 8 c.toNat

/-! ## The kernel -/

/-- `kstrtoull` behind the sign, with the base ten; a newline may follow. -/
def kstrtoull (s : List Byte) : Option ℕ :=
  let (n, rest) := Uboot.parseDigits 10 0 s
  if 2 ^ 64 ≤ n ∨ rest.length = s.length then none
  else if rest = [] ∨ rest = [0x0a] then some n
  else none

/-- `kstrtoint` with the base ten; `none` is an error. -/
def kstrtoint (s : List Byte) : Option ℤ :=
  match s with
  | 0x2d :: s => (kstrtoull s).bind fun n => if n ≤ 2 ^ 31 then some (-n) else none
  | 0x2b :: s => (kstrtoull s).bind fun n => if n < 2 ^ 31 then some n else none
  | s => (kstrtoull s).bind fun n => if n < 2 ^ 31 then some n else none

/-- What `mnf_info_get_full_hw_version` reads: whether the driver is probed, the data of the entries
`hwver` and `hwver_lo`, and what was set from the command line. -/
structure Sources where
  probed : Bool
  hwver : Option (List Byte)
  hwver_lo : Option (List Byte)
  mnf_device_hwver : List Byte
  mnf_is_fullhwver : Bool

/-- `mnf_info_get_full_hw_version` -/
def mnfInfoGetFullHwVersion (k : Sources) : ℤ :=
  if k.probed = false ∧ k.hwver = none then
    match kstrtoint k.mnf_device_hwver with
    | none => -EINVAL
    | some cur_hwver =>
      if k.mnf_is_fullhwver then cur_hwver
      -- a prototype
      else if cur_hwver = 0 then cur_hwver
      else withoutRf cur_hwver * 100
  else
    match kstrtoint (k.hwver.getD []) with
    | none => -EINVAL
    | some cur_hwver =>
      if cur_hwver = 0 then cur_hwver
      else
        let cur_hwver_lo := (kstrtoint (k.hwver_lo.getD [])).getD 0
        100 * withoutRf cur_hwver + withoutRf cur_hwver_lo

/-- Before the driver is probed; `mnf_hwver_setup` copies the argument to 16 characters. -/
def early (is_full_hwver : Bool) : Sources where
  probed := false
  hwver := none
  hwver_lo := none
  mnf_device_hwver := (hwverArgument p).take 15
  mnf_is_fullhwver := is_full_hwver

/-- The nodes `hwver` and `hwver_lo` of the device tree, with the place of their bytes. -/
def node (start : ℕ) : Field where
  flash := (mnfReadableRead (.mtd fun i => p.content.getD i 0) start 4 []).2
  dt_len := 5
  type := .digit
  default := some [0x30, 0x30, 0x30, 0x30]
  strip := false
  rs_alligned := false
  shorter := by simp [mnfReadableRead, bytes]
  default_text := by simp

/-- The data of an entry after `parse_prop`. -/
def entryText (start : ℕ) : List Byte := cstr (fixTypes (node p start)).2

/-- After the driver is probed. -/
def late (is_full_hwver : Bool) : Sources :=
  { early p is_full_hwver with
    probed := true
    hwver := some (entryText p 0x50)
    hwver_lo := some (entryText p 0x54) }

/-- The kernel has the version of the boot loader, before and after its driver is probed. -/
structure Agrees (p : MnfPartition) (is_full_hwver : Bool) : Prop where
  before_probe : mnfInfoGetFullHwVersion (early p is_full_hwver) = bootHwver p
  after_probe : mnfInfoGetFullHwVersion (late p is_full_hwver) = bootHwver p

/-! ## Numbers of digits -/

section

variable {digits : List Byte}

section

variable (hdigits : ∀ c ∈ digits, isDigit c = true)
include hdigits

theorem foldl_decimal_lt (n : ℕ) :
    digits.foldl (fun n c => n * 10 + (c.toNat - 0x30)) n < (n + 1) * 10 ^ digits.length := by
  induction digits generalizing n with
  | nil => simp
  | cons c digits ih =>
    obtain ⟨hvalue, hlt⟩ := Uboot.Httpd.decodeDigit_of_isDigit (hdigits c mem_cons_self)
    rw [foldl_cons, length_cons, pow_succ']
    calc _ < (n * 10 + (c.toNat - 0x30) + 1) * 10 ^ digits.length :=
          ih (fun d hd => hdigits d (mem_cons_of_mem c hd)) _
      _ ≤ (n + 1) * 10 * 10 ^ digits.length := by gcongr; omega
      _ = (n + 1) * (10 * 10 ^ digits.length) := by ring

theorem decimal_lt (hlength : digits.length ≤ 4) : decimal digits < 10000 := by
  have h := foldl_decimal_lt hdigits 0
  calc decimal digits < 1 * 10 ^ digits.length := by simpa [decimal] using h
    _ ≤ 1 * 10 ^ 4 := by gcongr; decide
    _ = 10000 := by norm_num

theorem parseDigits_eq (n : ℕ) :
    Uboot.parseDigits 10 n digits
      = (digits.foldl (fun n c => n * 10 + (c.toNat - 0x30)) n, []) := by
  induction digits generalizing n with
  | nil => rfl
  | cons c digits ih =>
    obtain ⟨hvalue, hlt⟩ := Uboot.Httpd.decodeDigit_of_isDigit (hdigits c mem_cons_self)
    rw [Uboot.parseDigits, if_pos hlt, hvalue, ih fun d hd => hdigits d (mem_cons_of_mem c hd)]
    rfl

/-- Four digits do not overflow. -/
theorem simpleStrtol_eq (hlength : digits.length ≤ 4) : simpleStrtol digits = decimal digits := by
  have hlt := decimal_lt hdigits hlength
  have hradix : Uboot.fixupRadix digits = (10, digits) := by
    refine Uboot.Httpd.fixupRadix_eq fun c hc => ?_
    have hdigit := hdigits c (mem_of_getElem? hc)
    constructor
    · rintro rfl
      exact absurd hdigit (by decide)
    · rintro rfl
      exact absurd hdigit (by decide)
  have hunsigned : Uboot.simpleStrtoul digits = BitVec.ofNat 32 (decimal digits) := by
    rw [Uboot.simpleStrtoul, Uboot.simpleStrtoull, hradix]
    dsimp only
    rw [parseDigits_eq hdigits]
    rfl
  have hsigned : (BitVec.ofNat 32 (decimal digits)).toInt = decimal digits := by
    have htoNat : (BitVec.ofNat 32 (decimal digits)).toNat = decimal digits :=
      Nat.mod_eq_of_lt (Nat.lt_trans hlt (by decide))
    rw [BitVec.toInt_eq_toNat_of_lt (by omega), htoNat]
  rw [simpleStrtol]
  · rw [hunsigned, hsigned]
  · rintro cp rfl
    exact absurd (hdigits 0x2d mem_cons_self) (by decide)

theorem kstrtoint_eq (hne : digits ≠ []) (hlt : decimal digits < 2 ^ 31) :
    kstrtoint digits = some (decimal digits : ℤ) := by
  have hlength : ¬(2 ^ 64 ≤ decimal digits ∨ ([] : List Byte).length = digits.length) := by
    have := length_pos_iff.mpr hne
    rw [length_nil]
    omega
  have hparse : kstrtoull digits = some (decimal digits) := by
    rw [kstrtoull, parseDigits_eq hdigits]
    exact (if_neg hlength).trans (if_pos (.inl rfl))
  rw [kstrtoint]
  · rw [hparse, Option.bind_some, if_pos hlt]
  · rintro cp rfl
    exact absurd (hdigits 0x2d mem_cons_self) (by decide)
  · rintro cp rfl
    exact absurd (hdigits 0x2b mem_cons_self) (by decide)

end

end

/-- What is printed is read back. -/
theorem decimal_unsigned (n : ℕ) :
    (∀ c ∈ (Decimal.unsigned n).map fun c => BitVec.ofNat 8 c.toNat, isDigit c = true)
      ∧ ((Decimal.unsigned n).map fun c => BitVec.ofNat 8 c.toNat) ≠ []
      ∧ decimal ((Decimal.unsigned n).map fun c => BitVec.ofNat 8 c.toNat) = n := by
  have hdigit : ∀ d < 10, isDigit (BitVec.ofNat 8 (Nat.digitChar d).toNat) = true
      ∧ (BitVec.ofNat 8 (Nat.digitChar d).toNat).toNat - 0x30 = d := by decide
  have hreversed : ∀ ds : List ℕ, (∀ d ∈ ds, d < 10) →
      decimal ((ds.reverse.map Nat.digitChar).map fun c => BitVec.ofNat 8 c.toNat)
        = Nat.ofDigits 10 ds := by
    intro ds hds
    induction ds with
    | nil => rfl
    | cons d ds ih =>
      have hd := (hdigit d (hds d mem_cons_self)).2
      have hrest := ih fun e he => hds e (mem_cons_of_mem d he)
      rw [reverse_cons, map_append, map_append, decimal, foldl_append, ← decimal, hrest,
        map_singleton, map_singleton, foldl_cons, foldl_nil, hd, Nat.ofDigits_cons]
      ring
  rw [Decimal.unsigned]
  split_ifs with hzero
  · rw [hzero]
    exact ⟨by simp [isDigit], by simp, rfl⟩
  · refine ⟨fun c hc => ?_, ?_, ?_⟩
    · obtain ⟨d', hd', rfl⟩ := mem_map.mp hc
      obtain ⟨d, hd, rfl⟩ := mem_map.mp hd'
      exact (hdigit d (Nat.digits_lt_base (by decide) (mem_reverse.mp hd))).1
    · simp [Nat.digits_ne_nil_iff_ne_zero.mpr hzero]
    · rw [hreversed _ fun d hd => Nat.digits_lt_base (by decide) hd, Nat.ofDigits_digits]

/-! ## The two fields -/

theorem bytes_getD {l : List Byte} {start len : ℕ} (h : start + len ≤ l.length) :
    bytes (fun i => l.getD i 0) start len = (l.drop start).take len := by
  refine ext_getElem (by simp [bytes]; omega) fun i hi hi' => ?_
  have hlen : i < len := by simpa [bytes] using hi
  simp [bytes, List.getElem?_eq_getElem (show start + i < l.length by omega)]

namespace MnfPartition

variable (p : MnfPartition)

theorem length_content : 0x58 ≤ p.content.length := by
  simp only [content, length_append, p.length_before, p.length_hwver, p.length_hwver_lo]
  omega

theorem slice_hwver : (p.content.drop 0x50).take 4 = p.hwver := by
  rw [content, append_assoc, append_assoc, ← p.length_before, drop_left,
    ← p.length_hwver, take_left]

theorem slice_hwver_lo : (p.content.drop 0x54).take 4 = p.hwver_lo := by
  have hlength : (p.before ++ p.hwver).length = 0x54 := by
    rw [length_append, p.length_before, p.length_hwver]
  rw [content, append_assoc, ← hlength, drop_left, ← p.length_hwver_lo, take_left]

end MnfPartition

theorem isDigit_seven_bits {c : Byte} (h : isDigit c = true) : c &&& 0x80 = 0 := by
  revert c
  decide

theorem valid_of_isDigit {c : Byte} (h : isDigit c = true) :
    valid FieldType.digit.isClass c = true := by
  revert c
  decide

section

variable {p : MnfPartition} {digits : List Byte}

theorem mnfGetField_eq {field : Uboot.MnfField} (hfield : field = hwverField ∨ field = hwverLoField)
    (hslice : (p.content.drop field.offset).take 4 = digits)
    (hdigits : ∀ c ∈ digits, isDigit c = true) : mnfGetField p field = digits := by
  have htake : (digits.take 4).takeWhile (fun b => b &&& 0x80 = 0) = digits := by
    rw [← hslice, take_take, Nat.min_self, hslice, takeWhile_eq_self_iff]
    exact fun c hc => decide_eq_true (isDigit_seven_bits (hdigits c hc))
  rcases hfield with rfl | rfl
  · exact (congrArg (fun l => (l.take 4).takeWhile fun b => b &&& 0x80 = 0) hslice).trans htake
  · exact (congrArg (fun l => (l.take 4).takeWhile fun b => b &&& 0x80 = 0) hslice).trans htake

theorem entryText_eq {start : ℕ} (hstart : start + 4 ≤ p.content.length)
    (hslice : (p.content.drop start).take 4 = digits) (hne : digits ≠ [])
    (hdigits : ∀ c ∈ digits, isDigit c = true) : entryText p start = digits := by
  have hstored : (node p start).stored = digits := (bytes_getD hstart).trans hslice
  rw [entryText, text_fixTypes_of_valid (by rwa [hstored]) ?_ rfl, hstored]
  rw [hstored]
  exact fun c hc => valid_of_isDigit (hdigits c hc)

end

/-! ## When the versions agree -/

section

variable (p : MnfPartition)

theorem major_lt : p.major < 10000 := decimal_lt p.digits_hwver (Nat.le_of_eq p.length_hwver)

theorem minor_lt : p.minor < 10000 := decimal_lt p.digits_hwver_lo (Nat.le_of_eq p.length_hwver_lo)

theorem bootHwver_eq : bootHwver p = 100 * withoutRf p.major + withoutRf p.minor := by
  rw [bootHwver, mnfGetField_eq (.inl rfl) p.slice_hwver p.digits_hwver,
    mnfGetField_eq (.inr rfl) p.slice_hwver_lo p.digits_hwver_lo,
    simpleStrtol_eq p.digits_hwver (Nat.le_of_eq p.length_hwver),
    simpleStrtol_eq p.digits_hwver_lo (Nat.le_of_eq p.length_hwver_lo)]
  rfl

/-- A part of the version has two digits, and is 0 only if the field is. -/
theorem withoutRf_spec {n : ℕ} (h : n < 10000) :
    ∃ m : ℕ, withoutRf n = m ∧ m < 100 ∧ (m = 0 ↔ n = 0) := by
  rw [withoutRf]
  split_ifs with hlarge
  · exact ⟨n / 100, by omega, by omega, by omega⟩
  · exact ⟨n, rfl, by omega, Iff.rfl⟩

/-- The number on the command line comes to the kernel as it is. -/
theorem kstrtoint_hwverArgument {n : ℕ} (hboot : bootHwver p = n) (hn : n < 10000) :
    kstrtoint ((hwverArgument p).take 15) = some (n : ℤ) := by
  obtain ⟨hdigits, hne, hvalue⟩ := decimal_unsigned n
  have hargument : hwverArgument p = (Decimal.unsigned n).map fun c => BitVec.ofNat 8 c.toNat := by
    rw [hwverArgument, hboot, Decimal.signed, if_neg (by omega), Int.natAbs_natCast]
  have hlength : (hwverArgument p).length ≤ 15 := by
    rw [hargument, length_map]
    exact (Decimal.length_unsigned_le (by decide) hn).trans (by decide : 4 ≤ 15)
  rw [take_of_length_le hlength, hargument, kstrtoint_eq hdigits hne (by omega), hvalue]

theorem mnfInfoGetFullHwVersion_late (is_full_hwver : Bool) :
    mnfInfoGetFullHwVersion (late p is_full_hwver)
      = if p.major = 0 then 0 else 100 * withoutRf p.major + withoutRf p.minor := by
  have hmajor := major_lt p
  have hminor := minor_lt p
  have hhwver : kstrtoint (entryText p 0x50) = some (p.major : ℤ) := by
    have hne : p.hwver ≠ [] := fun h => absurd p.length_hwver (by simp [h])
    rw [entryText_eq (by have := p.length_content; omega) p.slice_hwver hne p.digits_hwver]
    exact kstrtoint_eq p.digits_hwver hne (Nat.lt_trans hmajor (by decide))
  have hhwver_lo : kstrtoint (entryText p 0x54) = some (p.minor : ℤ) := by
    have hne : p.hwver_lo ≠ [] := fun h => absurd p.length_hwver_lo (by simp [h])
    rw [entryText_eq (by have := p.length_content; omega) p.slice_hwver_lo hne p.digits_hwver_lo]
    exact kstrtoint_eq p.digits_hwver_lo hne (Nat.lt_trans hminor (by decide))
  simp only [mnfInfoGetFullHwVersion, late, Option.getD_some, hhwver, hhwver_lo]
  simp only [Bool.true_eq_false, false_and, if_false, Int.natCast_eq_zero]
  split_ifs with hzero
  · rw [hzero]
    rfl
  · rfl

theorem mnfInfoGetFullHwVersion_early {n : ℕ} (hboot : bootHwver p = n) (hn : n < 10000)
    (is_full_hwver : Bool) :
    mnfInfoGetFullHwVersion (early p is_full_hwver)
      = if is_full_hwver = true ∨ n = 0 then (n : ℤ) else withoutRf n * 100 := by
  simp only [mnfInfoGetFullHwVersion, early, kstrtoint_hwverArgument p hboot hn]
  cases is_full_hwver <;> simp

/-- The versions agree if and only if the minor one is 0, or the kernel is told that the version is
a full one and the device is no prototype. -/
theorem agrees_iff (is_full_hwver : Bool) :
    Agrees p is_full_hwver ↔ p.minor = 0 ∨ is_full_hwver = true ∧ p.major ≠ 0 := by
  obtain ⟨hi, hhi, hhi_lt, hhi_zero⟩ := withoutRf_spec (major_lt p)
  obtain ⟨lo, hlo, hlo_lt, hlo_zero⟩ := withoutRf_spec (minor_lt p)
  have hboot : bootHwver p = (100 * hi + lo : ℕ) := by
    rw [bootHwver_eq, hhi, hlo]
    push_cast
    rfl
  have hearly := mnfInfoGetFullHwVersion_early p hboot (by omega) is_full_hwver
  have hlate := mnfInfoGetFullHwVersion_late p is_full_hwver
  rw [hhi, hlo] at hlate
  constructor
  · rintro ⟨hbefore, hafter⟩
    rw [hearly, hboot] at hbefore
    rw [hlate, hboot] at hafter
    by_cases hmajor : p.major = 0
    · -- a prototype, whose minor version the kernel leaves out
      rw [if_pos hmajor] at hafter
      exact .inl (by omega)
    · cases is_full_hwver with
      | true => exact .inr ⟨rfl, hmajor⟩
      | false =>
        have hnot : ¬(false = true ∨ 100 * hi + lo = 0) := by
          rw [or_iff_right Bool.false_ne_true]
          omega
        rw [if_neg hnot, withoutRf, if_pos (by omega)] at hbefore
        exact .inl (by omega)
  · rintro (hminor | ⟨hfull, hmajor⟩)
    · have hzero : lo = 0 := hlo_zero.mpr hminor
      constructor
      · rw [hearly, hboot, withoutRf]
        split_ifs <;> omega
      · rw [hlate, hboot]
        split_ifs <;> omega
    · constructor
      · rw [hearly, hboot, if_pos (.inl hfull)]
      · rw [hlate, hboot, if_neg hmajor]
        push_cast
        rfl

/-- A partition whose fields are `0001` and `0002`, or `0000` and `0001`. -/
def samplePartition (prototype : Bool) : MnfPartition where
  before := List.replicate 0x50 0xff
  hwver := if prototype then [0x30, 0x30, 0x30, 0x30] else [0x30, 0x30, 0x30, 0x31]
  hwver_lo := if prototype then [0x30, 0x30, 0x30, 0x31] else [0x30, 0x30, 0x30, 0x32]
  behind := []
  length_before := length_replicate
  length_hwver := by cases prototype <;> rfl
  length_hwver_lo := by cases prototype <;> rfl
  digits_hwver := by cases prototype <;> decide
  digits_hwver_lo := by cases prototype <;> decide

/-- Without the second argument the minor version is lost until the driver is probed; that of a
prototype is lost when it is probed. -/
theorem samplePartition_not_agrees :
    bootHwver (samplePartition false) = 102
      ∧ mnfInfoGetFullHwVersion (early (samplePartition false) false) = 100
      ∧ ¬Agrees (samplePartition false) false
      ∧ bootHwver (samplePartition true) = 1
      ∧ mnfInfoGetFullHwVersion (late (samplePartition true) true) = 0
      ∧ ¬Agrees (samplePartition true) true := by
  have hboot : bootHwver (samplePartition false) = 102 := by decide
  have hearly : mnfInfoGetFullHwVersion (early (samplePartition false) false) = 100 := by
    decide
  have hboot' : bootHwver (samplePartition true) = 1 := by decide
  have hlate : mnfInfoGetFullHwVersion (late (samplePartition true) true) = 0 := by
    decide
  refine ⟨hboot, hearly, fun h => ?_, hboot', hlate, fun h => ?_⟩
  · exact absurd (hearly.symm.trans (h.before_probe.trans hboot)) (by decide)
  · exact absurd (hlate.symm.trans (h.after_probe.trans hboot')) (by decide)

end

end RutosSdk.Drivers.HwVersion
