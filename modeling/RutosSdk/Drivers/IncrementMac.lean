import Mathlib.Data.Nat.Digits.Lemmas
import RutosSdk.Drivers.FixTypes

/-! # The MAC address of the second interface

Reference: `increment_mac`, `fix_mac_type` and `fix_types` for the types `maceth` and `maceth_ascii`
in `target/linux/generic/files/drivers/sysfs-mnfinfo/sysfs-mnfinfo.c`.

The address is the stored one plus one, counted on its hexadecimal text from the last digit on. The
digit behind one is looked up in the text of all digits, which has capital letters. An address of
six bytes is printed with these; one that is stored as text may have small letters, which the search
does not find, and its result is used without a test.
-/

namespace RutosSdk.Drivers.IncrementMac

open List MnfInfo FixTypes

/-! ## Digits -/

/-- The small letters among hexadecimal digits. -/
def small : List Byte := [0x61, 0x62, 0x63, 0x64, 0x65, 0x66]

/-- The number that a text stands for. -/
def value (t : List Byte) : ℕ := Nat.ofDigits 16 (t.reverse.map digitValue)

/-- `strchr(symbol, c)`, as an index. The zero behind the text is found as well. -/
def strchr (c : Byte) : Option ℕ := (hexChars ++ [0]).idxOf? c

/-- `hex[1]`, if there is one. -/
def nextSymbol (c : Byte) : Option Byte := (strchr c).bind fun hex => (hexChars ++ [0])[hex + 1]?

/-- `%02X` -/
def printByte (b : Byte) : List Byte :=
  [hexChars.getD (b.toNat / 16) 0, hexChars.getD (b.toNat % 16) 0]

/-! ## The address -/

/-- The loop of `increment_mac` over the characters from the last one on. There is no result if a
lookup fails. -/
def incrementLoop : List Byte → Option (List Byte)
  | [] => some []
  | c :: cs =>
    if c ≠ 0x46 then (nextSymbol c).map (· :: cs)
    else (incrementLoop cs).map (0x30 :: ·)

/-- `increment_mac` on the characters of a text. -/
def incrementText (t : List Byte) : Option (List Byte) := (incrementLoop t.reverse).map List.reverse

/-- `increment_mac` -/
def incrementMac (data : List Byte) : Option (List Byte) :=
  (incrementText (cstr data)).map (· ++ data.drop (cstr data).length)

/-- `fix_mac_type` -/
def fixMacType (data : List Byte) (len : ℕ) (default : Option (List Byte)) : ℤ × List Byte :=
  let printed := snprintf data ((data.take 6).flatMap printByte)
  match default with
  | none => (0, printed)
  | some d =>
    if len ≠ 6 ∨ data.take 6 = List.replicate 6 0xff then (0, snprintf data d) else (0, printed)

/-- The types of a field whose value is the address that follows the stored one. -/
inductive MacType where
  | maceth
  | maceth_ascii
deriving DecidableEq, Repr

/-- The pass of a type that comes before `increment_mac`. -/
def MacType.fix : MacType → List Byte → ℕ → Option (List Byte) → ℤ × List Byte
  | .maceth => fixMacType
  | .maceth_ascii => fixAsciiType

variable (type : MacType) (bytes : List Byte)

/-- `fix_types` for these types, in place of the type of the field: the status and the buffer. -/
def fixTypes (f : Field) : Option (ℤ × List Byte) :=
  let data := if f.rs_alligned then fixRsAllign f.data else f.data
  let (rc, data) := type.fix data f.flash.length f.default
  (incrementMac data).map fun data =>
    if rc = 0 ∧ f.strip then (rc, stripWhitespaces data) else (rc, data)

/-! ## What is expected of the text -/

/-- The text of a field, from the first byte that is set if it is alligned to the right. -/
def storedText (f : Field) : List Byte := f.stored.takeWhile (valid isAscii)

/-- The field has an address: six bytes from its start on, with room for twelve digits, that are not
the erased ones of a field with a default, or a text of hexadecimal digits. -/
def StoresMac (f : Field) : Prop :=
  match type with
  | .maceth => f.flash.length = 6 ∧ f.stored = f.flash ∧ 12 < f.dt_len ∧
    (f.default.isSome → f.flash ≠ List.replicate 6 0xff)
  | .maceth_ascii => storedText f ≠ [] ∧ ∀ c ∈ storedText f, isHexDigit c = true

/-- The digits of bytes, each with the high one first. -/
def nibbles : List ℕ := bytes.flatMap fun b => [b.toNat / 16, b.toNat % 16]

/-- The digits of the stored number, the first one first. -/
def storedDigits (f : Field) : List ℕ :=
  match type with
  | .maceth => nibbles f.flash
  | .maceth_ascii => (storedText f).map digitValue

/-- The text has as many digits, and they are those of the number plus one. -/
structure Follows (digits : List ℕ) (t : List Byte) : Prop where
  hex : ∀ c ∈ t, isHexDigit c = true
  length : t.length = digits.length
  value : value t = (Nat.ofDigits 16 digits.reverse + 1) % 16 ^ digits.length

/-- No lookup fails, and the text in the buffer follows the stored address. -/
def IncrementsMac (f : Field) : Prop :=
  ∃ rc data, fixTypes type f = some (rc, data) ∧ Follows (storedDigits type f) (cstr data)

/-- The last character that is not an `F` is not a small letter. -/
def NoSmallLast (t : List Byte) : Prop := ∀ c ∈ (t.rdropWhile (· == 0x46)).getLast?, c ∉ small

/-! ## Counting -/

variable {c : Byte} {f : Field}

theorem isHexDigit_iff_or : isHexDigit c = true ↔ c ∈ hexChars ∨ c ∈ small := by
  revert c
  decide

theorem isHexDigit_of_mem (h : c ∈ hexChars) : isHexDigit c = true := isHexDigit_iff_or.mpr (.inl h)

theorem digitValue_lt (h : isHexDigit c = true) : digitValue c < 16 := by
  have hall : (∀ c ∈ hexChars, digitValue c < 16) ∧ ∀ c ∈ small, digitValue c < 16 := by decide
  exact (isHexDigit_iff_or.mp h).elim (hall.1 c) (hall.2 c)

theorem nextSymbol_of_mem (h : c ∈ hexChars) (hne : c ≠ 0x46) :
    ∃ d ∈ hexChars, nextSymbol c = some d ∧ digitValue d = digitValue c + 1 := by
  have hall : ∀ c ∈ hexChars, c ≠ 0x46 →
      ∃ d ∈ hexChars, nextSymbol c = some d ∧ digitValue d = digitValue c + 1 := by decide
  exact hall c h hne

theorem nextSymbol_of_small (h : c ∈ small) : nextSymbol c = none := by
  have hall : ∀ c ∈ small, nextSymbol c = none := by decide
  exact hall c h

theorem incrementLoop_cons_of_ne (cs : List Byte) (h : c ≠ 0x46) :
    incrementLoop (c :: cs) = (nextSymbol c).map (· :: cs) := if_pos h

theorem incrementLoop_cons_last (cs : List Byte) :
    incrementLoop (0x46 :: cs) = (incrementLoop cs).map (0x30 :: ·) := rfl

theorem ofDigits_map_cons (c : Byte) (cs : List Byte) :
    Nat.ofDigits 16 ((c :: cs).map digitValue)
      = digitValue c + 16 * Nat.ofDigits 16 (cs.map digitValue) := by
  rw [map_cons, Nat.ofDigits_cons]

/-- The digits from the last one on, if a small letter is not to be increased. -/
theorem incrementLoop_spec {cs : List Byte} (hhex : ∀ c ∈ cs, isHexDigit c = true)
    (hsmall : ∀ c ∈ (cs.dropWhile (· == 0x46)).head?, c ∉ small) :
    ∃ cs', incrementLoop cs = some cs' ∧ cs'.length = cs.length ∧
      (∀ c ∈ cs', isHexDigit c = true) ∧
      Nat.ofDigits 16 (cs'.map digitValue)
        = (Nat.ofDigits 16 (cs.map digitValue) + 1) % 16 ^ cs.length := by
  induction cs with
  | nil => exact ⟨[], rfl, rfl, by simp, rfl⟩
  | cons c cs ih =>
    have htail : ∀ d ∈ cs, isHexDigit d = true := fun d hd => hhex d (mem_cons_of_mem c hd)
    by_cases hc : c = 0x46
    · -- the carry goes on
      subst hc
      rw [dropWhile_cons_of_pos (by decide)] at hsmall
      obtain ⟨cs', hloop, hlength, hhex', hvalue⟩ := ih htail hsmall
      refine ⟨0x30 :: cs', by rw [incrementLoop_cons_last, hloop]; rfl, by simp [hlength],
        forall_mem_cons.mpr ⟨rfl, hhex'⟩, ?_⟩
      have hzero : digitValue 0x30 = 0 := rfl
      have hlast : digitValue 0x46 = 15 := rfl
      have hsum : digitValue 0x46 + 16 * Nat.ofDigits 16 (cs.map digitValue) + 1
          = 16 * (Nat.ofDigits 16 (cs.map digitValue) + 1) := by omega
      rw [ofDigits_map_cons, ofDigits_map_cons, hvalue, hzero, Nat.zero_add, hsum,
        length_cons, Nat.pow_succ', Nat.mul_mod_mul_left]
    · rw [dropWhile_cons_of_neg (by simpa using hc)] at hsmall
      have hmem : c ∈ hexChars :=
        (isHexDigit_iff_or.mp (hhex c mem_cons_self)).resolve_right (hsmall c rfl)
      obtain ⟨d, hd, hnext, hvalue⟩ := nextSymbol_of_mem hmem hc
      have hhex' : ∀ e ∈ d :: cs, isHexDigit e = true :=
        forall_mem_cons.mpr ⟨isHexDigit_of_mem hd, htail⟩
      have hlt : Nat.ofDigits 16 ((d :: cs).map digitValue)
          < 16 ^ ((d :: cs).map digitValue).length :=
        Nat.ofDigits_lt_base_pow_length (by decide) fun n hn => by
          obtain ⟨e, he, rfl⟩ := mem_map.mp hn
          exact digitValue_lt (hhex' e he)
      refine ⟨d :: cs, by rw [incrementLoop_cons_of_ne cs hc, hnext]; rfl, rfl, hhex', ?_⟩
      rw [length_map, length_cons] at hlt
      have hsum : Nat.ofDigits 16 ((c :: cs).map digitValue) + 1
          = Nat.ofDigits 16 ((d :: cs).map digitValue) := by
        rw [ofDigits_map_cons, ofDigits_map_cons, hvalue]
        omega
      rw [hsum, length_cons, Nat.mod_eq_of_lt hlt]

theorem incrementLoop_of_small {cs : List Byte} (h : (cs.dropWhile (· == 0x46)).head? = some c)
    (hc : c ∈ small) : incrementLoop cs = none := by
  induction cs with
  | nil => simp at h
  | cons d cs ih =>
    by_cases hd : d = 0x46
    · rw [dropWhile_cons_of_pos (by simpa using hd)] at h
      rw [hd, incrementLoop_cons_last, ih h]
      rfl
    · rw [dropWhile_cons_of_neg (by simpa using hd)] at h
      obtain rfl := Option.some.inj h
      rw [incrementLoop_cons_of_ne cs hd, nextSymbol_of_small hc]
      rfl

theorem getLast?_rdropWhile (p : Byte → Bool) (t : List Byte) :
    (t.rdropWhile p).getLast? = (t.reverse.dropWhile p).head? := by
  rw [List.rdropWhile, List.getLast?_reverse]

variable {t t' : List Byte}

theorem incrementText_spec (hhex : ∀ c ∈ t, isHexDigit c = true) (hsmall : NoSmallLast t) :
    ∃ t', incrementText t = some t' ∧ t'.length = t.length ∧ (∀ c ∈ t', isHexDigit c = true) ∧
      value t' = (value t + 1) % 16 ^ t.length := by
  unfold NoSmallLast at hsmall
  rw [getLast?_rdropWhile] at hsmall
  obtain ⟨cs', hloop, hlength, hhex', hvalue⟩ :=
    incrementLoop_spec (fun c hc => hhex c (mem_reverse.mp hc)) hsmall
  rw [length_reverse] at hlength hvalue
  refine ⟨cs'.reverse, by rw [incrementText, hloop]; rfl, by rw [length_reverse, hlength],
    fun c hc => hhex' c (mem_reverse.mp hc), ?_⟩
  rw [value, reverse_reverse, hvalue, value]

theorem incrementText_of_small (hsmall : ¬NoSmallLast t) : incrementText t = none := by
  unfold NoSmallLast at hsmall
  rw [getLast?_rdropWhile] at hsmall
  push Not at hsmall
  obtain ⟨c, hlast, hc⟩ := hsmall
  rw [incrementText, incrementLoop_of_small hlast hc]
  rfl

/-- Nothing of a text of digits ends a string or is stripped. -/
theorem solid_of_isHexDigit (h : isHexDigit c = true) : c ≠ 0 ∧ strippable c = false := by
  have hall : (∀ c ∈ hexChars, c ≠ 0 ∧ strippable c = false)
      ∧ ∀ c ∈ small, c ≠ 0 ∧ strippable c = false := by decide
  exact (isHexDigit_iff_or.mp h).elim (hall.1 c) (hall.2 c)

theorem text_stripWhitespaces (hhex : ∀ c ∈ t, isHexDigit c = true) (rest : List Byte) :
    cstr (stripWhitespaces (t ++ 0 :: rest)) = t := by
  have hzero : 0 ∉ t := fun h => (solid_of_isHexDigit (hhex 0 h)).1 rfl
  by_cases hrest : ∃ c ∈ rest, strippable c = false
  · obtain ⟨rest', hsame⟩ := stripWhitespaces_of_exists t hrest
    rw [hsame, text_append_zero hzero]
  · have hall : ∀ c ∈ rest, strippable c = true := fun c hc =>
      (Bool.eq_false_or_eq_true _).resolve_right fun h => hrest ⟨c, hc, h⟩
    obtain ⟨rest', hoff⟩ := stripWhitespaces_of_forall t hall
    have hkept : t.rdropWhile strippable = t := by
      refine rdropWhile_eq_self_iff.mpr fun hne => ?_
      simp [solid_of_isHexDigit (hhex _ (getLast_mem hne))]
    rw [hoff, hkept, text_append_zero hzero]

/-- The text that the pass of the type leaves decides. -/
theorem incrementsMac_iff_noSmallLast {type : MacType} {alligned rest : List Byte} {rc : ℤ}
    (halligned : (if f.rs_alligned then fixRsAllign f.data else f.data) = alligned)
    (h : type.fix alligned f.flash.length f.default = (rc, t ++ 0 :: rest))
    (hhex : ∀ c ∈ t, isHexDigit c = true) (hdigits : storedDigits type f = t.map digitValue) :
    IncrementsMac type f ↔ NoSmallLast t := by
  have htext := text_append_zero (fun h => (solid_of_isHexDigit (hhex 0 h)).1 rfl) rest
  have hdata : incrementMac (t ++ 0 :: rest) = (incrementText t).map (· ++ 0 :: rest) := by
    rw [incrementMac, htext, drop_left]
  unfold IncrementsMac fixTypes
  rw [halligned]
  dsimp only
  rw [h]
  rw [hdata, hdigits]
  by_cases hsmall : NoSmallLast t
  · obtain ⟨t', hinc, hlength, hhex', hvalue⟩ := incrementText_spec hhex hsmall
    have hfollows : Follows (t.map digitValue) t' := by
      refine ⟨hhex', by rw [hlength, length_map], ?_⟩
      rw [hvalue, value, map_reverse, length_map]
    refine iff_of_true ?_ hsmall
    rw [hinc, Option.map_some, Option.map_some]
    split_ifs
    · exact ⟨_, _, rfl, (text_stripWhitespaces hhex' rest).symm ▸ hfollows⟩
    · have hsame := text_append_zero (fun h => (solid_of_isHexDigit (hhex' 0 h)).1 rfl) rest
      exact ⟨_, _, rfl, hsame.symm ▸ hfollows⟩
  · rw [incrementText_of_small hsmall]
    exact iff_of_false (by simp) hsmall

/-! ## Text -/

theorem incrementsMac_ascii_iff (h : StoresMac .maceth_ascii f) :
    IncrementsMac .maceth_ascii f ↔ NoSmallLast (storedText f) := by
  obtain ⟨n, hdata, -⟩ := f.exists_alligned
  obtain ⟨c, cs, hstored, hc⟩ := (takeWhile_valid_ne_nil_iff f.stored).mp h.1
  obtain ⟨rest, hblank, -⟩ := exists_map_blank isAscii f.stored n
  have hclass : MacType.maceth_ascii.fix (c :: cs ++ List.replicate (n + 1) 0) f.flash.length
      f.default = (0, (c :: cs).map (blank isAscii) ++ List.replicate (n + 1) 0) :=
    fixClassType_of_valid f.default hc (hstored ▸ f.stored_suffix.length_le)
  rw [← hstored, hblank] at hclass
  exact incrementsMac_iff_noSmallLast hdata hclass h.2 rfl

/-! ## Six bytes -/

theorem printByte_spec (b : Byte) :
    (∀ c ∈ printByte b, c ∈ hexChars) ∧
      (printByte b).map digitValue = [b.toNat / 16, b.toNat % 16] := by
  have hall : ∀ k < 16,
      hexChars.getD k 0 ∈ hexChars ∧ digitValue (hexChars.getD k 0) = k := by decide
  have hhigh := hall (b.toNat / 16) (by have := b.isLt; omega)
  have hlow := hall (b.toNat % 16) (by omega)
  refine ⟨?_, by rw [printByte, map_cons, map_singleton, hhigh.2, hlow.2]⟩
  rw [printByte]
  exact forall_mem_cons.mpr ⟨hhigh.1, forall_mem_singleton.mpr hlow.1⟩

theorem mem_flatMap_printByte {bytes : List Byte} (h : c ∈ bytes.flatMap printByte) :
    c ∈ hexChars := by
  obtain ⟨b, -, hc⟩ := mem_flatMap.mp h
  exact (printByte_spec b).1 c hc

theorem map_flatMap_printByte : (bytes.flatMap printByte).map digitValue = nibbles bytes := by
  induction bytes with
  | nil => rfl
  | cons b bytes ih =>
    rw [flatMap_cons, map_append, ih, (printByte_spec b).2]
    rfl

theorem length_flatMap_printByte : (bytes.flatMap printByte).length = 2 * bytes.length := by
  induction bytes with
  | nil => rfl
  | cons b bytes ih =>
    rw [flatMap_cons, length_append, ih, length_cons]
    exact Nat.add_comm 2 _

theorem incrementsMac_maceth (h : StoresMac .maceth f) : IncrementsMac .maceth f := by
  obtain ⟨hlen, hstored, hroom, hset⟩ := h
  obtain ⟨n, hdata, hlength⟩ := f.exists_alligned
  have hprinted := snprintf_append_zeros f (f.flash.flatMap printByte) hlength
  -- the twelve digits fit the buffer
  have hcut : f.cut (f.flash.flatMap printByte) = f.flash.flatMap printByte :=
    take_of_length_le (by rw [length_flatMap_printByte]; omega)
  rw [hcut, hstored] at hprinted
  have hsix : (f.flash ++ List.replicate (n + 1) 0).take 6 = f.flash := take_left' hlen
  have hfix : MacType.maceth.fix (f.flash ++ List.replicate (n + 1) 0) f.flash.length f.default
      = (0, snprintf (f.flash ++ List.replicate (n + 1) 0) (f.flash.flatMap printByte)) := by
    change fixMacType _ _ _ = _
    unfold fixMacType
    rw [hsix]
    cases hdefault : f.default with
    | none => rfl
    | some d =>
      have hne := hset (by rw [hdefault]; rfl)
      exact if_neg fun h => h.elim (fun h => h hlen) hne
  rw [hprinted] at hfix
  rw [hstored] at hdata
  have hhex : ∀ c ∈ f.flash.flatMap printByte, isHexDigit c = true :=
    fun c hc => isHexDigit_of_mem (mem_flatMap_printByte hc)
  have hdigits := (map_flatMap_printByte f.flash).symm
  refine (incrementsMac_iff_noSmallLast hdata hfix hhex hdigits).mpr fun c hlast => ?_
  have hdisjoint : ∀ c ∈ hexChars, c ∉ small := by decide
  have hmem := mem_of_getLast? hlast
  exact hdisjoint c (mem_flatMap_printByte ((List.rdropWhile_prefix _ _).subset hmem))

/-- The address that follows the stored one is shown if and only if no small letter is to be
increased in a text. -/
theorem incrementsMac_iff (type : MacType) (f : Field) (h : StoresMac type f) :
    IncrementsMac type f ↔ (type = .maceth_ascii → NoSmallLast (storedText f)) := by
  cases type with
  | maceth => exact iff_of_true (incrementsMac_maceth h) (by simp)
  | maceth_ascii => simpa using incrementsMac_ascii_iff h

/-- The text `001e4235023a`. -/
def smallLetters : Field := { hiddenBlank with
  flash := [0x30, 0x30, 0x31, 0x65, 0x34, 0x32, 0x33, 0x35, 0x30, 0x32, 0x33, 0x61]
  dt_len := 13
  strip := false
  shorter := by decide }

theorem smallLetters_incrementsMac_iff :
    StoresMac .maceth_ascii smallLetters ∧
      (IncrementsMac .maceth_ascii smallLetters ↔
        (MacType.maceth_ascii = .maceth_ascii → NoSmallLast (storedText smallLetters))) := by
  have hstores : StoresMac .maceth_ascii smallLetters := ⟨by decide, by decide⟩
  exact ⟨hstores, incrementsMac_iff .maceth_ascii smallLetters hstores⟩

/-- Its last digit is not found. -/
theorem smallLetters_not_incrementsMac :
    StoresMac .maceth_ascii smallLetters ∧ fixTypes .maceth_ascii smallLetters = none ∧
      ¬IncrementsMac .maceth_ascii smallLetters := by
  have hfails : fixTypes .maceth_ascii smallLetters = none := by decide
  refine ⟨⟨by decide, by decide⟩, hfails, ?_⟩
  rintro ⟨rc, data, hsome, -⟩
  rw [hfails] at hsome
  cases hsome

end RutosSdk.Drivers.IncrementMac
