import Mathlib.Data.List.GetD
import Mathlib.Data.List.TakeWhile
import RutosSdk.Uboot.MnfRepair

/-! # Fields from text and back

Reference: `mnf_str_to_field` and `mnf_field_to_str` in
`package/boot/uboot-mt7621/src/lib/tlt/mnf_lib.c`.

A field is set from a text, and shown as one. A binary field is set from hexadecimal digits, two for
each byte, and what the text leaves of the field is filled with `0xff`. The digits are looked up
with `strchr`, which also finds the zero at the end of the table: a text with an odd number of
digits is read beyond its end.
-/

namespace RutosSdk.Uboot

open List

/-- A text, without the zero at its end. -/
structure CString where
  chars : List Byte
  no_zero : 0 ∉ chars

/-- A text in upper case, cut to the digits of `length` bytes or filled up to them with `FF`. -/
def hexText (length : ℕ) (input : List Byte) : List Byte :=
  (input.take (2 * length)).map toUpper ++ List.replicate (2 * length - input.length) 0x46

/-- A text that is accepted is shown again, as far as it fits: by its digits if the field is a
binary one, and by its characters if it is not and they have 7 bits. -/
structure RoundTrips (field : MnfField) (input : CString) : Prop where
  binary : field.binary = true → ∀ behind, (mnfStrToField field input.chars behind).1 = false →
    (∀ c ∈ input.chars.take (2 * field.length), isHexDigit c = true)
      ∧ mnfFieldToStr field (mnfStrToField field input.chars behind).2
        = hexText field.length input.chars
      ∧ (input.chars.length < 2 * field.length → input.chars.length % 2 = 0)
  text : field.binary = false → (∀ c ∈ input.chars, c &&& 0x80 = 0) → ∀ behind,
    (mnfStrToField field input.chars behind).1 = false →
      mnfFieldToStr field (mnfStrToField field input.chars behind).2 = input.chars.take field.length

/-! ## Digits -/

theorem hexcharToInt_eq {c : Byte} (hc : c ≠ 0) :
    hexcharToInt c = if isHexDigit c then some (digitValue c) else none := by
  have hupper : toUpper c ≠ 0 := by
    revert c
    decide
  rw [hexcharToInt, List.idxOf?, List.findIdx?_append]
  by_cases hmem : toUpper c ∈ hexChars
  · have hfound : hexChars.findIdx? (· == toUpper c) = some (digitValue c) :=
      List.findIdx?_eq_some_iff_findIdx_eq.mpr ⟨idxOf_lt_length_of_mem hmem, rfl⟩
    rw [hfound, if_pos (isHexDigit_iff.mpr hmem)]
    rfl
  · have hnot : ∀ l : List Byte, toUpper c ∉ l → l.findIdx? (· == toUpper c) = none := by
      intro l hl
      rw [List.findIdx?_eq_none_iff]
      intro d hd
      exact beq_false_of_ne fun h => hl (h ▸ hd)
    rw [hnot hexChars hmem, hnot [0] fun h => hupper (mem_singleton.mp h),
      if_neg fun h => hmem (isHexDigit_iff.mp h)]
    rfl

theorem intToHexchar_digitValue {c : Byte} (h : isHexDigit c = true) :
    digitValue c < 16 ∧ intToHexchar (digitValue c) = toUpper c := by
  have hlt : digitValue c < hexChars.length :=
    idxOf_lt_length_of_mem (isHexDigit_iff.mp h)
  exact ⟨hlt, (getD_eq_getElem _ _ hlt).trans (getElem_idxOf hlt)⟩

/-- A byte from its two digits, and back. -/
theorem nibbles_eq : ∀ high < 16, ∀ low < 16,
    (BitVec.ofNat 8 high <<< 4 ||| BitVec.ofNat 8 low).toNat / 16 = high
      ∧ (BitVec.ofNat 8 high <<< 4 ||| BitVec.ofNat 8 low).toNat % 16 = low := by
  decide

theorem binToHexstr_cons (b : Byte) (bs : List Byte) :
    binToHexstr (b :: bs)
      = intToHexchar (b.toNat / 16) :: intToHexchar (b.toNat % 16) :: binToHexstr bs := rfl

theorem binToHexstr_erased (n : ℕ) :
    binToHexstr (List.replicate n 0xff) = List.replicate (2 * n) 0x46 := by
  induction n with
  | zero => rfl
  | succ n ih => rw [replicate_succ, binToHexstr_cons, ih]; rfl

/-! ## Pairs of digits -/

theorem hexstrToBin_succ (char : ℕ → Byte) (i n : ℕ) :
    hexstrToBin char (i + 1) n = hexstrToBin (fun j => char (j + 2)) i n := by
  induction n generalizing i with
  | zero => rfl
  | succ n ih =>
    rw [hexstrToBin, hexstrToBin, ih, show (i + 1) * 2 = i * 2 + 2 by omega]

theorem charAt_add_two (a b : Byte) (input : List Byte) (behind : ℕ → Byte) (j : ℕ) :
    charAt (a :: b :: input) behind (j + 2) = charAt input behind j := by
  simp [charAt]

section

variable {a b : Byte} {input : List Byte} {behind : ℕ → Byte} {n : ℕ}

/-- Nothing is left of the text. -/
theorem hexstrToBin_nil (behind : ℕ → Byte) (n : ℕ) :
    hexstrToBin (charAt [] behind) 0 n = (false, List.replicate n 0xff) := by
  cases n with
  | zero => rfl
  | succ n => exact if_pos rfl

/-- The next two characters are a byte if they are digits. -/
theorem hexstrToBin_pair (ha : a ≠ 0) (hb : b ≠ 0) :
    hexstrToBin (charAt (a :: b :: input) behind) 0 (n + 1)
      = if isHexDigit a = true ∧ isHexDigit b = true then
          ((hexstrToBin (charAt input behind) 0 n).1,
            (BitVec.ofNat 8 (digitValue a) <<< 4 ||| BitVec.ofNat 8 (digitValue b))
              :: (hexstrToBin (charAt input behind) 0 n).2)
        else (true, List.replicate (n + 1) 0xff) := by
  have hrest : hexstrToBin (charAt (a :: b :: input) behind) (0 + 1) n
      = hexstrToBin (charAt input behind) 0 n := by
    rw [hexstrToBin_succ]
    exact congrArg (hexstrToBin · 0 n) (funext (charAt_add_two a b input behind))
  have hhigh : charAt (a :: b :: input) behind (0 * 2) = a := rfl
  have hlow : charAt (a :: b :: input) behind (0 * 2 + 1) = b := rfl
  rw [hexstrToBin, hrest, hhigh, hlow, if_neg ha, hexcharToInt_eq ha, hexcharToInt_eq hb]
  cases isHexDigit a <;> cases isHexDigit b <;> rfl

/-- The last one of an odd number of digits is taken together with the zero behind it. -/
theorem hexstrToBin_last (ha : a ≠ 0) (behind : ℕ → Byte) (n : ℕ) :
    (hexstrToBin (charAt [a] behind) 0 (n + 1)).1
      = if isHexDigit a then (hexstrToBin behind 0 n).1 else true := by
  have hrest : hexstrToBin (charAt [a] behind) (0 + 1) n = hexstrToBin behind 0 n := by
    rw [hexstrToBin_succ]
    refine congrArg (hexstrToBin · 0 n) (funext fun j => ?_)
    simp [charAt]
  have hhigh : charAt [a] behind (0 * 2) = a := rfl
  have hlow : charAt [a] behind (0 * 2 + 1) = 0 := rfl
  have hzero : hexcharToInt 0 = some 16 := by decide
  rw [hexstrToBin, hrest, hhigh, hlow, if_neg ha, hexcharToInt_eq ha, hzero]
  cases isHexDigit a <;> rfl

end

/-! ## Texts that are accepted -/

/-- By induction on the length of the field, two characters at a time: what is read are digits. -/
theorem isHexDigit_of_accepted (behind : ℕ → Byte) (n : ℕ) {input : List Byte} (h0 : 0 ∉ input)
    (hok : (hexstrToBin (charAt input behind) 0 n).1 = false) :
    ∀ c ∈ input.take (2 * n), isHexDigit c = true := by
  induction n generalizing input with
  | zero => simp
  | succ n ih =>
    rcases input with _ | ⟨a, _ | ⟨b, input⟩⟩
    · simp
    · have ha : a ≠ 0 := fun h => h0 (h ▸ mem_cons_self)
      rw [hexstrToBin_last ha] at hok
      split at hok
      · rename_i hdigit
        simpa [show 2 * (n + 1) = 2 * n + 1 + 1 by omega] using hdigit
      · exact absurd hok (by simp)
    · have ha : a ≠ 0 := fun h => h0 (h ▸ mem_cons_self)
      have hb : b ≠ 0 := fun h => h0 (h ▸ mem_cons_of_mem a mem_cons_self)
      rw [hexstrToBin_pair ha hb] at hok
      split at hok
      · rename_i hdigits
        have hrest := ih (fun h => h0 (mem_cons_of_mem a (mem_cons_of_mem b h))) hok
        rw [show 2 * (n + 1) = 2 * n + 1 + 1 by omega, take_succ_cons,
          take_succ_cons, forall_mem_cons, forall_mem_cons]
        exact ⟨hdigits.1, hdigits.2, hrest⟩
      · exact absurd hok (by simp)

/-- A text that fills the field, or has two digits for each of its bytes. -/
theorem binToHexstr_of_accepted (behind : ℕ → Byte) (n : ℕ) {input : List Byte} (h0 : 0 ∉ input)
    (heven : input.length < 2 * n → input.length % 2 = 0)
    (hok : (hexstrToBin (charAt input behind) 0 n).1 = false) :
    binToHexstr (hexstrToBin (charAt input behind) 0 n).2 = hexText n input := by
  induction n generalizing input with
  | zero => simp [hexText, hexstrToBin, binToHexstr]
  | succ n ih =>
    rcases input with _ | ⟨a, _ | ⟨b, input⟩⟩
    · rw [hexstrToBin_nil, binToHexstr_erased, hexText]
      rfl
    · have := heven (show 1 < 2 * (n + 1) by omega)
      exact absurd this Nat.one_ne_zero
    · have ha : a ≠ 0 := fun h => h0 (h ▸ mem_cons_self)
      have hb : b ≠ 0 := fun h => h0 (h ▸ mem_cons_of_mem a mem_cons_self)
      rw [hexstrToBin_pair ha hb] at hok ⊢
      split at hok
      · rename_i hdigits
        obtain ⟨ha_lt, ha_char⟩ := intToHexchar_digitValue hdigits.1
        obtain ⟨hb_lt, hb_char⟩ := intToHexchar_digitValue hdigits.2
        obtain ⟨hhigh, hlow⟩ := nibbles_eq _ ha_lt _ hb_lt
        have hrest := ih (fun h => h0 (mem_cons_of_mem a (mem_cons_of_mem b h)))
          (fun h => by simp only [length_cons] at heven; omega) hok
        rw [if_pos hdigits, binToHexstr_cons, hhigh, hlow, ha_char, hb_char, hrest, hexText,
          hexText, show 2 * (n + 1) = 2 * n + 1 + 1 by omega, take_succ_cons, take_succ_cons,
          length_cons, length_cons, Nat.add_sub_add_right, Nat.add_sub_add_right]
        rfl
      · exact absurd hok (by simp)

/-- An odd number of digits is accepted, if a zero follows the one at the end of the text. -/
theorem accepted_of_odd (n : ℕ) {input : List Byte} (h0 : 0 ∉ input) (hodd : input.length % 2 = 1)
    (hshort : input.length < 2 * n) (hdigits : ∀ c ∈ input, isHexDigit c = true) :
    (hexstrToBin (charAt input fun _ => 0) 0 n).1 = false := by
  induction n generalizing input with
  | zero => rfl
  | succ n ih =>
    rcases input with _ | ⟨a, _ | ⟨b, input⟩⟩
    · exact absurd hodd (by decide)
    · have ha : a ≠ 0 := fun h => h0 (h ▸ mem_cons_self)
      rw [hexstrToBin_last ha, if_pos (hdigits a mem_cons_self)]
      cases n <;> rfl
    · have ha : a ≠ 0 := fun h => h0 (h ▸ mem_cons_self)
      have hb : b ≠ 0 := fun h => h0 (h ▸ mem_cons_of_mem a mem_cons_self)
      rw [forall_mem_cons, forall_mem_cons] at hdigits
      simp only [length_cons] at hodd hshort
      rw [hexstrToBin_pair ha hb, if_pos ⟨hdigits.1, hdigits.2.1⟩]
      exact ih (fun h => h0 (mem_cons_of_mem a (mem_cons_of_mem b h))) (by omega)
        (by omega) hdigits.2.2

/-! ## Which texts are shown again -/

section

variable {field : MnfField}

theorem mnfStrToField_accepted_iff (hbin : field.binary = true) (input : List Byte)
    (behind : ℕ → Byte) :
    (mnfStrToField field input behind).1 = false
      ↔ (hexstrToBin (charAt input behind) 0 field.length).1 = false := by
  rw [mnfStrToField, if_pos hbin]
  dsimp only
  split
  · rfl
  · rename_i hok
    simpa using hok

theorem mnfFieldToStr_of_accepted (hbin : field.binary = true) {input : List Byte}
    {behind : ℕ → Byte} (hok : (hexstrToBin (charAt input behind) 0 field.length).1 = false) :
    mnfFieldToStr field (mnfStrToField field input behind).2
      = binToHexstr (hexstrToBin (charAt input behind) 0 field.length).2 := by
  rw [mnfFieldToStr, if_pos hbin, mnfStrToField, if_pos hbin]
  rw [if_neg (by simp [hok]), applyMnfOrder_applyMnfOrder]

end

/-- A text is shown again if and only if it is not an odd number of digits that leaves room in a
binary field. -/
theorem roundTrips_iff (field : MnfField) (input : CString) :
    RoundTrips field input ↔ ¬(field.binary = true ∧ input.chars.length < 2 * field.length
      ∧ input.chars.length % 2 = 1 ∧ ∀ c ∈ input.chars, isHexDigit c = true) := by
  constructor
  · rintro htrips ⟨hbin, hshort, hodd, hdigits⟩
    have hok := accepted_of_odd field.length input.no_zero hodd hshort hdigits
    have heven := (htrips.binary hbin (fun _ => 0)
      ((mnfStrToField_accepted_iff hbin _ _).mpr hok)).2.2 hshort
    omega
  · intro hnot
    constructor
    · intro hbin behind haccepted
      have hok := (mnfStrToField_accepted_iff hbin _ _).mp haccepted
      have hdigits := isHexDigit_of_accepted behind field.length input.no_zero hok
      have heven : input.chars.length < 2 * field.length → input.chars.length % 2 = 0 := by
        intro hshort
        rw [take_of_length_le (Nat.le_of_lt hshort)] at hdigits
        by_contra hodd
        exact hnot ⟨hbin, hshort, by omega, hdigits⟩
      refine ⟨hdigits, ?_, heven⟩
      rw [mnfFieldToStr_of_accepted hbin hok]
      exact binToHexstr_of_accepted behind field.length input.no_zero heven hok
    · intro hbin hascii behind _
      rw [mnfFieldToStr_mnfStrToField hbin, takeWhile_eq_self_iff]
      exact fun c hc => decide_eq_true (hascii c (mem_of_mem_take hc))

/-- The MAC address. -/
def macField : MnfField := ⟨0x6d, str "mac", 0x00, 6, .restoreMac, true, false⟩

/-- The text `A`, with zeros behind it, is accepted for the MAC address, and shown as `B0`. -/
theorem macField_not_roundTrips :
    mnfStrToField macField [0x41] (fun _ => 0) = (false, [0xb0, 0xff, 0xff, 0xff, 0xff, 0xff])
      ∧ mnfFieldToStr macField [0xb0, 0xff, 0xff, 0xff, 0xff, 0xff] = str "B0FFFFFFFFFF"
      ∧ ¬RoundTrips macField ⟨[0x41], by decide⟩ := by
  have hset : mnfStrToField macField [0x41] (fun _ => 0)
      = (false, [0xb0, 0xff, 0xff, 0xff, 0xff, 0xff]) := by decide
  refine ⟨hset, by decide, fun h => ?_⟩
  have heven := (h.binary rfl (fun _ => 0) (congrArg Prod.fst hset)).2.2 (by decide)
  exact absurd heven (by decide)

end RutosSdk.Uboot
