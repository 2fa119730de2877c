import Mathlib.Data.List.GetD
import RutosSdk.Tools.Rfc4648

/-! # The texts that `b64_to_bin` accepts

Reference: `libtools/src/base64.c`.

A text that is not Base64 is meant to be answered by `-1`. But `char_to_code` exits on a character
outside of the alphabet, and of two padding characters only the first one is looked at.
-/

namespace RutosSdk.Tools

open List Writes

/-! ## Base64 texts -/

/-- A character of the alphabet. -/
def InAlphabet (c : Byte) : Prop := ∃ x, c = alphabet x

/-- The padding that completes `n` characters to blocks of four: none, or what is missing. -/
def IsPadding (n : ℕ) (padding : List Byte) : Prop :=
  padding = [] ∨ (padding = [codePad] ∨ padding = [codePad, codePad]) ∧ (n + padding.length) % 4 = 0

variable (text : List Byte)

/-- A Base64 text: characters of the alphabet, not one more than whole blocks of four, and possibly
the padding. -/
def IsBase64 : Prop :=
  ∃ chars padding, text = chars ++ padding ∧ (∀ c ∈ chars, InAlphabet c) ∧ chars.length % 4 ≠ 1
    ∧ IsPadding chars.length padding

/-- The code of a character gives the character back. -/
theorem alphabet_of_charToCode {c code : Byte} (h : charToCode c = some code) :
    alphabet (code.setWidth 6) = c := by
  rw [← codeToChar_eq_alphabet]
  unfold charToCode at h
  split_ifs at h with hupper hlower hdigit h62 h63
  · obtain rfl := Option.some.inj h
    rw [codeToChar, if_pos (by bv_omega)]
    bv_omega
  · obtain rfl := Option.some.inj h
    rw [codeToChar, if_neg (by bv_omega), if_pos (by bv_omega)]
    bv_omega
  · obtain rfl := Option.some.inj h
    rw [codeToChar, if_neg (by bv_omega), if_neg (by bv_omega), if_pos (by bv_omega)]
    bv_omega
  · obtain rfl := Option.some.inj h
    rw [h62]
    decide
  · obtain rfl := Option.some.inj h
    rw [h63]
    decide

theorem isSome_charToCode_iff (c : Byte) : (charToCode c).isSome ↔ InAlphabet c := by
  constructor
  · intro hsome
    obtain ⟨code, hcode⟩ := Option.isSome_iff_exists.mp hsome
    exact ⟨code.setWidth 6, (alphabet_of_charToCode hcode).symm⟩
  · rintro ⟨x, rfl⟩
    rw [charToCode_alphabet]
    rfl

theorem InAlphabet.ne_codePad {c : Byte} (h : InAlphabet c) : c ≠ codePad := by
  obtain ⟨x, rfl⟩ := h
  exact alphabet_ne_codePad x

/-! ## Without padding -/

/-- The number of bytes that `n` characters decode to. -/
def decodedLength (n : ℕ) : ℕ := 3 * (n / 4) + (if n % 4 = 0 then 0 else n % 4 - 1)

theorem isSome_mapM_iff {α β : Type} (f : α → Option β) (l : List α) :
    (l.mapM f).isSome ↔ ∀ a ∈ l, (f a).isSome := by
  induction l with
  | nil => simp
  | cons a l ih =>
    rw [mapM_cons, forall_mem_cons, ← ih]
    cases f a <;> cases l.mapM f <;> simp

theorem isSome_decodeBlock_iff (i n : ℕ) :
    (decodeBlock text i n).isSome ↔ ∀ c ∈ (text.drop (4 * i)).take n, InAlphabet c := by
  have hchars := isSome_mapM_iff charToCode ((text.drop (4 * i)).take n)
  simp only [isSome_charToCode_iff] at hchars
  rw [← hchars, decodeBlock]
  cases ((text.drop (4 * i)).take n).mapM charToCode <;> rfl

/-- The blocks hold all characters. -/
theorem forall_blocks_iff (p : Byte → Prop) :
    (∀ i < text.length / 4, ∀ c ∈ (text.drop (4 * i)).take 4, p c)
        ∧ (∀ c ∈ (text.drop (4 * (text.length / 4))).take (text.length % 4), p c)
      ↔ ∀ c ∈ text, p c := by
  constructor
  · rintro ⟨hblocks, hlast⟩ c hc
    obtain ⟨k, hk, rfl⟩ := mem_iff_getElem.mp hc
    -- the character stands in its block at the rest of its place
    by_cases hlt : k / 4 < text.length / 4
    · refine hblocks (k / 4) hlt _ (mem_iff_getElem.mpr ⟨k % 4, ?_, ?_⟩)
      · rw [length_take, length_drop]
        omega
      · rw [getElem_take, getElem_drop]
        congr 1
        omega
    · refine hlast _ (mem_iff_getElem.mpr ⟨k - 4 * (text.length / 4), ?_, ?_⟩)
      · rw [length_take, length_drop]
        omega
      · rw [getElem_take, getElem_drop]
        congr 1
        omega
  · intro h
    exact ⟨fun i _ c hc => h c (mem_of_mem_drop (mem_of_mem_take hc)),
      fun c hc => h c (mem_of_mem_drop (mem_of_mem_take hc))⟩

/-- With room for its bytes, a text of the alphabet is decoded, and any other one ends the
process. -/
theorem b64ToBinNopad_outcome {text : List Byte} {max_len : ℤ} (hmod : text.length % 4 ≠ 1)
    (hroom : text ≠ [] → (decodedLength text.length : ℤ) ≤ max_len) :
    (∀ c ∈ text, InAlphabet c)
        ∧ (∃ ws, b64ToBinNopad text max_len = some ((decodedLength text.length : ℤ), ws))
      ∨ (¬∀ c ∈ text, InAlphabet c) ∧ b64ToBinNopad text max_len = none := by
  by_cases hempty : text = []
  · subst hempty
    exact .inl ⟨forall_mem_nil _, [], rfl⟩
  have hsize : text.length ≠ 0 := fun h => hempty (length_eq_zero_iff.mp h)
  have hroom' : ¬max_len < (decodedLength text.length : ℤ) := Int.not_lt.mpr (hroom hempty)
  have hblocks : ((List.range (text.length / 4)).mapM fun i => do
      let bytes ← decodeBlock text i 4
      return writesAt (3 * i : ℕ) bytes).isSome
        ↔ ∀ i < text.length / 4, ∀ c ∈ (text.drop (4 * i)).take 4, InAlphabet c := by
    rw [isSome_mapM_iff]
    simp only [mem_range, ← isSome_decodeBlock_iff]
    refine forall₂_congr fun i _ => ?_
    cases decodeBlock text i 4 <;> simp
  have hlast := isSome_decodeBlock_iff text (text.length / 4) (text.length % 4)
  rw [decodedLength] at hroom' ⊢
  rw [← forall_blocks_iff, ← hblocks, ← hlast]
  simp only [b64ToBinNopad, hsize, hmod, if_false, hroom']
  cases (List.range (text.length / 4)).mapM fun i => do
      let bytes ← decodeBlock text i 4
      return writesAt (3 * i : ℕ) bytes with
  | none => simp
  | some blocks =>
    cases decodeBlock text (text.length / 4) (text.length % 4) <;> simp

theorem b64ToBinNopad_error {text : List Byte} {max_len : ℤ}
    (h : text.length % 4 = 1 ∨ text ≠ [] ∧ max_len < (decodedLength text.length : ℤ)) :
    b64ToBinNopad text max_len = some (-1, []) := by
  rcases h with hmod | ⟨hne, hroom⟩
  · have hsize : text.length ≠ 0 := by omega
    simp only [b64ToBinNopad, hsize, hmod, if_true, if_false]
  · have hsize : text.length ≠ 0 := fun h => hne (length_eq_zero_iff.mp h)
    rw [decodedLength] at hroom
    simp only [b64ToBinNopad, hsize, hroom, if_true, if_false, ite_self]

/-! ## With padding -/

/-- What the padding tests of `b64_to_bin` leave of a text. -/
def unpadded : List Byte :=
  let size := text.length
  if size % 4 = 0 ∧ 4 ≤ size then
    if text.getD (size - 2) 0 = codePad then text.take (size - 2)
    else if text.getD (size - 1) 0 = codePad then text.take (size - 1)
    else text
  else text

theorem b64ToBin_eq_nopad (max_len : ℤ) :
    b64ToBin text max_len = b64ToBinNopad (unpadded text) max_len := by
  simp only [b64ToBin, unpadded]
  split_ifs <;> rfl

/-- The last two characters are a padding character and one that is none: the code takes both for
padding. -/
def PadThenOther : Prop :=
  text.length % 4 = 0 ∧ 4 ≤ text.length ∧ text.getD (text.length - 2) 0 = codePad
    ∧ text.getD (text.length - 1) 0 ≠ codePad

variable {chars : List Byte}

theorem unpadded_of_pads (h : (chars.length + 2) % 4 = 0) :
    unpadded (chars ++ [codePad, codePad]) = chars := by
  have hsize : (chars ++ [codePad, codePad]).length = chars.length + 2 := length_append
  have hpad : (chars ++ [codePad, codePad]).getD chars.length 0 = codePad := by
    rw [getD_eq_getElem?_getD, List.getElem?_append_right (le_refl _), Nat.sub_self]
    rfl
  simp only [unpadded, hsize, Nat.add_sub_cancel, hpad, if_true, take_left]
  rw [if_pos (by omega)]

theorem unpadded_of_pad (h : (chars.length + 1) % 4 = 0) (hchars : ∀ c ∈ chars, InAlphabet c) :
    unpadded (chars ++ [codePad]) = chars := by
  have hsize : (chars ++ [codePad]).length = chars.length + 1 := length_append
  have hpad : (chars ++ [codePad]).getD chars.length 0 = codePad := by
    rw [getD_eq_getElem?_getD, List.getElem?_append_right (le_refl _), Nat.sub_self]
    rfl
  have hlast : (chars ++ [codePad]).getD (chars.length + 1 - 2) 0 ≠ codePad := by
    rw [getD_append _ _ _ _ (by omega), getD_eq_getElem _ _ (by omega)]
    exact (hchars _ (getElem_mem _)).ne_codePad
  simp only [unpadded, hsize, Nat.add_sub_cancel, hpad, hlast, if_true, if_false, take_left]
  rw [if_pos (by omega)]

theorem unpadded_of_inAlphabet (hchars : ∀ c ∈ chars, InAlphabet c) : unpadded chars = chars := by
  have hne : ∀ k < chars.length, chars.getD k 0 ≠ codePad := by
    intro k hk
    rw [getD_eq_getElem _ _ hk]
    exact (hchars _ (getElem_mem _)).ne_codePad
  unfold unpadded
  by_cases hsize : chars.length % 4 = 0 ∧ 4 ≤ chars.length
  · simp only [hsize, hne _ (by omega : chars.length - 2 < chars.length),
      hne _ (by omega : chars.length - 1 < chars.length), and_self, if_true, if_false]
  · simp only [hsize, if_false]

/-- The three outcomes of the padding tests. -/
theorem eq_unpadded_append (h : ¬PadThenOther text) :
    ∃ padding, text = unpadded text ++ padding ∧ IsPadding (unpadded text).length padding := by
  unfold unpadded
  dsimp only
  split_ifs with hsize hfirst hsecond
  · have hlast : text.getD (text.length - 1) 0 = codePad := by
      by_contra hne
      exact h ⟨hsize.1, hsize.2, hfirst, hne⟩
    refine ⟨[codePad, codePad], ?_, .inr ⟨.inr rfl, ?_⟩⟩
    · rw [getD_eq_getElem _ _ (by omega)] at hfirst hlast
      conv_lhs => rw [← take_append_drop (text.length - 2) text]
      rw [drop_eq_getElem_cons (by omega), hfirst, drop_eq_getElem_cons (by omega),
        drop_eq_nil_of_le (by omega)]
      simp only [show text.length - 2 + 1 = text.length - 1 by omega, hlast]
    · rw [length_take, length_cons, length_singleton]
      omega
  · refine ⟨[codePad], ?_, .inr ⟨.inl rfl, ?_⟩⟩
    · rw [getD_eq_getElem _ _ (by omega)] at hsecond
      conv_lhs => rw [← take_append_drop (text.length - 1) text]
      rw [drop_eq_getElem_cons (by omega), hsecond, drop_eq_nil_of_le (by omega)]
    · rw [length_take, length_singleton]
      omega
  · exact ⟨[], (append_nil _).symm, .inl rfl⟩
  · exact ⟨[], (append_nil _).symm, .inl rfl⟩

/-- A text is Base64 when what is left of it is, and no character but a padding one was taken
away. -/
theorem isBase64_iff :
    IsBase64 text ↔ (∀ c ∈ unpadded text, InAlphabet c) ∧ (unpadded text).length % 4 ≠ 1
      ∧ ¬PadThenOther text := by
  constructor
  · rintro ⟨chars, padding, rfl, hchars, hmod, rfl | ⟨rfl | rfl, hsize⟩⟩
    · rw [append_nil, unpadded_of_inAlphabet hchars]
      refine ⟨hchars, hmod, fun hpad => ?_⟩
      obtain ⟨-, hsize, hfirst, -⟩ := hpad
      rw [getD_eq_getElem _ _ (by omega)] at hfirst
      exact (hchars _ (getElem_mem _)).ne_codePad hfirst
    · rw [unpadded_of_pad hsize hchars]
      refine ⟨hchars, hmod, fun hpad => hpad.2.2.2 ?_⟩
      rw [length_append, length_singleton, Nat.add_sub_cancel,
        getD_append_right _ _ _ _ (le_refl _), Nat.sub_self]
      rfl
    · rw [unpadded_of_pads hsize]
      refine ⟨hchars, hmod, fun hpad => hpad.2.2.2 ?_⟩
      simp
  · rintro ⟨hchars, hmod, hpad⟩
    obtain ⟨padding, htext, hpadding⟩ := eq_unpadded_append text hpad
    exact ⟨unpadded text, padding, htext, hchars, hmod, hpadding⟩

/-! ## What is answered -/

/-- The decoder returns, a length for nothing but Base64, and `-1` for anything else. -/
def AnswersByValidity (max_len : ℤ) : Prop :=
  ∃ ret writes, b64ToBin text max_len = some (ret, writes) ∧ (0 ≤ ret → IsBase64 text)
    ∧ (¬IsBase64 text → ret = -1)

/-- The texts and buffers for which the checks of the code are enough: an error is found before any
character is read, or the characters are of the alphabet and the padding is whole. -/
def ChecksSuffice (max_len : ℤ) : Prop :=
  (unpadded text).length % 4 = 1
    ∨ unpadded text ≠ [] ∧ max_len < (decodedLength (unpadded text).length : ℤ)
    ∨ (∀ c ∈ unpadded text, InAlphabet c) ∧ ¬PadThenOther text

/-- `b64_to_bin` tells Base64 from other texts exactly when no character of what is decoded lies
outside of the alphabet and no padding character is followed by another one. -/
theorem b64ToBin_answersByValidity_iff (text : List Byte) (max_len : ℤ) :
    AnswersByValidity text max_len ↔ ChecksSuffice text max_len := by
  unfold AnswersByValidity ChecksSuffice
  rw [b64ToBin_eq_nopad, ← or_assoc]
  by_cases herror : (unpadded text).length % 4 = 1
      ∨ unpadded text ≠ [] ∧ max_len < (decodedLength (unpadded text).length : ℤ)
  · refine iff_of_true ⟨-1, [], b64ToBinNopad_error herror, ?_, fun _ => rfl⟩ (.inl herror)
    intro hneg
    omega
  rw [or_iff_right herror]
  obtain ⟨hmod, hroom⟩ := not_or.mp herror
  have hroom' : unpadded text ≠ [] → (decodedLength (unpadded text).length : ℤ) ≤ max_len :=
    fun hne => Int.not_lt.mp fun hlt => hroom ⟨hne, hlt⟩
  rcases b64ToBinNopad_outcome hmod hroom' with ⟨hchars, ws, hret⟩ | ⟨hchars, hexit⟩
  · rw [hret]
    constructor
    · rintro ⟨ret, writes, heq, hvalid, -⟩
      obtain ⟨rfl, rfl⟩ := Prod.mk.inj (Option.some.inj heq)
      exact ⟨hchars, ((isBase64_iff text).mp (hvalid (Int.natCast_nonneg _))).2.2⟩
    · intro h
      have hvalid : IsBase64 text := (isBase64_iff text).mpr ⟨h.1, hmod, h.2⟩
      exact ⟨_, ws, rfl, fun _ => hvalid, fun hne => absurd hvalid hne⟩
  · rw [hexit]
    refine iff_of_false ?_ fun h => hchars h.1
    rintro ⟨ret, writes, heq, -⟩
    exact absurd heq (Option.some_ne_none _).symm

/-- `QQ=A` decodes to one byte, and `Q!==` ends the process. -/
theorem b64ToBin_not_answersByValidity :
    ¬AnswersByValidity [0x51, 0x51, 0x3d, 0x41] 255
      ∧ ¬AnswersByValidity [0x51, 0x21, 0x3d, 0x3d] 255 := by
  constructor
  · rintro ⟨ret, writes, heq, hvalid, -⟩
    have hret : b64ToBin [0x51, 0x51, 0x3d, 0x41] 255 = some (1, [⟨0, 0x41⟩]) := by
      decide
    obtain ⟨rfl, rfl⟩ := Prod.mk.inj (Option.some.inj (hret.symm.trans heq))
    refine ((isBase64_iff _).mp (hvalid (by decide))).2.2 ?_
    unfold PadThenOther
    decide
  · rintro ⟨ret, writes, heq, -⟩
    have hexit : b64ToBin [0x51, 0x21, 0x3d, 0x3d] 255 = none := by decide
    exact absurd (hexit.symm.trans heq) (Option.some_ne_none _).symm

end RutosSdk.Tools
