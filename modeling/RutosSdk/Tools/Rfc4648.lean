import RutosSdk.Lib.Sextets
import RutosSdk.Tools.Base64
import Mathlib.Tactic.Linarith

/-! # Base64 conversion against RFC 4648

The text of a sequence of bytes is the alphabet's character for each of its sextets, and the padded
text is that text completed with `=` to a multiple of four characters.
-/

namespace RutosSdk.Tools

open List Writes Sextets

/-! ## The encoding of the RFC -/

/-- Table 1: the Base 64 alphabet. -/
def alphabetTable : List Char :=
  ['A', 'B', 'C', 'D', 'E', 'F', 'G', 'H', 'I', 'J', 'K', 'L', 'M', 'N', 'O', 'P',
    'Q', 'R', 'S', 'T', 'U', 'V', 'W', 'X', 'Y', 'Z', 'a', 'b', 'c', 'd', 'e', 'f',
    'g', 'h', 'i', 'j', 'k', 'l', 'm', 'n', 'o', 'p', 'q', 'r', 's', 't', 'u', 'v',
    'w', 'x', 'y', 'z', '0', '1', '2', '3', '4', '5', '6', '7', '8', '9', '+', '/']

variable {data : List Byte} (x : BitVec 6) (text : List Byte) {max_len : ℤ}

/-- The character of a sextet. -/
def alphabet : Byte := BitVec.ofNat 8 (alphabetTable.getD x.toNat 'A').toNat

/-- The encoding without padding. -/
def rfcNopad (data : List Byte) : List Byte := (ofBytes data).map alphabet

/-- A text completed with padding characters. -/
def pad : List Byte := text ++ List.replicate ((4 - text.length % 4) % 4) (BitVec.ofNat 8 '='.toNat)

/-- The encoding with padding. -/
def rfcPadded (data : List Byte) : List Byte := pad (rfcNopad data)

/-- A canonical text without padding: characters of the alphabet, unused bits zero. -/
def CanonicalNopad : Prop := ∃ s, Canonical s ∧ text = s.map alphabet

/-- A canonical text with padding. -/
def CanonicalPadded : Prop := ∃ s, Canonical s ∧ text = pad (s.map alphabet)

theorem length_rfcNopad (data : List Byte) :
    (rfcNopad data).length = (4 * data.length + 2) / 3 := by
  rw [rfcNopad, length_map, length_ofBytes]

theorem length_pad : (pad text).length = (text.length + 3) / 4 * 4 := by
  rw [pad, length_append, length_replicate]
  omega

/-! ## Characters and blocks -/

theorem codeToChar_eq_alphabet : codeToChar x = alphabet x := by
  revert x
  decide

theorem charToCode_alphabet : charToCode (alphabet x) = some (x.setWidth 8) := by
  revert x
  decide

theorem alphabet_ne_codePad : alphabet x ≠ codePad := by
  revert x
  decide

theorem blockChars_bytesBlock (a b c : Byte) :
    blockChars (bytesBlock a b c) = (group a b c).map alphabet := by
  have hmask : ∀ x : Byte, 0xFF &&& x.setWidth 32 = x.setWidth 32 := by
    decide
  simp only [blockChars, bytesBlock, hmask, codeToChar_eq_alphabet, group, map_cons,
    map_nil, List.cons.injEq, and_true]
  refine ⟨?_, ?_, ?_, ?_⟩ <;> refine congrArg alphabet ?_ <;> grind

theorem codesBlock_eq (w x y z : BitVec 6) :
    codesBlock (w.setWidth 8) (x.setWidth 8) (y.setWidth 8) (z.setWidth 8)
      = (w ++ x ++ y ++ z).setWidth 32 := by
  have hmask : ∀ x : BitVec 6, 0x3F &&& (x.setWidth 8).setWidth 32 = x.setWidth 32 := by
    decide
  rw [codesBlock, hmask, hmask, hmask, hmask]
  ext i hi
  grind

theorem blockBytes_codesBlock (w x y z : BitVec 6) :
    blockBytes (codesBlock (w.setWidth 8) (x.setWidth 8) (y.setWidth 8) (z.setWidth 8))
      = ungroup w x y z := by
  rw [codesBlock_eq]
  simp only [blockBytes, ungroup, List.cons.injEq, and_true]
  refine ⟨?_, ?_, ?_⟩ <;> grind

/-! ## Encoding -/

theorem lastBlock_eq :
    lastBlock data (data.length / 3) (data.length % 3)
      = ((groupAt data (data.length / 3)).take ((4 * (data.length % 3) + 2) / 3)).map alphabet
        ++ [0] := by
  have hbeyond : ∀ k, data.length ≤ k → data.getD k 0 = 0 := fun k hk => by
    rw [getD_eq_getElem?_getD, List.getElem?_eq_none hk, Option.getD_none]
  rcases h : data.length % 3 with _ | _ | _ | _
  · rfl
  · rw [groupAt, hbeyond (3 * (data.length / 3) + 1) (by omega),
      hbeyond (3 * (data.length / 3) + 2) (by omega), map_take]
    rw [← blockChars_bytesBlock]
    rfl
  · rw [groupAt, hbeyond (3 * (data.length / 3) + 2) (by omega), map_take, ← blockChars_bytesBlock]
    rfl
  · omega

theorem lastChars_eq {r : ℕ} (hr : r < 3) : lastChars r = (4 * r + 2) / 3 := by
  rcases r with _ | _ | _ | _
  · rfl
  · rfl
  · rfl
  · omega

/-- What `bin_to_b64_nopad` does on a non-empty input: the text and its terminator are assigned in
order, if the comparison, made in `int` arithmetic, finds the buffer large enough. -/
theorem binToB64Nopad_eq (hdata : data ≠ []) (max_len : ℤ) :
    binToB64Nopad data max_len =
      if max_len < int32 ((rfcNopad data).length + 1) then (-1, [])
      else (int32 (rfcNopad data).length, writesAt 0 (rfcNopad data ++ [0])) := by
  have hsize : data.length ≠ 0 := fun h => hdata (length_eq_zero_iff.mp h)
  have hlt : data.length % 3 < 3 := Nat.mod_lt _ (by decide)
  have hlen : (4 * (data.length / 3 : ℕ) + lastChars (data.length % 3) : ℤ)
      = (rfcNopad data).length := by
    rw [length_rfcNopad, lastChars_eq hlt]
    omega
  have hcheck : int32 (int32 (rfcNopad data).length + 1) = int32 ((rfcNopad data).length + 1) := by
    unfold int32
    omega
  have hgroups : ∀ i, blockChars (bytesBlock (data.getD (3 * i) 0) (data.getD (3 * i + 1) 0)
      (data.getD (3 * i + 2) 0)) = (groupAt data i).map alphabet := fun i =>
    blockChars_bytesBlock _ _ _
  have hwrites : (List.range (data.length / 3)).flatMap (fun i => writesAt (4 * i : ℕ)
      ((groupAt data i).map alphabet)) ++ writesAt (4 * (data.length / 3) : ℕ)
        (lastBlock data (data.length / 3) (data.length % 3))
      = writesAt 0 (rfcNopad data ++ [0]) := by
    have hlength : ((List.range (data.length / 3)).flatMap
        fun i => (groupAt data i).map alphabet).length = 4 * (data.length / 3) := by
      rw [length_flatMap_range (n := 4) (fun i => (groupAt data i).map alphabet) (fun _ => rfl)]
    rw [flatMap_writesAt (fun i => (groupAt data i).map alphabet) (fun _ => rfl), lastBlock_eq,
      rfcNopad, ofBytes_eq_groups, map_append, map_flatMap, append_assoc,
      writesAt_append _ (List.flatMap _ _), hlength, Int.zero_add]
  rw [binToB64Nopad, if_neg hsize]
  simp only [hlen, hcheck, hgroups, hwrites]

/-! ## Decoding -/

theorem mapM_charToCode (s : List (BitVec 6)) :
    (s.map alphabet).mapM charToCode = some (s.map (·.setWidth 8)) := by
  induction s with
  | nil => rfl
  | cons x s ih => rw [map_cons, mapM_cons, charToCode_alphabet, ih]; rfl

variable {s : List (BitVec 6)} {bytes text : List Byte}

/-- A block of characters, either a full one or the one that the text ends with. -/
theorem decodeBlock_eq {i n : ℕ} (hn : n = 4 ∨ n < 4 ∧ s.length = 4 * i + n) :
    decodeBlock (s.map alphabet) i n = some ((ungroupAt s i).take (3 * n / 4)) := by
  have hcodes : ∀ k < 4, (((s.drop (4 * i)).take n).map (·.setWidth 8)).getD k 0
      = (s.getD (4 * i + k) 0).setWidth 8 := by
    intro k hk
    simp only [getD_eq_getElem?_getD, List.getElem?_map, List.getElem?_take, List.getElem?_drop]
    by_cases hkn : k < n
    · rw [if_pos hkn]
      rcases s[4 * i + k]? with _ | x <;> rfl
    · rw [if_neg hkn, List.getElem?_eq_none (by omega)]
      rfl
  rw [decodeBlock, ← map_drop, ← map_take, mapM_charToCode]
  change some ((blockBytes (codesBlock _ _ _ _)).take _) = _
  rw [hcodes 0 (by decide), hcodes 1 (by decide), hcodes 2 (by decide), hcodes 3 (by decide),
    blockBytes_codesBlock]
  rfl

section

variable (hs : toBytes s = some bytes) (hroom : bytes.length ≤ max_len)
include hs hroom

/-- What `b64_to_bin_nopad` does on a text of the alphabet, given room for its bytes. -/
theorem b64ToBinNopad_eq :
    b64ToBinNopad (s.map alphabet) max_len = some ((bytes.length : ℤ), writesAt 0 bytes) := by
  obtain ⟨hmod, hlen⟩ := length_of_toBytes hs
  by_cases hempty : s = []
  · subst hempty
    obtain rfl := Option.some.inj hs
    rfl
  have hsize : s.length ≠ 0 := fun h => hempty (length_eq_zero_iff.mp h)
  have hresult : 3 * (s.length / 4) + (if s.length % 4 = 0 then 0 else s.length % 4 - 1)
      = bytes.length := by
    split <;> omega
  have hblock : ∀ i, decodeBlock (s.map alphabet) i 4 = some (ungroupAt s i) := fun i =>
    decodeBlock_eq (Or.inl rfl)
  have hlast : decodeBlock (s.map alphabet) (s.length / 4) (s.length % 4)
      = some ((ungroupAt s (s.length / 4)).take (3 * (s.length % 4) / 4)) :=
    decodeBlock_eq (Or.inr ⟨Nat.mod_lt _ (by decide), by omega⟩)
  have hwrites : (List.range (s.length / 4)).flatMap
      (fun i => writesAt (3 * i : ℕ) (ungroupAt s i)) ++ writesAt (3 * (s.length / 4) : ℕ)
        ((ungroupAt s (s.length / 4)).take (3 * (s.length % 4) / 4)) = writesAt 0 bytes := by
    rw [toBytes_eq_groups hmod] at hs
    rw [← Option.some.inj hs, flatMap_writesAt (ungroupAt s) (fun _ => rfl), writesAt_append,
      length_flatMap_range (n := 3) (ungroupAt s) (fun _ => rfl), Int.zero_add]
  have hblocks : (List.range (s.length / 4)).mapM (fun i => do
      let bytes ← decodeBlock (s.map alphabet) i 4
      return writesAt (3 * i : ℕ) bytes) = some ((List.range (s.length / 4)).map
        fun i => writesAt (3 * i : ℕ) (ungroupAt s i)) := by
    simp only [hblock]
    exact mapM_pure
  have hroom' : ¬max_len < ((bytes.length : ℕ) : ℤ) := by omega
  simp only [b64ToBinNopad, length_map, hsize, hmod, if_false, hresult, hroom']
  rw [hblocks, hlast, ← hwrites, flatMap_def]
  rfl

/-- The same for `b64_to_bin`, with or without padding. -/
theorem b64ToBin_nopad :
    b64ToBin (s.map alphabet) max_len = some ((bytes.length : ℤ), writesAt 0 bytes) := by
  have hpad : ∀ k < s.length, (s.map alphabet).getD k 0 ≠ codePad := fun k hk => by
    rw [getD_eq_getElem?_getD, List.getElem?_map, List.getElem?_eq_getElem hk]
    exact alphabet_ne_codePad _
  rw [b64ToBin, length_map]
  split
  · rename_i hsize
    rw [if_neg (hpad _ (by omega)), if_neg (hpad _ (by omega)), b64ToBinNopad_eq hs hroom]
  · exact b64ToBinNopad_eq hs hroom

theorem b64ToBin_pad :
    b64ToBin (pad (s.map alphabet)) max_len = some ((bytes.length : ℤ), writesAt 0 bytes) := by
  obtain ⟨hmod, -⟩ := length_of_toBytes hs
  have htake : ∀ k : ℕ, (s.map alphabet ++ List.replicate k codePad).take s.length
      = s.map alphabet := fun k => by
    rw [take_left' (length_map _)]
  have hchar : ∀ k : ℕ, 0 < k →
      (s.map alphabet ++ List.replicate k codePad).getD s.length 0 = codePad := fun k hk => by
    simp [hk]
  have hpad : pad (s.map alphabet)
      = s.map alphabet ++ List.replicate ((4 - s.length % 4) % 4) codePad := by
    rw [pad, length_map]
    rfl
  rcases (by omega : s.length % 4 = 0 ∨ s.length % 4 = 2 ∨ s.length % 4 = 3) with h | h | h
  · rw [h] at hpad
    rw [hpad.trans (append_nil _), b64ToBin_nopad hs hroom]
  · -- two padding characters: the first one stands where the text ends
    rw [h] at hpad
    have hsize : (pad (s.map alphabet)).length = s.length + 2 := by simp [hpad]
    rw [b64ToBin, hsize, if_pos (by omega), Nat.add_sub_cancel, hpad,
      if_pos (hchar _ (by decide)), htake, b64ToBinNopad_eq hs hroom]
  · -- one padding character: the one before it belongs to the text
    rw [h] at hpad
    have hsize : (pad (s.map alphabet)).length = s.length + 1 := by simp [hpad]
    have hlast : (pad (s.map alphabet)).getD (s.length + 1 - 2) 0 ≠ codePad := by
      have hk : s.length + 1 - 2 < s.length := by omega
      rw [hpad, getD_eq_getElem?_getD, List.getElem?_append_left (by simpa using hk),
        List.getElem?_map, List.getElem?_eq_getElem hk]
      exact alphabet_ne_codePad _
    rw [b64ToBin, hsize, if_pos (by omega), if_neg hlast, Nat.add_sub_cancel, hpad,
      if_pos (hchar _ (by decide)), htake, b64ToBinNopad_eq hs hroom]

end

/-! ## Buffers -/

/-- The memory holds the C string `text`, with its terminator. -/
def HoldsString (mem : ℤ → Byte) (text : List Byte) : Prop :=
  ∀ k : ℕ, k ≤ text.length → mem k = text.getD k 0

/-- An encoder stays in its buffer. It returns `-1` if the buffer is too small for the text and the
terminator, and otherwise leaves the text there and returns its length. -/
def Encodes (result : Option (ℤ × List (Write Byte))) (text : List Byte) (max_len : ℤ) : Prop :=
  ∃ ret ws, result = some (ret, ws) ∧ InBuffer max_len ws
    ∧ (ret = -1 ∧ max_len ≤ text.length ∨ ret = text.length ∧ ∀ mem, HoldsString (run mem ws) text)

/-- The decoder gives `data` for the text in every buffer with room for it. -/
def Decodes (text data : List Byte) : Prop :=
  ∀ max_len : ℤ, data.length ≤ max_len → max_len < 2147483648 →
    ∃ ws, b64ToBin text max_len = some ((data.length : ℤ), ws) ∧ InBuffer max_len ws
      ∧ ∀ mem (k : ℕ) (hk : k < data.length), run mem ws k = data[k]

theorem holdsString_writesAt (htext : (text.length : ℤ) < 2147483648) (mem : ℤ → Byte) :
    HoldsString (run mem (writesAt 0 (text ++ [0]))) text := by
  intro k hk
  have hk' : k < (text ++ [0]).length := by simpa using Nat.lt_succ_of_le hk
  have hrun := run_writesAt mem (le_refl 0) (by simp; omega) hk'
  rw [Int.zero_add] at hrun
  rw [hrun, getD_eq_getElem?_getD]
  rcases Nat.lt_or_eq_of_le hk with hlt | rfl
  · simp [hlt]
  · simp

/-- Characters assigned from the terminator on continue the string. -/
theorem holdsString_append {mem : ℤ → Byte} {more : List Byte} (hmem : HoldsString mem text)
    (hlen : (text.length + more.length : ℤ) < 2147483648) :
    HoldsString (run mem (writesAt text.length (more ++ [0]))) (text ++ more) := by
  intro k hk
  rw [length_append] at hk
  by_cases hlt : k < text.length
  · rw [run_writesAt_of_lt _ (by omega) (by simp; omega) (by omega), hmem k (by omega),
      getD_eq_getElem?_getD, getD_eq_getElem?_getD, List.getElem?_append_left hlt]
  · obtain ⟨i, rfl⟩ := Nat.exists_eq_add_of_le (Nat.le_of_not_lt hlt)
    have hi : i < (more ++ [0]).length := by simp; omega
    have hrun := @run_writesAt _ mem text.length (by omega) _ (by simp; omega) i hi
    rw [Int.natCast_add, hrun, getD_eq_getElem?_getD, List.getElem?_append_right (by omega),
      Nat.add_sub_cancel_left]
    rcases Nat.lt_or_eq_of_le (show i ≤ more.length by omega) with hlt | rfl
    · simp [hlt]
    · simp

theorem decodes_of_b64ToBin {data : List Byte} (h : ∀ max_len : ℤ, data.length ≤ max_len →
      b64ToBin text max_len = some ((data.length : ℤ), writesAt 0 data)) : Decodes text data := by
  intro max_len hroom hmax
  refine ⟨_, h max_len hroom, (inBuffer_writesAt_iff (by omega) hmax data).mpr hroom, ?_⟩
  intro mem k hk
  have hrun := run_writesAt mem (le_refl 0) (by omega) hk
  rwa [Int.zero_add] at hrun

/-- The inputs that `bin_to_b64_nopad` handles within the buffer: an empty text needs room for its
terminator all the same, and the length of a text with its terminator must be an `int`. -/
def NopadFits (data : List Byte) (max_len : ℤ) : Prop :=
  (data = [] → 0 < max_len) ∧ (data ≠ [] → (rfcNopad data).length < 2147483647)

theorem nopad_result (hfits : NopadFits data max_len) :
    (binToB64Nopad data max_len).1 = -1 ∧ max_len ≤ (rfcNopad data).length
      ∨ (binToB64Nopad data max_len).1 = (rfcNopad data).length
        ∧ ((rfcNopad data).length : ℤ) < max_len
        ∧ ∀ mem, HoldsString (run mem (binToB64Nopad data max_len).2) (rfcNopad data) := by
  by_cases hempty : data = []
  · subst hempty
    refine Or.inr ⟨rfl, hfits.1 rfl, ?_⟩
    intro mem k hk
    obtain rfl : k = 0 := Nat.le_zero.mp hk
    rfl
  have hlt := hfits.2 hempty
  rw [binToB64Nopad_eq hempty, int32_eq (by omega) (by omega), int32_eq (by omega) (by omega)]
  by_cases hsmall : max_len < (rfcNopad data).length + 1
  · rw [if_pos hsmall]
    exact Or.inl ⟨rfl, by omega⟩
  · rw [if_neg hsmall]
    exact Or.inr ⟨rfl, by omega, holdsString_writesAt (by omega)⟩

/-- The characters of the text stand at the beginning of what `bin_to_b64` writes. -/
theorem exists_append_of_binToB64 {ret : ℤ} {ws : List (Write Byte)}
    (h : binToB64 data max_len = some (ret, ws)) :
    ∃ more, ws = (binToB64Nopad data max_len).2 ++ more := by
  have hnil : ∀ l : List (Write Byte), ∃ more, l = l ++ more := fun l =>
    ⟨[], (append_nil l).symm⟩
  unfold binToB64 at h
  dsimp only at h
  -- one case per `return` of the source
  split at h
  · obtain ⟨-, rfl⟩ := Prod.mk.inj (Option.some.inj h)
    exact hnil _
  split at h
  · obtain ⟨-, rfl⟩ := Prod.mk.inj (Option.some.inj h)
    exact hnil _
  · obtain ⟨-, rfl⟩ := Prod.mk.inj (Option.some.inj h)
    exact hnil _
  · split at h
    · obtain ⟨-, rfl⟩ := Prod.mk.inj (Option.some.inj h)
      exact ⟨_, rfl⟩
    · obtain ⟨-, rfl⟩ := Prod.mk.inj (Option.some.inj h)
      exact hnil _
  · split at h
    · obtain ⟨-, rfl⟩ := Prod.mk.inj (Option.some.inj h)
      exact ⟨_, rfl⟩
    · obtain ⟨-, rfl⟩ := Prod.mk.inj (Option.some.inj h)
      exact hnil _
  · exact absurd h nofun

/-- `bin_to_b64` on a text of length `n` that fits without padding. -/
theorem binToB64_of_nopad {n : ℕ} (hn : n % 4 ≠ 1) (hret : (binToB64Nopad data max_len).1 = n) :
    binToB64 data max_len =
      if n % 4 = 0 then some ((n : ℤ), (binToB64Nopad data max_len).2)
      else if int32 (n + (4 - n % 4 : ℕ) + 1) ≤ max_len then
        some (int32 (n + (4 - n % 4 : ℕ)), (binToB64Nopad data max_len).2
          ++ writesAt n (List.replicate (4 - n % 4) codePad ++ [0]))
      else some (-1, (binToB64Nopad data max_len).2) := by
  have hne : (n : ℤ) ≠ -1 := by omega
  rw [binToB64]
  rcases hres : binToB64Nopad data max_len with ⟨ret, ws⟩
  rw [hres] at hret
  obtain rfl : ret = n := hret
  have htmod : (n : ℤ).tmod 4 = ((n % 4 : ℕ) : ℤ) := by
    rw [Int.tmod_eq_emod_of_nonneg (by omega)]
    omega
  dsimp only
  rw [if_neg hne, htmod]
  rcases (by omega : n % 4 = 0 ∨ n % 4 = 2 ∨ n % 4 = 3) with h | h | h <;> rw [h] <;> rfl

section

variable {data : List Byte} (hdata : data.length < 2147483648) {max_len : ℤ}
  (hmax : 0 ≤ max_len) (hmax' : max_len < 2147483648)

include hdata hmax hmax'

/-- The terminator of the empty text is written whatever the size of the buffer, and a text as long
as the largest `int` passes the comparison that should refuse it. -/
theorem inBuffer_nopad_iff :
    InBuffer max_len (binToB64Nopad data max_len).2 ↔ NopadFits data max_len := by
  by_cases hempty : data = []
  · subst hempty
    simp [binToB64Nopad, InBuffer, NopadFits]
  have hlen := length_rfcNopad data
  rw [binToB64Nopad_eq hempty]
  simp only [NopadFits, hempty, false_implies, true_and, ne_eq, not_false_eq_true, true_implies]
  have hwrites : InBuffer max_len (writesAt 0 (rfcNopad data ++ [0])) ↔
      ((rfcNopad data).length : ℤ) + 1 ≤ max_len := by
    rw [inBuffer_writesAt_iff hmax hmax', length_append, length_singleton]
    omega
  by_cases hfits : (rfcNopad data).length < 2147483647
  · refine iff_of_true ?_ hfits
    rw [int32_eq (by omega) (by omega)]
    by_cases hsmall : max_len < (rfcNopad data).length + 1
    · rw [if_pos hsmall]
      exact fun w hw => absurd hw not_mem_nil
    · rw [if_neg hsmall]
      exact hwrites.mpr (by omega)
  · -- the sum wraps around to a negative number
    refine iff_of_false ?_ hfits
    rw [int32_eq_sub (by omega) (by omega), if_neg (by omega)]
    exact fun hin => absurd (hwrites.mp hin) (by omega)

theorem encodes_nopad_iff :
    Encodes (some (binToB64Nopad data max_len)) (rfcNopad data) max_len
      ↔ NopadFits data max_len := by
  constructor
  · rintro ⟨ret, ws, hres, hbuf, -⟩
    rw [← inBuffer_nopad_iff hdata hmax hmax', Option.some.inj hres]
    exact hbuf
  · intro hfits
    refine ⟨_, _, rfl, (inBuffer_nopad_iff hdata hmax hmax').mpr hfits, ?_⟩
    rcases nopad_result hfits with h | ⟨hret, -, hmem⟩
    · exact Or.inl h
    · exact Or.inr ⟨hret, hmem⟩

/-- With padding, a text two characters short of the largest `int` is refused as well only if the
buffer is no larger. -/
theorem encodes_padded_iff :
    Encodes (binToB64 data max_len) (rfcPadded data) max_len ↔ NopadFits data max_len
      ∧ ¬((rfcNopad data).length = 2147483646 ∧ max_len = 2147483647) := by
  have hmod : (rfcNopad data).length % 4 ≠ 1 := by
    rw [length_rfcNopad]
    omega
  constructor
  · rintro ⟨ret, ws, hres, hbuf, -⟩
    obtain ⟨more, rfl⟩ := exists_append_of_binToB64 hres
    have hfits := (inBuffer_nopad_iff hdata hmax hmax').mp (inBuffer_append.mp hbuf).1
    refine ⟨hfits, ?_⟩
    rintro ⟨hlen, rfl⟩
    have hret : (binToB64Nopad data 2147483647).1 = ((2147483646 : ℕ) : ℤ) := by
      rcases nopad_result hfits with h | h
      · omega
      · rw [h.1, hlen]
    rw [binToB64_of_nopad (by decide) hret] at hres
    -- the sum wraps around, so the padding is written, and its terminator goes to index -2 ^ 31
    rw [if_neg (by decide), if_pos (by decide)] at hres
    have hmore := append_cancel_left (Prod.mk.inj (Option.some.inj hres)).2
    have hout := (inBuffer_append.mp hbuf).2
    rw [← hmore] at hout
    exact absurd hout (by decide)
  · rintro ⟨hfits, hlast⟩
    have hbuf := (inBuffer_nopad_iff hdata hmax hmax').mpr hfits
    have hlength := length_pad (rfcNopad data)
    rcases nopad_result hfits with ⟨hret, hsmall⟩ | ⟨hret, hroom, hmem⟩
    · refine ⟨-1, _, ?_, hbuf, Or.inl ⟨rfl, ?_⟩⟩
      · rw [binToB64]
        dsimp only
        rw [hret]
        rfl
      · rw [rfcPadded, hlength]
        omega
    rw [binToB64_of_nopad hmod hret]
    by_cases hzero : (rfcNopad data).length % 4 = 0
    · have hpadded : rfcPadded data = rfcNopad data := by
        rw [rfcPadded, pad, hzero]
        exact append_nil _
      rw [if_pos hzero, hpadded]
      exact ⟨_, _, rfl, hbuf, Or.inr ⟨rfl, hmem⟩⟩
    · have hpadded : rfcPadded data = rfcNopad data
          ++ List.replicate (4 - (rfcNopad data).length % 4) codePad := by
        rw [rfcPadded, pad, Nat.mod_eq_of_lt (by omega : 4 - (rfcNopad data).length % 4 < 4)]
        rfl
      rw [if_neg hzero, int32_eq (by omega) (by omega), int32_eq (by omega) (by omega), hpadded]
      by_cases hsmall : ((rfcNopad data).length + (4 - (rfcNopad data).length % 4 : ℕ) + 1 : ℤ)
          ≤ max_len
      · rw [if_pos hsmall]
        refine ⟨_, _, rfl, inBuffer_append.mpr ⟨hbuf, inBuffer_writesAt ?_ ?_ hmax'⟩,
          Or.inr ⟨?_, ?_⟩⟩
        · omega
        · simp only [length_append, length_replicate, length_singleton]
          omega
        · simp
        · intro mem
          rw [run_append]
          exact holdsString_append (hmem mem) (by simp; omega)
      · rw [if_neg hsmall]
        refine ⟨_, _, rfl, hbuf, Or.inl ⟨rfl, ?_⟩⟩
        simp only [length_append, length_replicate]
        omega

end

theorem decodes_rfcNopad (data : List Byte) : Decodes (rfcNopad data) data :=
  decodes_of_b64ToBin fun _ hroom => b64ToBin_nopad (toBytes_ofBytes data) hroom

theorem decodes_rfcPadded (data : List Byte) : Decodes (rfcPadded data) data :=
  decodes_of_b64ToBin fun _ hroom => b64ToBin_pad (toBytes_ofBytes data) hroom

/-! ## Main result -/

/-- Encoding fits the buffer and decoding gives the bytes back, except for an empty input without
room for the terminator and for texts at the end of the range of `int`; and the bytes of a canonical
text encode to that text. -/
theorem base64_round_trip_iff (data text : List Byte) (max_len : ℤ) (hmax' : max_len < 2147483648) :
    (data.length < 2147483648 → 0 ≤ max_len →
        (Encodes (some (binToB64Nopad data max_len)) (rfcNopad data) max_len
            ∧ Encodes (binToB64 data max_len) (rfcPadded data) max_len
            ∧ Decodes (rfcNopad data) data ∧ Decodes (rfcPadded data) data ↔
          NopadFits data max_len ∧ ¬((rfcNopad data).length = 2147483646 ∧ max_len = 2147483647)))
      ∧ (text.length < max_len →
        (CanonicalNopad text → ∃ data ws, Decodes text data
            ∧ binToB64Nopad data max_len = ((text.length : ℤ), ws) ∧ InBuffer max_len ws
            ∧ ∀ mem, HoldsString (run mem ws) text)
          ∧ (CanonicalPadded text → ∃ data ws, Decodes text data
            ∧ binToB64 data max_len = some ((text.length : ℤ), ws) ∧ InBuffer max_len ws
            ∧ ∀ mem, HoldsString (run mem ws) text)) := by
  refine ⟨?_, ?_⟩
  · intro hdata hmax
    rw [encodes_nopad_iff hdata hmax hmax', encodes_padded_iff hdata hmax hmax']
    exact ⟨fun h => h.2.1, fun h => ⟨h.1, h, decodes_rfcNopad data, decodes_rfcPadded data⟩⟩
  · intro hlen
    have hfits : ∀ data : List Byte, (rfcNopad data).length ≤ text.length →
        data.length < 2147483648 ∧ NopadFits data max_len := fun data hle => by
      have hlength := length_rfcNopad data
      exact ⟨by omega, fun _ => by omega, fun _ => by omega⟩
    refine ⟨?_, ?_⟩
    · rintro ⟨s, hs, rfl⟩
      obtain ⟨data, hdata, rfl⟩ := exists_bytes_of_canonical hs
      obtain ⟨hsize, hroom⟩ := hfits data (le_refl _)
      obtain ⟨ret, ws, hres, hbuf, hcase⟩ :=
        (encodes_nopad_iff hsize (by omega) hmax').mpr hroom
      rcases hcase with ⟨-, hsmall⟩ | ⟨rfl, hmem⟩
      · exact absurd hlen (not_lt.mpr hsmall)
      · exact ⟨data, ws, decodes_rfcNopad data, Option.some.inj hres, hbuf, hmem⟩
    · rintro ⟨s, hs, rfl⟩
      obtain ⟨data, hdata, rfl⟩ := exists_bytes_of_canonical hs
      have hpad : (pad (rfcNopad data)).length = ((rfcNopad data).length + 3) / 4 * 4 :=
        length_pad _
      change ((pad (rfcNopad data)).length : ℤ) < max_len at hlen
      obtain ⟨hsize, hroom⟩ := hfits data (by
        change (rfcNopad data).length ≤ (pad (rfcNopad data)).length
        omega)
      obtain ⟨ret, ws, hres, hbuf, hcase⟩ :=
        (encodes_padded_iff hsize (by omega) hmax').mpr ⟨hroom, by omega⟩
      rcases hcase with ⟨-, hsmall⟩ | ⟨rfl, hmem⟩
      · exact absurd hlen (not_lt.mpr hsmall)
      · exact ⟨data, ws, decodes_rfcPadded data, hres, hbuf, hmem⟩

/-- The bytes of `Man` and the text `TWE=` satisfy the hypotheses. -/
theorem base64_round_trip_man :
    (Encodes (some (binToB64Nopad [77, 97, 110] 5)) (rfcNopad [77, 97, 110]) 5
        ∧ Encodes (binToB64 [77, 97, 110] 5) (rfcPadded [77, 97, 110]) 5
        ∧ Decodes (rfcNopad [77, 97, 110]) [77, 97, 110]
        ∧ Decodes (rfcPadded [77, 97, 110]) [77, 97, 110])
      ∧ ∃ data ws, Decodes [84, 87, 69, 61] data ∧ binToB64 data 5 = some (4, ws)
        ∧ InBuffer 5 ws ∧ ∀ mem, HoldsString (run mem ws) [84, 87, 69, 61] := by
  refine ⟨?_, ?_⟩
  · refine ((base64_round_trip_iff [77, 97, 110] [] 5 (by decide)).1 (by decide) (by decide)).mpr
      ⟨?_, ?_⟩
    · exact ⟨by decide, by decide⟩
    · decide
  · refine ((base64_round_trip_iff [] [84, 87, 69, 61] 5 (by decide)).2 (by decide)).2 ?_
    exact ⟨[19, 22, 4], rfl, by decide⟩

/-- Without any room, encoding no bytes writes the terminator all the same. -/
theorem encodes_nothing_into_empty_buffer :
    ¬Encodes (some (binToB64Nopad [] 0)) (rfcNopad []) 0 := by
  rintro ⟨ret, ws, hres, hbuf, -⟩
  obtain rfl : [⟨0, 0⟩] = ws := congrArg Prod.snd (Option.some.inj hres)
  exact absurd hbuf (by decide)

end RutosSdk.Tools
