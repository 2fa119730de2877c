import RutosSdk.Lib.Bytes
import RutosSdk.Lib.Writes

/-! # Base64 conversion

Reference: `libtools/src/base64.c`.

A conversion returns an `int` and makes assignments to `out`; the size of the input is the length of
a list, which stands for an `int` that is not negative. Where `exit` is called there is no result:
`char_to_code` does so on a character outside of the alphabet. `NULL` arguments are excluded by the
types.
-/

namespace RutosSdk.Tools

open Writes

/-- `code_62`: `+` -/
def code62 : Byte := 43
/-- `code_63`: `/` -/
def code63 : Byte := 47
/-- `code_pad`: `=` -/
def codePad : Byte := 61

/-- `code_to_char`, on the six bits that every caller masks. -/
def codeToChar (code : BitVec 6) : Byte :=
  let x : Byte := code.setWidth 8
  if x ≤ 25 then 65 + x
  else if x ≤ 51 then 97 + (x - 26)
  else if x ≤ 61 then 48 + (x - 52)
  else if x = 62 then code62
  else code63

/-- `char_to_code`; the program exits on any other character. -/
def charToCode (x : Byte) : Option Byte :=
  if 65 ≤ x ∧ x ≤ 90 then some (x - 65)
  else if 97 ≤ x ∧ x ≤ 122 then some (x - 97 + 26)
  else if 48 ≤ x ∧ x ≤ 57 then some (x - 48 + 52)
  else if x = code62 then some 62
  else if x = code63 then some 63
  else none

/-! ## Encoding -/

/-- The 24 bits of three bytes. -/
def bytesBlock (a b c : Byte) : Word :=
  (0xFF &&& a.setWidth 32) <<< 16 ||| (0xFF &&& b.setWidth 32) <<< 8 ||| (0xFF &&& c.setWidth 32)

/-- The four characters of a block. -/
def blockChars (b : Word) : List Byte :=
  [codeToChar (b.extractLsb' 18 6), codeToChar (b.extractLsb' 12 6),
    codeToChar (b.extractLsb' 6 6), codeToChar (b.extractLsb' 0 6)]

/-- The number of characters of the last block, by the number of its bytes. -/
def lastChars (last_bytes : ℕ) : ℕ :=
  match last_bytes with
  | 0 => 0
  | 1 => 2
  | _ => 3

variable (data text : List Byte) (max_len : ℤ)

/-- The characters of the last partial block, with the terminator. -/
def lastBlock (i last_bytes : ℕ) : List Byte :=
  match last_bytes with
  | 0 => [0]
  | 1 => (blockChars (bytesBlock (data.getD (3 * i) 0) 0 0)).take 2 ++ [0]
  | _ => (blockChars (bytesBlock (data.getD (3 * i) 0) (data.getD (3 * i + 1) 0) 0)).take 3 ++ [0]

/-- `bin_to_b64_nopad` -/
def binToB64Nopad : ℤ × List (Write Byte) :=
  if data.length = 0 then (0, [⟨0, 0⟩])
  else
    let full_blocks := data.length / 3
    let last_bytes := data.length % 3
    let result_len := int32 (4 * full_blocks + lastChars last_bytes)
    if max_len < int32 (result_len + 1) then (-1, [])
    else
      (result_len,
        (List.range full_blocks).flatMap (fun i => writesAt (4 * i : ℕ)
            (blockChars (bytesBlock (data.getD (3 * i) 0) (data.getD (3 * i + 1) 0)
              (data.getD (3 * i + 2) 0))))
          ++ writesAt (4 * full_blocks : ℕ) (lastBlock data full_blocks last_bytes))

/-- `bin_to_b64`; the remainder of a negative `ret` falls in the `default` branch, which exits. -/
def binToB64 : Option (ℤ × List (Write Byte)) :=
  let (ret, ws) := binToB64Nopad data max_len
  if ret = -1 then some (-1, ws)
  else
    match ret.tmod 4 with
    | 0 => some (ret, ws)
    | 1 => some (-1, ws)
    | 2 =>
      if int32 (ret + 2 + 1) ≤ max_len then
        some (int32 (ret + 2), ws ++ writesAt ret [codePad, codePad, 0])
      else some (-1, ws)
    | 3 =>
      if int32 (ret + 1 + 1) ≤ max_len then
        some (int32 (ret + 1), ws ++ writesAt ret [codePad, 0])
      else some (-1, ws)
    | _ => none

/-! ## Decoding -/

/-- The 24 bits of four codes. -/
def codesBlock (a b c d : Byte) : Word :=
  (0x3F &&& a.setWidth 32) <<< 18 ||| (0x3F &&& b.setWidth 32) <<< 12
    ||| (0x3F &&& c.setWidth 32) <<< 6 ||| (0x3F &&& d.setWidth 32)

/-- The three bytes of a block. -/
def blockBytes (b : Word) : List Byte := [b.extractLsb' 16 8, b.extractLsb' 8 8, b.extractLsb' 0 8]

/-- The block of `n` characters at place `i`; the ones that are not there count as zero. -/
def decodeBlock (i n : ℕ) : Option (List Byte) := do
  let codes ← ((text.drop (4 * i)).take n).mapM charToCode
  let b := codesBlock (codes.getD 0 0) (codes.getD 1 0) (codes.getD 2 0) (codes.getD 3 0)
  return (blockBytes b).take (3 * n / 4)

/-- `b64_to_bin_nopad` -/
def b64ToBinNopad : Option (ℤ × List (Write Byte)) :=
  if text.length = 0 then some (0, [])
  else
    let full_blocks := text.length / 4
    let last_chars := text.length % 4
    if last_chars = 1 then some (-1, [])
    else
      let last_bytes := if last_chars = 0 then 0 else last_chars - 1
      let result_len := 3 * full_blocks + last_bytes
      if max_len < result_len then some (-1, [])
      else do
        let blocks ← (List.range full_blocks).mapM fun i => do
          let bytes ← decodeBlock text i 4
          return writesAt (3 * i : ℕ) bytes
        let last ← decodeBlock text full_blocks last_chars
        return (result_len, blocks.flatten ++ writesAt (3 * full_blocks : ℕ) last)

/-- `b64_to_bin` -/
def b64ToBin : Option (ℤ × List (Write Byte)) :=
  let size := text.length
  if size % 4 = 0 ∧ 4 ≤ size then
    if text.getD (size - 2) 0 = codePad then b64ToBinNopad (text.take (size - 2)) max_len
    else if text.getD (size - 1) 0 = codePad then b64ToBinNopad (text.take (size - 1)) max_len
    else b64ToBinNopad text max_len
  else b64ToBinNopad text max_len

end RutosSdk.Tools
