import RutosSdk.Lib.Bytes
import RutosSdk.Lib.Search

/-! # Strings and numbers of the boot loader

Reference: `lib/string.c` and `lib/strto.c` in `package/boot/uboot-mt7621/src`.
-/

namespace RutosSdk.Uboot

open Search

/-- The end of a line. -/
def crlf : List Byte := [0x0d, 0x0a]

/-- `strstr` -/
def strstr (s pat : List Byte) : Option ℕ := findSub pat s

/-- `strchr`, for a character other than the zero. -/
def strchr (s : List Byte) (c : Byte) : Option ℕ := s.findIdx? (· = c)

/-- `strncpy` into a buffer that ends in a zero behind the `n` bytes. -/
def strncpy (src : List Byte) (n : ℕ) : List Byte := cstr (src.take n)

/-- `decode_digit` -/
def decodeDigit (c : Byte) : ℕ :=
  if isDigit c then c.toNat - 0x30
  else if 0x61 ≤ c ∧ c ≤ 0x66 then c.toNat - 0x61 + 10
  else if 0x41 ≤ c ∧ c ≤ 0x46 then c.toNat - 0x41 + 10
  else 256

/-- The number at the start of a text, and what follows it. -/
def parseDigits (base result : ℕ) : List Byte → ℕ × List Byte
  | [] => (result, [])
  | c :: cp =>
    if decodeDigit c < base then parseDigits base (result * base + decodeDigit c) cp
    else (result, c :: cp)

/-- `_parse_integer_fixup_radix` with the base ten: a hexadecimal number is taken for one. -/
def fixupRadix : List Byte → ℕ × List Byte
  | 0x30 :: 0x78 :: cp => (16, cp)
  | 0x30 :: 0x58 :: cp => (16, cp)
  | cp => (10, cp)

/-- `simple_strtoull` with the base ten, and the end of the number. -/
def simpleStrtoull (cp : List Byte) : ℕ × List Byte :=
  let (base, cp) := fixupRadix cp
  parseDigits base 0 cp

/-- `simple_strtoul` with the base ten; a `long` has 32 bits. -/
def simpleStrtoul (cp : List Byte) : Word := BitVec.ofNat 32 (simpleStrtoull cp).1

end RutosSdk.Uboot
