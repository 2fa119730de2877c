import Mathlib.Data.Int.Notation
import Mathlib.Data.Nat.Notation

/-! # Bytes and C strings

The characters that programs in C test and convert, words in memory, and error numbers.
-/

namespace RutosSdk

/-- A byte or a character of a C string. -/
abbrev Byte := BitVec 8

/-- A `uint32_t`, or the bits of an `int`. -/
abbrev Word := BitVec 32

/-- The bytes of a C string, without the zero at its end. -/
def str (s : String) : List Byte := s.toList.map fun c => BitVec.ofNat 8 c.toNat

/-- The C string at the start of a piece of memory. -/
def cstr (mem : List Byte) : List Byte := mem.takeWhile (· ≠ 0)

/-- Four bytes with the high one first. -/
def be32 (bytes : List Byte) : Word :=
  bytes.getD 0 0 ++ bytes.getD 1 0 ++ bytes.getD 2 0 ++ bytes.getD 3 0

/-- `isdigit` -/
def isDigit (c : Byte) : Bool := 0x30 ≤ c && c ≤ 0x39

/-- `islower`, with the letters of Latin-1. -/
def isLower (c : Byte) : Bool := (0x61 ≤ c && c ≤ 0x7a) || (0xdf ≤ c && c ≠ 0xf7)

/-- `toupper` -/
def toUpper (c : Byte) : Byte := if isLower c then c - 0x20 else c

/-- The hexadecimal digits, with capital letters. -/
def hexChars : List Byte := str "0123456789ABCDEF"

/-- A hexadecimal digit, in upper or lower case. -/
def isHexDigit (c : Byte) : Bool := hexChars.contains (toUpper c)

/-- The place of a digit among the hexadecimal ones. -/
def digitValue (c : Byte) : ℕ := hexChars.idxOf (toUpper c)

theorem isHexDigit_iff {c : Byte} : isHexDigit c = true ↔ toUpper c ∈ hexChars :=
  List.contains_iff_mem

def EIO : ℤ := 5
def ENOMEM : ℤ := 12
def EBUSY : ℤ := 16
def ENODEV : ℤ := 19
def EINVAL : ℤ := 22

end RutosSdk
