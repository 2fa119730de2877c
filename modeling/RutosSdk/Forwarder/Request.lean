import RutosSdk.Hal.Gps
import RutosSdk.Hal.TxGain
import RutosSdk.Jit.Queue
import RutosSdk.Tools.Base64

/-! # Downlink requests

Reference: the fields of a PULL_RESP in `thread_down` of `packet_forwarder/src/lora_pkt_fwd.c`, and
the getters of `libtools/src/parson.c`.

A JSON object is what `json_object_get_value` finds in it; the text has been parsed before. Each
`continue` of the field checks is an `Abort`, in the order of the source. The numbers are `double`
values, and the conversions out of range of their type are a parameter.
-/

namespace RutosSdk.Forwarder

open Binary64 Hal Jit Tools Writes

/-- The bytes of a character string. -/
def chars (s : List Char) : List Byte := s.map fun c => BitVec.ofNat 8 c.toNat

/-! ## JSON -/

/-- A JSON value; the elements of arrays and of nested objects are not looked at. -/
inductive JsonValue where
  | null
  | boolean (b : Bool)
  | number (x : Double)
  | string (s : List Byte)
  | array
  | object
deriving DecidableEq, Repr

/-- `json_value_get_number` -/
def jsonValueGetNumber : JsonValue → Double
  | .number x => x
  | _ => .ofInt 0

/-- `json_value_get_boolean` -/
def jsonValueGetBoolean : JsonValue → ℤ
  | .boolean true => 1
  | .boolean false => 0
  | _ => -1

/-- `json_value_get_string` -/
def jsonValueGetString : JsonValue → Option (List Byte)
  | .string s => some s
  | _ => none

/-- The names that `thread_down` looks up in a `txpk` object. -/
inductive TxpkField where
  | imme
  | tmst
  | tmms
  | ncrc
  | nhdr
  | freq
  | rfch
  | powe
  | modu
  | datr
  | codr
  | ipol
  | prea
  | fdev
  | size
  | data
deriving DecidableEq, Repr

/-- A `txpk` object: `json_object_get_value` for each of the names. -/
abbrev Txpk := TxpkField → Option JsonValue

variable (wild : Double.WildCast) (txpk : Txpk) (name : TxpkField) (txpkt : LgwPktTx)

/-- `json_object_get_string` -/
def Txpk.getString : Option (List Byte) := (txpk name).bind jsonValueGetString

/-- An optional flag: what is not a boolean counts as true. -/
def Txpk.flag : Bool := (txpk name).elim false fun val => jsonValueGetBoolean val != 0

/-! ## Formats -/

/-- `isspace` -/
def isSpace (c : Byte) : Bool := c == 32 || (9 ≤ c && c ≤ 13)

/-- The conversion `%hd` of `sscanf` with a field width: the value, and what follows it. -/
def scanShort (width : ℕ) (s : List Byte) : Option (ℤ × List Byte) :=
  let s := s.dropWhile isSpace
  let neg := s.head? = some 45
  let signed := neg ∨ s.head? = some 43
  let s := if signed then s.tail else s
  let width := if signed then width - 1 else width
  let digits := (s.take width).takeWhile isDigit
  if digits = [] then none
  else
    let value : ℤ := digits.foldl (fun v c => 10 * v + (c.toNat - 48 : ℕ)) 0
    some (if neg then -value else value, s.drop digits.length)

/-- Literal characters of a format. -/
def scanLiteral (literal s : List Byte) : Option (List Byte) :=
  if literal.isPrefixOf s then some (s.drop literal.length) else none

/-- `sscanf(str, "SF%2hdBW%3hd", &x0, &x1)`, when it converts both. -/
def scanDatr (str : List Byte) : Option (ℤ × ℤ) := do
  let str ← scanLiteral (chars ['S', 'F']) str
  let (x0, str) ← scanShort 2 str
  let str ← scanLiteral (chars ['B', 'W']) str
  let (x1, _) ← scanShort 3 str
  return (x0, x1)

/-- The spreading factors. -/
def loraDatarate (x0 : ℤ) : Option Word :=
  if 5 ≤ x0 ∧ x0 ≤ 12 then some (BitVec.ofInt 32 x0) else none

/-- The bandwidths. -/
def loraBandwidth (x1 : ℤ) : Option Byte :=
  if x1 = 125 then some bw125Khz
  else if x1 = 250 then some bw250Khz
  else if x1 = 500 then some bw500Khz
  else none

/-- The coding rates. -/
def loraCoderate (str : List Byte) : Option Byte :=
  if str = chars ['4', '/', '5'] then some 1
  else if str = chars ['4', '/', '6'] ∨ str = chars ['2', '/', '3'] then some 2
  else if str = chars ['4', '/', '7'] then some 3
  else if str = chars ['4', '/', '8'] ∨ str = chars ['1', '/', '2'] then some 4
  else none

/-- The preamble length: the minimum is enforced on the `int`, which is then narrowed. -/
def parsePreamble (std min : BitVec 16) (val : Option JsonValue) : BitVec 16 :=
  match val with
  | none => std
  | some val =>
    let i := (jsonValueGetNumber val).toSigned wild 32
    if (min.toNat : ℤ) ≤ i.toInt then i.setWidth 16 else min

/-! ## Fields -/

/-- The ends of a request before the packet is checked: nothing is sent to the server; the server is
told that the GPS is unlocked; the process exits. -/
inductive Abort where
  | ignored
  | gpsUnlocked
  | exited
deriving DecidableEq, Repr

/-- A field or a format without which the request is ignored. -/
def mandatory {α : Type} : Option α → Except Abort α
  | none => .error .ignored
  | some a => .ok a

/-- The RF chain settings that `thread_down` keeps for each chain. -/
structure ChainSettings where
  tx_enable : Bool
  tx_freq_min : Word
  tx_freq_max : Word
  txlut : LgwTxGainLut

/-- What a request is parsed with. An index beyond the RF chains finds the memory behind the
arrays. -/
structure Gateway where
  gps_enabled : Bool
  gps_ref_valid : Bool
  time_reference_gps : Tref
  antenna_gain : Byte
  chain : ℕ → ChainSettings
  wild : Double.WildCast

/-- The fields of a LoRa packet. -/
def parseLora : Except Abort LgwPktTx := do
  let datr ← mandatory (txpk.getString .datr)
  let (x0, x1) ← mandatory (scanDatr datr)
  let datarate ← mandatory (loraDatarate x0)
  let bandwidth ← mandatory (loraBandwidth x1)
  let codr ← mandatory (txpk.getString .codr)
  let coderate ← mandatory (loraCoderate codr)
  return { txpkt with
    modulation := modLora
    datarate := datarate
    bandwidth := bandwidth
    coderate := coderate
    invert_pol := txpk.flag .ipol
    -- `STD_LORA_PREAMB` and `MIN_LORA_PREAMB`
    preamble := parsePreamble wild 8 6 (txpk .prea) }

/-- The fields of an FSK packet. -/
def parseFsk : Except Abort LgwPktTx := do
  let datr ← mandatory (txpk .datr)
  let fdev ← mandatory (txpk .fdev)
  return { txpkt with
    modulation := modFsk
    datarate := (jsonValueGetNumber datr).toUnsigned wild 32
    f_dev := ((jsonValueGetNumber fdev).divNat 1000).toUnsigned wild 8
    -- `STD_FSK_PREAMB` and `MIN_FSK_PREAMB`
    preamble := parsePreamble wild 5 3 (txpk .prea) }

/-- The modulation and its fields. -/
def parseModulation : Except Abort LgwPktTx := do
  let modu ← mandatory (txpk.getString .modu)
  if modu = chars ['L', 'O', 'R', 'A'] then parseLora wild txpk txpkt
  else if modu = chars ['F', 'S', 'K'] then parseFsk wild txpk txpkt
  else throw .ignored

end RutosSdk.Forwarder
