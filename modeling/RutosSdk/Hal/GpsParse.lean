import RutosSdk.Hal.Gps
import RutosSdk.Lib.Bytes
import RutosSdk.Lib.Traced

/-! # GPS messages

Reference: `libloragw/src/loragw_gps.c`.

The parsers get a pointer into the serial buffer and the number of bytes from there on; memory is a
function from indices, and each index that is read is recorded. `sscanf`, `mktime` and the time zone
are parameters.
-/

namespace RutosSdk.Hal

open Traced

/-! ## State -/

/-- `enum gps_msg`, the values that the parsers return -/
inductive GpsMsg where
  | unknown
  | ignored
  | invalid
  | incomplete
  | nmeaRmc
  | nmeaGga
  | ubxNavTimegps
deriving DecidableEq, Repr

/-- The static variables of `loragw_gps.c`. -/
structure GpsState where
  gps_yea : BitVec 16
  gps_mon : BitVec 16
  gps_day : BitVec 16
  gps_hou : BitVec 16
  gps_min : BitVec 16
  gps_sec : BitVec 16
  gps_fra : Float32
  gps_time_ok : Bool
  gps_week : BitVec 16
  gps_iTOW : Word
  gps_fTOW : Word
  gps_dla : BitVec 16
  gps_mla : Float
  gps_ola : Byte
  gps_dlo : BitVec 16
  gps_mlo : Float
  gps_olo : Byte
  gps_alt : BitVec 16
  gps_pos_ok : Bool
  gps_mod : Byte
  gps_sat : BitVec 16

/-- The initial values; `lgw_gps_enable` sets the flags and the mode to them again. -/
def GpsState.initial : GpsState where
  gps_yea := 0
  gps_mon := 0
  gps_day := 0
  gps_hou := 0
  gps_min := 0
  gps_sec := 0
  gps_fra := 0
  gps_time_ok := false
  gps_week := 0
  gps_iTOW := 0
  gps_fTOW := 0
  gps_dla := 0
  gps_mla := 0
  gps_ola := 0
  gps_dlo := 0
  gps_mlo := 0
  gps_olo := 0
  gps_alt := 0
  gps_pos_ok := false
  gps_mod := 0x4E
  gps_sat := 0

/-- A value that `sscanf` assigns. -/
inductive ScanValue where
  | short (v : BitVec 16)
  | float (v : Float32)
  | double (v : Float)

/-- `struct tm`, the fields that are set -/
structure Tm where
  tm_year : ℤ
  tm_mon : ℤ
  tm_mday : ℤ
  tm_hour : ℤ
  tm_min : ℤ
  tm_sec : ℤ

/-- What the C library does: the values that `sscanf` assigns for a format and a text, in order, and
the time zone. -/
structure GpsEnv where
  sscanf : String → List Byte → List ScanValue
  mktime : Tm → ℤ
  timezone : ℤ

/-- A C library that converts nothing and takes every time for 0. -/
def plainEnv : GpsEnv := ⟨fun _ _ => [], fun _ => 0, 0⟩

variable (values : List ScanValue) (env : GpsEnv) (mem : ℕ → Byte) (s : List Byte) (base : ℕ)
  (gps : GpsState) (buff_size : ℕ)

/-- The short assigned by a conversion, or the old value. -/
def shortAt (k : ℕ) (old : BitVec 16) : BitVec 16 :=
  match values[k]? with
  | some (.short v) => v
  | _ => old

/-- The float assigned by a conversion, or the old value. -/
def floatAt (k : ℕ) (old : Float32) : Float32 :=
  match values[k]? with
  | some (.float v) => v
  | _ => old

/-- The double assigned by a conversion, or the old value. -/
def doubleAt (k : ℕ) (old : Float) : Float :=
  match values[k]? with
  | some (.double v) => v
  | _ => old

/-! ## UBX messages -/

/-- One byte of the 8-bit Fletcher checksum. -/
def fletcherStep (ck : Byte × Byte) (byte : Byte) : Byte × Byte :=
  let ck_a := ck.1 + byte
  (ck_a, ck.2 + ck_a)

/-- `payload_length` from its two bytes -/
def payloadLength (low high : Byte) : ℕ := low.toNat + 256 * high.toNat

/-- The GPS time of a NAV-TIMEGPS message, from the payload. -/
def GpsState.setTime (payload : List Byte) : GpsState :=
  let byte k := payload.getD k 0
  { gps with
    gps_iTOW := byte 3 ++ (byte 2 ++ (byte 1 ++ byte 0))
    gps_fTOW := byte 7 ++ (byte 6 ++ (byte 5 ++ byte 4))
    gps_week := byte 9 ++ byte 8
    gps_time_ok := true }

/-- The part of `lgw_parse_ubx` for a message with a correct checksum; the length of the payload is
not checked. -/
def parseUbxMessage : Traced ℕ (GpsMsg × GpsState) := do
  let cls ← readAt mem id (base + 2)
  let ident ← readAt mem id (base + 3)
  if cls = 0x01 ∧ ident = 0x20 then
    let flags ← readAt mem id (base + 17)
    if flags &&& 0x3 ≠ 0 then
      let payload ← readRange mem id (base + 6) 10
      return (.ubxNavTimegps, gps.setTime payload)
    else
      return (.ubxNavTimegps, { gps with gps_time_ok := false })
  else
    return (.ignored, gps)

/-- `lgw_parse_ubx`: the kind of message, `*msg_size` and the state. -/
def lgwParseUbx (gps : GpsState) : Traced ℕ (GpsMsg × ℕ × GpsState) :=
  if buff_size < 8 then return (.ignored, 0, gps)
  else do
    let sync1 ← readAt mem id base
    let sync2 ← readAt mem id (base + 1)
    if sync1 = 0xB5 ∧ sync2 = 0x62 then
      let low ← readAt mem id (base + 4)
      let high ← readAt mem id (base + 5)
      let msg_size := 6 + payloadLength low high + 2
      if msg_size ≤ buff_size then
        let ck_a_rcv ← readAt mem id (base + (msg_size - 2))
        let ck_b_rcv ← readAt mem id (base + (msg_size - 1))
        let ck ← foldRange mem id fletcherStep (base + 2) (4 + payloadLength low high) (0, 0)
        if ck = (ck_a_rcv, ck_b_rcv) then
          let (msg, gps) ← parseUbxMessage mem base gps
          return (msg, msg_size, gps)
        else
          return (.invalid, msg_size, gps)
      else
        return (.incomplete, msg_size, gps)
    else
      return (.ignored, 0, gps)

/-- The size of a complete message with a correct checksum. -/
def ubxFrame : Option ℕ :=
  let payload_length := payloadLength (mem (base + 4)) (mem (base + 5))
  let msg_size := 6 + payload_length + 2
  if 8 ≤ buff_size ∧ mem base = 0xB5 ∧ mem (base + 1) = 0x62 ∧ msg_size ≤ buff_size
      ∧ (foldRange mem id fletcherStep (base + 2) (4 + payload_length) (0, 0)).val
        = (mem (base + (msg_size - 2)), mem (base + (msg_size - 1))) then
    some msg_size
  else none

/-- The message is NAV-TIMEGPS. -/
def isTimegps : Bool := mem (base + 2) == 0x01 && mem (base + 3) == 0x20

/-! ## NMEA sentences -/

/-- `nibble_to_hexchar` -/
def nibbleToHexchar (a : Byte) : Byte :=
  if a < 10 then 0x30 + a else if a < 16 then 0x41 + (a - 10) else 0x3F

/-- The loop of `nmea_checksum`: the place of the `*` and the XOR of what precedes it. -/
def xorUntilStar : List Byte → ℕ → Byte → Option (ℕ × Byte)
  | [], _, _ => none
  | c :: cs, i, check_num =>
    if c = 0x2A then some (i, check_num) else xorUntilStar cs (i + 1) (check_num ^^^ c)

/-- `nmea_checksum`: the position of the checksum, and its two characters; `none` is -1. -/
def nmeaChecksum : Option (ℕ × Byte × Byte) :=
  if s.length ≤ 1 then none
  else
    let start := if s.head? = some 0x24 then 1 else 0
    match xorUntilStar (s.drop start) start 0 with
    | none => none
    | some (i, check_num) =>
      some (i + 1, nibbleToHexchar (check_num / 16), nibbleToHexchar (check_num % 16))

/-- `validate_nmea_checksum` -/
def validateNmeaChecksum : Bool :=
  match nmeaChecksum s with
  | none => false
  | some (checksum_index, c0, c1) =>
    if s.length ≤ checksum_index + 2 then false
    else s.getD checksum_index 0 == c0 && s.getD (checksum_index + 1) 0 == c1

/-- `match_label` for the labels `$G?` followed by three characters -/
def matchLabel (c3 c4 c5 : Byte) : Bool :=
  s.getD 0 0 == 0x24 && s.getD 1 0 == 0x47 && s.getD 3 0 == c3 && s.getD 4 0 == c4
    && s.getD 5 0 == c5

/-- `str_chop` at commas: the tokens up to the end of the string, at most 30. The last character is
the end of the string. -/
def strChop : List (List Byte) := ((s.dropLast.takeWhile (· ≠ 0)).splitOn 0x2C).take 30

/-- The mode of an RMC sentence: N, A or D. -/
def rmcMode (field : List Byte) : Byte :=
  let mode := field.headD 0
  if mode ≠ 0x4E ∧ mode ≠ 0x41 ∧ mode ≠ 0x44 then 0x4E else mode

/-- The time and the date of an RMC sentence could be read, and its mode says that there is a fix.
-/
def rmcValid (fields : List (List Byte)) : Bool :=
  (env.sscanf "%2hd%2hd%2hd%4f" (fields.getD 1 [])).length = 4
    && (env.sscanf "%2hd%2hd%2hd" (fields.getD 9 [])).length = 3
    && (rmcMode (fields.getD 12 []) = 0x41 || rmcMode (fields.getD 12 []) = 0x44)

/-- An RMC sentence. -/
def parseRmc : GpsMsg × GpsState :=
  let fields := strChop s
  if fields.length ≠ 13 then (.ignored, gps)
  else
    let time := env.sscanf "%2hd%2hd%2hd%4f" (fields.getD 1 [])
    let date := env.sscanf "%2hd%2hd%2hd" (fields.getD 9 [])
    (.nmeaRmc, { gps with
      gps_mod := rmcMode (fields.getD 12 [])
      gps_hou := shortAt time 0 gps.gps_hou
      gps_min := shortAt time 1 gps.gps_min
      gps_sec := shortAt time 2 gps.gps_sec
      gps_fra := floatAt time 3 gps.gps_fra
      gps_day := shortAt date 0 gps.gps_day
      gps_mon := shortAt date 1 gps.gps_mon
      gps_yea := shortAt date 2 gps.gps_yea
      gps_time_ok := rmcValid env fields })

/-- A GGA sentence. -/
def parseGga : GpsMsg × GpsState :=
  let fields := strChop s
  if fields.length ≠ 15 then (.ignored, gps)
  else
    let lat := env.sscanf "%2hd%10lf" (fields.getD 2 [])
    let lon := env.sscanf "%3hd%10lf" (fields.getD 4 [])
    let alt := env.sscanf "%hd" (fields.getD 9 [])
    let ola := (fields.getD 3 []).headD 0
    let olo := (fields.getD 5 []).headD 0
    (.nmeaGga, { gps with
      gps_sat := shortAt (env.sscanf "%hd" (fields.getD 7 [])) 0 gps.gps_sat
      gps_dla := shortAt lat 0 gps.gps_dla
      gps_mla := doubleAt lat 1 gps.gps_mla
      gps_ola := ola
      gps_dlo := shortAt lon 0 gps.gps_dlo
      gps_mlo := doubleAt lon 1 gps.gps_mlo
      gps_olo := olo
      gps_alt := shortAt alt 0 gps.gps_alt
      gps_pos_ok := lat.length = 2 && lon.length = 2 && alt.length = 1
        && (ola = 0x4E || ola = 0x53) && (olo = 0x45 || olo = 0x57) })

/-- The sentence is labelled `$G?RMC`. -/
def isRmc : Bool := matchLabel s 0x52 0x4D 0x43

/-- The sentence is labelled `$G?GGA`. -/
def isGga : Bool := matchLabel s 0x47 0x47 0x41

/-- A sentence of eight characters or more. -/
def parseSentence : GpsMsg × GpsState :=
  if !validateNmeaChecksum s then (.invalid, gps)
  else if isRmc s then parseRmc env s gps
  else if isGga s then parseGga env s gps
  else (.ignored, gps)

/-- `lgw_parse_nmea` -/
def lgwParseNmea (gps : GpsState) : Traced ℕ (GpsMsg × GpsState) :=
  if 255 < buff_size then return (.invalid, gps)
  else if buff_size < 8 then return (.unknown, gps)
  else do
    let s ← readRange mem id base buff_size
    return parseSentence env s gps

/-- The RMC sentence that the source gives for a receiver without a fix, with its checksum. -/
def rmcNoFix : List Byte := "$GPRMC,,V,,,,,,,,,,N*53\r\n".toList.map fun c => BitVec.ofNat 8 c.toNat

/-! ## Time and position -/

/-- `struct coord_s` -/
structure Coord where
  lat : Float
  lon : Float
  alt : BitVec 16

/-- The arguments of `lgw_gps_get` that are not null. -/
structure GpsWanted where
  utc : Bool
  gps_time : Bool
  loc : Bool
deriving DecidableEq, Repr

/-- What `lgw_gps_get` returns with `LGW_GPS_SUCCESS`. -/
structure GpsAnswer where
  utc : Option Timespec
  gps_time : Option Timespec
  loc : Option Coord

/-- The broken-down time of the last RMC sentence. -/
def GpsState.tm : Tm where
  tm_year := if gps.gps_yea.toInt < 100 then gps.gps_yea.toInt + 100 else gps.gps_yea.toInt - 1900
  tm_mon := gps.gps_mon.toInt - 1
  tm_mday := gps.gps_day.toInt
  tm_hour := gps.gps_hou.toInt
  tm_min := gps.gps_min.toInt
  tm_sec := gps.gps_sec.toInt

/-- The UTC time in seconds. -/
def GpsState.utcSeconds : ℤ := env.mktime gps.tm - env.timezone

/-- The UTC time. -/
def GpsState.utc : Timespec where
  tv_sec := gps.utcSeconds env
  tv_nsec := (gps.gps_fra.toFloat * 1e9).toInt32.toInt

/-- The GPS time. -/
def GpsState.gpsTime : Timespec :=
  let seconds := Float.ofNat gps.gps_iTOW.toNat / 1e3 + Float.ofInt gps.gps_fTOW.toInt / 1e9
  let intpart := if seconds < 0 then seconds.ceil else seconds.floor
  ⟨intpart.toInt64.toInt + gps.gps_week.toInt * 604800, ((seconds - intpart) * 1e9).toInt64.toInt⟩

/-- The position. -/
def GpsState.coord : Coord where
  lat := (Float.ofInt gps.gps_dla.toInt + gps.gps_mla / 60) * (if gps.gps_ola = 0x4E then 1 else -1)
  lon := (Float.ofInt gps.gps_dlo.toInt + gps.gps_mlo / 60) * (if gps.gps_olo = 0x45 then 1 else -1)
  alt := gps.gps_alt

/-- `lgw_gps_get`; `none` is `LGW_GPS_ERROR`. -/
def lgwGpsGet (wanted : GpsWanted) : Option GpsAnswer :=
  if wanted.utc ∧ !gps.gps_time_ok then none
  else if wanted.utc ∧ gps.utcSeconds env = -1 then none
  else if wanted.gps_time ∧ !gps.gps_time_ok then none
  else if wanted.loc ∧ !gps.gps_pos_ok then none
  else
    some ⟨if wanted.utc then some (gps.utc env) else none,
      if wanted.gps_time then some gps.gpsTime else none,
      if wanted.loc then some gps.coord else none⟩

/-! ## What the parsers do -/

variable {mem : ℕ → Byte} {base buff_size : ℕ}

/-- The state after a message with a correct checksum: only NAV-TIMEGPS changes it. -/
theorem parseUbxMessage_val :
    (parseUbxMessage mem base gps).val
      = if isTimegps mem base then
          (.ubxNavTimegps, if mem (base + 17) &&& 0x3 ≠ 0 then
            gps.setTime (readRange mem id (base + 6) 10).val
          else { gps with gps_time_ok := false })
        else (.ignored, gps) := by
  simp only [parseUbxMessage, isTimegps, readAt, bind_val, ite_val, pure_val, Bool.and_eq_true,
    beq_iff_eq]
  split_ifs <;> rfl

/-- A message is parsed if it is complete and its checksum is correct. -/
theorem lgwParseUbx_of_frame {n : ℕ} (h : ubxFrame mem base buff_size = some n) :
    (lgwParseUbx mem base buff_size gps).val
      = ((parseUbxMessage mem base gps).val.1, n, (parseUbxMessage mem base gps).val.2) := by
  rw [ubxFrame] at h
  split_ifs at h with hframe
  obtain ⟨hsize, hsync1, hsync2, hfit, hck⟩ := hframe
  obtain rfl := Option.some.inj h
  rw [lgwParseUbx, if_neg (Nat.not_lt.mpr hsize)]
  simp only [readAt, bind_val, ite_val, pure_val]
  rw [if_pos ⟨hsync1, hsync2⟩, if_pos hfit, if_pos hck]

/-- Anything else leaves the state alone, and is not taken for a frame. -/
theorem lgwParseUbx_of_none (h : ubxFrame mem base buff_size = none) :
    (lgwParseUbx mem base buff_size gps).val.2.2 = gps
      ∧ ((lgwParseUbx mem base buff_size gps).val.1 = .invalid
        ∨ (lgwParseUbx mem base buff_size gps).val.1 = .incomplete
        ∨ (lgwParseUbx mem base buff_size gps).val.2.1 = 0) := by
  rw [ubxFrame] at h
  split_ifs at h with hframe
  rw [lgwParseUbx]
  split_ifs with hsize
  · exact ⟨rfl, .inr (.inr rfl)⟩
  · simp only [readAt, bind_val, ite_val, pure_val]
    split_ifs with hsync hfit hck
    · exact absurd ⟨by omega, hsync.1, hsync.2, hfit, hck⟩ hframe
    · exact ⟨rfl, .inl rfl⟩
    · exact ⟨rfl, .inr (.inl rfl)⟩
    · exact ⟨rfl, .inr (.inr rfl)⟩

/-- A message with a correct checksum is not rejected. -/
theorem parseUbxMessage_accepts (gps : GpsState) :
    (parseUbxMessage mem base gps).val.1 ≠ .incomplete
      ∧ (parseUbxMessage mem base gps).val.1 ≠ .invalid := by
  rw [parseUbxMessage_val]
  cases isTimegps mem base <;> exact ⟨by simp, by simp⟩

/-- A sentence with a correct checksum is not rejected. -/
theorem parseSentence_rejects_iff :
    (parseSentence env s gps).1 = .invalid ∨ (parseSentence env s gps).1 = .unknown
      ↔ validateNmeaChecksum s = false := by
  rw [parseSentence]
  cases hsum : validateNmeaChecksum s with
  | false => simp
  | true =>
    simp only [Bool.not_true, Bool.false_eq_true, if_false, parseRmc, parseGga]
    split_ifs <;> simp

/-- `lgw_parse_nmea` rejects what is too long or too short or has a wrong checksum. -/
theorem lgwParseNmea_rejects_iff :
    ((lgwParseNmea env mem base buff_size gps).val.1 = .invalid
        ∨ (lgwParseNmea env mem base buff_size gps).val.1 = .unknown)
      ↔ ¬(8 ≤ buff_size ∧ buff_size ≤ 255
        ∧ validateNmeaChecksum (readRange mem id base buff_size).val) := by
  rw [lgwParseNmea]
  split_ifs with hlong hshort
  · exact iff_of_true (.inl rfl) fun h => by omega
  · exact iff_of_true (.inr rfl) fun h => by omega
  · simp only [bind_val, pure_val]
    rw [parseSentence_rejects_iff, Bool.eq_false_iff]
    exact not_congr ⟨fun h => ⟨by omega, by omega, h⟩, fun h => h.2.2⟩

/-! ## Where the parsers read -/

/-- A message is read up to its class, or up to the validity flags. -/
theorem all_parseUbxMessage {bound : ℕ} (hbound : base + 3 < bound)
    (htimegps : isTimegps mem base → base + 17 < bound) :
    (parseUbxMessage mem base gps).All (· < bound) := by
  rw [parseUbxMessage, all_bind_iff, all_readAt_iff, all_bind_iff, all_readAt_iff, all_ite_iff]
  refine ⟨show base + 2 < bound by omega, hbound, ?_, fun _ => all_pure _⟩
  rintro ⟨hcls, hident⟩
  have hflags := htimegps (by simp only [isTimegps, Bool.and_eq_true, beq_iff_eq]
                              exact ⟨hcls, hident⟩)
  rw [all_bind_iff, all_readAt_iff, all_ite_iff, all_bind_iff, all_readRange_iff]
  refine ⟨hflags, fun _ => ⟨?_, all_pure _⟩, fun _ => all_pure _⟩
  intro i _ hi
  show i < bound
  omega

/-- The message is read within the buffer, as long as a NAV-TIMEGPS message has the byte of the
validity flags. -/
theorem all_lgwParseUbx {bound : ℕ} (hbound : base + buff_size ≤ bound)
    (htimegps : ∀ n, ubxFrame mem base buff_size = some n → isTimegps mem base → 18 ≤ n) :
    (lgwParseUbx mem base buff_size gps).All (· < bound) := by
  rw [lgwParseUbx]
  split_ifs with hsize
  · exact all_pure _
  · rw [all_bind_iff, all_readAt_iff, all_bind_iff, all_readAt_iff, all_ite_iff]
    refine ⟨show base < bound by omega, show base + 1 < bound by omega, ?_, fun _ => all_pure _⟩
    intro hsync
    rw [all_bind_iff, all_readAt_iff, all_bind_iff, all_readAt_iff, all_ite_iff]
    refine ⟨show base + 4 < bound by omega, show base + 5 < bound by omega, ?_,
      fun _ => all_pure _⟩
    intro hfit
    simp only [readAt_val] at hfit
    rw [all_bind_iff, all_readAt_iff, all_bind_iff, all_readAt_iff, all_bind_iff,
      all_foldRange_iff, all_ite_iff]
    simp only [readAt_val, id]
    refine ⟨by omega, by omega, fun i _ _ => by omega, ?_, fun _ => all_pure _⟩
    intro hck
    rw [all_bind_iff]
    refine ⟨all_parseUbxMessage gps (by omega) ?_, all_pure _⟩
    intro htime
    have := htimegps _ (if_pos ⟨by omega, hsync.1, hsync.2, hfit, hck⟩) htime
    omega

theorem all_lgwParseNmea {bound : ℕ} (hbound : base + buff_size ≤ bound) :
    (lgwParseNmea env mem base buff_size gps).All (· < bound) := by
  rw [lgwParseNmea]
  split_ifs
  · exact all_pure _
  · exact all_pure _
  · simp only [all_bind_iff, all_readRange_iff, all_pure, id]
    exact ⟨fun i _ _ => by omega, trivial⟩

end RutosSdk.Hal
