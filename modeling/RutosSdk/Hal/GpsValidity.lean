import RutosSdk.Hal.GpsParse

/-! # Which messages vouch for the time that is returned

Reference: `libloragw/src/loragw_gps.c`.

RMC sentences and NAV-TIMEGPS messages carry two different times, UTC and GPS time, and both write
the one flag `gps_time_ok`. The flag therefore says what the last message that wrote it said. It
answers for both times only when that message agrees with the last one of the other kind.
-/

namespace RutosSdk.Hal

open Traced

/-! ## Sequences of messages -/

/-- A call of a parser: the memory, the place of the message and the number of bytes. -/
inductive GpsCall where
  | ubx (mem : ℕ → Byte) (base buff_size : ℕ)
  | nmea (mem : ℕ → Byte) (base buff_size : ℕ)

/-- The state after the call. -/
def GpsCall.exec (env : GpsEnv) (gps : GpsState) : GpsCall → GpsState
  | .ubx mem base buff_size => (lgwParseUbx mem base buff_size gps).val.2.2
  | .nmea mem base buff_size => (lgwParseNmea env mem base buff_size gps).val.2

variable (env : GpsEnv) (calls : List GpsCall) (gps : GpsState) (wanted : GpsWanted)

/-- The state after the calls. -/
def gpsRun : GpsState := calls.foldl (GpsCall.exec env) GpsState.initial

/-- The sentence of a call, if it has a correct checksum and its label is RMC. -/
def GpsCall.rmc : GpsCall → Option (List Byte)
  | .ubx _ _ _ => none
  | .nmea mem base buff_size =>
    let s := (readRange mem id base buff_size).val
    if 8 ≤ buff_size ∧ buff_size ≤ 255 ∧ validateNmeaChecksum s ∧ isRmc s then some s else none

/-- An RMC sentence with all its fields reports a fix, a time and a date. -/
def rmcReportsFix (s : List Byte) : Bool := (strChop s).length = 13 && rmcValid env (strChop s)

/-- The validity flags of the NAV-TIMEGPS message of a call. -/
def GpsCall.timegpsFlags : GpsCall → Option Byte
  | .ubx mem base buff_size =>
    if (ubxFrame mem base buff_size).isSome && isTimegps mem base then some (mem (base + 17))
    else none
  | .nmea _ _ _ => none

/-- `towValid` and `weekValid` are both set. -/
def timegpsValid (flags : Byte) : Bool := flags &&& 0x3 = 0x3

/-- What the call writes in `gps_time_ok`: one of the two flags is enough, and an RMC sentence with
a wrong number of fields writes nothing. -/
def GpsCall.timeOk (call : GpsCall) : Option Bool :=
  match call.timegpsFlags, call.rmc with
  | some flags, _ => some (flags &&& 0x3 ≠ 0)
  | none, some s => if (strChop s).length = 13 then some (rmcValid env (strChop s)) else none
  | none, none => none

/-- What the most recent of the calls that report something reports. -/
def latest {α : Type*} (report : GpsCall → Option α) (calls : List GpsCall) : Option α :=
  (calls.filterMap report).getLast?

/-- The most recent RMC sentence reports a valid fix with date and time. -/
def LatestRmcValid : Prop := ∃ s, latest GpsCall.rmc calls = some s ∧ rmcReportsFix env s

/-- The most recent NAV-TIMEGPS message is flagged valid. -/
def LatestTimegpsValid : Prop :=
  ∃ flags, latest GpsCall.timegpsFlags calls = some flags ∧ timegpsValid flags

/-! ## The flag says what its last writer says -/

/-- A call that writes nothing leaves the last writer in place. -/
theorem latest_append_none {α : Type*} {report : GpsCall → Option α} {call : GpsCall}
    (h : report call = none) : latest report (calls ++ [call]) = latest report calls := by
  rw [latest, List.filterMap_append, List.filterMap_cons_none h, List.filterMap_nil,
    List.append_nil, latest]

/-- A call that writes is the last writer. -/
theorem latest_append_some {α : Type*} {report : GpsCall → Option α} {call : GpsCall} {a : α}
    (h : report call = some a) : latest report (calls ++ [call]) = some a := by
  rw [latest, List.filterMap_append, List.filterMap_cons_some h, List.filterMap_nil,
    List.getLast?_concat]

/-- A UBX call writes the flag only for NAV-TIMEGPS. -/
theorem gps_time_ok_ubx (mem : ℕ → Byte) (base buff_size : ℕ) (gps : GpsState) :
    (GpsCall.exec env gps (.ubx mem base buff_size)).gps_time_ok
      = ((GpsCall.ubx mem base buff_size).timeOk env).getD gps.gps_time_ok := by
  rw [GpsCall.exec, GpsCall.timeOk, GpsCall.timegpsFlags, GpsCall.rmc]
  cases hframe : ubxFrame mem base buff_size with
  | none => rw [(lgwParseUbx_of_none gps hframe).1]; rfl
  | some n =>
    rw [lgwParseUbx_of_frame gps hframe, parseUbxMessage_val]
    cases htime : isTimegps mem base with
    | false => rfl
    | true =>
      by_cases hflags : mem (base + 17) &&& 0x3 ≠ 0
      · rw [if_pos hflags]
        exact (decide_eq_true hflags).symm
      · rw [if_neg hflags]
        exact (decide_eq_false hflags).symm

/-- A sentence writes the flag only if it is an RMC sentence with 13 fields. -/
theorem gps_time_ok_sentence (s : List Byte) (gps : GpsState) :
    (parseSentence env s gps).2.gps_time_ok
      = if validateNmeaChecksum s ∧ isRmc s ∧ (strChop s).length = 13 then
          rmcValid env (strChop s)
        else gps.gps_time_ok := by
  rw [parseSentence]
  cases hsum : validateNmeaChecksum s with
  | false => simp
  | true =>
    cases hrmc : isRmc s with
    | true =>
      by_cases hfields : (strChop s).length = 13
      · simp [parseRmc, hfields]
      · simp [parseRmc, hfields]
    | false =>
      cases hgga : isGga s with
      | false => simp
      | true =>
        by_cases hfields : (strChop s).length = 15
        · simp [parseGga, hfields]
        · simp [parseGga, hfields]

/-- An NMEA call writes the flag only for such a sentence. -/
theorem gps_time_ok_nmea (mem : ℕ → Byte) (base buff_size : ℕ) (gps : GpsState) :
    (GpsCall.exec env gps (.nmea mem base buff_size)).gps_time_ok
      = ((GpsCall.nmea mem base buff_size).timeOk env).getD gps.gps_time_ok := by
  rw [GpsCall.exec, lgwParseNmea, GpsCall.timeOk, GpsCall.timegpsFlags, GpsCall.rmc]
  by_cases hlong : 255 < buff_size
  · rw [if_pos hlong, if_neg (fun h => absurd h.2.1 (Nat.not_le.mpr hlong))]
    rfl
  · by_cases hshort : buff_size < 8
    · rw [if_neg hlong, if_pos hshort, if_neg (fun h => absurd h.1 (Nat.not_le.mpr hshort))]
      rfl
    · rw [if_neg hlong, if_neg hshort]
      simp only [bind_val, pure_val]
      rw [gps_time_ok_sentence]
      by_cases hsum : validateNmeaChecksum (readRange mem id base buff_size).val
      · by_cases hrmc : isRmc (readRange mem id base buff_size).val
        · have hsize : 8 ≤ buff_size ∧ buff_size ≤ 255 :=
            ⟨Nat.not_lt.mp hshort, Nat.not_lt.mp hlong⟩
          by_cases hfields : (strChop (readRange mem id base buff_size).val).length = 13
          · simp [hsize, hsum, hrmc, hfields]
          · simp [hsize, hsum, hrmc, hfields]
        · simp [hrmc]
      · simp [hsum]

/-- Every call: the flag is what the call writes, or stays. -/
theorem gps_time_ok_exec (call : GpsCall) :
    (call.exec env gps).gps_time_ok = (call.timeOk env).getD gps.gps_time_ok := by
  cases call with
  | ubx mem base buff_size => exact gps_time_ok_ubx env mem base buff_size gps
  | nmea mem base buff_size => exact gps_time_ok_nmea env mem base buff_size gps

/-- Every sequence of calls: the flag is what its last writer wrote, and is not set before. -/
theorem gps_time_ok_gpsRun :
    (gpsRun env calls).gps_time_ok = (latest (GpsCall.timeOk env) calls).getD false := by
  induction calls using List.reverseRecOn with
  | nil => rfl
  | append_singleton calls call ih =>
    rw [gpsRun, List.foldl_append, List.foldl_cons, List.foldl_nil, gps_time_ok_exec]
    cases hwrites : call.timeOk env with
    | none => rw [latest_append_none calls hwrites, ← ih]; rfl
    | some ok => rw [latest_append_some calls hwrites]; rfl

/-! ## What is returned -/

/-- Nothing but the time flag stands in the way of the answer. -/
def OtherwiseAnswers : Prop :=
  (wanted.utc → gps.utcSeconds env ≠ -1) ∧ (wanted.loc → gps.gps_pos_ok)

/-- When the UTC time is returned. -/
theorem lgwGpsGet_utc_iff :
    (∃ answer, lgwGpsGet env gps wanted = some answer ∧ answer.utc.isSome)
      ↔ wanted.utc ∧ gps.gps_time_ok ∧ OtherwiseAnswers env gps wanted := by
  rw [lgwGpsGet, OtherwiseAnswers]
  split_ifs with hutc hsec hgps hloc <;> simp_all

/-- When the GPS time is returned. -/
theorem lgwGpsGet_gps_time_iff :
    (∃ answer, lgwGpsGet env gps wanted = some answer ∧ answer.gps_time.isSome)
      ↔ wanted.gps_time ∧ gps.gps_time_ok ∧ OtherwiseAnswers env gps wanted := by
  rw [lgwGpsGet, OtherwiseAnswers]
  split_ifs with hutc hsec hgps hloc <;> simp_all

/-- The times that are returned are vouched for: UTC by the most recent RMC sentence and GPS time by
the most recent NAV-TIMEGPS message. -/
def TimesVouchedFor : Prop :=
  ∀ answer, lgwGpsGet env (gpsRun env calls) wanted = some answer →
    (answer.utc.isSome → LatestRmcValid env calls)
      ∧ (answer.gps_time.isSome → LatestTimegpsValid calls)

/-- Where the last message that wrote the flag set it, the last message of each kind that is asked
for is valid as well. -/
def WriterSpeaksForBoth : Prop :=
  latest (GpsCall.timeOk env) calls = some true →
    (wanted.utc → LatestRmcValid env calls) ∧ (wanted.gps_time → LatestTimegpsValid calls)

/-- For every sequence of messages, the times returned are vouched for exactly when the last writer
of the flag speaks for both, or the call fails for another reason. -/
theorem timesVouchedFor_iff (env : GpsEnv) (calls : List GpsCall) (wanted : GpsWanted) :
    TimesVouchedFor env calls wanted
      ↔ (OtherwiseAnswers env (gpsRun env calls) wanted
          → WriterSpeaksForBoth env calls wanted) := by
  have hflag : (gpsRun env calls).gps_time_ok ↔ latest (GpsCall.timeOk env) calls = some true := by
    rw [gps_time_ok_gpsRun]
    cases latest (GpsCall.timeOk env) calls <;> simp
  constructor
  · intro hvouched hother hwriter
    have hok := hflag.mpr hwriter
    constructor
    · intro hutc
      obtain ⟨answer, hanswer, hsome⟩ :=
        (lgwGpsGet_utc_iff env _ wanted).mpr ⟨hutc, hok, hother⟩
      exact (hvouched answer hanswer).1 hsome
    · intro hgps
      obtain ⟨answer, hanswer, hsome⟩ :=
        (lgwGpsGet_gps_time_iff env _ wanted).mpr ⟨hgps, hok, hother⟩
      exact (hvouched answer hanswer).2 hsome
  · intro hcond answer hanswer
    constructor
    · intro hsome
      obtain ⟨hutc, hok, hother⟩ := (lgwGpsGet_utc_iff env _ wanted).mp ⟨answer, hanswer, hsome⟩
      exact (hcond hother (hflag.mp hok)).1 hutc
    · intro hsome
      obtain ⟨hgps, hok, hother⟩ :=
        (lgwGpsGet_gps_time_iff env _ wanted).mp ⟨answer, hanswer, hsome⟩
      exact (hcond hother (hflag.mp hok)).2 hgps

/-! ## A sentence without a fix -/

/-- A NAV-TIMEGPS message with both validity flags. -/
def timegpsMessage : List Byte :=
  [0xB5, 0x62, 0x01, 0x20, 0x10, 0x00, 0, 0, 0, 0, 0, 0, 0, 0, 0, 0, 0, 0x03, 0, 0, 0, 0,
    0x34, 0xA3]

/-- First the sentence, then the message. -/
def noFixCalls : List GpsCall :=
  [.nmea (fun i => rmcNoFix.getD i 0) 0 25, .ubx (fun i => timegpsMessage.getD i 0) 0 24]

/-- The most recent RMC sentence says that there is no fix, and the UTC time is returned. -/
theorem noFixCalls_return_utc :
    latest GpsCall.rmc noFixCalls = some rmcNoFix ∧ rmcReportsFix plainEnv rmcNoFix = false
      ∧ ∃ answer, lgwGpsGet plainEnv (gpsRun plainEnv noFixCalls) ⟨true, false, false⟩ = some answer
        ∧ answer.utc.isSome := by
  refine ⟨by decide, by decide, (lgwGpsGet_utc_iff _ _ _).mpr ⟨rfl, ?_, ?_, ?_⟩⟩
  · decide
  · intro _
    decide
  · intro h
    exact absurd h (by decide)

end RutosSdk.Hal
