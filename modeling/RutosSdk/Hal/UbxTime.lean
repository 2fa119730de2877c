import RutosSdk.Hal.GpsParse

/-! # The time of NAV-TIMEGPS messages

Reference: `lgw_parse_ubx` in `libloragw/src/loragw_gps.c`.

The length of a message comes from the message itself. It is compared with the size of the buffer,
but not with `UBX_MSG_NAVTIMEGPS_LEN`, the length of the payload whose fields are then read. Whether
the time is valid is told by two flags, the one of the time of week and the one of the week.
-/

namespace RutosSdk.Hal

open Traced

/-- The length of the payload of NAV-TIMEGPS, by the u-blox protocol. The source has no name for it:
`UBX_MSG_NAVTIMEGPS_LEN` is the length of the command that enables the message. -/
def navTimegpsPayload : ℕ := 16

/-- The stored GPS time and its validity. -/
def GpsState.storedTime (gps : GpsState) : Word × Word × BitVec 16 × Bool :=
  (gps.gps_iTOW, gps.gps_fTOW, gps.gps_week, gps.gps_time_ok)

variable (mem : ℕ → Byte) (base buff_size : ℕ)

/-- The flag of the time of week, and the flag of the week. -/
def towValid : Bool := (mem (base + 17)).getLsbD 0

@[inherit_doc towValid]
def weekValid : Bool := (mem (base + 17)).getLsbD 1

/-- The buffer starts with a complete NAV-TIMEGPS message with a matching checksum. -/
def HasTimegps : Prop := ubxFrame mem base buff_size ≠ none ∧ isTimegps mem base = true

/-- The payload of the message holds all fields. -/
def LongPayload : Prop := navTimegpsPayload ≤ payloadLength (mem (base + 4)) (mem (base + 5))

/-- What is expected of `lgw_parse_ubx`, whatever time is stored before. -/
structure ParsesTime : Prop where
  reads : ∀ gps, (lgwParseUbx mem base buff_size gps).All (· < base + buff_size)
  msg_size : ∀ gps, (lgwParseUbx mem base buff_size gps).val.1 = .incomplete
    ∨ (lgwParseUbx mem base buff_size gps).val.2.1 ≤ buff_size
  changes : ∀ gps, (lgwParseUbx mem base buff_size gps).val.2.2.storedTime ≠ gps.storedTime →
    HasTimegps mem base buff_size ∧ LongPayload mem base
  valid : HasTimegps mem base buff_size → LongPayload mem base → ∀ gps,
    ((lgwParseUbx mem base buff_size gps).val.2.2.gps_time_ok = true
      ↔ towValid mem base = true ∧ weekValid mem base = true)

/-! ## What a message changes -/

variable {mem base buff_size}

theorem and_three_ne_zero_iff (flags : Byte) :
    flags &&& 0x3 ≠ 0 ↔ flags.getLsbD 0 = true ∨ flags.getLsbD 1 = true := by
  revert flags
  decide

/-- The time is marked as valid if one of the flags is set. -/
theorem gps_time_ok_of_hasTimegps (h : HasTimegps mem base buff_size) (gps : GpsState) :
    (lgwParseUbx mem base buff_size gps).val.2.2.gps_time_ok = true
      ↔ towValid mem base = true ∨ weekValid mem base = true := by
  obtain ⟨n, hframe⟩ := Option.ne_none_iff_exists'.mp h.1
  rw [lgwParseUbx_of_frame gps hframe, parseUbxMessage_val, if_pos h.2]
  rw [towValid, weekValid, ← and_three_ne_zero_iff]
  split_ifs with hflags
  · exact iff_of_true rfl hflags
  · exact iff_of_false (by simp) hflags

/-- Nothing else changes the state. -/
theorem lgwParseUbx_of_not_hasTimegps (h : ¬HasTimegps mem base buff_size) (gps : GpsState) :
    (lgwParseUbx mem base buff_size gps).val.2.2 = gps := by
  cases hframe : ubxFrame mem base buff_size with
  | none => exact (lgwParseUbx_of_none gps hframe).1
  | some n =>
    have hnot : ¬isTimegps mem base = true := fun htime =>
      h ⟨Option.ne_none_iff_exists'.mpr ⟨n, hframe⟩, htime⟩
    rw [lgwParseUbx_of_frame gps hframe, parseUbxMessage_val, if_neg hnot]

theorem lgwParseUbx_msg_size (gps : GpsState) :
    (lgwParseUbx mem base buff_size gps).val.1 = .incomplete
      ∨ (lgwParseUbx mem base buff_size gps).val.2.1 ≤ buff_size := by
  rw [lgwParseUbx]
  split_ifs
  · exact .inr (Nat.zero_le _)
  · simp only [readAt, bind_val, ite_val, pure_val]
    split_ifs with hsync hfit hck
    · exact .inr hfit
    · exact .inr hfit
    · exact .inl rfl
    · exact .inr (Nat.zero_le _)

theorem msg_size_of_ubxFrame {n : ℕ} (h : ubxFrame mem base buff_size = some n) :
    n = 6 + payloadLength (mem (base + 4)) (mem (base + 5)) + 2 := by
  rw [ubxFrame] at h
  split_ifs at h
  exact (Option.some.inj h).symm

/-! ## When a buffer is parsed as expected -/

/-- A buffer is parsed as expected if and only if a NAV-TIMEGPS message at its start has all of its
payload and both flags or none. -/
theorem parsesTime_iff (mem : ℕ → Byte) (base buff_size : ℕ) :
    ParsesTime mem base buff_size ↔ (HasTimegps mem base buff_size →
      LongPayload mem base ∧ towValid mem base = weekValid mem base) := by
  constructor
  · intro hparses htime
    have hlong : LongPayload mem base := by
      -- a state with the other validity is changed by the message
      let before : GpsState := { GpsState.initial with
        gps_time_ok := !(towValid mem base || weekValid mem base) }
      refine (hparses.changes before fun hsame => ?_).2
      have hkept : (lgwParseUbx mem base buff_size before).val.2.2.gps_time_ok
          = !(towValid mem base || weekValid mem base) := congrArg (·.2.2.2) hsame
      have hok := gps_time_ok_of_hasTimegps htime before
      rw [hkept, ← Bool.or_eq_true] at hok
      cases hflags : towValid mem base || weekValid mem base <;> simp [hflags] at hok
    refine ⟨hlong, ?_⟩
    have hvalid := hparses.valid htime hlong GpsState.initial
    rw [gps_time_ok_of_hasTimegps htime] at hvalid
    revert hvalid
    cases towValid mem base <;> cases weekValid mem base <;> simp
  · intro hcond
    constructor
    · intro gps
      refine all_lgwParseUbx gps le_rfl fun n hframe htime => ?_
      have hlong := (hcond ⟨Option.ne_none_iff_exists'.mpr ⟨n, hframe⟩, htime⟩).1
      rw [LongPayload, navTimegpsPayload] at hlong
      rw [msg_size_of_ubxFrame hframe]
      omega
    · exact lgwParseUbx_msg_size
    · intro gps hchange
      by_cases htime : HasTimegps mem base buff_size
      · exact ⟨htime, (hcond htime).1⟩
      · exact absurd (congrArg GpsState.storedTime (lgwParseUbx_of_not_hasTimegps htime gps))
          hchange
    · intro htime _ gps
      rw [gps_time_ok_of_hasTimegps htime, (hcond htime).2, or_self, and_self]

/-- A NAV-TIMEGPS message of 8 bytes, without any payload. -/
def emptyTimegps : List Byte := [0xB5, 0x62, 0x01, 0x20, 0x00, 0x00, 0x21, 0x64]

/-- A NAV-TIMEGPS message whose week is not valid. -/
def weeklessTimegps : List Byte :=
  [0xB5, 0x62, 0x01, 0x20, 0x10, 0x00, 0, 0, 0, 0, 0, 0, 0, 0, 0, 0, 0, 0x01, 0, 0, 0, 0,
    0x32, 0x99]

/-- The flags of the one are read behind the buffer, and the time of the other is taken for valid.
-/
theorem timegps_not_parsesTime :
    17 ∈ (lgwParseUbx (fun i => emptyTimegps.getD i 0) 0 8 GpsState.initial).log
      ∧ ¬ParsesTime (fun i => emptyTimegps.getD i 0) 0 8
      ∧ (lgwParseUbx (fun i => weeklessTimegps.getD i 0) 0 24 GpsState.initial).val.2.2.gps_time_ok
        = true
      ∧ ¬ParsesTime (fun i => weeklessTimegps.getD i 0) 0 24 := by
  have hread : 17 ∈ (lgwParseUbx (fun i => emptyTimegps.getD i 0) 0 8 GpsState.initial).log := by
    decide
  have hvalid : (lgwParseUbx (fun i => weeklessTimegps.getD i 0) 0 24
      GpsState.initial).val.2.2.gps_time_ok = true := by
    decide
  refine ⟨hread, fun h => ?_, hvalid, fun h => ?_⟩
  · exact absurd (h.reads GpsState.initial 17 hread) (by decide)
  · have htime : HasTimegps (fun i => weeklessTimegps.getD i 0) 0 24 :=
      ⟨by decide, by decide⟩
    have hlong : LongPayload (fun i => weeklessTimegps.getD i 0) 0 := by
      unfold LongPayload
      decide
    have hweek := ((h.valid htime hlong GpsState.initial).mp hvalid).2
    exact absurd hweek (by decide)

end RutosSdk.Hal
