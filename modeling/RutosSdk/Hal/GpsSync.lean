import RutosSdk.Hal.Gps

/-! # Synchronisation of the counter with the GPS time

Reference: `lgw_gps_sync` in `libloragw/src/loragw_gps.c`.

A call compares the time that passed on the counter with the UTC time that passed since the
reference was taken. A point whose slope is more than 10 ppm off is aberrant and is ignored, unless
the last two points were aberrant as well. Whether they were is kept in two static variables, which
all references share. The arithmetic is that of the rationals here.
-/

namespace RutosSdk.Hal.GpsSync

/-! ## The function -/

/-- The value is out of the correction range. -/
def exceeds (slope : ℚ) : Bool := slope > plus10ppm || slope < minus10ppm

/-- The arguments of a call, the reference being one of `ι`, and what `time(NULL)` returns. -/
structure Call (ι : Type) where
  ref : ι
  count_us : Word
  utc : Timespec
  gps_time : Timespec
  time : ℤ

/-- The references, and the static variables of `lgw_gps_sync`. -/
structure State (ι : Type) where
  refs : ι → Tref ℚ
  aber_min1 : Bool := false
  aber_min2 : Bool := false

variable {ι : Type}

/-- `cnt_diff`, in seconds; the counter values are subtracted as `uint32_t`. -/
def cntDiff (ref : Tref ℚ) (call : Call ι) : ℚ := (call.count_us - ref.count_us).toNat / 1000000

/-- `utc_diff`, in seconds. -/
def utcDiff (ref : Tref ℚ) (call : Call ι) : ℚ :=
  (call.utc.tv_sec - ref.utc.tv_sec : ℤ) + 1 / 1000000000 * (call.utc.tv_nsec - ref.utc.tv_nsec : ℤ)

/-- `aber_n0` -/
def aberrant (ref : Tref ℚ) (call : Call ι) : Bool :=
  if utcDiff ref call ≠ 0 then exceeds (cntDiff ref call / utcDiff ref call) else true

/-- The reference with the counter and the times of the call. -/
def moved (call : Call ι) (xtal_err : ℚ) : Tref ℚ :=
  ⟨call.time, call.count_us, call.utc, call.gps_time, xtal_err⟩

variable [DecidableEq ι]

/-- `lgw_gps_sync`, and whether it returns `LGW_GPS_SUCCESS`. -/
def lgwGpsSync (s : State ι) (call : Call ι) : State ι × Bool :=
  let ref := s.refs call.ref
  let aber_n0 := aberrant ref call
  let update (xtal_err : ℚ) := Function.update s.refs call.ref (moved call xtal_err)
  if aber_n0 = false then
    (⟨update (cntDiff ref call / utcDiff ref call), aber_n0, s.aber_min1⟩, true)
  else if aber_n0 && s.aber_min1 && s.aber_min2 then
    -- three aberrant points in a row: `xtal_err` is kept as long as it is in range
    (⟨update (if exceeds ref.xtal_err then 1 else ref.xtal_err), aber_n0, s.aber_min1⟩, true)
  else (⟨s.refs, aber_n0, s.aber_min1⟩, false)

/-! ## Sequences of calls -/

variable (refs : ι → Tref ℚ)

/-- The state after a sequence of calls. -/
def run (calls : List (Call ι)) : State ι :=
  calls.foldl (fun s call => (lgwGpsSync s call).1) { refs := refs }

/-- The call is made on an aberrant point when it follows the others. -/
def AberrantAfter (before : List (Call ι)) (call : Call ι) : Prop :=
  aberrant ((run refs before).refs call.ref) call = true

/-- The last two calls were made on aberrant points. -/
def LastTwoAberrant (calls : List (Call ι)) : Prop :=
  ∃ before c c', calls = before ++ [c] ++ [c'] ∧ AberrantAfter refs before c
    ∧ AberrantAfter refs (before ++ [c]) c'

/-- What a call does when it follows the others. -/
structure Synchronises (refs : ι → Tref ℚ) (before : List (Call ι)) (call : Call ι) : Prop where
  /-- An error leaves all references as they were. -/
  of_error : (lgwGpsSync (run refs before) call).2 = false →
    (run refs (before ++ [call])).refs = (run refs before).refs
  /-- After a success the reference holds the counter and the times given, its correction is within
  10 ppm of 1, and no other reference has changed. -/
  of_success : (lgwGpsSync (run refs before) call).2 = true →
    ((run refs (before ++ [call])).refs call.ref).count_us = call.count_us
      ∧ ((run refs (before ++ [call])).refs call.ref).utc = call.utc
      ∧ ((run refs (before ++ [call])).refs call.ref).gps = call.gps_time
      ∧ ((run refs (before ++ [call])).refs call.ref).systime = call.time
      ∧ |((run refs (before ++ [call])).refs call.ref).xtal_err - 1| ≤ 10 / 1000000
      ∧ ∀ i ≠ call.ref, (run refs (before ++ [call])).refs i = (run refs before).refs i
  /-- The third aberrant point in a row is taken, and no other one. -/
  of_aberrant : AberrantAfter refs before call →
    ((lgwGpsSync (run refs before) call).2 = true ↔ LastTwoAberrant refs before)

theorem not_exceeds_iff {slope : ℚ} :
    exceeds slope = false ↔ minus10ppm ≤ slope ∧ slope ≤ plus10ppm := by
  simp only [exceeds, Bool.or_eq_false_iff, decide_eq_false_iff_not, gt_iff_lt, not_lt]
  exact and_comm

theorem exceeds_one : exceeds 1 = false := by
  rw [not_exceeds_iff]
  norm_num [minus10ppm, plus10ppm]

omit [DecidableEq ι] in
/-- The slope of a point that is not aberrant is in range. -/
theorem not_exceeds_of_not_aberrant {ref : Tref ℚ} {call : Call ι} (h : aberrant ref call = false) :
    exceeds (cntDiff ref call / utcDiff ref call) = false := by
  unfold aberrant at h
  split at h
  · exact h
  · cases h

section

variable (s : State ι) (call : Call ι)

/-- The ways in which a call ends. -/
inductive SyncEnds (s : State ι) (call : Call ι) : State ι × Bool → Prop
  | refused (haber : aberrant (s.refs call.ref) call = true)
    (hlast : ¬(s.aber_min1 = true ∧ s.aber_min2 = true)) :
    SyncEnds s call (⟨s.refs, true, s.aber_min1⟩, false)
  | taken {aber_n0 : Bool} {xtal_err : ℚ} (haber : aberrant (s.refs call.ref) call = aber_n0)
    (hlast : aber_n0 = true → s.aber_min1 = true ∧ s.aber_min2 = true)
    (hxtal : exceeds xtal_err = false) :
    SyncEnds s call
      (⟨Function.update s.refs call.ref (moved call xtal_err), aber_n0, s.aber_min1⟩, true)

theorem lgwGpsSync_ends : SyncEnds s call (lgwGpsSync s call) := by
  unfold lgwGpsSync
  dsimp only
  cases haber : aberrant (s.refs call.ref) call with
  | false => exact .taken haber (fun h => by cases h) (not_exceeds_of_not_aberrant haber)
  | true =>
    rw [if_neg (by decide), Bool.true_and]
    split
    · rename_i hlast
      refine .taken haber (fun _ => Bool.and_eq_true_iff.mp hlast) ?_
      split
      · exact exceeds_one
      · rename_i hxtal
        exact Bool.eq_false_iff.mpr hxtal
    · rename_i hlast
      exact .refused haber fun h => hlast (Bool.and_eq_true_iff.mpr h)

variable {s call}

variable {r : State ι × Bool}

theorem SyncEnds.of_error (h : SyncEnds s call r) (herror : r.2 = false) : r.1.refs = s.refs := by
  cases h with
  | refused haber hlast => rfl
  | taken haber hlast hxtal => cases herror

/-- A correction in range is within 10 ppm of 1. -/
theorem abs_sub_one_le {xtal_err : ℚ} (h : exceeds xtal_err = false) :
    |xtal_err - 1| ≤ 10 / 1000000 := by
  obtain ⟨hlow, hhigh⟩ := not_exceeds_iff.mp h
  norm_num only [minus10ppm, plus10ppm] at hlow hhigh
  rw [abs_le]
  constructor <;> linarith

theorem SyncEnds.of_success (h : SyncEnds s call r) (hsuccess : r.2 = true) :
    ∃ xtal_err, exceeds xtal_err = false ∧ r.1.refs call.ref = moved call xtal_err
      ∧ ∀ i ≠ call.ref, r.1.refs i = s.refs i := by
  cases h with
  | refused haber hlast => cases hsuccess
  | taken haber hlast hxtal =>
    exact ⟨_, hxtal, Function.update_self .., fun i hi => Function.update_of_ne hi ..⟩

theorem SyncEnds.success_iff (h : SyncEnds s call r)
    (haberrant : aberrant (s.refs call.ref) call = true) :
    r.2 = true ↔ s.aber_min1 = true ∧ s.aber_min2 = true := by
  cases h with
  | refused haber hlast => exact iff_of_false (by simp) hlast
  | taken haber hlast hxtal => exact iff_of_true rfl (hlast (haber.symm.trans haberrant))

/-- Every call remembers its point and the one before. -/
theorem SyncEnds.flags (h : SyncEnds s call r) :
    r.1.aber_min1 = aberrant (s.refs call.ref) call ∧ r.1.aber_min2 = s.aber_min1 := by
  cases h with
  | refused haber hlast => exact ⟨haber.symm, rfl⟩
  | taken haber hlast hxtal => exact ⟨haber.symm, rfl⟩

end

variable (refs : ι → Tref ℚ)

theorem run_append (before : List (Call ι)) (call : Call ι) :
    run refs (before ++ [call]) = (lgwGpsSync (run refs before) call).1 := by
  rw [run, List.foldl_append]
  rfl

theorem flags_append (before : List (Call ι)) (call : Call ι) :
    ((run refs (before ++ [call])).aber_min1 = true ↔ AberrantAfter refs before call)
      ∧ (run refs (before ++ [call])).aber_min2 = (run refs before).aber_min1 := by
  obtain ⟨hmin1, hmin2⟩ := (lgwGpsSync_ends (run refs before) call).flags
  rw [run_append, hmin1]
  exact ⟨Iff.rfl, hmin2⟩

/-- The flags say whether the last two calls were made on aberrant points. -/
theorem flags_iff_lastTwoAberrant (calls : List (Call ι)) :
    ((run refs calls).aber_min1 = true ∧ (run refs calls).aber_min2 = true)
      ↔ LastTwoAberrant refs calls := by
  rcases List.eq_nil_or_concat calls with rfl | ⟨init, c', rfl⟩
  · exact iff_of_false (fun h => by cases h.1) fun ⟨before, c, c', h, _⟩ => by simp at h
  rw [List.concat_eq_append, (flags_append refs init c').1, (flags_append refs init c').2]
  rcases List.eq_nil_or_concat init with rfl | ⟨before, c, rfl⟩
  · refine iff_of_false (fun h => by cases h.2) ?_
    rintro ⟨before, c, c'', h, -⟩
    simpa using congrArg List.length h
  rw [List.concat_eq_append, (flags_append refs before c).1]
  constructor
  · rintro ⟨hc', hc⟩
    exact ⟨before, c, c', rfl, hc, hc'⟩
  · rintro ⟨before', d, d', h, hd, hd'⟩
    obtain ⟨hinit, ⟨⟩⟩ := List.append_inj' h rfl
    obtain ⟨rfl, ⟨⟩⟩ := List.append_inj' hinit rfl
    exact ⟨hd', hd⟩

/-- In every sequence of calls, on any number of references, each call synchronises as it should. -/
theorem lgwGpsSync_synchronises (refs : ι → Tref ℚ) (before : List (Call ι)) (call : Call ι) :
    Synchronises refs before call := by
  have hends := lgwGpsSync_ends (run refs before) call
  constructor
  · intro herror
    rw [run_append]
    exact hends.of_error herror
  · intro hsuccess
    obtain ⟨xtal_err, hxtal, hmoved, hothers⟩ := hends.of_success hsuccess
    rw [run_append, hmoved]
    exact ⟨rfl, rfl, rfl, rfl, abs_sub_one_le hxtal, hothers⟩
  · intro haberrant
    rw [hends.success_iff haberrant]
    exact flags_iff_lastTwoAberrant refs before

end RutosSdk.Hal.GpsSync
