import RutosSdk.Lib.Steps
import RutosSdk.Uboot.Failsafe

/-! # When the failsafe web server reports success

Reference: `failsafe/failsafe.c` in `package/boot/uboot-mt7621/src`.

The handlers are called in any order, for any requests. A report of success is earned when since the
last report an upload was accepted and flashed without an error. `result_handler` takes a
`data_size` of zero for an upload that is done, and that is also how `g_state` starts out.
-/

namespace RutosSdk.Uboot.Failsafe

open Steps

/-- What has happened, for the record. -/
inductive Note where
  | accepted (update : Update)
  | flashed (update : Update) (ret : ℤ)
  | report (success : Bool)
deriving DecidableEq, Repr

/-- `g_state`, `upload_id`, the sessions of `result_handler` with whether their answer was sent, and
the record, the newest note first. -/
structure State where
  g : GState
  upload_id : Word
  body_sent : ℕ → Option Bool
  log : List Note

/-- The start of the boot loader. -/
def init : State := ⟨{}, -1, fun _ => none, []⟩

/-- A call of a handler, or the header of a large upload, which draws a new identifier. -/
inductive Call where
  | largeHeader (rand : Word)
  | flashing (mem : Ptr → ℕ → List Byte) (values : List FormValue)
  | resultNew (conn : ℕ) (calloc : Bool)
  | resultResponding (conn : ℕ) (ret : ℤ) (rand : Word)
  | resultClosed (conn : ℕ)

variable (checks : Checks)

variable (s : State) (mem : Ptr → ℕ → List Byte)

/-- `flashing_handler` -/
def callFlashing (values : List FormValue) : State :=
  let r := flashingHandler checks mem s.upload_id s.g values
  { s with g := r.1, log := ((acceptedBy r).map .accepted).toList ++ s.log }

/-- `result_handler` with an answer that was not sent yet. -/
def callResult (s : State) (conn : ℕ) (ret : ℤ) (rand : Word) : State :=
  let flashed := flashUpload s.upload_id ret s.g
  let reported := reportResult rand flashed.1
  { s with
    g := reported.1
    body_sent := Function.update s.body_sent conn (some true)
    log := (reported.2.map .report).toList ++ (flashed.2.map (.flashed · ret)).toList ++ s.log }

/-- A call of one of the handlers. -/
def step : Call → State
  | .largeHeader rand => { s with upload_id := rand }
  | .flashing mem values => callFlashing checks s mem values
  | .resultNew conn calloc =>
    if calloc then { s with body_sent := Function.update s.body_sent conn (some false) } else s
  | .resultResponding conn ret rand =>
    match s.body_sent conn with
    | some false => callResult s conn ret rand
    | some true => s
    | none => s
  | .resultClosed conn => { s with body_sent := Function.update s.body_sent conn none }

/-! ## Reports that are earned -/

/-- The note is a report. -/
def Note.isReport : Note → Bool
  | .accepted _ => false
  | .flashed _ _ => false
  | .report _ => true

/-- What was recorded since the last report. -/
def sinceReport (log : List Note) : List Note := log.takeWhile fun note => !note.isReport

/-- Since the last report an upload was accepted, and after that it was flashed without an error. -/
def FlashedSince (log : List Note) : Prop :=
  ∃ update later earlier, sinceReport log = later ++ .flashed update 0 :: earlier ∧
    .accepted update ∈ earlier

/-- Every report of success is earned. -/
def Earned : List Note → Prop
  | [] => True
  | .accepted _ :: log => Earned log
  | .flashed _ _ :: log => Earned log
  | .report false :: log => Earned log
  | .report true :: log => FlashedSince log ∧ Earned log

/-- `do_httpd` resets the device once the server has ended. -/
def resetsDevice : Bool := s.g.upgrade_success

/-- Every report of success is earned, and the device is reset only after one. -/
def ReportsEarned : Prop := Earned s.log ∧ (resetsDevice s = true → .report true ∈ s.log)

/-- An answer of `result_handler` comes when an upload was accepted or refused before. -/
def Asked : Call → Prop
  | .largeHeader _ => True
  | .flashing _ _ => True
  | .resultNew _ _ => True
  | .resultResponding conn _ _ => s.body_sent conn = some false → 0 < s.g.data_size ∨ s.g.err ≠ 0
  | .resultClosed _ => True

/-! ## What the handlers do -/

theorem uploadAccepted_pos {tp : UploadTp} {fw : List Byte} {size n : ℕ}
    (h : uploadAccepted checks tp fw size = some n) : 0 < n := by
  have hmin : MIN_UPLOAD_SIZE = 10240 := rfl
  have hcrc : CRC_LEN = 10 := rfl
  cases tp <;> simp only [uploadAccepted] at h <;> split_ifs at h <;> cases h <;> omega

/-! ## The record and the state -/

/-- How the state and the record fit: without a size nothing was ever accepted, a known upload was
accepted since the last report, and success is noted where it is reported. -/
structure Fits (s : State) : Prop where
  size : s.g.data_size = 0 → ∀ update, .accepted update ∉ s.log
  upload : s.g.upl_tp ≠ .unknown → s.g.upload_size = s.g.data_size ∧
    .accepted s.g.update ∈ sinceReport s.log
  success : s.g.upgrade_success = true → .report true ∈ s.log

theorem fits_init : Fits init where
  size _ _ := List.not_mem_nil
  upload h := absurd rfl h
  success h := absurd h Bool.false_ne_true

variable {s : State} {ret : ℤ}

theorem callFlashing_fits (h : Fits s) (mem : Ptr → ℕ → List Byte) (values : List FormValue) :
    Fits (callFlashing checks s mem values) := by
  have hends := flashingHandler_ends checks mem s.upload_id s.g values
  unfold callFlashing
  generalize flashingHandler checks mem s.upload_id s.g values = r at hends ⊢
  cases hends with
  | accepted htp hfw hpass =>
    have hsize := Nat.ne_of_gt (uploadAccepted_pos checks hpass)
    refine ⟨fun hzero => absurd hzero hsize, fun _ => ⟨rfl, ?_⟩, fun hs => ?_⟩
    · exact List.mem_cons_self
    · exact absurd hs Bool.false_ne_true
  | refused hpage =>
    simp only [acceptedBy_of_ne hpage]
    exact ⟨h.size, fun htp => absurd rfl htp, h.success⟩

theorem callFlashing_earned (values : List FormValue) :
    Earned (callFlashing checks s mem values).log ↔ Earned s.log := by
  unfold callFlashing
  dsimp only
  cases acceptedBy (flashingHandler checks mem s.upload_id s.g values) <;> rfl

/-- The ways in which `result_handler` answers: it has flashed the upload that was accepted, it
reports success with nothing ever accepted, or it reports a failure. -/
inductive ResultEnds (s s' : State) : Prop
  | flashed {update : Update} (haccepted : .accepted update ∈ sinceReport s.log)
    (hlog : s'.log = .report true :: .flashed update 0 :: s.log)
  | empty (hsize : s.g.data_size = 0) (herr : s.g.err = 0) (hlog : s'.log = .report true :: s.log)
  | failed {update : Option Update} {ret : ℤ} (hasked : 0 < s.g.data_size ∨ s.g.err ≠ 0)
    (hsuccess : s'.g.upgrade_success = s.g.upgrade_success)
    (hlog : s'.log = .report false :: ((update.map (.flashed · ret)).toList ++ s.log))

theorem callResult_failed {conn : ℕ} {rand : Word} (hasked : 0 < s.g.data_size ∨ s.g.err ≠ 0)
    (herr : (flashUpload s.upload_id ret s.g).1.err ≠ 0)
    (hsuccess : (flashUpload s.upload_id ret s.g).1.upgrade_success = s.g.upgrade_success) :
    ResultEnds s (callResult s conn ret rand) := by
  have hreport : reportResult rand (flashUpload s.upload_id ret s.g).1
      = ({ (flashUpload s.upload_id ret s.g).1 with upload_data_id := rand, upl_tp := .unknown },
        some false) := if_pos herr
  refine @ResultEnds.failed _ _ (flashUpload s.upload_id ret s.g).2 ret hasked ?_ ?_
  · rw [callResult, hreport]
    exact hsuccess
  · rw [callResult, hreport]
    rfl

theorem callResult_succeeded {conn : ℕ} {rand : Word}
    (herr : (flashUpload s.upload_id ret s.g).1.err = 0)
    (hfinished : (flashUpload s.upload_id ret s.g).1.finished = true) :
    (callResult s conn ret rand).log
      = .report true :: (((flashUpload s.upload_id ret s.g).2.map (.flashed · ret)).toList
        ++ s.log) := by
  rw [callResult, reportResult, if_neg (not_not_intro herr), if_pos hfinished]
  rfl

/-- An upload that is known is flashed, and what that returns is reported. -/
theorem callResult_update (conn : ℕ) (rand : Word) {update : Update}
    (hsize : 0 < s.g.data_size) (haccepted : .accepted update ∈ sinceReport s.log)
    (hflash : flashUpload s.upload_id ret s.g
      = ({ s.g with err := ret, finished := true }, some update)) :
    ResultEnds s (callResult s conn ret rand) := by
  by_cases hret : ret = 0
  · subst hret
    refine .flashed haccepted ?_
    rw [callResult_succeeded (by rw [hflash]) (by rw [hflash]), hflash]
    rfl
  · exact callResult_failed (.inl hsize) (by rw [hflash]; exact hret) (by rw [hflash])

/-- What a report of the result leaves. -/
theorem callResult_ends (h : Fits s) (conn : ℕ) (ret : ℤ) (rand : Word) :
    ResultEnds s (callResult s conn ret rand) := by
  rcases Nat.eq_zero_or_pos s.g.data_size with hzero | hpos
  · have hflash : flashUpload s.upload_id ret s.g = ({ s.g with finished := true }, none) := by
      rw [flashUpload, if_neg (by omega)]
    by_cases herr : s.g.err = 0
    · refine .empty hzero herr ?_
      rw [callResult_succeeded (by rw [hflash]; exact herr) (by rw [hflash]), hflash]
      rfl
    · exact callResult_failed (.inr herr) (by rw [hflash]; exact herr) (by rw [hflash])
  · by_cases hid : s.g.upload_data_id = s.upload_id ∧ s.g.err = 0
    · cases htp : s.g.upl_tp with
      | unknown =>
        have hflash : flashUpload s.upload_id ret s.g
            = ({ s.g with err := 1, finished := true }, none) := by
          simp only [flashUpload, if_pos hpos, if_pos hid, htp]
        exact callResult_failed (.inl hpos) (by rw [hflash]; exact Int.one_ne_zero)
          (by rw [hflash])
      | uboot =>
        obtain ⟨hsize, haccepted⟩ := h.upload (by rw [htp]; decide)
        refine callResult_update conn rand hpos haccepted ?_
        simp only [flashUpload, if_pos hpos, if_pos hid, htp, hsize, GState.update]
      | firmware =>
        obtain ⟨-, haccepted⟩ := h.upload (by rw [htp]; decide)
        refine callResult_update conn rand hpos haccepted ?_
        simp only [flashUpload, if_pos hpos, if_pos hid, htp, GState.update]
    · have hflash : flashUpload s.upload_id ret s.g = ({ s.g with err := 1 }, none) := by
        rw [flashUpload, if_pos hpos, if_neg hid]
      exact callResult_failed (.inl hpos) (by rw [hflash]; exact Int.one_ne_zero) (by rw [hflash])

theorem flashUpload_data_size (upload_id : Word) (ret : ℤ) (g : GState) :
    (flashUpload upload_id ret g).1.data_size = g.data_size := by
  unfold flashUpload
  split_ifs
  · split <;> rfl
  · rfl
  · rfl

theorem callResult_data_size (s : State) (conn : ℕ) (ret : ℤ) (rand : Word) :
    (callResult s conn ret rand).g.data_size = s.g.data_size := by
  have hflash := flashUpload_data_size s.upload_id ret s.g
  unfold callResult reportResult
  dsimp only
  split_ifs <;> exact hflash

theorem flashUpload_finished {upload_id : Word} {g : GState}
    (h : (flashUpload upload_id ret g).1.err = 0) :
    (flashUpload upload_id ret g).1.finished = true := by
  unfold flashUpload at h ⊢
  split_ifs at h ⊢
  · cases htp : g.upl_tp <;> rfl
  · exact absurd h Int.one_ne_zero
  · rfl

/-- Every answer is a report, and after it no upload is known. -/
theorem reportResult_upl_tp (upload_id rand : Word) (ret : ℤ) (g : GState) :
    (reportResult rand (flashUpload upload_id ret g).1).1.upl_tp = .unknown := by
  unfold reportResult
  split_ifs with herr hfinished
  · rfl
  · rfl
  · exact absurd (flashUpload_finished (not_not.mp herr)) hfinished

theorem callResult_upl_tp (s : State) (conn : ℕ) (ret : ℤ) (rand : Word) :
    (callResult s conn ret rand).g.upl_tp = .unknown :=
  reportResult_upl_tp s.upload_id rand ret s.g

theorem callResult_fits (h : Fits s) (conn : ℕ) (ret : ℤ) (rand : Word) :
    Fits (callResult s conn ret rand) := by
  have hsize : ∀ notes : List Note, (∀ u, .accepted u ∉ notes) →
      (callResult s conn ret rand).log = notes ++ s.log →
      (callResult s conn ret rand).g.data_size = 0 →
        ∀ u, .accepted u ∉ (callResult s conn ret rand).log := by
    intro notes hnotes hlog hzero u hmem
    rw [callResult_data_size] at hzero
    rw [hlog] at hmem
    rcases List.mem_append.mp hmem with hmem | hmem
    · exact hnotes u hmem
    · exact h.size hzero u hmem
  have htp := callResult_upl_tp s conn ret rand
  cases callResult_ends h conn ret rand with
  | flashed haccepted hlog =>
    refine ⟨hsize [_, _] (by simp) hlog, fun hne => absurd htp hne, fun _ => ?_⟩
    rw [hlog]
    exact List.mem_cons_self
  | empty hzero herr hlog =>
    refine ⟨hsize [_] (by simp) hlog, fun hne => absurd htp hne, fun _ => ?_⟩
    rw [hlog]
    exact List.mem_cons_self
  | @failed update ret' hasked hsuccess hlog =>
    refine ⟨hsize (_ :: _) ?_ hlog, fun hne => absurd htp hne, fun hs => ?_⟩
    · cases update <;> simp
    · rw [hlog]
      refine List.mem_cons_of_mem _ (List.mem_append_right _ (h.success ?_))
      rwa [← hsuccess]

/-- The record stays earned exactly when something was uploaded before. -/
theorem callResult_earned_iff (h : Fits s) (hearned : Earned s.log) (conn : ℕ) (ret : ℤ)
    (rand : Word) : Earned (callResult s conn ret rand).log ↔ 0 < s.g.data_size ∨ s.g.err ≠ 0 := by
  cases callResult_ends h conn ret rand with
  | @flashed update haccepted hlog =>
    have hsize : 0 < s.g.data_size := by
      refine Nat.pos_of_ne_zero fun hzero => h.size hzero update ?_
      exact List.takeWhile_subset _ haccepted
    rw [hlog]
    exact ⟨fun _ => .inl hsize, fun _ => ⟨⟨update, [], _, rfl, haccepted⟩, hearned⟩⟩
  | empty hzero herr hlog =>
    rw [hlog]
    constructor
    · rintro ⟨⟨update, later, earlier, heq, haccepted⟩, -⟩
      refine absurd ?_ (h.size hzero update)
      refine List.takeWhile_subset _ (show .accepted update ∈ sinceReport s.log from ?_)
      rw [heq]
      exact List.mem_append_right _ (List.mem_cons_of_mem _ haccepted)
    · rintro (hpos | hne)
      · exact absurd hpos (by omega)
      · exact absurd herr hne
  | @failed update ret' hasked hsuccess hlog =>
    rw [hlog]
    refine ⟨fun _ => hasked, fun _ => ?_⟩
    cases update <;> exact hearned

/-! ## Runs -/

theorem step_fits (h : Fits s) (call : Call) : Fits (step checks s call) := by
  cases call with
  | largeHeader rand | resultClosed conn => exact ⟨h.size, h.upload, h.success⟩
  | flashing mem values => exact callFlashing_fits checks h mem values
  | resultNew conn calloc =>
    simp only [step]
    split
    · exact ⟨h.size, h.upload, h.success⟩
    · exact h
  | resultResponding conn ret rand =>
    simp only [step]
    split
    · exact callResult_fits h conn ret rand
    · exact h
    · exact h

theorem step_earned_iff (h : Fits s) (hearned : Earned s.log) (call : Call) :
    Earned (step checks s call).log ↔ Asked s call := by
  cases call with
  | largeHeader rand | resultClosed conn => exact ⟨fun _ => trivial, fun _ => hearned⟩
  | flashing mem values =>
    exact ⟨fun _ => trivial, fun _ => (callFlashing_earned checks mem values).mpr hearned⟩
  | resultNew conn calloc =>
    refine ⟨fun _ => trivial, fun _ => ?_⟩
    simp only [step]
    split <;> exact hearned
  | resultResponding conn ret rand =>
    simp only [step, Asked]
    split
    · rename_i hsent
      rw [callResult_earned_iff h hearned]
      exact ⟨fun hasked _ => hasked, fun hasked => hasked hsent⟩
    · rename_i hsent
      exact ⟨fun _ hfalse => absurd (hsent.symm.trans hfalse) (by decide), fun _ => hearned⟩
    · rename_i hsent
      exact ⟨fun _ hfalse => absurd (hsent.symm.trans hfalse) (by decide), fun _ => hearned⟩

/-- In a run from the start of the boot loader every report of success is earned, and the device is
reset only after one, exactly when `result_handler` never answers before the first upload. -/
theorem reports_earned_iff (calls : List Call) :
    Throughout (step checks) ReportsEarned init calls ↔
      AllSteps (step checks) Asked init calls := by
  have hstep : ∀ s call, Fits s ∧ Earned s.log → Asked s call →
      Fits (step checks s call) ∧ Earned (step checks s call).log :=
    fun s call h hasked =>
      ⟨step_fits checks h.1 call, (step_earned_iff checks h.1 h.2 call).mpr hasked⟩
  constructor
  · exact allSteps_of_throughout hstep
      (fun s call h hnext => (step_earned_iff checks h.1 h.2 call).mp hnext.1)
      ⟨fits_init, trivial⟩
  · intro h
    refine (throughout_of_allSteps hstep ⟨fits_init, trivial⟩ h).imp fun s hs => ?_
    exact ⟨hs.2, hs.1.success⟩

/-- A build that takes no upload at all. -/
def noUploads : Checks := ⟨fun _ => false, fun _ => 0, str "RUTM"⟩

/-- The result is asked for first of all: success is reported, and the device is going to be
reset. -/
theorem reports_not_earned :
    ¬Throughout (step noUploads) ReportsEarned init
        [.resultNew 0 true, .resultResponding 0 0 7]
      ∧ resetsDevice ([.resultNew 0 true, .resultResponding 0 0 7].foldl (step noUploads) init)
        = true := by
  refine ⟨fun h => ?_, rfl⟩
  have hlog : Earned [.report true] := h.2.2.1
  obtain ⟨update, later, earlier, heq, -⟩ := hlog.1
  exact absurd (congrArg List.length heq) (by simp [sinceReport])

end RutosSdk.Uboot.Failsafe
