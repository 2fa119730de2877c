import RutosSdk.Hal.GpsParse
import RutosSdk.Lib.FrameScan
import Mathlib.Data.List.GetD

/-! # Messages of the GPS

Reference: `thread_gps` in `packet_forwarder/src/lora_pkt_fwd.c`.

The thread reads up to 8 bytes at a time behind what its buffer holds, scans all of it for UBX and
NMEA frames, and moves the rest to the front. `removed` counts the bytes that have left the buffer,
so that a frame is known by its place in the stream. The memory behind the buffer is part of
`serial_buff`.
-/

namespace RutosSdk.Forwarder

open List Hal Traced

/-! ## The thread -/

/-- The parser that a frame is handed to. -/
inductive GpsProtocol where
  | ubx
  | nmea
deriving DecidableEq, Repr

/-- A frame that was parsed and removed, by its place in the stream. -/
structure GpsFrame where
  protocol : GpsProtocol
  start : ℕ
  size : ℕ
deriving DecidableEq, Repr

/-- The variables of `thread_gps`, and what has become of the stream. -/
structure GpsThread where
  serial_buff : ℕ → Byte
  wr_idx : ℕ
  gps : GpsState
  removed : ℕ
  frames : List GpsFrame

/-- The buffer is cleared, the memory behind it is arbitrary. -/
def GpsThread.initial (behind : ℕ → Byte) : GpsThread where
  serial_buff i := if i < 128 then 0 else behind i
  wr_idx := 0
  gps := GpsState.initial
  removed := 0
  frames := []

/-- The parser chosen by the sync char. -/
def protocolOf (sync : Byte) : GpsProtocol := if sync = 0xB5 then .ubx else .nmea

variable (env : GpsEnv) (t : GpsThread) (serial_buff : ℕ → Byte) (bytes : List Byte)

/-- At a UBX sync char: `frame_size`, which is 0 if no frame was parsed. -/
def parseUbxAt (wr_idx rd_idx : ℕ) (gps : GpsState) : Traced ℕ (ℕ × GpsState) := do
  let r ← lgwParseUbx serial_buff rd_idx (wr_idx - rd_idx) gps
  if 0 < r.2.1 ∧ (r.1 = .incomplete ∨ r.1 = .invalid) then
    return (0, r.2.2)
  else
    return (r.2.1, r.2.2)

/-- At an NMEA sync char: the same, for a sentence that ends with a line feed. -/
def parseNmeaAt (wr_idx rd_idx : ℕ) (gps : GpsState) : Traced ℕ (ℕ × GpsState) := do
  match ← findRange serial_buff id (· == 0x0A) rd_idx (wr_idx - rd_idx) with
  | none => return (0, gps)
  | some k =>
    let r ← lgwParseNmea env serial_buff rd_idx (k + 1) gps
    if r.1 = .invalid ∨ r.1 = .unknown then
      return (0, r.2)
    else
      return (k + 1, r.2)

/-- One position of the scan. -/
def parseAt (wr_idx rd_idx : ℕ) (gps : GpsState) : Traced ℕ (ℕ × GpsState) := do
  let sync ← readAt serial_buff id rd_idx
  if sync = 0xB5 then
    parseUbxAt serial_buff wr_idx rd_idx gps
  else if sync = 0x24 then
    parseNmeaAt env serial_buff wr_idx rd_idx gps
  else
    return (0, gps)

/-- What the scan leaves behind. -/
structure GpsScan where
  frame_end_idx : ℕ
  gps : GpsState
  frames : List GpsFrame

/-- The scan of the buffer; each round moves `rd_idx`, so `wr_idx` rounds are enough. -/
def scanFrames (env : GpsEnv) (serial_buff : ℕ → Byte) (wr_idx removed : ℕ) :
    ℕ → ℕ → GpsScan → Traced ℕ GpsScan
  | 0, _, acc => pure acc
  | fuel + 1, rd_idx, acc =>
    if rd_idx < wr_idx then do
      let r ← parseAt env serial_buff wr_idx rd_idx acc.gps
      if 0 < r.1 then
        scanFrames env serial_buff wr_idx removed fuel (rd_idx + r.1)
          ⟨rd_idx + r.1, r.2,
            acc.frames ++ [⟨protocolOf (serial_buff rd_idx), removed + rd_idx, r.1⟩]⟩
      else
        scanFrames env serial_buff wr_idx removed fuel (rd_idx + 1) { acc with gps := r.2 }
    else pure acc

/-- `n` bytes are removed from the front of the buffer. -/
def GpsThread.remove (n : ℕ) : Traced ℕ GpsThread := do
  touchRange id n (t.wr_idx - n)
  touchRange id 0 (t.wr_idx - n)
  return { t with
    serial_buff := fun i => if i < t.wr_idx - n then t.serial_buff (n + i) else t.serial_buff i
    wr_idx := t.wr_idx - n
    removed := t.removed + n }

/-- The bytes of a read stand behind what the buffer holds. -/
def GpsThread.store : ℕ → Byte := fun i =>
  if t.wr_idx ≤ i ∧ i < t.wr_idx + bytes.length then bytes.getD (i - t.wr_idx) 0
  else t.serial_buff i

/-- The bytes are read and the buffer is scanned: `frame_end_idx`, and the thread. -/
def GpsThread.scan : Traced ℕ (ℕ × GpsThread) := do
  touchRange id t.wr_idx bytes.length
  let wr_idx := t.wr_idx + bytes.length
  let r ← scanFrames env (t.store bytes) wr_idx t.removed wr_idx 0 ⟨0, t.gps, t.frames⟩
  return (r.frame_end_idx, ⟨t.store bytes, wr_idx, r.gps, t.removed, r.frames⟩)

/-- The bytes up to the end of the last frame are removed. -/
def GpsThread.removeFrames (frame_end_idx : ℕ) : Traced ℕ GpsThread :=
  if frame_end_idx ≠ 0 then t.remove frame_end_idx else return t

/-- Bytes are removed if there is no room for another read. -/
def GpsThread.makeRoom : Traced ℕ GpsThread :=
  if 128 - t.wr_idx < 8 then t.remove 8 else return t

/-- One round of the thread, with what `read` has returned. -/
def GpsThread.round : Traced ℕ GpsThread :=
  if bytes = [] then return t
  else do
    let r ← t.scan env bytes
    let t ← r.2.removeFrames r.1
    t.makeRoom

/-- The thread, with the reads it makes. -/
def threadGps (env : GpsEnv) : List (List Byte) → GpsThread → Traced ℕ GpsThread
  | [], t => pure t
  | bytes :: reads, t => do
      let t ← t.round env bytes
      threadGps env reads t

/-! ## The frames of a stream -/

/-- The size of the NMEA sentence that starts at an index: it ends with the first line feed. -/
def nmeaFrame (mem : ℕ → Byte) (base size : ℕ) : Option ℕ :=
  match (findRange mem id (· == 0x0A) base size).val with
  | none => none
  | some k =>
    if 8 ≤ k + 1 ∧ k + 1 ≤ 255 ∧ validateNmeaChecksum (readRange mem id base (k + 1)).val then
      some (k + 1)
    else none

/-- The size of the frame with a correct checksum that starts at an index. -/
def gpsFrame (mem : ℕ → Byte) (base size : ℕ) : Option ℕ :=
  if mem base = 0xB5 then ubxFrame mem base size
  else if mem base = 0x24 then nmeaFrame mem base size
  else none

theorem ubxFrame_pos_le {mem : ℕ → Byte} {base size n : ℕ}
    (h : ubxFrame mem base size = some n) : 8 ≤ n ∧ n ≤ size := by
  rw [ubxFrame] at h
  split_ifs at h with hframe
  obtain rfl := Option.some.inj h
  exact ⟨by omega, hframe.2.2.2.1⟩

/-- A sentence is found by its line feed. -/
theorem nmeaFrame_eq_some {mem : ℕ → Byte} {base size n : ℕ}
    (h : nmeaFrame mem base size = some n) :
    ∃ k, n = k + 1 ∧ (findRange mem id (· == 0x0A) base size).val = some k
      ∧ 8 ≤ k + 1 ∧ k + 1 ≤ 255 ∧ validateNmeaChecksum (readRange mem id base (k + 1)).val := by
  rw [nmeaFrame] at h
  cases hfound : (findRange mem id (· == 0x0A) base size).val with
  | none =>
    rw [hfound] at h
    cases h
  | some k =>
    rw [hfound] at h
    dsimp only at h
    split_ifs at h with hframe
    exact ⟨k, (Option.some.inj h).symm, rfl, hframe⟩

theorem nmeaFrame_pos_le {mem : ℕ → Byte} {base size n : ℕ}
    (h : nmeaFrame mem base size = some n) : 8 ≤ n ∧ n ≤ size := by
  obtain ⟨k, rfl, hfound, hlow, -⟩ := nmeaFrame_eq_some h
  exact ⟨hlow, findRange_lt hfound⟩

section Stable

variable {mem mem' : ℕ → Byte} {base base' size size' n : ℕ}

/-- A UBX message depends on its own bytes. -/
theorem ubxFrame_stable (h : ubxFrame mem base size = some n)
    (hmem : ∀ i, i < n → mem' (base' + i) = mem (base + i)) (hn : n ≤ size') :
    ubxFrame mem' base' size' = some n := by
  rw [ubxFrame] at h
  split_ifs at h with hframe
  obtain ⟨hsize, hsync1, hsync2, hfit, hck⟩ := hframe
  obtain rfl := Option.some.inj h
  have h0 : mem' base' = mem base := hmem 0 (by omega)
  have h1 : mem' (base' + 1) = mem (base + 1) := hmem 1 (by omega)
  have h4 : mem' (base' + 4) = mem (base + 4) := hmem 4 (by omega)
  have h5 : mem' (base' + 5) = mem (base + 5) := hmem 5 (by omega)
  simp only [ubxFrame, h0, h1, h4, h5]
  rw [hmem _ (by omega), hmem _ (by omega), if_pos]
  refine ⟨by omega, hsync1, hsync2, hn, ?_⟩
  rw [← hck]
  refine foldRange_congr ?_
  intro i hi
  rw [Nat.add_assoc, hmem _ (by omega), Nat.add_assoc]

/-- An NMEA sentence depends on its own bytes. -/
theorem nmeaFrame_stable (h : nmeaFrame mem base size = some n)
    (hmem : ∀ i, i < n → mem' (base' + i) = mem (base + i)) (hn : n ≤ size') :
    nmeaFrame mem' base' size' = some n := by
  obtain ⟨k, rfl, hfound, hframe⟩ := nmeaFrame_eq_some h
  rw [nmeaFrame, findRange_stable hfound (fun i hi => hmem i (by omega)) hn]
  dsimp only
  rw [readRange_congr hmem, if_pos hframe]

end Stable

/-- The frames that `thread_gps` looks for. -/
def gpsRecogniser : Recogniser Byte where
  frameAt := gpsFrame
  pos_le := by
    intro mem base size n h
    rw [gpsFrame] at h
    split_ifs at h
    · have := ubxFrame_pos_le h
      omega
    · have := nmeaFrame_pos_le h
      omega
  stable := by
    intro mem mem' base base' size size' n h hmem hn
    rw [gpsFrame] at h
    split_ifs at h with hubx hnmea
    · have hpos := ubxFrame_pos_le h
      have h0 : mem' base' = mem base := hmem 0 (by omega)
      rw [gpsFrame, h0, if_pos hubx]
      exact ubxFrame_stable h hmem hn
    · have hpos := nmeaFrame_pos_le h
      have h0 : mem' base' = mem base := hmem 0 (by omega)
      rw [gpsFrame, h0, if_neg hubx, if_pos hnmea]
      exact nmeaFrame_stable h hmem hn

/-! ## One position -/

section Position

variable (env : GpsEnv) (serial_buff : ℕ → Byte) (wr_idx rd_idx : ℕ) (gps : GpsState)

theorem parseUbxAt_val :
    (parseUbxAt serial_buff wr_idx rd_idx gps).val.1
      = (ubxFrame serial_buff rd_idx (wr_idx - rd_idx)).getD 0 := by
  simp only [parseUbxAt, bind_val, ite_val, pure_val]
  cases hframe : ubxFrame serial_buff rd_idx (wr_idx - rd_idx) with
  | some n =>
    obtain ⟨hcomplete, hvalid⟩ := @parseUbxMessage_accepts serial_buff rd_idx gps
    rw [lgwParseUbx_of_frame gps hframe, if_neg]
    · rfl
    · rintro ⟨_, h | h⟩
      · exact hcomplete h
      · exact hvalid h
  | none =>
    obtain ⟨_, hreject⟩ := lgwParseUbx_of_none gps hframe
    split_ifs with hpos
    · rfl
    · by_cases hsize : 0 < (lgwParseUbx serial_buff rd_idx (wr_idx - rd_idx) gps).val.2.1
      · rcases hreject with h | h | h
        · exact absurd ⟨hsize, .inr h⟩ hpos
        · exact absurd ⟨hsize, .inl h⟩ hpos
        · exact h
      · exact Nat.eq_zero_of_not_pos hsize

theorem parseNmeaAt_val :
    (parseNmeaAt env serial_buff wr_idx rd_idx gps).val.1
      = (nmeaFrame serial_buff rd_idx (wr_idx - rd_idx)).getD 0 := by
  rw [parseNmeaAt, nmeaFrame, bind_val]
  cases (findRange serial_buff id (· == 0x0A) rd_idx (wr_idx - rd_idx)).val with
  | none => rfl
  | some k =>
    simp only [bind_val, ite_val, pure_val]
    by_cases hframe : 8 ≤ k + 1 ∧ k + 1 ≤ 255
        ∧ validateNmeaChecksum (readRange serial_buff id rd_idx (k + 1)).val
    · rw [if_pos hframe, if_neg fun h => (lgwParseNmea_rejects_iff env gps).mp h hframe]
      rfl
    · rw [if_neg hframe, if_pos ((lgwParseNmea_rejects_iff env gps).mpr hframe)]
      rfl

/-- The thread takes for a frame exactly what is one. -/
theorem parseAt_val :
    (parseAt env serial_buff wr_idx rd_idx gps).val.1
      = (gpsFrame serial_buff rd_idx (wr_idx - rd_idx)).getD 0 := by
  rw [parseAt, gpsFrame, bind_val, readAt_val]
  split_ifs
  · exact parseUbxAt_val serial_buff wr_idx rd_idx gps
  · exact parseNmeaAt_val env serial_buff wr_idx rd_idx gps
  · rfl

variable {serial_buff wr_idx rd_idx}

/-- The bytes read at one position are in the buffer. -/
theorem all_parseAt {bound : ℕ} (hrd : rd_idx < wr_idx) (hwr : wr_idx ≤ bound)
    (htimegps : ∀ n, ubxFrame serial_buff rd_idx (wr_idx - rd_idx) = some n →
      isTimegps serial_buff rd_idx → 18 ≤ n) :
    (parseAt env serial_buff wr_idx rd_idx gps).All (· < bound) := by
  rw [parseAt, all_bind_iff, all_readAt_iff, all_ite_iff, all_ite_iff]
  refine ⟨show rd_idx < bound by omega, fun _ => ?_, fun _ => ⟨fun _ => ?_, fun _ => all_pure _⟩⟩
  · rw [parseUbxAt, all_bind_iff, all_ite_iff]
    exact ⟨all_lgwParseUbx gps (by omega) htimegps, fun _ => all_pure _, fun _ => all_pure _⟩
  · rw [parseNmeaAt, all_bind_iff]
    refine ⟨all_findRange fun i _ hi => show i < bound by omega, ?_⟩
    cases hfound : (findRange serial_buff id (· == 0x0A) rd_idx (wr_idx - rd_idx)).val with
    | none => exact all_pure _
    | some k =>
      have hk := findRange_lt hfound
      rw [all_bind_iff, all_ite_iff]
      exact ⟨all_lgwParseNmea env gps (by omega), fun _ => all_pure _, fun _ => all_pure _⟩

end Position

/-! ## The scan -/

open Recogniser

variable (S : ℕ → Byte)

/-- The buffer holds the bytes of the stream that follow those removed. -/
def HoldsStream (serial_buff : ℕ → Byte) (removed wr_idx : ℕ) : Prop :=
  ∀ i, i < wr_idx → serial_buff i = S (removed + i)

/-- A frame of the stream, with its parser. -/
def handed (f : ℕ × ℕ) : GpsFrame := ⟨protocolOf (S f.1), f.1, f.2⟩

/-- Every NAV-TIMEGPS message of the first `total` bytes has at least 10 bytes of payload. -/
def TimegpsLong (total : ℕ) : Prop :=
  ∀ i n, ubxFrame S i n = some n → i + n ≤ total → isTimegps S i → 18 ≤ n

variable {total : ℕ}

section Scan

variable {S serial_buff : ℕ → Byte} {removed wr_idx : ℕ}

/-- A position of the buffer is a position of the stream. -/
theorem gpsFrame_eq_frameAt (h : HoldsStream S serial_buff removed wr_idx) {rd_idx : ℕ}
    (hrd : rd_idx < wr_idx) :
    gpsFrame serial_buff rd_idx (wr_idx - rd_idx)
      = gpsRecogniser.frameAt S (removed + rd_idx) (removed + wr_idx - (removed + rd_idx)) := by
  rw [Nat.add_sub_add_left]
  refine frameAt_congr (R := gpsRecogniser) ?_
  intro i hi
  rw [h _ (by omega), Nat.add_assoc]

/-- The scan of the buffer is the scan of the stream from the bytes removed on. -/
theorem scanFrames_val (env : GpsEnv) (h : HoldsStream S serial_buff removed wr_idx)
    (fuel rd_idx : ℕ) (acc : GpsScan) (hfuel : wr_idx - rd_idx ≤ fuel) :
    (scanFrames env serial_buff wr_idx removed fuel rd_idx acc).val.frames
        = acc.frames ++ (gpsRecogniser.scan S (removed + wr_idx) (removed + rd_idx)).map (handed S)
      ∧ removed + (scanFrames env serial_buff wr_idx removed fuel rd_idx acc).val.frame_end_idx
        = frameEnd (removed + acc.frame_end_idx)
          (gpsRecogniser.scan S (removed + wr_idx) (removed + rd_idx)) := by
  induction fuel generalizing rd_idx acc with
  | zero =>
    rw [scan_of_le (by omega), map_nil, append_nil]
    exact ⟨rfl, rfl⟩
  | succ fuel ih =>
    rw [scanFrames]
    by_cases hrd : rd_idx < wr_idx
    · have hframe := gpsFrame_eq_frameAt h hrd
      have hsize := parseAt_val env serial_buff wr_idx rd_idx acc.gps
      rw [if_pos hrd, bind_val, ite_val]
      cases hfound : gpsFrame serial_buff rd_idx (wr_idx - rd_idx) with
      | none =>
        rw [hfound] at hframe hsize
        rw [scan_of_none (by omega) hframe.symm, if_neg (by rw [hsize]; exact Nat.lt_irrefl 0)]
        exact ih (rd_idx + 1) _ (by omega)
      | some n =>
        rw [hfound] at hframe hsize
        have hpos := (gpsRecogniser.pos_le hframe.symm).1
        rw [scan_of_frame (by omega) hframe.symm, hsize, Option.getD_some, if_pos hpos]
        obtain ⟨hframes, hend⟩ := ih (rd_idx + n)
          ⟨rd_idx + n, (parseAt env serial_buff wr_idx rd_idx acc.gps).val.2, acc.frames
            ++ [⟨protocolOf (serial_buff rd_idx), removed + rd_idx, n⟩]⟩ (by omega)
        rw [hframes, hend, append_assoc, h rd_idx hrd, ← Nat.add_assoc]
        exact ⟨rfl, rfl⟩
    · rw [if_neg hrd, scan_of_le (by omega), map_nil, append_nil]
      exact ⟨rfl, rfl⟩

/-- The messages that the scan meets are messages of the stream. -/
theorem timegps_long_at (h : HoldsStream S serial_buff removed wr_idx) (hlong : TimegpsLong S total)
    (htotal : removed + wr_idx ≤ total) {rd_idx n : ℕ}
    (hframe : ubxFrame serial_buff rd_idx (wr_idx - rd_idx) = some n)
    (htime : isTimegps serial_buff rd_idx) : 18 ≤ n := by
  obtain ⟨hpos, hn⟩ := ubxFrame_pos_le hframe
  have hbyte : ∀ i, i < n → S (removed + rd_idx + i) = serial_buff (rd_idx + i) := by
    intro i hi
    rw [h _ (by omega), Nat.add_assoc]
  refine hlong (removed + rd_idx) n (ubxFrame_stable hframe hbyte (Nat.le_refl n)) (by omega) ?_
  rw [isTimegps, hbyte 2 (by omega), hbyte 3 (by omega)]
  exact htime

/-- The scan reads within the buffer. -/
theorem all_scanFrames (env : GpsEnv) {bound : ℕ} (hwr : wr_idx ≤ bound)
    (htimegps : ∀ rd_idx n, ubxFrame serial_buff rd_idx (wr_idx - rd_idx) = some n →
      isTimegps serial_buff rd_idx → 18 ≤ n) (fuel rd_idx : ℕ) (acc : GpsScan) :
    (scanFrames env serial_buff wr_idx removed fuel rd_idx acc).All (· < bound) := by
  induction fuel generalizing rd_idx acc with
  | zero => exact all_pure acc
  | succ fuel ih =>
    rw [scanFrames, all_ite_iff]
    refine ⟨fun hrd => ?_, fun _ => all_pure acc⟩
    rw [all_bind_iff, all_ite_iff]
    exact ⟨all_parseAt env acc.gps hrd hwr (htimegps rd_idx), fun _ => ih _ _, fun _ => ih _ _⟩

end Scan

/-! ## One round -/

/-- The thread is where the window is. -/
structure Simulates (S : ℕ → Byte) (t : GpsThread) (w : Window) : Prop where
  removed : t.removed = w.dropped
  received : w.received = w.dropped + t.wr_idx
  holds : HoldsStream S t.serial_buff t.removed t.wr_idx
  frames : t.frames = w.log.map (handed S)

section Round

variable {S : ℕ → Byte} {t : GpsThread} {w : Window}

theorem simulates_initial (behind : ℕ → Byte) :
    Simulates S (GpsThread.initial behind) Window.initial :=
  ⟨rfl, rfl, fun _ hi => absurd hi (Nat.not_lt_zero _), rfl⟩

/-- Removing bytes moves the front of the window. -/
theorem Simulates.remove (h : Simulates S t w) {n : ℕ} (hn : n ≤ t.wr_idx) :
    Simulates S (t.remove n).val { w with dropped := w.dropped + n } where
  removed := congrArg (· + n) h.removed
  received := by
    have := h.received
    show w.received = w.dropped + n + (t.wr_idx - n)
    omega
  holds := by
    intro i hi
    have hi : i < t.wr_idx - n := hi
    show (if i < t.wr_idx - n then t.serial_buff (n + i) else t.serial_buff i)
      = S (t.removed + n + i)
    rw [if_pos hi, h.holds _ (by omega), Nat.add_assoc]
  frames := h.frames

theorem all_remove {n : ℕ} (hwr : t.wr_idx ≤ 128) : (t.remove n).All (· < 128) := by
  rw [GpsThread.remove, all_bind_iff, all_touchRange_iff, all_bind_iff, all_touchRange_iff]
  refine ⟨fun i _ hi => ?_, fun i _ hi => ?_, all_pure _⟩
  · show i < 128
    omega
  · show i < 128
    omega

variable {bytes : List Byte}

/-- What was read stands in the buffer as the next bytes of the stream. -/
theorem Simulates.store (h : Simulates S t w)
    (hbytes : ∀ i, i < bytes.length → bytes.getD i 0 = S (w.received + i)) :
    HoldsStream S (t.store bytes) t.removed (t.wr_idx + bytes.length) := by
  intro i hi
  rw [GpsThread.store]
  split_ifs with hnew
  · rw [hbytes _ (by omega), h.received, h.removed]
    exact congrArg S (by omega)
  · exact h.holds i (by omega)

/-- The scan of a round finds the frames of the window. -/
theorem Simulates.scan (env : GpsEnv) (h : Simulates S t w)
    (hbytes : ∀ i, i < bytes.length → bytes.getD i 0 = S (w.received + i)) :
    Simulates S (t.scan env bytes).val.2
        ⟨w.dropped, w.received + bytes.length,
          w.log ++ gpsRecogniser.scan S (w.received + bytes.length) w.dropped⟩
      ∧ w.dropped + (t.scan env bytes).val.1
        = frameEnd w.dropped (gpsRecogniser.scan S (w.received + bytes.length) w.dropped) := by
  have hreceived := h.received
  obtain ⟨hframes, hend⟩ := scanFrames_val env (h.store hbytes) (t.wr_idx + bytes.length) 0
    ⟨0, t.gps, t.frames⟩ (Nat.sub_le _ _)
  rw [show t.removed + (t.wr_idx + bytes.length) = w.received + bytes.length by
    rw [h.removed, hreceived, Nat.add_assoc]] at hframes hend
  rw [Nat.add_zero, h.removed] at hframes hend
  refine ⟨⟨h.removed, ?_, h.store hbytes, ?_⟩, ?_⟩
  · show w.received + bytes.length = w.dropped + (t.wr_idx + bytes.length)
    omega
  · simp only [GpsThread.scan, bind_val, pure_val, h.removed]
    rw [hframes, map_append, h.frames]
  · simp only [GpsThread.scan, bind_val, pure_val, h.removed]
    exact hend

theorem Simulates.removeFrames (h : Simulates S t w) {frame_end_idx : ℕ}
    (hle : frame_end_idx ≤ t.wr_idx) :
    Simulates S (t.removeFrames frame_end_idx).val { w with dropped := w.dropped + frame_end_idx }
    := by
  rw [GpsThread.removeFrames, ite_val]
  split_ifs with hzero
  · exact h.remove hle
  · rw [Decidable.not_not.mp hzero]
    exact h

theorem Simulates.makeRoom (h : Simulates S t w) :
    Simulates S t.makeRoom.val
      { w with dropped :=
          if 128 - (w.received - w.dropped) < 8 then w.dropped + 8 else w.dropped } := by
  have hwr : w.received - w.dropped = t.wr_idx := by
    have := h.received
    omega
  rw [GpsThread.makeRoom, ite_val, hwr]
  split_ifs with hfull
  · exact h.remove (by omega)
  · exact h

/-- One round of the thread is one step of the window. -/
theorem Simulates.round (env : GpsEnv) (h : Simulates S t w) (hle : w.dropped ≤ w.received)
    (hne : bytes ≠ []) (hbytes : ∀ i, i < bytes.length → bytes.getD i 0 = S (w.received + i)) :
    Simulates S (t.round env bytes).val (w.feed gpsRecogniser S 128 8 bytes.length) := by
  obtain ⟨hscan, hend⟩ := h.scan env hbytes
  obtain ⟨hlow, hhigh⟩ := Window.frameEnd_scan_mem (R := gpsRecogniser) (S := S)
    (k := bytes.length) hle
  have hfit : (t.scan env bytes).val.1 ≤ (t.scan env bytes).val.2.wr_idx := by
    have hreceived : w.received + bytes.length
      = w.dropped + (t.scan env bytes).val.2.wr_idx := hscan.received
    omega
  rw [GpsThread.round, if_neg hne, Window.feed, ← hend]
  exact (hscan.removeFrames hfit).makeRoom

/-- The indices of a round are within the buffer. -/
theorem Simulates.all_round (env : GpsEnv) (h : Simulates S t w) (hlong : TimegpsLong S total)
    (hroom : t.wr_idx + bytes.length ≤ 128) (htotal : w.received + bytes.length ≤ total)
    (hbytes : ∀ i, i < bytes.length → bytes.getD i 0 = S (w.received + i)) :
    (t.round env bytes).All (· < 128) := by
  have hreceived := h.received
  have hremoved := h.removed
  rw [GpsThread.round, all_ite_iff]
  refine ⟨fun _ => all_pure t, fun _ => ?_⟩
  rw [all_bind_iff, all_bind_iff]
  refine ⟨?_, ?_, ?_⟩
  · rw [GpsThread.scan, all_bind_iff, all_touchRange_iff, all_bind_iff]
    refine ⟨fun i _ hi => show i < 128 by omega, ?_, all_pure _⟩
    refine all_scanFrames env hroom ?_ _ _ _
    intro rd_idx n hframe htime
    exact timegps_long_at (h.store hbytes) hlong (by omega) hframe htime
  · rw [GpsThread.removeFrames, all_ite_iff]
    exact ⟨fun _ => all_remove hroom, fun _ => all_pure _⟩
  · rw [GpsThread.makeRoom, all_ite_iff]
    refine ⟨fun _ => all_remove ?_, fun _ => all_pure _⟩
    rw [GpsThread.removeFrames, ite_val]
    split_ifs
    · exact Nat.le_trans (Nat.sub_le _ _) hroom
    · exact hroom

end Round

/-! ## Every stream -/

/-- The bytes of the reads, one after the other. -/
def streamOf (reads : List (List Byte)) : ℕ → Byte := fun i => reads.flatten.getD i 0

/-- The state and the accesses of a thread that simulates a sound window. -/
structure Reaches (S : ℕ → Byte) (total : ℕ) (t : Traced ℕ GpsThread) (w : Window) :
    Prop where
  simulates : Simulates S t.val w
  sound : w.Sound gpsRecogniser S 128 8 total 113
  inBounds : TimegpsLong S total → t.All (· < 128)

/-- A whole run: the thread goes where the window goes. -/
theorem Simulates.threadGps (env : GpsEnv) {S : ℕ → Byte} (reads : List (List Byte))
    (hreads : ∀ bytes ∈ reads, bytes.length ≤ 8) {t : GpsThread} {w : Window} (h : Simulates S t w)
    (hsound : w.Sound gpsRecogniser S 128 8 total 113)
    (htotal : w.received + reads.flatten.length = total)
    (hstream : ∀ i, i < reads.flatten.length → reads.flatten.getD i 0 = S (w.received + i)) :
    ∃ w', Reaches S total (threadGps env reads t) w' ∧ w'.received = total := by
  induction reads generalizing t w with
  | nil => exact ⟨w, ⟨h, hsound, fun _ => all_pure t⟩, htotal⟩
  | cons bytes reads ih =>
    have hlen := hreads bytes mem_cons_self
    have hrest := fun b hb => hreads b (mem_cons_of_mem _ hb)
    rw [flatten_cons, length_append] at htotal
    rw [flatten_cons] at hstream
    by_cases hne : bytes = []
    · obtain rfl := hne
      have hround : t.round env [] = pure t := if_pos rfl
      obtain ⟨w', hreach, hreceived⟩ := ih hrest h hsound (by simpa using htotal) hstream
      refine ⟨w', ⟨hreach.simulates, hreach.sound, fun hlong => ?_⟩, hreceived⟩
      rw [Forwarder.threadGps, hround, all_bind_iff]
      exact ⟨all_pure t, hreach.inBounds hlong⟩
    · have hbytes : ∀ i, i < bytes.length → bytes.getD i 0 = S (w.received + i) := by
        intro i hi
        rw [← hstream i (by rw [length_append]; omega), getD_append _ _ _ _ hi]
      have hroom : t.wr_idx + bytes.length ≤ 128 := by
        have := hsound.room
        have := h.received
        omega
      have hnext := hsound.feed hlen (by omega) (by omega) (by omega)
      obtain ⟨w', hreach, hreceived⟩ := ih hrest
        (h.round env hsound.dropped_le hne hbytes) hnext (by
          show w.received + bytes.length + _ = total
          omega) (by
          intro i hi
          show _ = S (w.received + bytes.length + i)
          rw [Nat.add_assoc, ← hstream (bytes.length + i) (by rw [length_append]; omega),
            getD_append_right _ _ _ _ (Nat.le_add_right _ _), Nat.add_sub_cancel_left])
      refine ⟨w', ⟨hreach.simulates, hreach.sound, fun hlong => ?_⟩, hreceived⟩
      rw [Forwarder.threadGps, all_bind_iff]
      exact ⟨h.all_round env hlong hroom (by omega) hbytes, hreach.inBounds hlong⟩

/-- Every stream, in reads of at most 8 bytes: there is room for another read, the frames handed to
the parsers are frames of the stream, in its order and all removed, every frame of at most 113 bytes
that no other overlaps is among them exactly once, and if all NAV-TIMEGPS messages are long enough
no index is outside the buffer. -/
theorem threadGps_delivers (env : GpsEnv) (behind : ℕ → Byte) (reads : List (List Byte))
    (hreads : ∀ bytes ∈ reads, bytes.length ≤ 8) : let S := streamOf reads
    let total := reads.flatten.length
    let run := threadGps env reads (GpsThread.initial behind)
    run.val.wr_idx ≤ 120
      ∧ run.val.frames.Pairwise (fun f g => f.start + f.size ≤ g.start)
      ∧ (∀ f ∈ run.val.frames, gpsRecogniser.IsFrame S f.start f.size
        ∧ f.protocol = protocolOf (S f.start) ∧ f.start + f.size ≤ run.val.removed)
      ∧ (∀ start size, Window.Lonely gpsRecogniser S total start size → size ≤ 113 →
        run.val.frames.count ⟨protocolOf (S start), start, size⟩ = 1)
      ∧ (TimegpsLong S total → run.All (· < 128)) := by
  intro S total run
  obtain ⟨w, ⟨hsim, hsound, hbounds⟩, hreceived⟩ := Simulates.threadGps env reads hreads
    (simulates_initial behind) (Window.sound_initial (by omega)) (Nat.zero_add total)
    fun i _ => congrArg S (Nat.zero_add i).symm
  have hinjective : Function.Injective (handed S) := by
    rintro ⟨i, n⟩ ⟨j, m⟩ heq
    obtain ⟨_, rfl, rfl⟩ := GpsFrame.mk.inj heq
    rfl
  refine ⟨?_, ?_, ?_, ?_, hbounds⟩
  · have := hsound.room
    have : w.received = w.dropped + run.val.wr_idx := hsim.received
    omega
  · rw [hsim.frames]
    exact pairwise_map.mpr hsound.ordered
  · intro f hf
    rw [hsim.frames] at hf
    obtain ⟨g, hg, rfl⟩ := mem_map.mp hf
    obtain ⟨hframe, hend⟩ := hsound.frames g hg
    exact ⟨hframe, rfl, by rw [hsim.removed]; exact hend⟩
  · intro start size hlonely hsize
    have hfound := hsound.found start size hlonely hsize (by rw [hreceived]; exact hlonely.2.1)
    rw [hsim.frames]
    exact (count_map_of_injective _ _ hinjective (start, size)).trans
      (hsound.count_eq_one hfound)

/-- A sentence behind three other bytes, in reads of different sizes. -/
def sentenceReads : List (List Byte) :=
  [[0x0A, 0x47, 0x00], rmcNoFix.take 8, (rmcNoFix.drop 8).take 5, (rmcNoFix.drop 13).take 8,
    rmcNoFix.drop 21]

theorem threadGps_delivers_sentence :
    (threadGps plainEnv sentenceReads (GpsThread.initial fun _ => 0)).val.frames.count
        ⟨.nmea, 3, 25⟩ = 1
      ∧ (threadGps plainEnv sentenceReads (GpsThread.initial fun _ => 0)).All (· < 128) := by
  obtain ⟨_, _, _, hdelivered, hbounds⟩ :=
    threadGps_delivers plainEnv (fun _ => 0) sentenceReads (by decide)
  have hframes : ∀ i ≤ 28, ∀ n ≤ 28, gpsFrame (streamOf sentenceReads) i n = some n →
      (i, n) = (3, 25) := by decide
  have hubx : ∀ i ≤ 28, ∀ n ≤ 28, ubxFrame (streamOf sentenceReads) i n ≠ some n := by
    decide
  refine ⟨hdelivered 3 25 ⟨?_, by decide, ?_⟩ (by decide), hbounds ?_⟩
  · show gpsFrame (streamOf sentenceReads) 3 25 = some 25
    decide
  · intro j m hframe htotal hne
    have htotal : j + m ≤ 28 := htotal
    exact absurd (hframes j (by omega) m (by omega) hframe) hne
  · intro i n hframe htotal _
    have htotal : i + n ≤ 28 := htotal
    exact absurd hframe (hubx i (by omega) n (by omega))

/-! ## A message without its payload -/

/-- 120 other bytes, and a NAV-TIMEGPS message with an empty payload and a correct checksum. -/
def shortTimegpsReads : List (List Byte) :=
  List.replicate 15 (List.replicate 8 0) ++ [[0xB5, 0x62, 0x01, 0x20, 0x00, 0x00, 0x21, 0x64]]

/-- The validity flags are read at index 137 of a buffer of 128 bytes. -/
theorem shortTimegpsReads_out_of_bounds :
    (∀ bytes ∈ shortTimegpsReads, bytes.length = 8)
      ∧ 137 ∈ (threadGps plainEnv shortTimegpsReads (GpsThread.initial fun _ => 0)).log := by
  decide +kernel

end RutosSdk.Forwarder
