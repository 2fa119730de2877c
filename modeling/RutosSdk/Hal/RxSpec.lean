import RutosSdk.Hal.RxBuffer

/-! # Frames of the RX buffer

The packets that `rx_buffer_fetch` counts and `rx_buffer_pop` decodes are frames: a frame starts at
index 0 or where the one before it ends, and its length is computed from two of its bytes. Here the
two functions are described in terms of frames: the values they return and the indices they use.
-/

namespace RutosSdk.Hal

open Traced

section Frames

variable (buffer : ℕ → Byte)

/-- Both bytes of the sync word stand at `p`. -/
def HasSync (p : ℕ) : Prop := buffer p = syncwordByte0 ∧ buffer (p + 1) = syncwordByte1

instance (p : ℕ) : Decidable (HasSync buffer p) := inferInstanceAs (Decidable (_ ∧ _))

/-- The index of the number of timestamp metrics of the frame at `p`. -/
def tsIndex (p : ℕ) : ℕ := p + (buffer (p + 2)).toNat + 21

/-- The number of timestamp metrics of the frame at `p`. -/
def numTs (p : ℕ) : ℕ := (buffer (tsIndex buffer p)).toNat

/-- The index behind the frame at `p`. -/
def frameEnd (p : ℕ) : ℕ := p + pktNumBytes (buffer (p + 2)) (buffer (tsIndex buffer p))

/-- The metrics and the checksum end the frame. -/
theorem frameEnd_eq (p : ℕ) : frameEnd buffer p = tsIndex buffer p + 2 * numTs buffer p + 2 := by
  unfold frameEnd pktNumBytes numTs tsIndex pktHeadMetadata pktTailMetadata
  omega

theorem tsIndex_eq (p : ℕ) : tsIndex buffer p = p + (buffer (p + 2)).toNat + 21 := rfl

theorem lt_frameEnd (p : ℕ) : p + 23 ≤ frameEnd buffer p := by
  rw [frameEnd_eq, tsIndex_eq]
  omega

/-- The frames from `p` on, up to the first one without sync word. -/
def frames (size : ℕ) : ℕ → ℕ → List ℕ
  | 0, _ => []
  | turns + 1, p =>
    if p < size then
      p :: if HasSync buffer p then frames size turns (frameEnd buffer p) else []
    else []

/-- The 8-bit sum of the frame at `p` is its last byte. -/
def ChecksumOk (p : ℕ) : Prop :=
  buffer (frameEnd buffer p - 1)
    = (pktChecksum buffer p (pktNumBytes (buffer (p + 2)) (buffer (tsIndex buffer p)))).val

instance (p : ℕ) : Decidable (ChecksumOk buffer p) := inferInstanceAs (Decidable (_ = _))

/-- The packet that the frame at `p` encodes, without its payload. -/
def metadataAt (p : ℕ) : RxPacket :=
  (pktMetadata buffer p (buffer (p + 2)) (buffer (tsIndex buffer p))).val

/-- The packet that the frame at `p` encodes. -/
def packetAt (p : ℕ) : RxPacket :=
  { metadataAt buffer p with
    payload := (readRange buffer RxAccess.buffer (p + pktHeadMetadata) (buffer (p + 2)).toNat).val }

/-- What `rx_buffer_pop` makes of a frame with sync word. -/
def frameVerdict (size p : ℕ) : Except RegFailure RxPacket :=
  if frameEnd buffer p ≤ size ∧ ChecksumOk buffer p then
    if (metadataAt buffer p).inRange then .ok (packetAt buffer p) else .error .error
  else .error .warning

end Frames

variable {buffer : ℕ → Byte} {P : RxAccess → Prop}

/-! ## The sync word -/

@[simp] theorem byteAt_val (i : ℕ) : (byteAt buffer i).val = buffer i := rfl

@[simp] theorem all_byteAt_iff {i : ℕ} : (byteAt buffer i).All P ↔ P (.buffer i) :=
  all_readAt_iff _ _

@[simp] theorem syncwordAt_val (p : ℕ) : (syncwordAt buffer p).val = decide (HasSync buffer p) := by
  by_cases h : buffer p = syncwordByte0
  · simp [syncwordAt, HasSync, h]
    rfl
  · simp [syncwordAt, HasSync, h]

variable {p : ℕ} {self : RxBuffer}

theorem all_syncwordAt_iff :
    (syncwordAt buffer p).All P
      ↔ P (.buffer p) ∧ (buffer p = syncwordByte0 → P (.buffer (p + 1))) := by
  rw [syncwordAt, all_bind_iff, all_byteAt_iff, byteAt_val, all_ite_iff]
  simp

/-- The search ends at the first sync word, or behind the last position. -/
theorem findSyncword_spec (left idx : ℕ) :
    idx ≤ (findSyncword buffer left idx).val ∧ (findSyncword buffer left idx).val ≤ idx + left
      ∧ (∀ k, idx ≤ k → k < (findSyncword buffer left idx).val → ¬HasSync buffer k)
      ∧ ((findSyncword buffer left idx).val < idx + left
        → HasSync buffer (findSyncword buffer left idx).val) := by
  induction left generalizing idx with
  | zero =>
    change idx ≤ idx ∧ idx ≤ idx + 0 ∧ (∀ k, idx ≤ k → k < idx → _) ∧ (idx < idx + 0 → _)
    exact ⟨Nat.le_refl _, Nat.le_refl _, fun k h₁ h₂ => by omega, fun h => by omega⟩
  | succ left ih =>
    by_cases hs : HasSync buffer idx
    · have hval : (findSyncword buffer (left + 1) idx).val = idx := by
        simp [findSyncword, hs]
      rw [hval]
      exact ⟨Nat.le_refl _, by omega, fun k h₁ h₂ => by omega, fun _ => hs⟩
    · have hval : (findSyncword buffer (left + 1) idx).val
          = (findSyncword buffer left (idx + 1)).val := by
        simp [findSyncword, hs]
      obtain ⟨h₁, h₂, hnone, hfound⟩ := ih (idx + 1)
      rw [hval]
      refine ⟨by omega, by omega, ?_, fun h => hfound (by omega)⟩
      intro k hk hlt
      by_cases hki : k = idx
      · rw [hki]
        exact hs
      · exact hnone k (by omega) hlt

/-- The search looks at the positions it tries and at the byte behind each. -/
theorem all_findSyncword {left idx : ℕ} (h : ∀ i, idx ≤ i → i ≤ idx + left → P (.buffer i)) :
    (findSyncword buffer left idx).All P := by
  induction left generalizing idx with
  | zero => exact all_pure idx
  | succ left ih =>
    rw [findSyncword, all_bind_iff, all_syncwordAt_iff, all_ite_iff]
    refine ⟨⟨h idx (by omega) (by omega), fun _ => h (idx + 1) (by omega) (by omega)⟩, ?_, ?_⟩
    · intro _
      exact all_pure idx
    · intro _
      exact ih fun i h₁ h₂ => h i (by omega) (by omega)

/-! ## Counting -/

section Count

variable {size : ℕ}

variable {turns : ℕ}

theorem countPackets_val {nb : Byte} :
    (countPackets buffer size turns p nb).val
      = if ∀ q ∈ frames buffer size turns p, HasSync buffer q
        then some (nb + BitVec.ofNat 8 (frames buffer size turns p).length) else none := by
  induction turns generalizing p nb with
  | zero =>
    change some nb = _
    simp [frames]
  | succ turns ih =>
    rw [countPackets, frames]
    by_cases hp : p < size
    · by_cases hs : HasSync buffer p
      · have hlen : nb + 1 + BitVec.ofNat 8 (frames buffer size turns (frameEnd buffer p)).length
            = nb + BitVec.ofNat 8 ((frames buffer size turns (frameEnd buffer p)).length + 1) := by
          rw [BitVec.add_assoc, Nat.add_comm, BitVec.ofNat_add]
          rfl
        simp only [hp, hs, if_true, bind_val, syncwordAt_val, decide_true, List.forall_mem_cons,
          true_and, List.length_cons]
        rw [← hlen]
        exact ih
      · simp [hp, hs]
    · simp [hp]

/-- The indices used for one frame of the count. -/
theorem all_countPackets_iff {nb : Byte} :
    (countPackets buffer size turns p nb).All P
      ↔ ∀ q ∈ frames buffer size turns p,
        P (.buffer q) ∧ (buffer q = syncwordByte0 → P (.buffer (q + 1)))
          ∧ (HasSync buffer q → P (.buffer (q + 2)) ∧ P (.buffer (tsIndex buffer q))) := by
  induction turns generalizing p nb with
  | zero => exact iff_of_true (all_pure _) fun q h => by cases h
  | succ turns ih =>
    rw [countPackets, frames]
    by_cases hp : p < size
    · rw [if_pos hp, if_pos hp, all_bind_iff, all_syncwordAt_iff, List.forall_mem_cons,
        syncwordAt_val, and_assoc, and_assoc, and_assoc]
      refine and_congr_right fun _ => and_congr_right fun _ => ?_
      by_cases hs : HasSync buffer p
      · rw [if_pos (decide_eq_true hs), if_pos hs, all_bind_iff, all_bind_iff]
        rw [forall_prop_of_true hs, and_assoc]
        exact and_congr all_byteAt_iff (and_congr all_byteAt_iff ih)
      · simp [hs]
    · rw [if_neg hp, if_neg hp]
      exact iff_of_true (all_pure _) fun q h => by cases h

/-- Enough turns to leave the buffer make no difference. -/
theorem frames_eq_of_le {turns' : ℕ} (h : size ≤ p + turns) (h' : size ≤ p + turns') :
    frames buffer size turns p = frames buffer size turns' p := by
  induction turns generalizing turns' p with
  | zero =>
    cases turns' with
    | zero => rfl
    | succ turns' =>
      rw [frames, frames, if_neg (by omega)]
  | succ turns ih =>
    cases turns' with
    | zero => rw [frames, frames, if_neg (by omega)]
    | succ turns' =>
      have hlt := lt_frameEnd buffer p
      rw [frames, frames, ih (by omega) (by omega : size ≤ frameEnd buffer p + turns')]

/-- The first frame, and those behind it. -/
theorem frames_of_lt {turns p : ℕ} (hturns : size ≤ p + turns) (hp : p < size) :
    frames buffer size turns p
      = p :: if HasSync buffer p then frames buffer size turns (frameEnd buffer p) else [] := by
  have hlt := lt_frameEnd buffer p
  cases turns with
  | zero => omega
  | succ turns =>
    rw [frames, if_pos hp]
    by_cases hs : HasSync buffer p
    · rw [if_pos hs, if_pos hs]
      exact congrArg _ (frames_eq_of_le (by omega) (by omega))
    · rw [if_neg hs, if_neg hs]

theorem frames_of_le (hp : size ≤ p) : frames buffer size turns p = [] := by
  cases turns with
  | zero => rfl
  | succ turns => rw [frames, if_neg (by omega)]

theorem lt_of_mem_frames {q : ℕ} (h : q ∈ frames buffer size turns p) : q < size := by
  induction turns generalizing p with
  | zero => cases h
  | succ turns ih =>
    rw [frames] at h
    split at h
    · next hp =>
        rcases List.mem_cons.mp h with rfl | h
        · exact hp
        · split at h
          · exact ih h
          · cases h
    · cases h

/-- Frames have at least 23 bytes. -/
theorem length_frames_le (turns p : ℕ) :
    23 * (frames buffer size turns p).length ≤ size - p + 22 := by
  induction turns generalizing p with
  | zero => simp [frames]
  | succ turns ih =>
    rw [frames]
    by_cases hp : p < size
    · have hend := lt_frameEnd buffer p
      have := ih (frameEnd buffer p)
      rw [if_pos hp, List.length_cons]
      split
      · omega
      · rw [List.length_nil]
        omega
    · rw [if_neg hp, List.length_nil]
      omega

end Count

/-! ## Fetching -/

/-- The frames of a buffer, from index `p` on. -/
def RxBuffer.framesFrom (self : RxBuffer) (p : ℕ) : List ℕ :=
  frames self.buffer self.buffer_size self.buffer_size p

/-- `b` is the loaded buffer `a`, moved to its first sync word. -/
structure Synced (a b : RxBuffer) : Prop where
  size : 23 ≤ a.buffer_size
  moved : ∃ s, s + 1 < a.buffer_size ∧ HasSync a.buffer s ∧ (∀ k, k < s → ¬HasSync a.buffer k)
    ∧ b = (a.resync s).val

theorem resync_size_le (self : RxBuffer) (idx : ℕ) :
    (self.resync idx).val.buffer_size ≤ self.buffer_size := by
  rw [RxBuffer.resync, ite_val]
  split
  · exact Nat.sub_le _ _
  · exact Nat.le_refl _

/-- The search of `rx_buffer_fetch` finds that sync word. -/
theorem synced_iff {b : RxBuffer} :
    Synced self b ↔ 23 ≤ self.buffer_size
      ∧ (findSyncword self.buffer (self.buffer_size - 1) 0).val ≤ self.buffer_size - 2
      ∧ b = (self.resync (findSyncword self.buffer (self.buffer_size - 1) 0).val).val := by
  obtain ⟨-, hle, hnone, hfound⟩ := @findSyncword_spec self.buffer (self.buffer_size - 1) 0
  constructor
  · rintro ⟨hsize, s, hs, hsync, hfirst, rfl⟩
    have heq : (findSyncword self.buffer (self.buffer_size - 1) 0).val = s := by
      by_contra hne
      rcases Nat.lt_or_gt_of_ne hne with hlt | hgt
      · exact hfirst _ hlt (hfound (by omega))
      · exact hnone s (by omega) hgt hsync
    rw [heq]
    exact ⟨hsize, by omega, rfl⟩
  · rintro ⟨hsize, hidx, rfl⟩
    exact ⟨hsize, _, by omega, hfound (by omega), fun k hk => hnone k (by omega) hk, rfl⟩

/-- The buffer of a resynchronised packet count, or an empty one. -/
def RxBuffer.counted (b : RxBuffer) : RxBuffer :=
  if ∀ p ∈ b.framesFrom 0, HasSync b.buffer p then
    { b with
      buffer_pkt_nb := b.buffer_pkt_nb + BitVec.ofNat 8 (b.framesFrom 0).length
      buffer_index := 0 }
  else rxBufferDel b

theorem sync_val_of_synced {b : RxBuffer} (h : Synced self b) : self.sync.val = b.counted := by
  obtain ⟨hsize, hidx, rfl⟩ := synced_iff.mp h
  have hmeta : ¬self.buffer_size < pktHeadMetadata + pktTailMetadata := by
    unfold pktHeadMetadata pktTailMetadata
    omega
  rw [RxBuffer.sync, if_neg hmeta, bind_val, if_neg (by omega), bind_val, bind_val]
  generalize (self.resync _).val = b
  rw [countPackets_val, RxBuffer.counted, RxBuffer.framesFrom]
  by_cases hall : ∀ q ∈ frames b.buffer b.buffer_size b.buffer_size 0, HasSync b.buffer q
  · rw [if_pos hall, if_pos hall]
    rfl
  · rw [if_neg hall, if_neg hall]
    rfl

theorem sync_val_of_not_synced (h : ∀ b, ¬Synced self b) : self.sync.val = rxBufferDel self := by
  rw [RxBuffer.sync]
  split
  · rfl
  · next hsize =>
      rw [bind_val, if_pos ?_, pure_val]
      by_contra hidx
      refine h _ (synced_iff.mpr ⟨?_, by omega, rfl⟩)
      unfold pktHeadMetadata pktTailMetadata at hsize
      omega

/-- The buffer as `lgw_mem_rb` fills it. -/
def RxBuffer.loaded (self : RxBuffer) (fifo : List Byte) : RxBuffer :=
  (({ self with buffer_size := fifo.length } : RxBuffer).load fifo).val

/-- A FIFO that is not empty is loaded whole. -/
theorem rxBufferFetch_of_pos {fifo : List Byte} (hpos : 0 < fifo.length)
    (hmax : fifo.length ≤ rxBufferMax) :
    rxBufferFetch self (.of fifo) = do
      let b ← ({ self with buffer_size := fifo.length } : RxBuffer).load fifo
      let b ← b.sync
      return (.ok (), b) := by
  have hnat : (BitVec.ofNat 16 fifo.length).toNat = fifo.length := by
    rw [BitVec.toNat_ofNat]
    exact Nat.mod_eq_of_lt (by unfold rxBufferMax at hmax; omega)
  have hlevel : ¬BitVec.ofNat 16 fifo.length > BitVec.ofNat 16 fifo.length := BitVec.lt_irrefl _
  rw [rxBufferFetch]
  simp only [FifoRead.of, hlevel, if_false, hnat]
  rw [if_pos hpos]

theorem rxBufferFetch_nil (self : RxBuffer) :
    rxBufferFetch self (.of [])
      = pure (.ok (), { self with buffer_size := 0, buffer_index := 0 }) := rfl

/-! ## Popping -/

theorem rxBufferPop_of_le {self : RxBuffer} (h : self.buffer_size ≤ self.buffer_index) :
    rxBufferPop self = pure (.error .error, self) := by
  rw [rxBufferPop, if_pos h]

/-- The buffer behind the frame at its index. -/
def RxBuffer.advance (self : RxBuffer) : RxBuffer :=
  { self with
    buffer_index := frameEnd self.buffer self.buffer_index
    buffer_pkt_nb := self.buffer_pkt_nb - 1 }

theorem popComplete_val (self : RxBuffer) :
    (popComplete self (self.buffer (self.buffer_index + 2))
        (self.buffer (tsIndex self.buffer self.buffer_index))).val
      = if ChecksumOk self.buffer self.buffer_index then
          if (metadataAt self.buffer self.buffer_index).inRange then
            (.ok (packetAt self.buffer self.buffer_index), self.advance)
          else (.error .error, self)
        else (.error .warning, self) := by
  simp only [popComplete, bind_val, ite_val, pure_val, ite_not]
  change (if ChecksumOk self.buffer self.buffer_index then
    if (metadataAt self.buffer self.buffer_index).inRange = false then _ else
      (Except.ok (packetAt self.buffer self.buffer_index), self.advance) else _) = _
  cases (metadataAt self.buffer self.buffer_index).inRange <;> rfl

/-- Only a packet moves the index. -/
theorem rxBufferPop_val {self : RxBuffer} (hlt : self.buffer_index < self.buffer_size)
    (hs : HasSync self.buffer self.buffer_index) :
    (rxBufferPop self).val
      = (frameVerdict self.buffer self.buffer_size self.buffer_index,
        match frameVerdict self.buffer self.buffer_size self.buffer_index with
        | .ok _ => self.advance
        | .error _ => self) := by
  have hnot : ¬self.buffer_index ≥ self.buffer_size := by omega
  rw [rxBufferPop, if_neg hnot, bind_val, syncwordAt_val, if_neg (by simp [hs]), bind_val, bind_val,
    ite_val]
  change (if frameEnd self.buffer self.buffer_index > self.buffer_size then _ else
    (popComplete self (self.buffer (self.buffer_index + 2))
        (self.buffer (tsIndex self.buffer self.buffer_index))).val) = _
  rw [popComplete_val, frameVerdict]
  by_cases hend : frameEnd self.buffer self.buffer_index ≤ self.buffer_size
  · by_cases hsum : ChecksumOk self.buffer self.buffer_index
    · cases (metadataAt self.buffer self.buffer_index).inRange <;> simp [hend, hsum]
    · simp [hsum]
  · simp [hend]

end RutosSdk.Hal
