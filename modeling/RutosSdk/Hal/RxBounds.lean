import RutosSdk.Hal.RxSpec

/-! # Array accesses of the RX buffer

`rx_buffer_fetch` and `rx_buffer_pop` find the number of timestamp metrics of a frame behind its
payload, at an index they have not compared with the number of bytes fetched, and `rx_buffer_pop`
stores up to 510 metrics in arrays of 255. The accesses of a fetch followed by any number of pops
are in bounds exactly if no frame makes them do either.
-/

namespace RutosSdk.Hal

open Traced

/-- The index is below the `n` bytes fetched, or below the length of `timestamp_avg` and
`timestamp_stddev`. -/
def InBounds (n : ℕ) : RxAccess → Prop
  | .buffer i => i < n
  | .timestampAvg i => i < 255
  | .timestampStddev i => i < 255

instance (n : ℕ) : DecidablePred (InBounds n)
  | .buffer i => inferInstanceAs (Decidable (i < n))
  | .timestampAvg i => inferInstanceAs (Decidable (i < 255))
  | .timestampStddev i => inferInstanceAs (Decidable (i < 255))

/-- `k` calls of `rx_buffer_pop`. -/
def popTimes : ℕ → RxBuffer → Traced RxAccess RxBuffer
  | 0, self => pure self
  | k + 1, self => do popTimes k (← rxBufferPop self).2

/-- `rx_buffer_fetch` from a FIFO, and then `k` calls of `rx_buffer_pop`. -/
def fetchThenPop (self : RxBuffer) (fifo : List Byte) (k : ℕ) : Traced RxAccess RxBuffer := do
  popTimes k (← rxBufferFetch self (.of fifo)).2

/-! ## One pop -/

variable {p : ℕ} {self : RxBuffer}

section Pop

variable {buffer : ℕ → Byte} {P : RxAccess → Prop} {n : ℕ}

variable {i : ℕ}

theorem all_pktBits_iff {k : ℕ} : (pktBits buffer i p k).All P ↔ P (.buffer i) := by
  simp [pktBits]

theorem all_pktBit_iff : (pktBit buffer i p).All P ↔ P (.buffer i) := by
  simp [pktBit, all_pktBits_iff]

theorem all_pktTsMetrics_iff {start k : ℕ} :
    (pktTsMetrics buffer start i k).All P
      ↔ ∀ j, i ≤ j → j < i + k →
        P (.buffer (start + 1 + j + 21)) ∧ P (.timestampAvg j) ∧ P (.timestampStddev j) := by
  induction k generalizing i with
  | zero => exact iff_of_true (all_pure []) fun j h₁ h₂ => by omega
  | succ k ih =>
    rw [pktTsMetrics, all_bind_iff, all_bind_iff, all_bind_iff, all_bind_iff, ih, range_succ_iff,
      all_touch_iff, all_touch_iff, pktNumTsMetrics, all_byteAt_iff]
    simp [and_assoc]

/-- The fields of a frame lie within it. -/
theorem all_pktFields (hend : frameEnd buffer p ≤ n) :
    (pktFields buffer p (buffer (p + 2)) (buffer (tsIndex buffer p))).All (InBounds n) := by
  rw [frameEnd_eq, tsIndex_eq] at hend
  simp only [pktFields, all_bind_iff, all_pktBits_iff, all_pktBit_iff, all_pure, InBounds, and_true]
  omega

/-- Its metrics can leave the arrays they are stored in. -/
theorem all_pktMetadata_iff (hend : frameEnd buffer p ≤ n) :
    (pktMetadata buffer p (buffer (p + 2)) (buffer (tsIndex buffer p))).All (InBounds n)
      ↔ numTs buffer p ≤ 127 := by
  have hfields := all_pktFields hend
  have hnum : (buffer (tsIndex buffer p)).toNat = numTs buffer p := rfl
  rw [frameEnd_eq, tsIndex_eq] at hend
  rw [pktMetadata, all_bind_iff, and_iff_right hfields, all_bind_iff, all_pktTsMetrics_iff,
    and_iff_left (all_pure _), hnum]
  simp only [InBounds]
  constructor
  · intro h
    by_contra hlt
    have := (h 255 (by omega) (by omega)).2.1
    omega
  · intro h j _ hj
    omega

/-- The indices `rx_buffer_pop` computes from the frame at `p`. -/
structure PopInBounds (buffer : ℕ → Byte) (size n p : ℕ) : Prop where
  header : tsIndex buffer p < n
  metrics : frameEnd buffer p ≤ size → ChecksumOk buffer p → numTs buffer p ≤ 127

theorem all_popComplete_iff (hend : frameEnd self.buffer self.buffer_index ≤ n) :
    (popComplete self (self.buffer (self.buffer_index + 2))
        (self.buffer (tsIndex self.buffer self.buffer_index))).All (InBounds n)
      ↔ (ChecksumOk self.buffer self.buffer_index → numTs self.buffer self.buffer_index ≤ 127) := by
  have hlen := frameEnd_eq self.buffer self.buffer_index
  have hts := tsIndex_eq self.buffer self.buffer_index
  have hbytes : self.buffer_index + pktNumBytes (self.buffer (self.buffer_index + 2))
      (self.buffer (tsIndex self.buffer self.buffer_index))
        = frameEnd self.buffer self.buffer_index := rfl
  rw [popComplete, all_bind_iff, all_byteAt_iff, all_bind_iff, pktChecksum, all_foldRange_iff,
    all_ite_iff, all_bind_iff, all_pktMetadata_iff hend, all_ite_iff, all_bind_iff,
    all_readRange_iff]
  constructor
  · rintro ⟨-, -, -, h⟩ hsum
    exact (h (Decidable.not_not.mpr hsum)).1
  · intro h
    refine ⟨?_, ?_, fun _ => all_pure _, fun hsum => ⟨h (Decidable.not_not.mp hsum),
      fun _ => all_pure _, fun _ => ⟨?_, all_pure _⟩⟩⟩
    · change _ < n
      omega
    · intro i _ hi
      change i < n
      omega
    · intro i _ hi
      change i < n
      unfold pktHeadMetadata at hi
      omega

theorem all_rxBufferPop_iff {self : RxBuffer} (hsize : self.buffer_size ≤ n)
    (hlt : self.buffer_index < self.buffer_size) (hs : HasSync self.buffer self.buffer_index) :
    (rxBufferPop self).All (InBounds n)
      ↔ PopInBounds self.buffer self.buffer_size n self.buffer_index := by
  have hnot : ¬self.buffer_index ≥ self.buffer_size := by omega
  have hts := tsIndex_eq self.buffer self.buffer_index
  rw [rxBufferPop, if_neg hnot, all_bind_iff, all_syncwordAt_iff, syncwordAt_val,
    if_neg (by simp [hs]), all_bind_iff, all_bind_iff, pktPayloadLength, pktNumTsMetrics,
    all_byteAt_iff, all_byteAt_iff]
  constructor
  · rintro ⟨-, -, hheader, hrest⟩
    refine ⟨hheader, fun hend hsum => ?_⟩
    have hcomplete : ¬frameEnd self.buffer self.buffer_index > self.buffer_size := by omega
    exact (all_popComplete_iff (by omega)).mp ((all_ite_iff.mp hrest).2 hcomplete) hsum
  · rintro ⟨hheader, hmetrics⟩
    refine ⟨⟨?_, fun _ => ?_⟩, ?_, hheader, ?_⟩
    · change self.buffer_index < n
      omega
    · change self.buffer_index + 1 < n
      omega
    · change self.buffer_index + 2 < n
      omega
    · rw [all_ite_iff]
      refine ⟨fun _ => all_pure _, fun hend => ?_⟩
      have hend : frameEnd self.buffer self.buffer_index ≤ self.buffer_size := Nat.not_lt.mp hend
      exact (all_popComplete_iff (by omega)).mpr (hmetrics hend)

end Pop

/-! ## Any number of pops -/

section Pops

variable {buffer : ℕ → Byte} {size n : ℕ}

/-- The frames that calls of `rx_buffer_pop` come to: each one it decodes, and the next. -/
def poppedFrames (buffer : ℕ → Byte) (size : ℕ) : List ℕ → List ℕ
  | [] => []
  | p :: ps =>
    p :: match frameVerdict buffer size p with
      | .ok _ => poppedFrames buffer size ps
      | .error _ => []

theorem forall_popTimes_iff {P : RxAccess → Prop} :
    (∀ k, (popTimes k self).All P)
      ↔ (rxBufferPop self).All P ∧ ∀ k, (popTimes k (rxBufferPop self).val.2).All P := by
  constructor
  · intro h
    have hstep : ∀ k, (rxBufferPop self).All P ∧ (popTimes k (rxBufferPop self).val.2).All P :=
      fun k => all_bind_iff.mp (h (k + 1))
    exact ⟨(hstep 0).1, fun k => (hstep k).2⟩
  · rintro ⟨hpop, hrest⟩ k
    cases k with
    | zero => exact all_pure self
    | succ k => exact all_bind_iff.mpr ⟨hpop, hrest k⟩

/-- A pop that leaves the buffer as it is is repeated by the next one. -/
theorem forall_popTimes_of_stuck {P : RxAccess → Prop} (hstuck : (rxBufferPop self).val.2 = self) :
    (∀ k, (popTimes k self).All P) ↔ (rxBufferPop self).All P := by
  constructor
  · intro h
    exact (forall_popTimes_iff.mp h).1
  · intro hpop k
    induction k with
    | zero => exact all_pure self
    | succ k ih =>
      rw [popTimes, all_bind_iff, hstuck]
      exact ⟨hpop, ih⟩

/-- The pops of a buffer in which every frame has its sync word. -/
theorem all_popTimes_iff (hsize : size ≤ n) {nb : Byte}
    (hall : ∀ q ∈ frames buffer size size p, HasSync buffer q) :
    (∀ k, (popTimes k ⟨buffer, size, p, nb⟩).All (InBounds n))
      ↔ ∀ q ∈ poppedFrames buffer size (frames buffer size size p),
        PopInBounds buffer size n q := by
  -- each packet leaves fewer bytes
  induction hm : size - p using Nat.strongRecOn generalizing p nb with
  | ind m ih =>
    by_cases hp : p < size
    · rw [frames_of_lt (by omega) hp] at hall ⊢
      obtain ⟨hs, hrest⟩ := List.forall_mem_cons.mp hall
      rw [if_pos hs] at hrest ⊢
      have hval := @rxBufferPop_val ⟨buffer, size, p, nb⟩ hp hs
      have hpop := @all_rxBufferPop_iff n ⟨buffer, size, p, nb⟩ hsize hp hs
      have hlt := lt_frameEnd buffer p
      rw [poppedFrames, List.forall_mem_cons, ← hpop]
      cases hv : frameVerdict buffer size p with
      | ok pkt =>
        rw [hv] at hval
        rw [forall_popTimes_iff, hval]
        exact and_congr_right fun _ =>
          ih (size - frameEnd buffer p) (by omega) hrest rfl
      | error e =>
        rw [hv] at hval
        rw [forall_popTimes_of_stuck (by rw [hval])]
        exact (and_iff_left fun q h => by cases h).symm
    · have hpop := @rxBufferPop_of_le ⟨buffer, size, p, nb⟩ (Nat.not_lt.mp hp)
      rw [forall_popTimes_of_stuck (by rw [hpop]; rfl), hpop, frames_of_le (Nat.not_lt.mp hp)]
      exact iff_of_true (all_pure _) fun q h => by cases h

end Pops

/-! ## The whole sequence -/

theorem mem_of_mem_poppedFrames {buffer : ℕ → Byte} {size q : ℕ} {ps : List ℕ}
    (h : q ∈ poppedFrames buffer size ps) : q ∈ ps := by
  induction ps with
  | nil => cases h
  | cons p ps ih =>
    rw [poppedFrames] at h
    rcases List.mem_cons.mp h with rfl | h
    · exact List.mem_cons_self
    · cases hv : frameVerdict buffer size p with
      | ok pkt =>
        rw [hv] at h
        exact List.mem_cons_of_mem p (ih h)
      | error e =>
        rw [hv] at h
        cases h

theorem all_resync {idx n : ℕ} (hsize : self.buffer_size ≤ n) :
    (self.resync idx).All (InBounds n) := by
  rw [RxBuffer.resync, all_ite_iff]
  refine ⟨fun _ => ?_, fun _ => all_pure _⟩
  rw [all_bind_iff, all_readRange_iff, all_bind_iff, all_touchRange_iff]
  refine ⟨?_, ?_, all_pure _⟩
  · intro i _ hi
    change i < n
    omega
  · intro i _ hi
    change i < n
    omega

/-- The indices that the count of `rx_buffer_fetch` computes from its frames. -/
def CountInBounds (b : RxBuffer) (n : ℕ) : Prop :=
  ∀ p ∈ b.framesFrom 0,
    (b.buffer p = syncwordByte0 → p + 1 < n) ∧ (HasSync b.buffer p → tsIndex b.buffer p < n)

instance (b : RxBuffer) (n : ℕ) : Decidable (CountInBounds b n) :=
  inferInstanceAs (Decidable (∀ _ ∈ _, _))

/-- The metrics of the frames that are decoded, unless the count discards the buffer. -/
def MetricsInBounds (b : RxBuffer) : Prop :=
  (∀ p ∈ b.framesFrom 0, HasSync b.buffer p) →
    ∀ p ∈ poppedFrames b.buffer b.buffer_size (b.framesFrom 0),
      frameEnd b.buffer p ≤ b.buffer_size → ChecksumOk b.buffer p → numTs b.buffer p ≤ 127

instance (b : RxBuffer) : Decidable (MetricsInBounds b) := inferInstanceAs (Decidable (_ → _))

theorem all_count_iff {b : RxBuffer} {n : ℕ} (hsize : b.buffer_size ≤ n) :
    (countPackets b.buffer b.buffer_size b.buffer_size 0 b.buffer_pkt_nb).All (InBounds n)
      ↔ CountInBounds b n := by
  rw [all_countPackets_iff]
  refine forall₂_congr fun p hp => ?_
  have hlt : p < b.buffer_size := lt_of_mem_frames hp
  have hts := tsIndex_eq b.buffer p
  simp only [InBounds]
  constructor
  · rintro ⟨-, hsync, hheader⟩
    exact ⟨hsync, fun hs => (hheader hs).2⟩
  · rintro ⟨hsync, hheader⟩
    refine ⟨by omega, hsync, fun hs => ⟨?_, hheader hs⟩⟩
    have := hheader hs
    omega

theorem all_sync_iff {n : ℕ} (hsize : self.buffer_size ≤ n) :
    self.sync.All (InBounds n) ↔ ∀ b, Synced self b → CountInBounds b n := by
  by_cases hmeta : self.buffer_size < pktHeadMetadata + pktTailMetadata
  · rw [RxBuffer.sync, if_pos hmeta]
    refine iff_of_true (all_pure _) fun b hb => ?_
    have := hb.size
    unfold pktHeadMetadata pktTailMetadata at hmeta
    omega
  · have hsearch : (findSyncword self.buffer (self.buffer_size - 1) 0).All (InBounds n) := by
      refine all_findSyncword fun i _ hi => ?_
      change i < n
      unfold pktHeadMetadata at hmeta
      omega
    rw [RxBuffer.sync, if_neg hmeta, all_bind_iff, and_iff_right hsearch]
    by_cases hidx : (findSyncword self.buffer (self.buffer_size - 1) 0).val > self.buffer_size - 2
    · rw [if_pos hidx]
      refine iff_of_true (all_pure _) fun b hb => ?_
      have := (synced_iff.mp hb).2.1
      omega
    · have hle := resync_size_le self (findSyncword self.buffer (self.buffer_size - 1) 0).val
      rw [if_neg hidx, all_bind_iff, and_iff_right (all_resync hsize), all_bind_iff,
        all_count_iff (by omega)]
      constructor
      · intro h b hb
        obtain ⟨-, -, rfl⟩ := synced_iff.mp hb
        exact h.1
      · intro h
        refine ⟨h _ (synced_iff.mpr ⟨?_, by omega, rfl⟩), ?_⟩
        · unfold pktHeadMetadata pktTailMetadata at hmeta
          omega
        · split <;> exact all_pure _

/-- Pops at the end of the buffer use no index. -/
theorem all_popTimes_of_le (h : self.buffer_size ≤ self.buffer_index) (n k : ℕ) :
    (popTimes k self).All (InBounds n) := by
  have hpop := rxBufferPop_of_le h
  refine (forall_popTimes_of_stuck ?_).mpr ?_ k
  · rw [hpop]
    rfl
  · rw [hpop]
    exact all_pure _

/-- The pops of a counted buffer. -/
theorem all_popTimes_counted_iff {b : RxBuffer} {n : ℕ} (hsize : b.buffer_size ≤ n)
    (hcount : CountInBounds b n) :
    (∀ k, (popTimes k b.counted).All (InBounds n)) ↔ MetricsInBounds b := by
  rw [RxBuffer.counted, MetricsInBounds]
  by_cases hall : ∀ p ∈ b.framesFrom 0, HasSync b.buffer p
  · rw [if_pos hall, all_popTimes_iff hsize hall, forall_prop_of_true hall]
    refine forall₂_congr fun p hp => ?_
    have hmem := mem_of_mem_poppedFrames hp
    exact ⟨fun h => h.metrics, fun h => ⟨(hcount p hmem).2 (hall p hmem), h⟩⟩
  · rw [if_neg hall]
    exact iff_of_true (all_popTimes_of_le (Nat.le_refl 0) n) fun h => absurd h hall

/-- What the fetch does to a FIFO that is not empty. -/
theorem all_sync_popTimes_iff {n : ℕ} (hsize : self.buffer_size ≤ n) :
    (self.sync.All (InBounds n) ∧ ∀ k, (popTimes k self.sync.val).All (InBounds n))
      ↔ ∀ b, Synced self b → CountInBounds b n ∧ MetricsInBounds b := by
  rw [all_sync_iff hsize]
  by_cases hb : ∃ b, Synced self b
  · obtain ⟨b, hb⟩ := hb
    have heq : ∀ b', Synced self b' → b' = b := fun b' hb' =>
      (synced_iff.mp hb').2.2.trans (synced_iff.mp hb).2.2.symm
    have hle : b.buffer_size ≤ n := by
      rw [(synced_iff.mp hb).2.2]
      exact Nat.le_trans (resync_size_le _ _) hsize
    rw [sync_val_of_synced hb]
    constructor
    · rintro ⟨hcount, hpops⟩ b' hb'
      obtain rfl := heq b' hb'
      exact ⟨hcount b' hb', (all_popTimes_counted_iff hle (hcount b' hb')).mp hpops⟩
    · intro h
      obtain ⟨hcount, hmetrics⟩ := h b hb
      exact ⟨fun b' hb' => (h b' hb').1, (all_popTimes_counted_iff hle hcount).mpr hmetrics⟩
  · have hnone : ∀ b, ¬Synced self b := fun b h => hb ⟨b, h⟩
    rw [sync_val_of_not_synced hnone]
    exact iff_of_true ⟨fun b h => absurd h (hnone b), all_popTimes_of_le (Nat.le_refl 0) n⟩
      fun b h => absurd h (hnone b)

theorem forall_fetchThenPop_iff {P : RxAccess → Prop} {fifo : List Byte} :
    (∀ k, (fetchThenPop self fifo k).All P)
      ↔ (rxBufferFetch self (.of fifo)).All P
        ∧ ∀ k, (popTimes k (rxBufferFetch self (.of fifo)).val.2).All P := by
  simp only [fetchThenPop, all_bind_iff]
  exact ⟨fun h => ⟨(h 0).1, fun k => (h k).2⟩, fun h k => ⟨h.1, h.2 k⟩⟩

/-- The accesses of `rx_buffer_fetch` and of any number of calls of `rx_buffer_pop` are in bounds
exactly if, behind the first sync word, no frame has the byte after 0xA5 or its number of metrics
behind the bytes fetched, and none that is decoded has more than 127 metrics. -/
theorem accesses_in_bounds_iff {self : RxBuffer} {fifo : List Byte}
    (hmax : fifo.length ≤ rxBufferMax) :
    (∀ k, (fetchThenPop self fifo k).All (InBounds fifo.length))
      ↔ ∀ b, Synced (self.loaded fifo) b → CountInBounds b fifo.length ∧ MetricsInBounds b := by
  rw [forall_fetchThenPop_iff]
  by_cases hpos : 0 < fifo.length
  · have hload : (({ self with buffer_size := fifo.length } : RxBuffer).load fifo).All
        (InBounds fifo.length) := by
      rw [RxBuffer.load, all_bind_iff, all_touchRange_iff]
      exact ⟨fun i _ hi => by simpa [InBounds] using hi, all_pure _⟩
    rw [rxBufferFetch_of_pos hpos hmax, all_bind_iff, and_iff_right hload, all_bind_iff,
      and_iff_left (all_pure _)]
    exact all_sync_popTimes_iff (Nat.le_refl fifo.length)
  · obtain rfl : fifo = [] := List.eq_nil_of_length_eq_zero (by omega)
    rw [rxBufferFetch_nil]
    refine iff_of_true ⟨all_pure _, ?_⟩ ?_
    · exact all_popTimes_of_le (Nat.le_refl 0) _
    · intro b hb
      cases (show 23 ≤ 0 from hb.size)

/-- The FIFO with one packet that has no payload and no metrics. -/
def emptyPacketFifo : List Byte :=
  [0xA5, 0xC0, 0, 0, 0x70, 0, 0, 0, 0] ++ List.replicate 13 0 ++ [0xD5]

theorem accesses_in_bounds_iff_emptyPacketFifo :
    emptyPacketFifo.length ≤ rxBufferMax
      ∧ ∀ k, (fetchThenPop .initial emptyPacketFifo k).All (InBounds emptyPacketFifo.length) := by
  refine ⟨by decide, (accesses_in_bounds_iff (by decide)).mpr fun b hb => ?_⟩
  obtain ⟨-, -, rfl⟩ := synced_iff.mp hb
  exact ⟨by decide, by decide⟩

/-- 23 bytes that start with a sync word and a payload length of 255: the number of metrics is
looked for at index 276. -/
theorem fetch_reads_past_fifo :
    ([0xA5, 0xC0, 0xFF] ++ List.replicate 20 0 : List Byte).length = 23
      ∧ .buffer 276 ∈ (fetchThenPop .initial ([0xA5, 0xC0, 0xFF] ++ List.replicate 20 0) 0).log
      ∧ ¬InBounds 23 (.buffer 276) := by
  decide

end RutosSdk.Hal
