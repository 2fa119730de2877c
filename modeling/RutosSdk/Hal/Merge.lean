import RutosSdk.Hal.Reception
import RutosSdk.Lib.Qsort

/-! # How much a call of `lgw_receive` can return

Reference: `is_same_pkt`, `remove_pkt`, `compare_pkt_tmst`, `merge_packets` in
`libloragw/src/loragw_hal.c`.

The packets that a call returns lie one behind the other in the RX buffer, each with its metadata,
and `merge_packets` only takes some of them away and sorts the others. So they take up no more bytes
than the buffer has.
-/

namespace RutosSdk.Hal

open List

/-! ## Duplicates -/

/-- `is_same_pkt`; `abs` of the difference, which is unsigned first. -/
def isSamePkt (p1 p2 : LgwPktRx) : Bool :=
  let diff := p1.count_us - p2.count_us
  (if diff.msb then -diff else diff).toInt ≤ 24 && p1.if_chain == p2.if_chain
    && p1.datarate == p2.datarate && p1.size == p2.size
    && p1.payload.toList.take p1.size.toNat == p2.payload.toList.take p1.size.toNat

/-- `remove_pkt`: the last packet takes the place of the one that is removed. -/
def removePkt (pkts : List LgwPktRx) (pkt_index : ℕ) : List LgwPktRx :=
  match pkts.getLast? with
  | none => pkts
  | some last =>
    if pkt_index = pkts.length - 1 then pkts.dropLast else (pkts.set pkt_index last).dropLast

/-- Which of two duplicates is removed: the one with a wrong CRC, or else the one without a fine
timestamp. -/
def pktDupIdx (p q : LgwPktRx) (j k : ℕ) : ℕ :=
  if p.status = statCrcOk ∧ q.status = statCrcBad then k
  else if p.status = statCrcBad ∧ q.status = statCrcOk then j
  else if p.ftime_received then k
  else j

/-- The duplicate to remove for the packet at `j`, if there is one behind it. -/
def findDuplicate (pkts : List LgwPktRx) (j : ℕ) : Option ℕ :=
  match pkts[j]? with
  | none => none
  | some p =>
    ((pkts.drop (j + 1)).zipIdx (j + 1)).findSome? fun (q, k) =>
      if isSamePkt p q then some (pktDupIdx p q j k) else none

variable {pkts : List LgwPktRx}

theorem length_removePkt_lt (h : pkts ≠ []) (i : ℕ) : (removePkt pkts i).length < pkts.length := by
  have hpos := length_pos_iff.mpr h
  rw [removePkt, List.getLast?_eq_some_getLast h]
  split_ifs
  · rw [length_dropLast]
    omega
  · rw [length_dropLast, length_set]
    omega

/-- The search, which starts again from the first packet after each removal. -/
def removeDuplicates (pkts : List LgwPktRx) (j : ℕ) : List LgwPktRx :=
  if _hj : j < pkts.length then
    match findDuplicate pkts j with
    | some i => removeDuplicates (removePkt pkts i) 0
    | none => removeDuplicates pkts (j + 1)
  else pkts
termination_by (pkts.length, pkts.length - j)
decreasing_by
  · exact Prod.Lex.left _ _ (length_removePkt_lt (length_pos_iff.mp (by omega)) i)
  · exact Prod.Lex.right _ (by omega)

/-- `compare_pkt_tmst`; the counters are converted to `int`. -/
def comparePktTmst (p q : LgwPktRx) : ℤ := (p.count_us - q.count_us).toInt

/-- `merge_packets` -/
def mergePackets (sort : Qsort LgwPktRx) (pkts : List LgwPktRx) : List LgwPktRx :=
  sort.run comparePktTmst (removeDuplicates pkts 0)

/-! ## Only packets that were there -/

/-- The index that is removed is one of the array's. -/
theorem findDuplicate_lt {j i : ℕ} (h : findDuplicate pkts j = some i) : i < pkts.length := by
  rw [findDuplicate] at h
  cases hp : pkts[j]? with
  | none =>
    rw [hp] at h
    cases h
  | some p =>
    rw [hp] at h
    obtain ⟨hj, -⟩ := List.getElem?_eq_some_iff.mp hp
    obtain ⟨⟨q, k⟩, hmem, hsome⟩ := exists_of_findSome?_eq_some h
    have hk := (mem_zipIdx hmem).2.1
    rw [length_drop] at hk
    dsimp only at hsome
    split_ifs at hsome
    obtain rfl := Option.some.inj hsome
    rw [pktDupIdx]
    split_ifs <;> omega

/-- The other packets stay, in another order. -/
theorem removePkt_perm {i : ℕ} (hi : i < pkts.length) :
    (removePkt pkts i).Perm (pkts.eraseIdx i) := by
  have hne : pkts ≠ [] := length_pos_iff.mp (by omega)
  obtain ⟨init, last, rfl⟩ := (eq_nil_or_concat pkts).resolve_left hne
  simp only [concat_eq_append] at hi ⊢
  rw [length_append, length_singleton] at hi
  rw [removePkt, List.getLast?_concat]
  dsimp only
  rw [length_append, length_singleton, Nat.add_sub_cancel]
  split_ifs with hlast
  · rw [hlast, dropLast_concat, eraseIdx_append_of_length_le (Nat.le_refl _), Nat.sub_self]
    exact (append_nil init).symm ▸ List.Perm.refl _
  · have hlt : i < init.length := by omega
    rw [set_append_left _ _ hlt, dropLast_concat, eraseIdx_append_of_lt_length hlt]
    exact (set_perm_cons_eraseIdx hlt last).trans (perm_append_singleton _ _).symm

theorem removeDuplicates_subperm (pkts : List LgwPktRx) (j : ℕ) :
    (removeDuplicates pkts j).Subperm pkts := by
  fun_induction removeDuplicates pkts j with
  | case1 pkts j hj i hdup ih =>
    have hperm := removePkt_perm (findDuplicate_lt hdup)
    exact ih.trans (hperm.subperm.trans (eraseIdx_sublist _ _).subperm)
  | case2 pkts j hj hnone ih => exact ih
  | case3 pkts j hj => exact List.Subperm.refl pkts

/-- `merge_packets` keeps some of the packets. -/
theorem mergePackets_subperm (sort : Qsort LgwPktRx) (pkts : List LgwPktRx) :
    (mergePackets sort pkts).Subperm pkts :=
  (sort.perm _ _).subperm.trans (removeDuplicates_subperm pkts 0)

/-! ## Bytes in the buffer -/

/-- What a packet takes up in the RX buffer, at least: its payload and the metadata. -/
def LgwPktRx.occupied (p : LgwPktRx) : ℕ := 23 + p.size.toNat

/-- The same for a frame that has not been parsed yet. -/
def Outcome.occupied : Outcome → ℕ
  | .packet pkt => 23 + pkt.rxbytenb_modem.toNat
  | .warning => 0
  | .error => 0
  | .refused => 0

/-- A frame that is a packet ends in the buffer. -/
theorem occupied_outcomeOf_le (context : LgwContext) (buffer : ℕ → Byte) (size p : ℕ) :
    p + (outcomeOf context (frameVerdict buffer size p)).occupied ≤ max p size
      ∧ p + (outcomeOf context (frameVerdict buffer size p)).occupied ≤ frameEnd buffer p := by
  have hend := frameEnd_eq buffer p
  have hts := tsIndex_eq buffer p
  have hnone : p + 0 ≤ max p size ∧ p + 0 ≤ frameEnd buffer p := ⟨by omega, by omega⟩
  cases hv : frameVerdict buffer size p with
  | error e => cases e <;> exact hnone
  | ok pkt =>
    have hpkt := eq_packetAt_of_frameVerdict hv
    have hbytes : pkt.rxbytenb_modem = buffer (p + 2) := by
      rw [hpkt]
      rfl
    have hfit : frameEnd buffer p ≤ size := by
      rw [frameVerdict] at hv
      split at hv
      · next h => exact h.1
      · cases hv
    rw [outcomeOf]
    split
    · exact hnone
    · rw [Outcome.occupied, hbytes]
      omega

/-- The packets of a buffer lie one behind the other. -/
theorem sum_occupied_frames_le (context : LgwContext) (buffer : ℕ → Byte) (size turns p : ℕ) :
    (((frames buffer size turns p).map fun q =>
      outcomeOf context (frameVerdict buffer size q)).map Outcome.occupied).sum ≤ size - p := by
  induction turns generalizing p with
  | zero => exact Nat.zero_le _
  | succ turns ih =>
    rw [frames]
    by_cases hp : p < size
    · obtain ⟨hsize, hend⟩ := occupied_outcomeOf_le context buffer size p
      have hrest := ih (frameEnd buffer p)
      rw [if_pos hp, map_cons, map_cons, sum_cons]
      split
      · omega
      · rw [map_nil, map_nil, sum_nil]
        omega
    · rw [if_neg hp]
      exact Nat.zero_le _

/-- The packets that are delivered are those of the buffer. -/
theorem Receives.sum_occupied_le {context : LgwContext} {n : ℕ} {q q' : List Outcome}
    {r : Except RegFailure (List LgwPktRx)} (h : Receives context n q r q') (hr : r = .ok pkts) :
    (pkts.map LgwPktRx.occupied).sum ≤ (q.map Outcome.occupied).sum
      ∧ ∀ p ∈ pkts, p.size.toNat ≤ 255 := by
  induction h generalizing pkts with
  | done q =>
    obtain rfl := Except.ok.inj hr
    exact ⟨Nat.zero_le _, fun p hp => by cases hp⟩
  | @packet n q q' r pkt p hp h ih =>
    cases r with
    | error e => cases hr
    | ok rest =>
      obtain rfl := Except.ok.inj hr
      obtain ⟨hsum, hsizes⟩ := ih rfl
      have hsize : p.size.toNat = pkt.rxbytenb_modem.toNat := by
        rw [hp.size]
        exact BitVec.toNat_setWidth_of_le (by decide)
      refine ⟨?_, ?_⟩
      · rw [map_cons, map_cons, sum_cons, sum_cons, LgwPktRx.occupied, Outcome.occupied, hsize]
        omega
      · intro p' hp'
        rcases mem_cons.mp hp' with rfl | hp'
        · omega
        · exact hsizes p' hp'
  | warning n q => cases hr
  | error n q => cases hr
  | refused n q => cases hr

/-- Some of the packets take up no more than all. -/
theorem sum_occupied_of_subperm {pkts' : List LgwPktRx} (h : pkts.Subperm pkts') :
    (pkts.map LgwPktRx.occupied).sum ≤ (pkts'.map LgwPktRx.occupied).sum := by
  obtain ⟨l, hperm, hsub⟩ := h
  rw [← (hperm.map _).sum_eq]
  exact (hsub.map _).sum_le_sum fun _ _ => Nat.zero_le _

/-- What a call returns fits in the RX buffer, with or without merging. -/
theorem reply_fits {context : LgwContext} {fine : FineTimestamp} {s : RxSystem}
    (hs : s.hal.rx_buffer.Counted) (hmerge : ∀ pkts, (fine.merge_packets pkts).Subperm pkts)
    {call : ReceiveCall} (h : s.reply context fine call = .ok pkts) :
    (pkts.map LgwPktRx.occupied).sum ≤ rxBufferMax ∧ ∀ p ∈ pkts, p.size.toNat ≤ 255 := by
  obtain ⟨r, hreceives, hreply, -⟩ := @step_receives context fine s hs call
  obtain ⟨-, hcounted, -⟩ := sx1302Fetch_spec hs (length_fifoAt_le s call)
  rw [hreply] at h
  have hbuffer : (((s.fetched call).outcomes context).map Outcome.occupied).sum ≤ rxBufferMax := by
    have hsum := sum_occupied_frames_le context (s.fetched call).buffer
      (s.fetched call).buffer_size (s.fetched call).buffer_size (s.fetched call).buffer_index
    exact Nat.le_trans hsum (Nat.le_trans (Nat.sub_le _ _) hcounted.size_le)
  rcases r with (_ | _) | all
  · cases h
  · obtain rfl := Except.ok.inj h
    exact ⟨Nat.zero_le _, fun p hp => by cases hp⟩
  · obtain ⟨hsum, hsizes⟩ := hreceives.sum_occupied_le rfl
    have hsub : pkts.Subperm all := by
      obtain rfl := Except.ok.inj h
      split
      · exact hmerge all
      · exact List.Subperm.refl all
    exact ⟨Nat.le_trans (sum_occupied_of_subperm hsub) (Nat.le_trans hsum hbuffer),
      fun p hp => hsizes p (hsub.subset hp)⟩

end RutosSdk.Hal
