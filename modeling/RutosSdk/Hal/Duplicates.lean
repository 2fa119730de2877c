import RutosSdk.Hal.Merge

/-! # What `merge_packets` leaves of the received packets

Reference: `is_same_pkt`, `merge_packets` in `libloragw/src/loragw_hal.c`.

The search for duplicates restarts after each removal, so it only ends when no two of the packets
left are duplicates. Being duplicates is not transitive: three copies of a packet may be 24 us apart
one after the other, and a packet may be removed for a copy that is removed in its turn. What links
a removed packet to those that remain is a chain of duplicates.
-/

namespace RutosSdk.Hal

open Circular

/-! ## Duplicates -/

/-- Same channel, datarate and payload, and counters up to 24 us apart. -/
structure Duplicate (p q : LgwPktRx) : Prop where
  if_chain : p.if_chain = q.if_chain
  datarate : p.datarate = q.datarate
  size : p.size = q.size
  payload : p.payload.toList.take p.size.toNat = q.payload.toList.take p.size.toNat
  count_us : ahead p.count_us q.count_us ≤ 24 ∨ ahead q.count_us p.count_us ≤ 24

/-- `abs` of a difference does not depend on its sign. -/
theorem abs_sub_comm (a b : Word) :
    (if (a - b).msb then -(a - b) else a - b) = if (b - a).msb then -(b - a) else b - a := by
  simp only [BitVec.msb_eq_decide, decide_eq_true_eq]
  split_ifs <;> bv_omega

variable {p q : LgwPktRx} {j i : ℕ} {pkts : List LgwPktRx}

theorem isSamePkt_iff :
    isSamePkt p q = true
      ↔ (if (p.count_us - q.count_us).msb then -(p.count_us - q.count_us)
          else p.count_us - q.count_us).toInt ≤ 24
        ∧ p.if_chain = q.if_chain ∧ p.datarate = q.datarate ∧ p.size = q.size
        ∧ p.payload.toList.take p.size.toNat = q.payload.toList.take p.size.toNat := by
  simp only [isSamePkt, Bool.and_eq_true, decide_eq_true_eq, beq_iff_eq, and_assoc]

theorem isSamePkt_refl (p : LgwPktRx) : isSamePkt p p = true := by
  rw [isSamePkt_iff]
  simp

theorem isSamePkt_comm (p q : LgwPktRx) : isSamePkt p q = isSamePkt q p := by
  rw [Bool.eq_iff_iff, isSamePkt_iff, isSamePkt_iff, abs_sub_comm]
  constructor <;>
  · rintro ⟨hcount, hchain, hdr, hsize, hpayload⟩
    exact ⟨hcount, hchain.symm, hdr.symm, hsize.symm, by rw [← hsize]; exact hpayload.symm⟩

/-- The code recognises every duplicate. -/
theorem Duplicate.isSamePkt (h : Duplicate p q) : isSamePkt p q = true := by
  refine isSamePkt_iff.mpr ⟨?_, h.if_chain, h.datarate, h.size, h.payload⟩
  have hcount := h.count_us
  simp only [ahead] at hcount
  simp only [BitVec.msb_eq_decide, decide_eq_true_eq, BitVec.toInt_eq_toNat_cond]
  split_ifs <;> bv_omega

/-! ## One search -/

/-- No duplicate is found for the packet at `j` only if there is none behind it. -/
theorem findDuplicate_eq_none (h : findDuplicate pkts j = none) {k : ℕ} (hjk : j < k)
    (hk : k < pkts.length) : isSamePkt pkts[j] pkts[k] = false := by
  rw [findDuplicate, List.getElem?_eq_getElem (hjk.trans hk)] at h
  have hmem : (pkts[k], k) ∈ (pkts.drop (j + 1)).zipIdx (j + 1) := by
    refine List.mk_mem_zipIdx_iff_le_and_getElem?_sub.mpr ⟨by omega, ?_⟩
    rw [List.getElem?_drop, Nat.add_sub_cancel' (by omega)]
    exact List.getElem?_eq_getElem hk
  have hnone := List.findSome?_eq_none_iff.mp h _ hmem
  simpa using hnone

/-- The packet at `i` gives way to the one at `k`: they are duplicates, and a wrong CRC never
replaces a right one. -/
structure GivesWay (p q : LgwPktRx) : Prop where
  same : isSamePkt p q = true
  crc : p.status = statCrcOk → q.status ≠ statCrcBad

/-- The packet to remove gives way to another one of the array. -/
theorem findDuplicate_eq_some (h : findDuplicate pkts j = some i) :
    ∃ (hi : i < pkts.length) (k : ℕ) (hk : k < pkts.length), k ≠ i ∧ GivesWay pkts[i] pkts[k] := by
  rw [findDuplicate] at h
  cases hp : pkts[j]? with
  | none =>
    rw [hp] at h
    cases h
  | some p =>
    rw [hp] at h
    obtain ⟨hj, rfl⟩ := List.getElem?_eq_some_iff.mp hp
    obtain ⟨⟨q, k⟩, hmem, hsome⟩ := List.exists_of_findSome?_eq_some h
    obtain ⟨hjk, hq⟩ := List.mk_mem_zipIdx_iff_le_and_getElem?_sub.mp hmem
    rw [List.getElem?_drop, Nat.add_sub_cancel' hjk] at hq
    obtain ⟨hk, rfl⟩ := List.getElem?_eq_some_iff.mp hq
    dsimp only at hsome
    split_ifs at hsome with hsame
    obtain rfl := Option.some.inj hsome
    have hsame' := (isSamePkt_comm pkts[k] pkts[j]).trans hsame
    rw [pktDupIdx]
    split_ifs with hok hbad hftime
    · exact ⟨hk, j, hj, by omega, hsame', by simp_all [statCrcOk, statCrcBad]⟩
    · exact ⟨hj, k, hk, by omega, hsame, by simp_all [statCrcOk, statCrcBad]⟩
    · exact ⟨hk, j, hj, by omega, hsame', fun hp hq => hbad ⟨hq, hp⟩⟩
    · exact ⟨hj, k, hk, by omega, hsame, fun hp hq => hok ⟨hp, hq⟩⟩

/-- A removal takes away one packet, and what it gave way to is still there. -/
theorem removePkt_step (h : findDuplicate pkts j = some i) (hp : p ∈ pkts) :
    ∃ q ∈ removePkt pkts i, p = q ∨ GivesWay p q := by
  obtain ⟨hi, k, hk, hki, hway⟩ := findDuplicate_eq_some h
  have hperm := removePkt_perm hi
  obtain ⟨l, hl, rfl⟩ := List.mem_iff_getElem.mp hp
  have hmem : ∀ {m} (hm : m < pkts.length), m ≠ i → pkts[m] ∈ removePkt pkts i := by
    intro m hm hmi
    exact hperm.mem_iff.mpr (List.mem_eraseIdx_iff_getElem.mpr ⟨m, hm, hmi, rfl⟩)
  by_cases hli : l = i
  · subst hli
    exact ⟨_, hmem hk hki, .inr hway⟩
  · exact ⟨_, hmem hl hli, .inl rfl⟩

/-! ## The whole search -/

/-- The search cut off after a number of turns of its outer loop. -/
def removeDuplicatesWithin : ℕ → List LgwPktRx → ℕ → Option (List LgwPktRx)
  | 0, pkts, j => if j < pkts.length then none else some pkts
  | turns + 1, pkts, j =>
    if j < pkts.length then
      match findDuplicate pkts j with
      | some i => removeDuplicatesWithin turns (removePkt pkts i) 0
      | none => removeDuplicatesWithin turns pkts (j + 1)
    else some pkts

theorem length_removePkt (hi : i < pkts.length) : (removePkt pkts i).length + 1 = pkts.length := by
  rw [(removePkt_perm hi).length_eq, List.length_eraseIdx_of_lt hi]
  omega

/-- As many turns as pairs of packets are enough: a restart has one packet less to search. -/
theorem removeDuplicatesWithin_eq (pkts : List LgwPktRx) (j turns : ℕ)
    (h : pkts.length * pkts.length ≤ turns + j) :
    removeDuplicatesWithin turns pkts j = some (removeDuplicates pkts j) := by
  fun_induction removeDuplicates pkts j generalizing turns with
  | case1 pkts j hj i hdup ih =>
    have hlen := length_removePkt (findDuplicate_lt hdup)
    obtain ⟨n, hn⟩ : ∃ n, n = (removePkt pkts i).length := ⟨_, rfl⟩
    rw [← hn] at ih hlen
    rw [← hlen] at h hj
    have hsq : (n + 1) * (n + 1) = n * n + 2 * n + 1 := by ring
    obtain ⟨turns, rfl⟩ : ∃ t, turns = t + 1 := ⟨turns - 1, by omega⟩
    rw [removeDuplicatesWithin, if_pos (by omega), hdup]
    exact ih turns (by omega)
  | case2 pkts j hj hnone ih =>
    have hsq := Nat.le_mul_self pkts.length
    obtain ⟨turns, rfl⟩ : ∃ t, turns = t + 1 := ⟨turns - 1, by omega⟩
    rw [removeDuplicatesWithin, if_pos hj, hnone]
    exact ih turns (by omega)
  | case3 pkts j hj =>
    cases turns with
    | zero => rw [removeDuplicatesWithin, if_neg hj]
    | succ turns => rw [removeDuplicatesWithin, if_neg hj]

/-- When the packets before `j` have no duplicates behind them, the search leaves none at all. -/
theorem removeDuplicates_pairwise (pkts : List LgwPktRx) (j : ℕ)
    (h : ∀ a < j, findDuplicate pkts a = none) :
    (removeDuplicates pkts j).Pairwise fun p q => isSamePkt p q = false := by
  fun_induction removeDuplicates pkts j with
  | case1 pkts j hj i hdup ih => exact ih fun a ha => absurd ha (Nat.not_lt_zero a)
  | case2 pkts j hj hnone ih =>
    refine ih ?_
    intro a ha
    rcases Nat.lt_succ_iff_lt_or_eq.mp ha with ha | rfl
    · exact h a ha
    · exact hnone
  | case3 pkts j hj =>
    refine List.pairwise_iff_getElem.mpr ?_
    intro a b ha hb hab
    exact findDuplicate_eq_none (h a (by omega)) hab hb

/-- Every packet is linked to one that remains by packets of the array that gave way. -/
theorem removeDuplicates_linked (pkts : List LgwPktRx) (j : ℕ) (hp : p ∈ pkts) :
    ∃ q ∈ removeDuplicates pkts j,
      Relation.ReflTransGen (fun a b => a ∈ pkts ∧ b ∈ pkts ∧ GivesWay a b) p q := by
  fun_induction removeDuplicates pkts j generalizing p with
  | case1 pkts j hj i hdup ih =>
    have hsub : ∀ a ∈ removePkt pkts i, a ∈ pkts := fun a ha =>
      List.mem_of_mem_eraseIdx ((removePkt_perm (findDuplicate_lt hdup)).mem_iff.mp ha)
    obtain ⟨a, ha, hstep⟩ := removePkt_step hdup hp
    obtain ⟨q, hq, hchain⟩ := ih ha
    have hchain' :
        Relation.ReflTransGen (fun a b => a ∈ pkts ∧ b ∈ pkts ∧ GivesWay a b) a q :=
      hchain.lift id fun a b hab => ⟨hsub a hab.1, hsub b hab.2.1, hab.2.2⟩
    refine ⟨q, hq, ?_⟩
    rcases hstep with rfl | hway
    · exact hchain'
    · exact .head ⟨hp, hsub a ha, hway⟩ hchain'
  | case2 pkts j hj hnone ih => exact ih hp
  | case3 pkts j hj => exact ⟨p, hp, .refl⟩

/-! ## The packets returned -/

/-- Counters less than half a turn ahead of `b` are sorted along the circle. -/
theorem mergePackets_ascending (sort : Qsort LgwPktRx) {b : Word}
    (h : ∀ p ∈ pkts, ahead b p.count_us < 2 ^ 31) :
    (mergePackets sort pkts).Pairwise fun p q => ahead b p.count_us ≤ ahead b q.count_us := by
  have hleft : ∀ p ∈ removeDuplicates pkts 0, 2 * ahead b p.count_us < 2 ^ 32 := by
    intro p hp
    have := h p ((removeDuplicates_subperm pkts 0).subset hp)
    omega
  have hcmp : ∀ p ∈ removeDuplicates pkts 0, ∀ q ∈ removeDuplicates pkts 0,
      comparePktTmst p q = (ahead b p.count_us : ℤ) - ahead b q.count_us :=
    fun p hp q hq => toInt_sub (hleft p hp) (hleft q hq)
  have hperm := sort.perm comparePktTmst (removeDuplicates pkts 0)
  refine (sort.pairwise _ _ (Consistent.of_key _ hcmp)).imp_of_mem ?_
  intro p q hp hq hle
  have := hcmp p (hperm.mem_iff.mp hp) q (hperm.mem_iff.mp hq)
  omega

/-- `merge_packets` ends, keeps some of the packets and no two duplicates, and sorts them along the
circle if their counters lie within half a turn. -/
theorem mergePackets_spec (sort : Qsort LgwPktRx) (pkts : List LgwPktRx) :
    removeDuplicatesWithin (pkts.length * pkts.length) pkts 0 = some (removeDuplicates pkts 0)
      ∧ (mergePackets sort pkts).Subperm pkts
      ∧ (mergePackets sort pkts).Pairwise (fun p q => ¬ Duplicate p q)
      ∧ ∀ b, (∀ p ∈ pkts, ahead b p.count_us < 2 ^ 31) →
        (mergePackets sort pkts).Pairwise fun p q => ahead b p.count_us ≤ ahead b q.count_us := by
  refine ⟨removeDuplicatesWithin_eq pkts 0 _ le_rfl, mergePackets_subperm sort pkts, ?_,
    fun b => mergePackets_ascending sort⟩
  have hpair := removeDuplicates_pairwise pkts 0 fun a ha => absurd ha (Nat.not_lt_zero a)
  have hsorted := ((sort.perm comparePktTmst _).pairwise_iff
    fun {p q} h => (isSamePkt_comm q p).trans h).mpr hpair
  refine hsorted.imp ?_
  intro p q hdiff hdup
  rw [hdup.isSamePkt] at hdiff
  cases hdiff

theorem removeDuplicates_of_pairwise (h : pkts.Pairwise fun p q => isSamePkt p q = false) :
    removeDuplicates pkts j = pkts := by
  fun_induction removeDuplicates pkts j with
  | case1 pkts j hj i hdup =>
    obtain ⟨hi, k, hk, hki, ⟨hsame, -⟩⟩ := findDuplicate_eq_some hdup
    have hapart := List.pairwise_iff_getElem.mp h
    rcases Nat.lt_or_gt_of_ne hki with hlt | hgt
    · rw [isSamePkt_comm, hapart k i hk hi hlt] at hsame
      cases hsame
    · rw [hapart i k hi hk hgt] at hsame
      cases hsame
  | case2 pkts j hj hnone ih => exact ih h
  | case3 => rfl

/-- A call keeps every packet exactly if there are no duplicates. -/
theorem mergePackets_perm_iff (sort : Qsort LgwPktRx) (pkts : List LgwPktRx) :
    (mergePackets sort pkts).Perm pkts ↔ pkts.Pairwise fun p q => isSamePkt p q = false := by
  constructor
  · intro hperm
    have hleft := removeDuplicates_pairwise pkts 0 fun a ha => absurd ha (Nat.not_lt_zero a)
    exact ((hperm.symm.trans (sort.perm comparePktTmst _)).pairwise_iff
      fun {p q} h => (isSamePkt_comm q p).trans h).mpr hleft
  · intro h
    rw [mergePackets, removeDuplicates_of_pairwise h]
    exact sort.perm _ _

theorem mem_mergePackets {sort : Qsort LgwPktRx} :
    p ∈ mergePackets sort pkts ↔ p ∈ removeDuplicates pkts 0 :=
  (sort.perm comparePktTmst _).mem_iff

/-! ## What stands for a removed packet -/

/-- The duplicates of a packet of the array are duplicates of each other. -/
def Clustered (pkts : List LgwPktRx) : Prop :=
  ∀ p ∈ pkts, ∀ q ∈ pkts, ∀ r ∈ pkts, isSamePkt p q = true → isSamePkt q r = true →
    isSamePkt p r = true

/-- Packets that gave way one after the other, in an array where the CRC of every packet was
checked. -/
theorem status_of_linked (hcrc : ∀ p ∈ pkts, p.status = statCrcOk ∨ p.status = statCrcBad)
    (h : Relation.ReflTransGen (fun a b => a ∈ pkts ∧ b ∈ pkts ∧ GivesWay a b) p q)
    (hp : p.status = statCrcOk) : q.status = statCrcOk := by
  induction h with
  | refl => exact hp
  | tail _ hstep ih => exact (hcrc _ hstep.2.1).resolve_right (hstep.2.2.crc ih)

theorem isSamePkt_of_linked (hclustered : Clustered pkts) (hp : p ∈ pkts)
    (h : Relation.ReflTransGen (fun a b => a ∈ pkts ∧ b ∈ pkts ∧ GivesWay a b) p q) :
    isSamePkt p q = true := by
  induction h with
  | refl => exact isSamePkt_refl p
  | @tail a b _ hstep ih => exact hclustered p hp a hstep.1 b hstep.2.1 ih hstep.2.2.same

/-- A copy of one packet of four bytes. -/
def copyOf (count_us : Word) (status : Byte) : LgwPktRx :=
  { LgwPktRx.zero with count_us := count_us, status := status, size := 4 }

/-- Every packet is linked by duplicates to a packet that is returned. That one is a duplicate of it
if duplicates cluster, and has a right CRC if it had one and every packet has a CRC. -/
theorem mergePackets_represented (sort : Qsort LgwPktRx) (pkts : List LgwPktRx) :
    ∀ p ∈ pkts, ∃ q ∈ mergePackets sort pkts,
      Relation.ReflTransGen (fun a b => a ∈ pkts ∧ b ∈ pkts ∧ isSamePkt a b = true) p q
        ∧ (Clustered pkts → isSamePkt p q = true)
        ∧ ((∀ a ∈ pkts, a.status = statCrcOk ∨ a.status = statCrcBad) →
          p.status = statCrcOk → q.status = statCrcOk) := by
  intro p hp
  obtain ⟨q, hq, hlinked⟩ := removeDuplicates_linked pkts 0 hp
  refine ⟨q, mem_mergePackets.mpr hq, ?_, ?_, ?_⟩
  · exact hlinked.lift id fun a b hab => ⟨hab.1, hab.2.1, hab.2.2.same⟩
  · exact fun hclustered => isSamePkt_of_linked hclustered hp hlinked
  · exact fun hcrc => status_of_linked hcrc hlinked

/-- The copy that is removed has the other one to stand for it, with its CRC. -/
theorem mergePackets_represented_pair :
    ∃ q ∈ mergePackets (.insertion _) [copyOf 0 statCrcOk, copyOf 24 statCrcBad],
      isSamePkt (copyOf 24 statCrcBad) q = true := by
  obtain ⟨q, hq, -, hsame, -⟩ := mergePackets_represented (.insertion _)
    [copyOf 0 statCrcOk, copyOf 24 statCrcBad] (copyOf 24 statCrcBad) (by simp)
  refine ⟨q, hq, hsame ?_⟩
  unfold Clustered
  decide

theorem removeDuplicates_of_some (hj : j < pkts.length) (h : findDuplicate pkts j = some i) :
    removeDuplicates pkts j = removeDuplicates (removePkt pkts i) 0 := by
  rw [removeDuplicates, dif_pos hj, h]

theorem removeDuplicates_singleton (p : LgwPktRx) : removeDuplicates [p] 0 = [p] := by
  simp [findDuplicate, removeDuplicates]

/-- The first of three copies is removed for the last one, which is removed for the second; and a
copy without CRC replaces one with a right CRC. -/
theorem mergePackets_not_represented :
    (∀ sort, ∀ q ∈ mergePackets sort
        [copyOf 0 statCrcOk, copyOf 48 statCrcOk, copyOf 24 statCrcOk],
      isSamePkt (copyOf 0 statCrcOk) q = false)
    ∧ ∀ sort, ∀ q ∈ mergePackets sort [copyOf 0 statCrcOk, copyOf 0 statNoCrc],
      q.status ≠ statCrcOk := by
  have hfirst : findDuplicate [copyOf 0 statCrcOk, copyOf 48 statCrcOk, copyOf 24 statCrcOk] 0
      = some 0 := by decide
  have hsecond : findDuplicate [copyOf 24 statCrcOk, copyOf 48 statCrcOk] 0 = some 0 := by
    decide
  have hcrc : findDuplicate [copyOf 0 statCrcOk, copyOf 0 statNoCrc] 0 = some 0 := by
    decide
  refine ⟨?_, ?_⟩
  · intro sort q hq
    rw [mem_mergePackets, removeDuplicates_of_some (by simp) hfirst] at hq
    rw [show removePkt _ 0 = [copyOf 24 statCrcOk, copyOf 48 statCrcOk] from rfl,
      removeDuplicates_of_some (by simp) hsecond] at hq
    rw [show removePkt _ 0 = [copyOf 48 statCrcOk] from rfl, removeDuplicates_singleton] at hq
    obtain rfl := List.mem_singleton.mp hq
    decide
  · intro sort q hq
    rw [mem_mergePackets, removeDuplicates_of_some (by simp) hcrc] at hq
    rw [show removePkt _ 0 = [copyOf 0 statNoCrc] from rfl, removeDuplicates_singleton] at hq
    obtain rfl := List.mem_singleton.mp hq
    decide

end RutosSdk.Hal
