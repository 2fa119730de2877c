import RutosSdk.Jit.Spec

/-! # Stored packets never overlap

The collision test compares unsigned differences, so the spacing it enforces is a relation on the
circle of counter values. `Apart` is that relation for two nodes, in both directions, with the
relaxed guard of a beacon that a class A or C downlink was placed in front of. It holds of every two
stored nodes in every reachable queue, whatever the sort does, as long as the reservation of a
packet does not overflow the sums of the test.
-/

namespace RutosSdk.Jit

open Hal Circular

/-! ## Runs of one queue -/

/-- The queues that `jit_enqueue` of packets allowed by `ok`, `jit_dequeue` of an index in use and
`jit_peek` reach from `jit_queue_init`. -/
inductive Reachable (env : Env) (ok : LgwPktTx → JitPktType → Prop) : JitQueue → Prop where
  | init : Reachable env ok jitQueueInit
  | enqueue {q : JitQueue} (time_us : Word) (packet : LgwPktTx) (ty : JitPktType) :
      Reachable env ok q → ok packet ty → Reachable env ok (jitEnqueue env q time_us packet ty).2.1
  | dequeue {q : JitQueue} (index : ℕ) :
      Reachable env ok q → index < q.num_pkt → Reachable env ok (jitDequeue env q index).2.1
  | peek {q : JitQueue} (time_us : Word) {r : PeekResult} :
      Reachable env ok q → jitPeek env q time_us = (.ok, some r) → Reachable env ok r.queue

variable {env : Env} {ok : LgwPktTx → JitPktType → Prop} {q : JitQueue} {m n : JitNode}

/-- Rule for invariants of runs: it is enough that insertions of accepted nodes and removals keep
the property. -/
theorem Reachable.invariant {P : JitQueue → Prop} (hbound : ∀ q, P q → q.num_pkt ≤ jitQueueMax)
    (hinit : P jitQueueInit)
    (hinsert : ∀ q time_us packet ty, P q → q.num_pkt < jitQueueMax → ok packet ty →
      Acceptable q time_us (newNode env q time_us packet ty) →
      P (insertNode env q (newNode env q time_us packet ty)))
    (hremove : ∀ q i, P q → i < q.num_pkt → P (removeNode env q i)) (h : Reachable env ok q) :
    P q := by
  induction h with
  | init => exact hinit
  | @enqueue q time_us packet ty _ hok ih =>
    rcases jitEnqueue_cases env q time_us packet ty with ⟨hne, hacc, heq⟩ | ⟨-, heq⟩
    · rw [heq]
      exact hinsert q time_us packet ty ih (lt_of_le_of_ne (hbound q ih) hne) hok hacc
    · rw [heq]
      exact ih
  | @dequeue q index _ hindex ih =>
    rw [jitDequeue_of_lt (hbound q ih) hindex]
    exact hremove q index ih hindex
  | @peek q time_us r _ heq ih =>
    obtain ⟨-, rfl⟩ := eq_of_jitPeek_eq heq
    exact jitPeekLocked_induction env time_us hbound (fun q i hq hi _ => hremove q i hq hi) ih

/-- The number of stored nodes never exceeds the array. -/
theorem Reachable.num_pkt_le (h : Reachable env ok q) : q.num_pkt ≤ jitQueueMax := by
  refine h.invariant (P := fun q => q.num_pkt ≤ jitQueueMax) (fun q hq => hq) (Nat.zero_le _) ?_ ?_
  · intro q time_us packet ty _ hlt _ _
    rw [num_pkt_insertNode _ hlt]
    exact hlt
  · intro q i hq hi
    exact num_pkt_removeNode_le i hq hi

/-! ## The spacing relation -/

/-- The guard that a packet of type `ty` leaves in front of node `m`. -/
def guardBefore (ty : JitPktType) (m : JitNode) : ℕ := (targetPreDelay ty m).toNat

/-- Node `m` departs later than the reservation of `n` and its own guard. -/
def Follows (n m : JitNode) : Prop :=
  n.post_delay.toNat + guardBefore n.pkt_type m + 1000 < ahead n.count m.count

/-- The two nodes keep their distance both ways round the circle. -/
def Apart (n m : JitNode) : Prop := Follows n m ∧ Follows m n

theorem Apart.symm (h : Apart n m) : Apart m n := ⟨h.2, h.1⟩

/-- The reservation of the packet does not overflow the sums of the collision test. -/
def Fits (env : Env) (packet : LgwPktTx) (ty : JitPktType) : Prop :=
  (packetPostDelay env packet ty).toNat + 3042500 < 2 ^ 32

/-- The delays of a stored node. -/
structure NodeFits (n : JitNode) : Prop where
  pre : n.pre_delay = packetPreDelay n.pkt_type
  post : n.post_delay.toNat + 3042500 < 2 ^ 32
  beacon : n.pkt_type = .beacon → n.post_delay = beaconReserved

theorem toNat_targetPreDelay (ty : JitPktType) (hm : NodeFits m) :
    1500 ≤ guardBefore ty m ∧ guardBefore ty m ≤ 3041500 := by
  have hpre := toNat_packetPreDelay m.pkt_type
  unfold guardBefore targetPreDelay
  split_ifs
  · simp
  · rw [hm.pre, hpre]
    split_ifs <;> omega

/-- Without overflow, a negative test says that each packet starts after the other one ended. -/
theorem jitCollisionTest_eq_false_iff {c₁ pre₁ post₁ c₂ pre₂ post₂ : Word}
    (h : pre₁.toNat + post₂.toNat + 1000 < 2 ^ 32) (h' : pre₂.toNat + post₁.toNat + 1000 < 2 ^ 32) :
    jitCollisionTest c₁ pre₁ post₁ c₂ pre₂ post₂ = false
      ↔ pre₁.toNat + post₂.toNat + 1000 < ahead c₂ c₁
        ∧ pre₂.toNat + post₁.toNat + 1000 < ahead c₁ c₂ := by
  simp only [jitCollisionTest, Bool.or_eq_false_iff, decide_eq_false_iff_not, BitVec.le_def,
    BitVec.toNat_add, not_le, toNat_txMarginDelay, ahead]
  omega

/-- Without overflow, a negative collision test is the spacing relation. -/
theorem apart_of_not_collides (hn : NodeFits n) (hm : NodeFits m) (h : collides n m = false) :
    Apart n m := by
  have hguard := toNat_targetPreDelay n.pkt_type hm
  have hpre : (packetPreDelay n.pkt_type).toNat ≤ 3041500 ∧
      guardBefore m.pkt_type n ≤ (packetPreDelay n.pkt_type).toNat := by
    rw [guardBefore, targetPreDelay, hn.pre, toNat_packetPreDelay]
    split_ifs <;> simp_all [toNat_packetPreDelay]
  have hnpost := hn.post
  have hmpost := hm.post
  simp only [collides, jitCollisionTest, Bool.or_eq_false_iff, decide_eq_false_iff_not,
    BitVec.le_def, BitVec.toNat_add, not_le, hn.pre] at h
  simp only [guardBefore] at hguard
  unfold Apart Follows ahead guardBefore
  simp only [toNat_txMarginDelay, guardBefore] at h hpre ⊢
  omega

/-! ## The invariant -/

/-- The spacing invariant of the queue. -/
structure Spaced (q : JitQueue) : Prop where
  bound : q.num_pkt ≤ jitQueueMax
  fits : ∀ n ∈ q.stored, NodeFits n
  apart : q.stored.Pairwise Apart

theorem spaced_jitQueueInit : Spaced jitQueueInit where
  bound := Nat.zero_le _
  fits := by simp [JitQueue.stored, jitQueueInit]
  apart := by simp [JitQueue.stored, jitQueueInit]

/-- A node that collides with no stored node can join them. -/
theorem Spaced.insertNode (hq : Spaced q) (hlt : q.num_pkt < jitQueueMax) (hn : NodeFits n)
    (h : ∀ m ∈ q.stored, collides n m = false) : Spaced (insertNode env q n) where
  bound := by
    rw [num_pkt_insertNode n hlt]
    exact hlt
  fits := forall_stored_insertNode hlt hq.fits hn
  apart := pairwise_stored_insertNode hlt Apart.symm hq.apart fun m hm =>
    apart_of_not_collides hn (hq.fits m hm) (h m hm)

/-- Any stored node can leave. -/
theorem Spaced.removeNode {i : ℕ} (hq : Spaced q) (hi : i < q.num_pkt) :
    Spaced (removeNode env q i) where
  bound := num_pkt_removeNode_le i hq.bound hi
  fits := forall_stored_removeNode hq.bound hi hq.fits
  apart := pairwise_stored_removeNode hq.bound hi Apart.symm hq.apart

/-- The node of an offered packet has the delays of its type. -/
theorem nodeFits_newNode {time_us : Word} {packet : LgwPktTx} {ty : JitPktType}
    (h : Fits env packet ty) : NodeFits (newNode env q time_us packet ty) where
  pre := rfl
  post := h
  beacon := by
    intro (hty : ty = .beacon)
    subst hty
    rfl

/-- Every reachable queue is spaced. -/
theorem Reachable.spaced (h : Reachable env (Fits env) q) : Spaced q := by
  refine h.invariant (fun q hq => hq.bound) spaced_jitQueueInit ?_ ?_
  · intro q time_us packet ty hq hlt hfits hacc
    exact hq.insertNode hlt (nodeFits_newNode hfits) hacc.no_collision
  · intro q i hq hi
    exact hq.removeNode hi

/-- Every packet that `lgw_send` accepts fits. -/
theorem fits_of_lgwSendAccepts {packet : LgwPktTx} (h : lgwSendAccepts env.context packet)
    (ty : JitPktType) : Fits env packet ty := by
  have htoa := lgwTimeOnAir_le_of_lgwSendAccepts env.u32OfInf h
  unfold Fits
  cases ty with
  | beacon =>
    rw [packetPostDelay, toNat_beaconReserved]
    norm_num
  | downlinkClassA | downlinkClassB | downlinkClassC =>
    have hmul := Nat.mod_le ((lgwTimeOnAir env.context env.u32OfInf packet).toNat * 1000) (2 ^ 32)
    rw [packetPostDelay, BitVec.toNat_mul, show BitVec.toNat (1000 : Word) = 1000 from rfl]
    omega

/-! ## A sample run -/

/-- Insertion sort and the initial context; the memory around the array is zero. -/
def Env.sample : Env := ⟨.insertion _, .initial, 0xFFFFFFFF, fun _ => .zero⟩

/-- A LoRa downlink of 20 bytes at SF7 and 125 kHz, on the air for 57 ms. -/
def samplePacket (count_us : Word) : LgwPktTx :=
  { LgwPktTx.zero with
    count_us := count_us
    tx_mode := txTimestamped
    modulation := modLora
    bandwidth := bw125Khz
    datarate := 7
    coderate := 1
    preamble := 8
    size := 20 }

/-- Two class A downlinks, stored in the order opposite to that of the calls. -/
def sampleQueue : JitQueue :=
  (jitEnqueue .sample (jitEnqueue .sample jitQueueInit 0 (samplePacket 2000000) .downlinkClassA).2.1
    0 (samplePacket 1000000) .downlinkClassA).2.1

theorem fits_samplePacket (count_us : Word) (ty : JitPktType) :
    Fits .sample (samplePacket count_us) ty := by
  have h : ∀ ty, Fits .sample (samplePacket 0) ty := by
    unfold Fits
    intro ty
    cases ty <;> decide
  -- the time on air does not read the departure time
  exact h ty

theorem reachable_sampleQueue : Reachable .sample (Fits .sample) sampleQueue :=
  .enqueue _ _ _ (.enqueue _ _ _ .init (fits_samplePacket _ _)) (fits_samplePacket _ _)

/-! ## No overlap -/

/-- In every reachable queue, two stored nodes keep the reservation of the one before and the start
and margin delays between them, measured round the circle; and the packets for which the reservation
could overflow are none that `lgw_send` accepts. -/
theorem reachable_no_overlap {env : Env} {q : JitQueue} (h : Reachable env (Fits env) q) :
    (∀ i j, i < q.num_pkt → j < q.num_pkt → i ≠ j →
      (q.nodes.getD j .zero).post_delay.toNat + txStartDelay.toNat + txMarginDelay.toNat
        < ((q.nodes.getD i .zero).pkt.count_us - (q.nodes.getD j .zero).pkt.count_us).toNat)
      ∧ ∀ packet ty, lgwSendAccepts env.context packet → Fits env packet ty := by
  refine ⟨?_, fun packet ty hp => fits_of_lgwSendAccepts hp ty⟩
  intro i j hi hj hij
  have hq := h.spaced
  have hlen := length_stored hq.bound
  have hji := pairwise_getD hq.apart Apart.symm (by omega) (by omega) (Ne.symm hij)
  have hfit : NodeFits (q.stored.getD i .zero) := hq.fits _ (getD_mem (by omega))
  have hguard := toNat_targetPreDelay (q.stored.getD j .zero).pkt_type hfit
  have hfollows := hji.1
  simp only [Follows, ahead, JitNode.count] at hfollows
  rw [getD_nodes hi, getD_nodes hj, toNat_txStartDelay, toNat_txMarginDelay]
  omega

theorem reachable_no_overlap_sampleQueue :
    sampleQueue.num_pkt = 2
      ∧ (sampleQueue.nodes.getD 0 .zero).post_delay.toNat + txStartDelay.toNat + txMarginDelay.toNat
        < ((sampleQueue.nodes.getD 1 .zero).pkt.count_us
            - (sampleQueue.nodes.getD 0 .zero).pkt.count_us).toNat :=
  ⟨by decide,
    (reachable_no_overlap reachable_sampleQueue).1 1 0 (by decide) (by decide) (by decide)⟩

end RutosSdk.Jit
