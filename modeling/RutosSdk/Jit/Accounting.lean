import RutosSdk.Jit.Spacing

/-! # What the queue counts and what it holds

Over any sequence of calls, `num_pkt` is the number of packets enqueued and not yet removed, and
`num_beacon` the number of beacons among them, as long as `jit_dequeue` is only asked for an index
in use. It tests its index against the capacity of the array, so that an index beyond `num_pkt`
takes a packet out of the count that nobody receives.
-/

namespace RutosSdk.Jit

open Hal

/-! ## Calls -/

/-- One call to the queue. -/
inductive QueueOp where
  | enqueue (time_us : Word) (packet : LgwPktTx) (pkt_type : JitPktType)
  | dequeue (index : ℤ)
  | peek (time_us : Word)

/-- The queue after a call. -/
def opStep (env : Env) (q : JitQueue) : QueueOp → JitQueue
  | .enqueue time_us packet pkt_type => (jitEnqueue env q time_us packet pkt_type).2.1
  | .dequeue index => (jitDequeue env q index).2.1
  | .peek time_us => ((jitPeek env q time_us).2.map PeekResult.queue).getD q

/-- The number of stored beacons. -/
def beaconCount (l : List JitNode) : ℕ := l.countP (·.pkt_type = .beacon)

/-- The counters are those of the stored nodes. -/
structure Counted (q : JitQueue) : Prop where
  bound : q.num_pkt ≤ jitQueueMax
  beacons : q.num_beacon = beaconCount q.stored

/-- An error leaves the queue alone; otherwise one node is added, with the packet as the caller gets
it back, which is the one passed except for the departure time of an immediate downlink. -/
def EnqueueRight (env : Env) (q : JitQueue) (time_us : Word) (packet : LgwPktTx)
    (pkt_type : JitPktType) : Prop :=
  let r := jitEnqueue env q time_us packet pkt_type
  (r.1 ≠ .ok → r.2.1 = q)
    ∧ (r.1 = .ok → ∃ n, r.2.1.stored.Perm (n :: q.stored) ∧ n.pkt_type = pkt_type ∧ n.pkt = r.2.2
      ∧ (pkt_type ≠ .downlinkClassC → n.pkt = packet)
      ∧ { n.pkt with tx_mode := packet.tx_mode, count_us := packet.count_us } = packet)

/-- On success the packet stored at the index is handed out, and it alone is removed. -/
def DequeueRight (env : Env) (q : JitQueue) (index : ℤ) : Prop :=
  let r := jitDequeue env q index
  r.1 = .ok → ∃ i : ℕ, index = i ∧ ∃ hi : i < q.stored.length,
    r.2.2 = some (q.stored[i].pkt, q.stored[i].pkt_type) ∧ r.2.1.stored.Perm (q.stored.eraseIdx i)

/-- What a call answers agrees with what it does. -/
def OpRight (env : Env) (q : JitQueue) : QueueOp → Prop
  | .enqueue time_us packet pkt_type => EnqueueRight env q time_us packet pkt_type
  | .dequeue index => DequeueRight env q index
  | .peek _ => True

/-- Every call of the sequence is right, and the counters are, before and after each of them. -/
def RunRight (env : Env) (q : JitQueue) : List QueueOp → Prop
  | [] => Counted q
  | op :: ops => Counted q ∧ OpRight env q op ∧ RunRight env (opStep env q op) ops

/-- An index of the array that `jit_dequeue` is asked for is in use, unless the queue is empty. -/
def IndexInUse (q : JitQueue) : QueueOp → Prop
  | .dequeue index => 0 ≤ index → index < jitQueueMax → q.num_pkt ≠ 0 → index < q.num_pkt
  | _ => True

/-- Every call of the sequence keeps to the indices in use. -/
def RunInUse (env : Env) (q : JitQueue) : List QueueOp → Prop
  | [] => True
  | op :: ops => IndexInUse q op ∧ RunInUse env (opStep env q op) ops

/-! ## The counters -/

theorem beaconCount_cons (n : JitNode) (l : List JitNode) :
    beaconCount (n :: l) = beaconCount l + if n.pkt_type = .beacon then 1 else 0 := by
  simp [beaconCount, List.countP_cons]

/-- A list is the element at an index and the rest. -/
theorem perm_getD_eraseIdx {l : List JitNode} {i : ℕ} (hi : i < l.length) :
    l.Perm (l.getD i .zero :: l.eraseIdx i) := by
  rw [List.getD_eq_getElem l _ hi]
  exact (List.getElem_cons_eraseIdx_perm hi).symm

theorem num_beacon_jitSortQueue (env : Env) (q : JitQueue) :
    (jitSortQueue env q).num_beacon = q.num_beacon := by
  unfold jitSortQueue
  split <;> rfl

variable {env : Env} {q : JitQueue}

theorem counted_jitQueueInit : Counted jitQueueInit := ⟨Nat.zero_le _, rfl⟩

theorem Counted.insertNode (h : Counted q) (hlt : q.num_pkt < jitQueueMax) (n : JitNode) :
    Counted (insertNode env q n) where
  bound := by
    rw [num_pkt_insertNode n hlt]
    exact hlt
  beacons := by
    have hle : q.num_beacon ≤ q.num_pkt := by
      rw [h.beacons, ← length_stored h.bound]
      exact List.countP_le_length
    have hperm : beaconCount (Jit.insertNode env q n).stored = beaconCount (n :: q.stored) :=
      (perm_stored_insertNode n hlt).countP_eq _
    rw [hperm, beaconCount_cons, ← h.beacons, Jit.insertNode, num_beacon_jitSortQueue]
    dsimp only
    unfold jitQueueMax at hlt
    split <;> omega

theorem Counted.removeNode (h : Counted q) {i : ℕ} (hi : i < q.num_pkt) :
    Counted (removeNode env q i) where
  bound := num_pkt_removeNode_le i h.bound hi
  beacons := by
    have hlen := length_stored h.bound
    have hle : q.num_beacon ≤ q.num_pkt := by
      rw [h.beacons, ← hlen]
      exact List.countP_le_length
    have hperm : beaconCount (Jit.removeNode env q i).stored = beaconCount (q.stored.eraseIdx i) :=
      (perm_stored_removeNode i h.bound hi).countP_eq _
    have hcount : beaconCount q.stored
        = beaconCount (q.stored.getD i .zero :: q.stored.eraseIdx i) :=
      (perm_getD_eraseIdx (by omega)).countP_eq _
    rw [beaconCount_cons, ← h.beacons] at hcount
    have hbound : q.num_pkt ≤ 32 := h.bound
    rw [hperm, Jit.removeNode, num_beacon_jitSortQueue]
    dsimp only
    rw [getD_nodes hi]
    split
    · rename_i hbeacon
      rw [if_pos hbeacon] at hcount
      omega
    · rename_i hbeacon
      rw [if_neg hbeacon] at hcount
      omega

/-! ## Calls keep the counters -/

/-- Everything `jit_dequeue` can do: refuse, or remove the node at an index of the array. -/
theorem jitDequeue_cases (env : Env) (q : JitQueue) (index : ℤ) :
    ((index < 0 ∨ jitQueueMax ≤ index ∨ q.num_pkt = 0)
        ∧ (jitDequeue env q index).1 ≠ .ok ∧ (jitDequeue env q index).2.1 = q)
      ∨ ∃ i : ℕ, index = i ∧ i < jitQueueMax ∧ q.num_pkt ≠ 0
        ∧ jitDequeue env q index = (.ok, removeNode env q i,
            some ((q.nodes.getD i .zero).pkt, (q.nodes.getD i .zero).pkt_type)) := by
  unfold jitDequeue
  split
  · rename_i hindex
    exact .inl ⟨hindex.imp_right .inl, by simp, rfl⟩
  · rename_i hindex
    split
    · rename_i hempty
      rw [jitQueueIsEmpty, beq_iff_eq] at hempty
      exact .inl ⟨.inr (.inr hempty), by simp, rfl⟩
    · rename_i hempty
      rw [jitQueueIsEmpty, beq_iff_eq] at hempty
      exact .inr ⟨index.toNat, by omega, by omega, hempty, rfl⟩

/-- One operation keeps the counts. -/
theorem Counted.opStep (h : Counted q) {op : QueueOp} (hop : IndexInUse q op) :
    Counted (opStep env q op) := by
  cases op with
  | enqueue time_us packet pkt_type =>
    change Counted (jitEnqueue env q time_us packet pkt_type).2.1
    rcases jitEnqueue_cases env q time_us packet pkt_type with ⟨hne, -, heq⟩ | ⟨-, heq⟩
    · rw [heq]
      exact h.insertNode (lt_of_le_of_ne h.bound hne) _
    · rw [heq]
      exact h
  | dequeue index =>
    change Counted (jitDequeue env q index).2.1
    rcases jitDequeue_cases env q index with ⟨-, -, heq⟩ | ⟨i, rfl, hi, hne, heq⟩
    · rw [heq]
      exact h
    · have hlt := hop (by omega) (by omega) hne
      rw [heq]
      exact h.removeNode (by omega)
  | peek time_us =>
    change Counted (((jitPeek env q time_us).2.map PeekResult.queue).getD q)
    by_cases hempty : q.num_pkt = 0
    · have hpeek : jitPeek env q time_us = (.empty, none) := if_pos (beq_iff_eq.mpr hempty)
      rw [hpeek]
      exact h
    · rw [jitPeek_of_ne_zero hempty]
      exact jitPeekLocked_induction env time_us (fun _ hq => hq.bound)
        (fun _ _ hq hi _ => hq.removeNode hi) h

/-! ## Answers -/

theorem timedPacket_departure (env : Env) (q : JitQueue) (time_us : Word) (packet : LgwPktTx)
    (pkt_type : JitPktType) :
    (pkt_type ≠ .downlinkClassC → timedPacket env q time_us packet pkt_type = packet)
      ∧ { timedPacket env q time_us packet pkt_type with
          tx_mode := packet.tx_mode, count_us := packet.count_us } = packet := by
  unfold timedPacket
  split
  · rename_i hclass
    exact ⟨fun hne => absurd hclass hne, rfl⟩
  · exact ⟨fun _ => rfl, rfl⟩

theorem enqueueRight (h : Counted q) (time_us : Word) (packet : LgwPktTx)
    (pkt_type : JitPktType) : EnqueueRight env q time_us packet pkt_type := by
  unfold EnqueueRight
  rcases jitEnqueue_cases env q time_us packet pkt_type with ⟨hne, -, heq⟩ | ⟨hrej, heq⟩
  · rw [heq]
    refine ⟨fun herr => absurd rfl herr, fun _ => ⟨newNode env q time_us packet pkt_type, ?_⟩⟩
    exact ⟨perm_stored_insertNode _ (lt_of_le_of_ne h.bound hne), rfl, rfl,
      timedPacket_departure env q time_us packet pkt_type⟩
  · exact ⟨fun _ => heq, fun hok => absurd hok hrej⟩

/-- The answer to `jit_dequeue` is right exactly for the indices in use. -/
theorem dequeueRight_iff (h : Counted q) (index : ℤ) :
    DequeueRight env q index ↔ IndexInUse q (.dequeue index) := by
  have hlen := length_stored h.bound
  unfold DequeueRight
  rcases jitDequeue_cases env q index with ⟨hindex, hrej, -⟩ | ⟨i, rfl, hi, hne, heq⟩
  · refine iff_of_true (fun hok => absurd hok hrej) ?_
    intro hlow hhigh hne
    omega
  · rw [heq]
    dsimp only
    constructor
    · intro hright _ _ _
      obtain ⟨j, hj, hlt, -⟩ := hright rfl
      omega
    · intro huse _
      have hlt : i < q.num_pkt := by
        have hlt := huse (by omega) (by omega) hne
        omega
      have hlt' : i < q.stored.length := by omega
      refine ⟨i, rfl, hlt', ?_, perm_stored_removeNode i h.bound hlt⟩
      rw [getD_nodes hlt, List.getD_eq_getElem _ _ hlt']

/-! ## Main result -/

/-- The answers and the counters of a sequence of calls, from any queue that counts right. -/
theorem runRight_iff_of_counted (h : Counted q) (ops : List QueueOp) :
    RunRight env q ops ↔ RunInUse env q ops := by
  induction ops generalizing q with
  | nil => exact iff_of_true h trivial
  | cons op ops ih =>
    have hop : OpRight env q op ↔ IndexInUse q op := by
      cases op with
      | enqueue time_us packet pkt_type => exact iff_of_true (enqueueRight h _ _ _) trivial
      | dequeue index => exact dequeueRight_iff h index
      | peek time_us => exact Iff.rfl
    constructor
    · rintro ⟨-, hright, hrest⟩
      exact ⟨hop.mp hright, (ih (h.opStep (hop.mp hright))).mp hrest⟩
    · rintro ⟨huse, hrest⟩
      exact ⟨h, hop.mpr huse, (ih (h.opStep huse)).mpr hrest⟩

/-- A sequence of calls is right throughout exactly when no `jit_dequeue` of it names an index
beyond the packets in the queue. -/
theorem runRight_iff_runInUse (env : Env) (ops : List QueueOp) :
    RunRight env jitQueueInit ops ↔ RunInUse env jitQueueInit ops :=
  runRight_iff_of_counted counted_jitQueueInit ops

/-- A queue that holds one packet. -/
def oneStored : JitQueue :=
  (jitEnqueue .sample jitQueueInit 0 (samplePacket 2000000) .downlinkClassA).2.1

/-- With one packet in the queue, asking for the next index succeeds: a cleared node is handed out
and the packet is gone. -/
theorem dequeue_beyond_num_pkt :
    ¬RunRight .sample jitQueueInit
        [.enqueue 0 (samplePacket 2000000) .downlinkClassA, .dequeue 1]
      ∧ oneStored.num_pkt = 1 ∧ (jitDequeue .sample oneStored 1).1 = .ok
      ∧ (jitDequeue .sample oneStored 1).2.2 = some (LgwPktTx.zero, .downlinkClassA)
      ∧ (jitDequeue .sample oneStored 1).2.1.num_pkt = 0 := by
  refine ⟨?_, by decide, by decide, rfl, by decide⟩
  rintro ⟨-, -, -, hright, -⟩
  obtain ⟨i, hi, hlt, -⟩ := hright (by decide)
  have hone : oneStored.stored.length = 1 := by decide
  change i < oneStored.stored.length at hlt
  omega

end RutosSdk.Jit
