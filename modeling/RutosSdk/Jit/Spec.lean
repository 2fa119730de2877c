import Mathlib.Data.List.GetD
import RutosSdk.Jit.Queue

/-! # What the queue operations do to the stored nodes

One lemma per operation, in terms of `JitQueue.stored`. The order of the nodes is whatever the sort
makes of it, so most of the lemmas speak of permutations.
-/

namespace RutosSdk.Jit

open List Hal Circular

/-! ## Constants -/

@[simp] theorem toNat_txStartDelay : txStartDelay.toNat = 1500 := rfl
@[simp] theorem toNat_txMarginDelay : txMarginDelay.toNat = 1000 := rfl
@[simp] theorem toNat_txJitDelay : txJitDelay.toNat = 40000 := rfl
@[simp] theorem toNat_txMaxAdvanceDelay : txMaxAdvanceDelay.toNat = 512000000 := rfl
@[simp] theorem toNat_beaconReserved : beaconReserved.toNat = 2120000 := rfl

/-- Every packet reserves the start delay and the JIT delay ahead of it, a beacon its guard too. -/
theorem toNat_packetPreDelay (ty : JitPktType) :
    (packetPreDelay ty).toNat = if ty = .beacon then 3041500 else 41500 := by
  cases ty <;> rfl

/-! ## The array -/

variable {env : Env} {q : JitQueue}

theorem length_stored (h : q.num_pkt ≤ jitQueueMax) : q.stored.length = q.num_pkt := by
  rw [JitQueue.stored, length_take, q.length_nodes, Nat.min_eq_left h]

variable {i : ℕ}

theorem getD_nodes (hi : i < q.num_pkt) (d : JitNode) : q.nodes.getD i d = q.stored.getD i d := by
  simp [JitQueue.stored, getD_eq_getElem?_getD, List.getElem?_take_of_lt hi]

theorem nodeAt_natCast (h : q.num_pkt ≤ jitQueueMax) (hi : i < q.num_pkt) :
    nodeAt env q i = q.stored.getD i .zero := by
  rw [nodeAt, if_pos ⟨by omega, by exact_mod_cast lt_of_lt_of_le hi h⟩]
  exact getD_nodes hi _

/-- Elements of a list read by index are members. -/
theorem getD_mem {l : List JitNode} {i : ℕ} (hi : i < l.length) : l.getD i .zero ∈ l := by
  rw [getD_eq_getElem l _ hi]
  exact getElem_mem hi

/-- A symmetric relation between all pairs holds at any two indices. -/
theorem pairwise_getD {l : List JitNode} {R : JitNode → JitNode → Prop} (h : l.Pairwise R)
    (hsymm : ∀ {a b}, R a b → R b a) {j : ℕ} (hi : i < l.length) (hj : j < l.length) (hij : i ≠ j) :
    R (l.getD i .zero) (l.getD j .zero) := by
  rw [getD_eq_getElem l _ hi, getD_eq_getElem l _ hj]
  rcases Nat.lt_or_gt_of_ne hij with hlt | hlt
  · exact pairwise_iff_getElem.mp h i j hi hj hlt
  · exact hsymm (pairwise_iff_getElem.mp h j i hj hi hlt)

@[simp] theorem num_pkt_jitSortQueue : (jitSortQueue env q).num_pkt = q.num_pkt := by
  unfold jitSortQueue
  split <;> rfl

/-- Sorting the queue runs `qsort_r` on the nodes in use. -/
theorem stored_jitSortQueue (h : q.num_pkt ≤ jitQueueMax) :
    (jitSortQueue env q).stored = env.qsort_r.run compare q.stored := by
  unfold jitSortQueue
  split
  · rename_i h0
    have hnil : q.stored = [] := by simp [JitQueue.stored, h0]
    rw [hnil]
    exact (List.Perm.eq_nil (env.qsort_r.perm compare [])).symm
  · have hlen : (env.qsort_r.run compare q.stored).length = q.num_pkt := by
      rw [(env.qsort_r.perm _ _).length_eq, length_stored h]
    simp only [JitQueue.stored] at hlen ⊢
    rw [take_append_of_le_length (by omega), take_of_length_le (by omega)]

/-! ## Insertion -/

theorem num_pkt_insertNode (n : JitNode) (h : q.num_pkt < jitQueueMax) :
    (insertNode env q n).num_pkt = q.num_pkt + 1 := by
  unfold jitQueueMax at h
  simp only [insertNode, num_pkt_jitSortQueue]
  omega

/-- An insertion sorts the stored nodes with the new one at their end. -/
theorem stored_insertNode (n : JitNode) (h : q.num_pkt < jitQueueMax) :
    (insertNode env q n).stored = env.qsort_r.run compare (q.stored ++ [n]) := by
  have hlen : q.num_pkt < q.nodes.length := by rw [q.length_nodes]; exact h
  unfold jitQueueMax at h
  have hmod : (q.num_pkt + 1) % 256 = q.num_pkt + 1 := by omega
  rw [insertNode, stored_jitSortQueue (by simp only [hmod, jitQueueMax]; omega)]
  simp only [JitQueue.stored, JitQueue.setNode, hmod]
  rw [take_succ_eq_append_getElem (by simpa using hlen), getElem_set_self, take_set_of_le le_rfl]

theorem perm_stored_insertNode (n : JitNode) (h : q.num_pkt < jitQueueMax) :
    (insertNode env q n).stored.Perm (n :: q.stored) := by
  rw [stored_insertNode n h]
  exact (env.qsort_r.perm _ _).trans (perm_append_singleton n q.stored)

/-! ## Removal -/

/-- Moving the last element of a list into slot `i` is erasing slot `i`, up to the order. -/
private theorem dropLast_set_perm {α : Type} (l : List α) (d : α) (hi : i < l.length) :
    ((l.set i (l.getD (l.length - 1) d)).dropLast).Perm (l.eraseIdx i) := by
  obtain rfl | ⟨l', a, rfl⟩ := eq_nil_or_concat' l
  · simp at hi
  · have hlast : (l' ++ [a]).getD ((l' ++ [a]).length - 1) d = a := by simp
    rw [hlast]
    rw [length_append, length_singleton] at hi
    rcases Nat.lt_or_ge i l'.length with h | h
    · rw [set_append_left _ _ h, dropLast_concat, eraseIdx_append_of_lt_length h]
      exact (set_perm_cons_eraseIdx h a).trans (perm_append_singleton a _).symm
    · obtain rfl : i = l'.length := by omega
      rw [set_append_right _ _ le_rfl, eraseIdx_append_of_length_le le_rfl]
      simp

/-- Any removal counts one node less, even if the index is not in use. -/
theorem num_pkt_removeNode_of_pos (i : ℕ) (h : q.num_pkt ≤ jitQueueMax) (hpos : 0 < q.num_pkt) :
    (removeNode env q i).num_pkt = q.num_pkt - 1 := by
  unfold jitQueueMax at h
  simp only [removeNode, num_pkt_jitSortQueue]
  omega

theorem num_pkt_removeNode (i : ℕ) (h : q.num_pkt ≤ jitQueueMax) (hi : i < q.num_pkt) :
    (removeNode env q i).num_pkt = q.num_pkt - 1 :=
  num_pkt_removeNode_of_pos i h (Nat.zero_lt_of_lt hi)

theorem num_pkt_removeNode_le (i : ℕ) (h : q.num_pkt ≤ jitQueueMax) (hi : i < q.num_pkt) :
    (removeNode env q i).num_pkt ≤ jitQueueMax := by
  rw [num_pkt_removeNode i h hi]
  omega

/-- The nodes a removal hands to the sort: all but the removed one. -/
theorem stored_removeNode (i : ℕ) (h : q.num_pkt ≤ jitQueueMax) (hi : i < q.num_pkt) :
    ∃ l, l.Perm (q.stored.eraseIdx i)
      ∧ (removeNode env q i).stored = env.qsort_r.run compare l := by
  have hlen := length_stored h
  have hmod : (q.num_pkt + 255) % 256 = q.num_pkt - 1 := by
    unfold jitQueueMax at h
    omega
  refine ⟨(q.stored.set i (q.stored.getD (q.stored.length - 1) .zero)).dropLast,
    dropLast_set_perm _ _ (by omega), ?_⟩
  rw [removeNode, stored_jitSortQueue (by simp only [hmod]; omega), hlen,
    ← getD_nodes (by omega), dropLast_eq_take, length_set, hlen]
  congr 1
  simp only [JitQueue.stored, JitQueue.setNode, hmod]
  rw [take_set_of_le le_rfl, ← take_set, take_take, Nat.min_eq_left (by omega)]

theorem perm_stored_removeNode (i : ℕ) (h : q.num_pkt ≤ jitQueueMax) (hi : i < q.num_pkt) :
    (removeNode env q i).stored.Perm (q.stored.eraseIdx i) := by
  obtain ⟨l, hl, heq⟩ := @stored_removeNode env q i h hi
  rw [heq]
  exact (env.qsort_r.perm _ _).trans hl

/-! ## What holds of all stored nodes, and of every two -/

section StoredNodes

variable {P : JitNode → Prop} {R : JitNode → JitNode → Prop}

theorem forall_stored_insertNode {n : JitNode} (h : q.num_pkt < jitQueueMax)
    (hq : ∀ m ∈ q.stored, P m) (hn : P n) : ∀ m ∈ (insertNode env q n).stored, P m := by
  intro m hm
  rcases mem_cons.mp ((perm_stored_insertNode n h).mem_iff.mp hm) with rfl | hm
  · exact hn
  · exact hq m hm

theorem pairwise_stored_insertNode {n : JitNode} (h : q.num_pkt < jitQueueMax)
    (hsymm : ∀ {n m}, R n m → R m n) (hq : q.stored.Pairwise R) (hn : ∀ m ∈ q.stored, R n m) :
    (insertNode env q n).stored.Pairwise R :=
  ((perm_stored_insertNode n h).pairwise_iff hsymm).mpr (pairwise_cons.mpr ⟨hn, hq⟩)

theorem forall_stored_removeNode (h : q.num_pkt ≤ jitQueueMax) (hi : i < q.num_pkt)
    (hq : ∀ m ∈ q.stored, P m) : ∀ m ∈ (removeNode env q i).stored, P m := by
  intro m hm
  exact hq m (mem_of_mem_eraseIdx ((perm_stored_removeNode i h hi).mem_iff.mp hm))

theorem pairwise_stored_removeNode (h : q.num_pkt ≤ jitQueueMax) (hi : i < q.num_pkt)
    (hsymm : ∀ {n m}, R n m → R m n) (hq : q.stored.Pairwise R) :
    (removeNode env q i).stored.Pairwise R :=
  ((perm_stored_removeNode i h hi).pairwise_iff hsymm).mpr (hq.sublist (eraseIdx_sublist _ _))

end StoredNodes

/-! ## `jit_enqueue` -/

/-- A packet passes the three criteria: it departs later than the programming delays from now, not
too far in advance, and overlaps with no stored node. -/
structure Acceptable (q : JitQueue) (time_us : Word) (n : JitNode) : Prop where
  not_late : 42500 < ahead time_us n.count
  not_early : n.pkt_type = .downlinkClassA ∨ n.pkt_type = .downlinkClassB →
    ahead time_us n.count ≤ 512000000
  no_collision : ∀ m ∈ q.stored, collides n m = false

theorem collisionError_ne_ok (ty : JitPktType) : collisionError ty ≠ .ok := by
  cases ty <;> decide

/-- Everything `jit_enqueue` can do: store the new node, or reject it and leave the queue. -/
theorem jitEnqueueLocked_cases (env : Env) (q : JitQueue) (time_us : Word)
    (packet : LgwPktTx) (ty : JitPktType) :
    Acceptable q time_us (newNode env q time_us packet ty)
        ∧ jitEnqueueLocked env q time_us packet ty
          = (.ok, insertNode env q (newNode env q time_us packet ty),
              timedPacket env q time_us packet ty)
      ∨ (jitEnqueueLocked env q time_us packet ty).1 ≠ .ok
        ∧ (jitEnqueueLocked env q time_us packet ty).2.1 = q := by
  unfold jitEnqueueLocked
  set n := newNode env q time_us packet ty with hn
  have hty : n.pkt_type = ty := rfl
  dsimp only
  split_ifs with hlate hearly
  · exact .inr ⟨nofun, rfl⟩
  · exact .inr ⟨nofun, rfl⟩
  · split
    · rename_i hit hfind
      exact .inr ⟨collisionError_ne_ok _, rfl⟩
    · rename_i hfind
      refine .inl ⟨⟨?_, ?_, ?_⟩, rfl⟩
      · simpa [BitVec.le_def, ahead] using hlate
      · intro h
        rw [hty] at h
        simpa [h, BitVec.lt_def, ahead] using hearly
      · intro m hm
        simpa using List.find?_eq_none.mp hfind m hm

/-- The same for the whole function, which rejects every packet when the queue is full. -/
theorem jitEnqueue_cases (env : Env) (q : JitQueue) (time_us : Word) (packet : LgwPktTx)
    (ty : JitPktType) :
    q.num_pkt ≠ jitQueueMax
        ∧ Acceptable q time_us (newNode env q time_us packet ty)
        ∧ jitEnqueue env q time_us packet ty
          = (.ok, insertNode env q (newNode env q time_us packet ty),
              timedPacket env q time_us packet ty)
      ∨ (jitEnqueue env q time_us packet ty).1 ≠ .ok
        ∧ (jitEnqueue env q time_us packet ty).2.1 = q := by
  unfold jitEnqueue jitQueueIsFull
  split
  · exact .inr ⟨nofun, rfl⟩
  · rename_i hfull
    rcases jitEnqueueLocked_cases env q time_us packet ty with ⟨hacc, heq⟩ | hrej
    · exact .inl ⟨by simpa using hfull, hacc, heq⟩
    · exact .inr hrej

/-- A packet that passes the criteria is stored if there is room. -/
theorem jitEnqueue_of_acceptable {time_us : Word} {packet : LgwPktTx} {ty : JitPktType}
    (hroom : q.num_pkt ≠ jitQueueMax) (h : Acceptable q time_us (newNode env q time_us packet ty)) :
    jitEnqueue env q time_us packet ty
      = (.ok, insertNode env q (newNode env q time_us packet ty),
          timedPacket env q time_us packet ty) := by
  have hlate : ¬ (newNode env q time_us packet ty).count - time_us
      ≤ txStartDelay + txMarginDelay + txJitDelay := by
    simpa [BitVec.le_def, ahead] using h.not_late
  have hearly : ¬ ((ty = .downlinkClassA ∨ ty = .downlinkClassB)
      ∧ txMaxAdvanceDelay < (newNode env q time_us packet ty).count - time_us) := by
    rintro ⟨hty, hfar⟩
    have := h.not_early hty
    simp only [BitVec.lt_def, toNat_txMaxAdvanceDelay, ahead] at hfar this
    omega
  have hfind : q.stored.find? (collides (newNode env q time_us packet ty)) = none := by
    refine List.find?_eq_none.mpr ?_
    intro m hm
    simp [h.no_collision m hm]
  rw [jitEnqueue, if_neg (by simpa [jitQueueIsFull] using hroom), jitEnqueueLocked]
  simp only [if_neg hlate, if_neg hearly, hfind]
  rfl

/-- The queue stays within its array. -/
theorem num_pkt_jitEnqueue_le (h : q.num_pkt ≤ jitQueueMax) (time_us : Word) (packet : LgwPktTx)
    (ty : JitPktType) : (jitEnqueue env q time_us packet ty).2.1.num_pkt ≤ jitQueueMax := by
  rcases jitEnqueue_cases env q time_us packet ty with ⟨hne, -, heq⟩ | ⟨-, heq⟩
  · have hlt := lt_of_le_of_ne h hne
    rw [heq]
    change (insertNode env q _).num_pkt ≤ _
    rw [num_pkt_insertNode _ hlt]
    exact hlt
  · rw [heq]
    exact h

/-! ## `jit_dequeue` -/

/-- An index in use is removed and handed out. -/
theorem jitDequeue_of_lt {index : ℕ} (h : q.num_pkt ≤ jitQueueMax) (hindex : index < q.num_pkt) :
    jitDequeue env q index
      = (.ok, removeNode env q index,
          some ((q.stored.getD index .zero).pkt, (q.stored.getD index .zero).pkt_type)) := by
  have hempty : ¬jitQueueIsEmpty q = true := by
    rw [jitQueueIsEmpty, beq_iff_eq]
    omega
  rw [jitDequeue, if_neg (by omega), if_neg hempty, Int.toNat_natCast, jitDequeueLocked,
    getD_nodes hindex]

/-! ## `jit_peek` -/

/-- A call that returns has searched a queue that is not empty. -/
theorem eq_of_jitPeek_eq {time_us : Word} {r : PeekResult}
    (h : jitPeek env q time_us = (.ok, some r)) :
    q.num_pkt ≠ 0 ∧ r = jitPeekLocked env q time_us := by
  unfold jitPeek at h
  split at h
  · cases h
  · rename_i hempty
    cases h
    exact ⟨by simpa [jitQueueIsEmpty] using hempty, rfl⟩

theorem jitPeek_of_ne_zero (h : q.num_pkt ≠ 0) (time_us : Word) :
    jitPeek env q time_us = (.ok, some (jitPeekLocked env q time_us)) :=
  if_neg (by simpa [jitQueueIsEmpty] using h)

/-- One iteration removes an outdated node, or goes on to the next one. -/
theorem peekStep_cases (env : Env) (time_us : Word) {s : PeekState}
    (h : s.queue.num_pkt ≤ jitQueueMax) (hi : s.i < s.queue.num_pkt) :
    (outdated time_us (s.queue.stored.getD s.i .zero) = true
        ∧ (peekStep env time_us s).queue = removeNode env s.queue s.i
        ∧ (peekStep env time_us s).i = 1
        ∧ (peekStep env time_us s).idx_highest_priority = s.idx_highest_priority)
      ∨ (outdated time_us (s.queue.stored.getD s.i .zero) = false
        ∧ (peekStep env time_us s).queue = s.queue
        ∧ (peekStep env time_us s).i = s.i + 1) := by
  unfold peekStep
  rw [nodeAt_natCast h hi]
  by_cases hout : outdated time_us (s.queue.stored.getD s.i .zero) = true
  · rw [if_pos hout]
    exact .inl ⟨hout, rfl, rfl, rfl⟩
  · rw [if_neg hout]
    refine .inr ⟨by simpa using hout, ?_⟩
    split <;> exact ⟨rfl, rfl⟩

/-- A property of queues that no removal of an outdated node destroys survives the search. -/
theorem peekLoop_induction (env : Env) (time_us : Word) {P : JitQueue → Prop}
    (hbound : ∀ q, P q → q.num_pkt ≤ jitQueueMax)
    (hstep : ∀ q i, P q → i < q.num_pkt → outdated time_us (q.stored.getD i .zero) = true →
      P (removeNode env q i)) (fuel : ℕ) (s : PeekState) (hs : P s.queue) :
    P (peekLoop env time_us fuel s).queue := by
  induction fuel generalizing s with
  | zero => exact hs
  | succ fuel ih =>
    unfold peekLoop
    split
    · rename_i hi
      apply ih
      rcases peekStep_cases env time_us (hbound _ hs) hi with ⟨hout, hq, -⟩ | ⟨-, hq, -⟩
      · rw [hq]
        exact hstep _ _ hs hi hout
      · rw [hq]
        exact hs
    · exact hs

/-- The same for the body of the function. -/
theorem jitPeekLocked_induction (env : Env) (time_us : Word) {P : JitQueue → Prop}
    (hbound : ∀ q, P q → q.num_pkt ≤ jitQueueMax)
    (hstep : ∀ q i, P q → i < q.num_pkt → outdated time_us (q.stored.getD i .zero) = true →
      P (removeNode env q i)) (hq : P q) : P (jitPeekLocked env q time_us).queue :=
  peekLoop_induction env time_us hbound hstep _ _ hq

theorem num_pkt_jitPeekLocked_le (h : q.num_pkt ≤ jitQueueMax) (time_us : Word) :
    (jitPeekLocked env q time_us).queue.num_pkt ≤ jitQueueMax :=
  jitPeekLocked_induction env time_us (fun _ hq => hq)
    (fun _ i hq hi _ => num_pkt_removeNode_le i hq hi) h

end RutosSdk.Jit
