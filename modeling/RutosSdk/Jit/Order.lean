import RutosSdk.Jit.Spacing

/-! # The order of the stored nodes

`compare` subtracts counters as `int`, which orders the values of one half circle and no more. While
the stored nodes lie on an arc of less than half a turn the queue is in ascending order along that
arc; beyond that the sort promises nothing.
-/

namespace RutosSdk.Jit

open List Hal Circular

/-- The nodes lie less than half a turn ahead of `b`. -/
def OnArc (b : Word) (l : List JitNode) : Prop := ∀ n ∈ l, 2 * ahead b n.count < 2 ^ 32

/-- The nodes are in ascending order seen from `b`. -/
def Ascending (b : Word) (l : List JitNode) : Prop :=
  l.Pairwise fun n m => ahead b n.count ≤ ahead b m.count

variable {b : Word} {l l' : List JitNode} {q : JitQueue}

theorem OnArc.mono (h : OnArc b l) (hl : ∀ n ∈ l', n ∈ l) : OnArc b l' := fun n hn => h n (hl n hn)

/-- On an arc the comparison function is consistent. -/
theorem OnArc.consistent (h : OnArc b l) : Consistent compare l :=
  Consistent.of_key (fun n => (ahead b n.count : ℤ)) fun n hn m hm => toInt_sub (h n hn) (h m hm)

/-- On an arc the sort does sort. -/
theorem OnArc.ascending_run (h : OnArc b l) (qsort_r : Qsort JitNode) :
    Ascending b (qsort_r.run compare l) := by
  have hperm := qsort_r.perm compare l
  refine (qsort_r.pairwise compare l h.consistent).imp_of_mem ?_
  intro n m hn hm hle
  have heq : compare n m = (ahead b n.count : ℤ) - ahead b m.count :=
    toInt_sub (h n (hperm.mem_iff.mp hn)) (h m (hperm.mem_iff.mp hm))
  omega

/-- The queue is in order along every arc its nodes lie on. -/
def Ordered (q : JitQueue) : Prop := ∀ b, OnArc b q.stored → Ascending b q.stored

/-- The sort is the last thing every operation does. -/
theorem ordered_of_stored_eq_run {qsort_r : Qsort JitNode} (h : q.stored = qsort_r.run compare l) :
    Ordered q := by
  intro b hb
  rw [h] at hb ⊢
  exact OnArc.ascending_run (hb.mono fun n hn => (qsort_r.perm compare l).mem_iff.mpr hn) qsort_r

theorem ordered_insertNode (env : Env) (n : JitNode) (h : q.num_pkt < jitQueueMax) :
    Ordered (insertNode env q n) :=
  ordered_of_stored_eq_run (stored_insertNode n h)

theorem ordered_removeNode (env : Env) (i : ℕ) (h : q.num_pkt ≤ jitQueueMax)
    (hpos : 0 < q.num_pkt) : Ordered (removeNode env q i) := by
  have hnum := @num_pkt_removeNode_of_pos env q i h hpos
  simp only [removeNode, num_pkt_jitSortQueue] at hnum
  exact ordered_of_stored_eq_run (stored_jitSortQueue (by dsimp only; omega))

/-- Every reachable queue is in order. -/
theorem Reachable.ordered {env : Env} {ok : LgwPktTx → JitPktType → Prop} (h : Reachable env ok q) :
    Ordered q := by
  refine (h.invariant (P := fun q => q.num_pkt ≤ jitQueueMax ∧ Ordered q) (fun q hq => hq.1)
    ⟨Nat.zero_le _, fun b _ => List.Pairwise.nil⟩ ?_ ?_).2
  · intro q time_us packet ty _ hlt _ _
    exact ⟨by rw [num_pkt_insertNode _ hlt]; exact hlt, ordered_insertNode env _ hlt⟩
  · intro q i hq hi
    exact ⟨num_pkt_removeNode_le i hq.1 hi, ordered_removeNode env i hq.1 (Nat.zero_lt_of_lt hi)⟩

/-! ## Reading along the order -/

theorem Ascending.getD_le (h : Ascending b l) {i j : ℕ} (hij : i ≤ j) (hj : j < l.length) :
    ahead b (l.getD i .zero).count ≤ ahead b (l.getD j .zero).count := by
  rcases Nat.lt_or_eq_of_le hij with hlt | rfl
  · rw [getD_eq_getElem l _ (hlt.trans hj), getD_eq_getElem l _ hj]
    exact pairwise_iff_getElem.mp h i j (by omega) hj hlt
  · exact le_rfl

/-- Two ascending arrangements of the same nodes have the same departure times index by index. -/
theorem Ascending.count_getD_eq (h : Ascending b l) (h' : Ascending b l') (hperm : l.Perm l')
    (j : ℕ) : (l.getD j .zero).count = (l'.getD j .zero).count := by
  have hl : (l.map fun n => ahead b n.count).Pairwise (· ≤ ·) := pairwise_map.mpr h
  have hl' : (l'.map fun n => ahead b n.count).Pairwise (· ≤ ·) := pairwise_map.mpr h'
  have hkeys := (hperm.map fun n => ahead b n.count).eq_of_pairwise' hl hl'
  have hat := congrArg (fun k => k.getD j (ahead b JitNode.zero.count)) hkeys
  simp only [getD_map] at hat
  exact ahead_inj hat

/-- Removing a node from an ascending queue erases its departure time and shifts no other. -/
theorem count_getD_removeNode (env : Env) (i : ℕ) (hbound : q.num_pkt ≤ jitQueueMax)
    (hi : i < q.num_pkt) (harc : OnArc b q.stored) (hasc : Ascending b q.stored) :
    OnArc b (removeNode env q i).stored ∧ Ascending b (removeNode env q i).stored
      ∧ ∀ j, ((removeNode env q i).stored.getD j .zero).count
          = ((q.stored.eraseIdx i).getD j .zero).count := by
  have hperm := @perm_stored_removeNode env q i hbound hi
  have hsub : (q.stored.eraseIdx i).Sublist q.stored := eraseIdx_sublist _ _
  have harc' : OnArc b (removeNode env q i).stored :=
    harc.mono fun n hn => hsub.subset (hperm.mem_iff.mp hn)
  have hasc' := ordered_removeNode env i hbound (Nat.zero_lt_of_lt hi) b harc'
  exact ⟨harc', hasc', hasc'.count_getD_eq (hasc.sublist hsub) hperm⟩

/-- A node that departs after the one at index `k` is stored behind it and leaves it where it is. -/
theorem getD_insertNode_of_lt (env : Env) {n : JitNode} {k : ℕ} (hordered : Ordered q)
    (hlt : q.num_pkt < jitQueueMax) (hk : k < q.num_pkt) (harc : OnArc b (n :: q.stored))
    (hnodup : (q.stored.map JitNode.count).Nodup)
    (hafter : ahead b (q.stored.getD k .zero).count < ahead b n.count) :
    (insertNode env q n).stored.getD k .zero = q.stored.getD k .zero := by
  have hlen := length_stored hlt.le
  have hperm := @perm_stored_insertNode env q n hlt
  have hasc : Ascending b q.stored := hordered b (harc.mono fun m hm => mem_cons_of_mem n hm)
  have hasc' : Ascending b (insertNode env q n).stored :=
    ordered_insertNode env n hlt b (harc.mono fun m hm => hperm.mem_iff.mp hm)
  -- taking the new node out again gives back the queue as it was
  obtain ⟨m, hm, hn⟩ := mem_iff_getElem.mp (hperm.mem_iff.mpr (mem_cons_self (a := n)))
  have hrest : ((insertNode env q n).stored.eraseIdx m).Perm q.stored := by
    have := (getElem_cons_eraseIdx_perm hm).trans hperm
    rw [hn] at this
    exact this.cons_inv
  have heq : (insertNode env q n).stored.eraseIdx m = q.stored := by
    refine hrest.eq_of_pairwise ?_ (hasc'.sublist (eraseIdx_sublist _ _)) hasc
    intro x y hx hy hxy hyx
    exact inj_on_of_nodup_map hnodup (hrest.mem_iff.mp hx) hy (ahead_inj (le_antisymm hxy hyx))
  rcases Nat.lt_or_ge k m with hkm | hmk
  · rw [← heq, getD_eq_getElem?_getD, getD_eq_getElem?_getD, List.getElem?_eraseIdx_of_lt hkm]
  · have hshift : q.stored.getD k .zero = (insertNode env q n).stored.getD (k + 1) .zero := by
      rw [← heq, getD_eq_getElem?_getD, getD_eq_getElem?_getD, List.getElem?_eraseIdx_of_ge hmk]
    have hle := hasc'.getD_le (i := m) (j := k + 1) (by omega)
      (by rw [hperm.length_eq, length_cons]; omega)
    rw [← hshift, getD_eq_getElem _ _ hm, hn] at hle
    omega

/-- Between two nodes of an arc that are less than half a turn ahead of `t`, every node is ahead of
`t` in the same order. -/
theorem ahead_between {t x y z : Word} (hz : 2 * ahead b z < 2 ^ 32)
    (hxy : ahead b x ≤ ahead b y) (hyz : ahead b y ≤ ahead b z) (htx : 2 * ahead t x < 2 ^ 32)
    (htz : 2 * ahead t z < 2 ^ 32) : ahead t x ≤ ahead t y ∧ ahead t y ≤ ahead t z := by
  have h1 := ahead_sub_of_le hxy
  have h3 := ahead_sub_of_le (hxy.trans hyz)
  rcases ahead_trans t x y with h | h <;> rcases ahead_trans t x z with h' | h' <;> omega

end RutosSdk.Jit
