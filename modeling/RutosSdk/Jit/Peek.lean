import RutosSdk.Jit.Order

/-! # What `jit_peek` does

`PeekSpec` is what the function is for: drop the outdated nodes, keep the others, look only at nodes
in use, and select the earliest node if it is due. The search loop meets it as long as it has
nothing to drop. When it has, the restart at index 1 skips the node that takes slot 0, and the index
of the best node so far is kept although the nodes have moved: in a queue in order, the loop is
right exactly when the first node is not outdated, or is the only outdated one ahead of two nodes
that are not due yet.
-/

namespace RutosSdk.Jit

open List Hal Circular

/-! ## The intended result -/

/-- The node is still to be sent. -/
def fresh (time_us : Word) (n : JitNode) : Bool := !outdated time_us n

variable {n : JitNode} {k i : ℕ} {P : PeekState → Prop} {q : JitQueue}

theorem outdated_iff {t : Word} : outdated t n = true ↔ 512000000 ≤ ahead t n.count := by
  simp [outdated, BitVec.le_def, ahead]

theorem fresh_iff {t : Word} : fresh t n = true ↔ ahead t n.count < 512000000 := by
  rw [fresh, Bool.not_eq_true', Bool.eq_false_iff, ne_eq, outdated_iff]
  omega

/-- The index is that of the earliest node if it is due, and -1 if none is. -/
def Selects (t : Word) (l : List JitNode) (pkt_idx : ℤ) : Prop :=
  (∃ i : ℕ, pkt_idx = i ∧ i < l.length ∧ ahead t (l.getD i .zero).count < txJitDelay.toNat
      ∧ ∀ n ∈ l, ahead t (l.getD i .zero).count ≤ ahead t n.count)
    ∨ (pkt_idx = -1 ∧ ∀ n ∈ l, txJitDelay.toNat ≤ ahead t n.count)

/-- Every read stayed inside the nodes in use. -/
def AllInUse (reads : List NodeRead) : Prop := ∀ read ∈ reads, read.InUse

/-- What `jit_peek` should do to queue `q` at time `t`. -/
structure PeekSpec (q : JitQueue) (t : Word) (r : PeekResult) : Prop where
  kept : r.queue.stored.Perm (q.stored.filter (fresh t))
  reads : AllInUse r.reads
  selects : Selects t r.queue.stored r.pkt_idx

theorem AllInUse.append {l l' : List NodeRead} (h : AllInUse l) (h' : AllInUse l') :
    AllInUse (l ++ l') := forall_mem_append.mpr ⟨h, h'⟩

theorem allInUse_one {n : ℕ} (hk : k < n) : AllInUse [⟨k, n⟩] := by
  simpa [AllInUse, NodeRead.InUse] using hk

theorem allInUse_two {k n : ℕ} {i : ℤ} (hk : k < n) (hi : 0 ≤ i) (hi' : i < n) :
    AllInUse [⟨k, n⟩, ⟨i, n⟩] := by
  simp only [AllInUse, NodeRead.InUse, forall_mem_cons]
  exact ⟨⟨by omega, by omega⟩, ⟨hi, hi'⟩, nofun⟩

/-! ## The loop -/

variable {env : Env} {t : Word} {s : PeekState}

theorem peekStep_of_outdated (hbound : s.queue.num_pkt ≤ jitQueueMax) (hi : s.i < s.queue.num_pkt)
    (hout : fresh t (s.queue.stored.getD s.i .zero) = false) :
    peekStep env t s
      = ⟨removeNode env s.queue s.i, 1, s.idx_highest_priority,
          s.reads ++ [⟨s.i, s.queue.num_pkt⟩, ⟨s.queue.num_pkt - 1, s.queue.num_pkt⟩]⟩ := by
  unfold peekStep
  rw [nodeAt_natCast hbound hi]
  exact if_pos (by simpa [fresh] using hout)

section

variable (hbound : s.queue.num_pkt ≤ jitQueueMax) (hi : s.i < s.queue.num_pkt)
  (hfresh : fresh t (s.queue.stored.getD s.i .zero) = true)
include hbound hi hfresh

/-- The first node the search sees is the best so far. -/
theorem peekStep_of_first (hfirst : s.idx_highest_priority = -1) :
    peekStep env t s = ⟨s.queue, s.i + 1, s.i, s.reads ++ [⟨s.i, s.queue.num_pkt⟩]⟩ := by
  have hout : ¬outdated t (s.queue.stored.getD s.i .zero) = true := by simpa [fresh] using hfresh
  unfold peekStep
  rw [nodeAt_natCast hbound hi]
  rw [if_neg hout, if_pos hfirst]

/-- Any further one is compared with the best so far. -/
theorem peekStep_of_best (hbest : s.idx_highest_priority = k) (hk : k < s.queue.num_pkt) :
    peekStep env t s
      = ⟨s.queue, s.i + 1,
          if ahead t (s.queue.stored.getD s.i .zero).count
              < ahead t (s.queue.stored.getD k .zero).count then (s.i : ℤ) else (k : ℤ),
          s.reads ++ [⟨s.i, s.queue.num_pkt⟩, ⟨k, s.queue.num_pkt⟩]⟩ := by
  have hout : ¬outdated t (s.queue.stored.getD s.i .zero) = true := by simpa [fresh] using hfresh
  unfold peekStep
  rw [nodeAt_natCast hbound hi]
  rw [if_neg hout, hbest, if_neg (by omega), nodeAt_natCast hbound hk]
  rfl

end

/-- Rule for the loop: what an iteration keeps, the loop keeps. -/
theorem peekLoop_invariant (hstep : ∀ s, P s → s.i < s.queue.num_pkt → P (peekStep env t s))
    (fuel : ℕ) (hs : P s) : P (peekLoop env t fuel s) := by
  induction fuel generalizing s with
  | zero => exact hs
  | succ fuel ih =>
    unfold peekLoop
    split
    · rename_i hi
      exact ih (hstep s hs hi)
    · exact hs

/-- An upper bound on the iterations left. -/
def peekMeasure (s : PeekState) : ℕ :=
  s.queue.num_pkt * (s.queue.num_pkt + 1) + (s.queue.num_pkt - s.i)

theorem peekMeasure_peekStep (hbound : s.queue.num_pkt ≤ jitQueueMax)
    (hi : s.i < s.queue.num_pkt) : peekMeasure (peekStep env t s) < peekMeasure s := by
  unfold peekMeasure
  rcases peekStep_cases env t hbound hi with ⟨-, hq, hi', -⟩ | ⟨-, hq, hi'⟩
  · rw [hq, hi', num_pkt_removeNode _ hbound hi]
    obtain ⟨n, hn⟩ : ∃ n, s.queue.num_pkt = n + 1 := ⟨s.queue.num_pkt - 1, by omega⟩
    rw [hn, Nat.add_sub_cancel, Nat.mul_comm n (n + 1)]
    have : (n + 1) * n + (n + 1) ≤ (n + 1) * (n + 1 + 1) := by
      rw [Nat.mul_add (n + 1) (n + 1) 1, Nat.mul_add (n + 1) n 1]
      omega
    omega
  · rw [hq, hi']
    omega

theorem num_pkt_peekStep_le (hbound : s.queue.num_pkt ≤ jitQueueMax) (hi : s.i < s.queue.num_pkt) :
    (peekStep env t s).queue.num_pkt ≤ jitQueueMax := by
  rcases peekStep_cases env t hbound hi with ⟨-, hq, -⟩ | ⟨-, hq, -⟩
  · rw [hq]
    exact num_pkt_removeNode_le _ hbound hi
  · rw [hq]
    exact hbound

/-- With enough fuel the loop ends at its own exit. -/
theorem peekLoop_exit {fuel : ℕ} (hbound : s.queue.num_pkt ≤ jitQueueMax)
    (hfuel : peekMeasure s ≤ fuel) :
    (peekLoop env t fuel s).queue.num_pkt ≤ (peekLoop env t fuel s).i := by
  induction fuel generalizing s with
  | zero =>
    unfold peekMeasure at hfuel
    change s.queue.num_pkt ≤ s.i
    omega
  | succ fuel ih =>
    unfold peekLoop
    split
    · rename_i hi
      have hlt := @peekMeasure_peekStep env t s hbound hi
      exact ih (num_pkt_peekStep_le hbound hi) (by omega)
    · omega

/-- The state the search starts in. -/
def peekStart (q : JitQueue) : PeekState := ⟨q, 0, -1, []⟩

/-- The state the search ends in. -/
def peekEnd (env : Env) (q : JitQueue) (t : Word) : PeekState :=
  peekLoop env t (peekFuel q) (peekStart q)

theorem peekEnd_exit {q : JitQueue} (hbound : q.num_pkt ≤ jitQueueMax) :
    (peekEnd env q t).queue.num_pkt ≤ (peekEnd env q t).i := by
  refine peekLoop_exit hbound ?_
  simp only [peekMeasure, peekStart, peekFuel, Nat.add_mul, Nat.mul_add]
  omega

/-- The end of the loop can be reasoned about from the start or from after the first iteration. -/
theorem peekEnd_invariant (hstep : ∀ s, P s → s.i < s.queue.num_pkt → P (peekStep env t s))
    (hstart : P (peekStart q) ∨ 0 < q.num_pkt ∧ P (peekStep env t (peekStart q))) :
    P (peekEnd env q t) := by
  rcases hstart with hs | ⟨hpos, hs⟩
  · exact peekLoop_invariant hstep _ hs
  · obtain ⟨fuel, hfuel⟩ : ∃ fuel, peekFuel q = fuel + 1 := by
      refine ⟨peekFuel q - 1, ?_⟩
      have : 0 < peekFuel q := Nat.mul_pos (Nat.succ_pos _) (Nat.succ_pos _)
      omega
    unfold peekEnd
    rw [hfuel, peekLoop, if_pos (show (peekStart q).i < (peekStart q).queue.num_pkt from hpos)]
    exact peekLoop_invariant hstep fuel hs

/-! ## What follows the loop -/

/-- With no best node, the function reads in front of the array. -/
theorem not_reads_of_none (h : (peekEnd env q t).idx_highest_priority = -1) :
    ¬PeekSpec q t (jitPeekLocked env q t) := by
  intro hspec
  have hread := hspec.reads ⟨(peekEnd env q t).idx_highest_priority, _⟩
    (mem_append_right _ mem_cons_self)
  rw [h] at hread
  have : (0 : ℤ) ≤ -1 := hread.1
  omega

/-- With a best node in use, the function selects it if it is due. -/
theorem pkt_idx_of_best (hbest : (peekEnd env q t).idx_highest_priority = k)
    (hk : k < (peekEnd env q t).queue.num_pkt)
    (hle : (peekEnd env q t).queue.num_pkt ≤ jitQueueMax) :
    (jitPeekLocked env q t).pkt_idx
      = if ahead t ((peekEnd env q t).queue.stored.getD k .zero).count < txJitDelay.toNat
        then (k : ℤ) else -1 := by
  change (if (nodeAt env (peekEnd env q t).queue (peekEnd env q t).idx_highest_priority).count - t
      < txJitDelay then (peekEnd env q t).idx_highest_priority else -1) = _
  rw [hbest, nodeAt_natCast hle hk]
  rfl

/-- The result is right if the nodes left are the fresh ones and the best of them, due or not, is
the earliest. -/
theorem peekSpec_of_best (hbest : (peekEnd env q t).idx_highest_priority = k)
    (hk : k < (peekEnd env q t).queue.num_pkt) (hle : (peekEnd env q t).queue.num_pkt ≤ jitQueueMax)
    (hkept : (peekEnd env q t).queue.stored.Perm (q.stored.filter (fresh t)))
    (hreads : AllInUse (peekEnd env q t).reads) (hmin : (∀ n ∈ (peekEnd env q t).queue.stored,
        ahead t ((peekEnd env q t).queue.stored.getD k .zero).count ≤ ahead t n.count)
      ∨ ∀ n ∈ (peekEnd env q t).queue.stored, txJitDelay.toNat ≤ ahead t n.count) :
    PeekSpec q t (jitPeekLocked env q t) where
  kept := hkept
  reads := by
    refine hreads.append ?_
    change AllInUse [⟨(peekEnd env q t).idx_highest_priority, (peekEnd env q t).queue.num_pkt⟩]
    rw [hbest]
    exact allInUse_one hk
  selects := by
    have hlen := length_stored hle
    have hmem := @getD_mem _ k (hk.trans_eq hlen.symm)
    change Selects t (peekEnd env q t).queue.stored _
    rw [pkt_idx_of_best hbest hk hle]
    split
    · rename_i hdue
      rcases hmin with hmin | hnone
      · exact .inl ⟨k, rfl, hk.trans_eq hlen.symm, hdue, hmin⟩
      · have := hnone _ hmem
        omega
    · rename_i hdue
      refine .inr ⟨rfl, ?_⟩
      intro n hn
      rcases hmin with hmin | hnone
      · have := hmin n hn
        omega
      · exact hnone n hn

/-! ## Nothing to drop -/

/-- The search over a queue without outdated nodes: the best so far is the earliest so far. -/
structure Scanning (q : JitQueue) (t : Word) (s : PeekState) : Prop where
  queue : s.queue = q
  reads : AllInUse s.reads
  best : (s.i = 0 ∧ s.idx_highest_priority = -1)
    ∨ ∃ k : ℕ, s.idx_highest_priority = k ∧ k < q.num_pkt
      ∧ ∀ j < s.i, ahead t (q.stored.getD k .zero).count ≤ ahead t (q.stored.getD j .zero).count

/-- An iteration over fresh nodes. -/
theorem Scanning.peekStep (h : Scanning q t s) (hbound : q.num_pkt ≤ jitQueueMax)
    (hfresh : ∀ n ∈ q.stored, fresh t n = true) (hi : s.i < s.queue.num_pkt) :
    Scanning q t (peekStep env t s) := by
  obtain ⟨rfl, hreads, hbest⟩ := h
  have hlen := length_stored hbound
  have hnode := hfresh _ (@getD_mem _ s.i (hi.trans_eq hlen.symm))
  rcases hbest with ⟨hzero, hnone⟩ | ⟨k, hk, hlt, hmin⟩
  · rw [peekStep_of_first hbound hi hnode hnone]
    refine ⟨rfl, hreads.append (allInUse_one hi), .inr ⟨s.i, rfl, hi, ?_⟩⟩
    intro j (hj : j < s.i + 1)
    obtain rfl : j = s.i := by omega
    exact le_rfl
  · rw [peekStep_of_best hbound hi hnode hk hlt]
    refine ⟨rfl, hreads.append (allInUse_two hi (by omega) (by omega)), .inr ?_⟩
    dsimp only
    split
    · rename_i hless
      refine ⟨s.i, rfl, hi, ?_⟩
      intro j hj
      rcases Nat.lt_succ_iff_lt_or_eq.mp hj with hj | rfl
      · exact hless.le.trans (hmin j hj)
      · exact le_rfl
    · rename_i hless
      refine ⟨k, rfl, hlt, ?_⟩
      intro j hj
      rcases Nat.lt_succ_iff_lt_or_eq.mp hj with hj | rfl
      · exact hmin j hj
      · exact Nat.le_of_not_lt hless

/-- A queue without outdated nodes is left alone and its earliest node is selected if it is due. -/
theorem peekSpec_of_fresh (hbound : q.num_pkt ≤ jitQueueMax) (hpos : 0 < q.num_pkt)
    (hfresh : ∀ n ∈ q.stored, fresh t n = true) : PeekSpec q t (jitPeekLocked env q t) := by
  have hend : Scanning q t (peekEnd env q t) :=
    peekEnd_invariant (fun s hs hi => hs.peekStep hbound hfresh hi)
      (.inl ⟨rfl, nofun, .inl ⟨rfl, rfl⟩⟩)
  have hexit := @peekEnd_exit env t q hbound
  have hqueue := hend.queue
  have hlen := length_stored hbound
  rw [hqueue] at hexit
  rcases hend.best with ⟨hzero, -⟩ | ⟨k, hk, hlt, hmin⟩
  · omega
  · refine peekSpec_of_best hk (by rwa [hqueue]) (by rwa [hqueue]) ?_ hend.reads (.inl ?_)
    · rw [hqueue, filter_eq_self.mpr hfresh]
    · rw [hqueue]
      intro n hn
      obtain ⟨j, hj, rfl⟩ := mem_iff_getElem.mp hn
      rw [← getD_eq_getElem q.stored .zero hj]
      exact hmin j (by omega)

/-! ## Dropping from a queue in order -/

theorem fresh_congr {m : JitNode} (h : n.count = m.count) : fresh t n = fresh t m := by
  simp only [fresh, outdated, h]

/-- Erasing an element that a filter rejects does not change what the filter keeps. -/
theorem filter_eraseIdx {l : List JitNode} {p : JitNode → Bool} (hi : i < l.length)
    (h : p (l.getD i .zero) = false) : (l.eraseIdx i).filter p = l.filter p := by
  rw [getD_eq_getElem l _ hi] at h
  conv_rhs => rw [← take_append_drop i l, drop_eq_getElem_cons hi]
  rw [eraseIdx_eq_take_drop_succ, filter_append, filter_append, filter_cons_of_neg (by simp [h])]

/-- The search over a queue in order whose first node is fresh. The fresh nodes `K` come first, and
the search has seen no outdated one yet. -/
structure Purging (b t : Word) (K : List JitNode) (s : PeekState) : Prop where
  bound : s.queue.num_pkt ≤ jitQueueMax
  pos : 0 < s.queue.num_pkt
  arc : OnArc b s.queue.stored
  asc : Ascending b s.queue.stored
  head : fresh t (s.queue.stored.getD 0 .zero) = true
  kept : (s.queue.stored.filter (fresh t)).Perm K
  seen : ∀ j, 0 < j → j < s.i → j < s.queue.num_pkt → fresh t (s.queue.stored.getD j .zero) = true
  reads : AllInUse s.reads

section Purging

variable {b : Word} {K : List JitNode}

/-- Up to a fresh node, the nodes are fresh and in the order of their departure. -/
theorem Purging.upto (h : Purging b t K s) {j : ℕ} (hji : j ≤ i) (hi : i < s.queue.num_pkt)
    (hfresh : fresh t (s.queue.stored.getD i .zero) = true) :
    ahead t (s.queue.stored.getD 0 .zero).count ≤ ahead t (s.queue.stored.getD j .zero).count
      ∧ fresh t (s.queue.stored.getD j .zero) = true := by
  have hlen := length_stored h.bound
  have hhead := fresh_iff.mp h.head
  have hlast := fresh_iff.mp hfresh
  have hbetween := ahead_between (t := t) (h.arc _ (getD_mem (hi.trans_eq hlen.symm)))
    (h.asc.getD_le (Nat.zero_le j) (by omega)) (h.asc.getD_le hji (by omega)) (by omega) (by omega)
  exact ⟨hbetween.1, fresh_iff.mpr (by omega)⟩

/-- A fresh node is one of the first `K.length`. -/
theorem Purging.lt_length (h : Purging b t K s) (hi : i < s.queue.num_pkt)
    (hfresh : fresh t (s.queue.stored.getD i .zero) = true) : i < K.length := by
  have hlen := length_stored h.bound
  have hall : ∀ n ∈ s.queue.stored.take (i + 1), fresh t n = true := by
    intro n hn
    obtain ⟨j, hj, rfl⟩ := mem_iff_getElem.mp hn
    rw [length_take] at hj
    rw [getElem_take, ← getD_eq_getElem s.queue.stored .zero]
    exact (h.upto (by omega) hi hfresh).2
  have hsub := ((take_sublist (i + 1) s.queue.stored).filter (fresh t)).length_le
  rw [filter_eq_self.mpr hall, length_take, h.kept.length_eq] at hsub
  omega

theorem Purging.length_le (h : Purging b t K s) : K.length ≤ s.queue.num_pkt := by
  rw [← h.kept.length_eq, ← length_stored h.bound]
  exact length_filter_le _ _

/-- An iteration that finds a fresh node. -/
theorem Purging.advance (h : Purging b t K s)
    (hfresh : fresh t (s.queue.stored.getD s.i .zero) = true) {reads : List NodeRead}
    (hreads : AllInUse reads) (best : ℤ) :
    Purging b t K ⟨s.queue, s.i + 1, best, s.reads ++ reads⟩ where
  bound := h.bound
  pos := h.pos
  arc := h.arc
  asc := h.asc
  head := h.head
  kept := h.kept
  seen j hpos hj hlt := by
    rcases Nat.lt_succ_iff_lt_or_eq.mp hj with hj | rfl
    · exact h.seen j hpos hj hlt
    · exact hfresh
  reads := h.reads.append hreads

/-- An iteration that drops an outdated node: it is not the first one. -/
theorem Purging.drop (env : Env) (h : Purging b t K s) (hi : s.i < s.queue.num_pkt)
    (hout : fresh t (s.queue.stored.getD s.i .zero) = false) (best : ℤ) :
    0 < s.i ∧ Purging b t K ⟨removeNode env s.queue s.i, 1, best,
      s.reads ++ [⟨s.i, s.queue.num_pkt⟩, ⟨s.queue.num_pkt - 1, s.queue.num_pkt⟩]⟩ := by
  have hlen := length_stored h.bound
  have hne : 0 < s.i := by
    refine Nat.pos_of_ne_zero fun hzero => ?_
    rw [hzero, h.head] at hout
    cases hout
  have hnum := @num_pkt_removeNode env s.queue s.i h.bound hi
  have hbound := h.bound
  obtain ⟨harc, hasc, hcount⟩ := count_getD_removeNode env s.i h.bound hi h.arc h.asc
  -- reducing the projections first keeps the unifier from unfolding the removal
  refine ⟨hne, ⟨?_, ?_, ?_, ?_, ?_, ?_, ?_, ?_⟩⟩ <;> dsimp only
  · omega
  · omega
  · exact harc
  · exact hasc
  · -- the first node stays the first
    have hhead : (s.queue.stored.eraseIdx s.i).getD 0 .zero = s.queue.stored.getD 0 .zero := by
      rw [getD_eq_getElem?_getD, List.getElem?_eraseIdx_of_lt hne, getD_eq_getElem?_getD]
    rw [fresh_congr (hcount 0), hhead]
    exact h.head
  · refine ((perm_stored_removeNode s.i h.bound hi).filter (fresh t)).trans ?_
    rw [filter_eraseIdx (hi.trans_eq hlen.symm) hout]
    exact h.kept
  · intro j hpos (hj : j < 1)
    omega
  · exact h.reads.append (allInUse_two hi (by omega) (by omega))

/-- Where the search ends, only fresh nodes are left, the first one being the earliest. -/
theorem Purging.finish (h : Purging b t K s) (hexit : s.queue.num_pkt ≤ s.i) :
    s.queue.stored.Perm K
      ∧ ∀ n ∈ s.queue.stored,
        ahead t (s.queue.stored.getD 0 .zero).count ≤ ahead t n.count := by
  have hlen := length_stored h.bound
  have hfresh : ∀ j, j < s.queue.num_pkt → fresh t (s.queue.stored.getD j .zero) = true := by
    intro j hj
    rcases Nat.eq_zero_or_pos j with rfl | hpos
    · exact h.head
    · exact h.seen j hpos (by omega) hj
  have hall : ∀ n ∈ s.queue.stored, ∃ j < s.queue.num_pkt, n = s.queue.stored.getD j .zero := by
    intro n hn
    obtain ⟨j, hj, rfl⟩ := mem_iff_getElem.mp hn
    exact ⟨j, by omega, (getD_eq_getElem s.queue.stored .zero hj).symm⟩
  constructor
  · have hself : s.queue.stored.filter (fresh t) = s.queue.stored := by
      refine filter_eq_self.mpr fun n hn => ?_
      obtain ⟨j, hj, rfl⟩ := hall n hn
      exact hfresh j hj
    rw [← hself]
    exact h.kept
  · intro n hn
    obtain ⟨j, hj, rfl⟩ := hall n hn
    exact (h.upto le_rfl hj (hfresh j hj)).1

/-! ### The first node is fresh -/

/-- The search that starts on a fresh node holds on to it. -/
def HeadBest (b t : Word) (K : List JitNode) (s : PeekState) : Prop :=
  Purging b t K s
    ∧ (s.i = 0 ∧ s.idx_highest_priority = -1 ∨ 0 < s.i ∧ s.idx_highest_priority = (0 : ℕ))

/-- An iteration from a fresh node on. -/
theorem HeadBest.peekStep (h : HeadBest b t K s) (hi : s.i < s.queue.num_pkt) :
    HeadBest b t K (peekStep env t s) := by
  obtain ⟨hp, hbest⟩ := h
  cases hnode : fresh t (s.queue.stored.getD s.i .zero) with
  | false =>
    obtain ⟨hne, hdrop⟩ := hp.drop env hi hnode s.idx_highest_priority
    rw [peekStep_of_outdated hp.bound hi hnode]
    refine ⟨hdrop, .inr ⟨Nat.one_pos, ?_⟩⟩
    rcases hbest with ⟨hzero, -⟩ | ⟨-, hbest⟩
    · omega
    · exact hbest
  | true =>
    rcases hbest with ⟨hzero, hnone⟩ | ⟨hne, hbest⟩
    · rw [peekStep_of_first hp.bound hi hnode hnone]
      exact ⟨hp.advance hnode (allInUse_one hi) _, .inr ⟨Nat.succ_pos _, by rw [hzero]⟩⟩
    · rw [peekStep_of_best hp.bound hi hnode hbest hp.pos]
      refine ⟨hp.advance hnode (allInUse_two hi (by omega) (by omega)) _,
        .inr ⟨Nat.succ_pos _, ?_⟩⟩
      exact if_neg (Nat.not_lt.mpr (hp.upto le_rfl hi hnode).1)

/-- If the first node is fresh, the function is right. -/
theorem peekSpec_of_head (hbound : q.num_pkt ≤ jitQueueMax) (hpos : 0 < q.num_pkt)
    (harc : OnArc b q.stored) (hasc : Ascending b q.stored)
    (hhead : fresh t (q.stored.getD 0 .zero) = true) : PeekSpec q t (jitPeekLocked env q t) := by
  have hend : HeadBest b t (q.stored.filter (fresh t)) (peekEnd env q t) := by
    refine peekEnd_invariant (fun s hs hi => hs.peekStep hi) (.inl ⟨?_, .inl ⟨rfl, rfl⟩⟩)
    exact ⟨hbound, hpos, harc, hasc, hhead, .refl _, fun j _ hj => absurd hj (Nat.not_lt_zero j),
      nofun⟩
  obtain ⟨hp, hbest⟩ := hend
  have hexit := @peekEnd_exit env t q hbound
  obtain ⟨hkept, hmin⟩ := hp.finish hexit
  have := hp.pos
  rcases hbest with ⟨hzero, -⟩ | ⟨-, hbest⟩
  · omega
  · exact peekSpec_of_best hbest hp.pos hp.bound hkept hp.reads (.inl hmin)

/-! ### The first node is outdated and the second is fresh -/

/-- After the drop of the first node the search resumes behind its successor, which it never looks
at again. -/
def LaterBest (b t : Word) (K : List JitNode) (s : PeekState) : Prop :=
  Purging b t K s
    ∧ (s.i = 1 ∧ s.idx_highest_priority = -1
      ∨ 0 < s.i ∧ ∃ k : ℕ, s.idx_highest_priority = k ∧ 0 < k ∧ k < K.length)

/-- An iteration after the drop. -/
theorem LaterBest.peekStep (h : LaterBest b t K s) (hi : s.i < s.queue.num_pkt) :
    LaterBest b t K (peekStep env t s) := by
  obtain ⟨hp, hbest⟩ := h
  have hle := hp.length_le
  cases hnode : fresh t (s.queue.stored.getD s.i .zero) with
  | false =>
    rw [peekStep_of_outdated hp.bound hi hnode]
    refine ⟨(hp.drop env hi hnode _).2, ?_⟩
    rcases hbest with ⟨-, hnone⟩ | ⟨-, hbest⟩
    · exact .inl ⟨rfl, hnone⟩
    · exact .inr ⟨Nat.one_pos, hbest⟩
  | true =>
    have hlt := hp.lt_length hi hnode
    rcases hbest with ⟨hone, hnone⟩ | ⟨hne, k, hk, hkpos, hklt⟩
    · rw [peekStep_of_first hp.bound hi hnode hnone]
      exact ⟨hp.advance hnode (allInUse_one hi) _,
        .inr ⟨Nat.succ_pos _, s.i, rfl, by omega, hlt⟩⟩
    · rw [peekStep_of_best hp.bound hi hnode hk (by omega)]
      refine ⟨hp.advance hnode (allInUse_two hi (by omega) (by omega)) _,
        .inr ⟨Nat.succ_pos _, ?_⟩⟩
      dsimp only
      split
      · exact ⟨s.i, rfl, hne, hlt⟩
      · exact ⟨k, rfl, hkpos, hklt⟩

/-- The first iteration on an outdated first node. -/
theorem peekStep_peekStart (hbound : q.num_pkt ≤ jitQueueMax) (hpos : 0 < q.num_pkt)
    (hhead : fresh t (q.stored.getD 0 .zero) = false) :
    peekStep env t (peekStart q)
      = ⟨removeNode env q 0, 1, -1, [⟨0, q.num_pkt⟩, ⟨q.num_pkt - 1, q.num_pkt⟩]⟩ :=
  @peekStep_of_outdated env t (peekStart q) hbound hpos hhead

/-- The state after the first iteration. -/
theorem laterBest_peekEnd {q : JitQueue} (hbound : q.num_pkt ≤ jitQueueMax) (hpos : 1 < q.num_pkt)
    (harc : OnArc b q.stored) (hasc : Ascending b q.stored)
    (hhead : fresh t (q.stored.getD 0 .zero) = false)
    (hnext : fresh t (q.stored.getD 1 .zero) = true) :
    LaterBest b t (q.stored.filter (fresh t)) (peekEnd env q t) := by
  refine peekEnd_invariant (fun s hs hi => hs.peekStep hi) (.inr ⟨by omega, ?_⟩)
  have hlen := length_stored hbound
  obtain ⟨harc', hasc', hcount⟩ := count_getD_removeNode env 0 hbound (by omega) harc hasc
  have hnum := @num_pkt_removeNode env q 0 hbound (by omega)
  rw [peekStep_peekStart hbound (by omega) hhead]
  refine ⟨⟨?_, ?_, ?_, ?_, ?_, ?_, ?_, ?_⟩, .inl ⟨rfl, rfl⟩⟩ <;> dsimp only
  · omega
  · omega
  · exact harc'
  · exact hasc'
  · rw [fresh_congr (hcount 0)]
    rw [getD_eq_getElem?_getD, List.getElem?_eraseIdx_of_ge le_rfl, ← getD_eq_getElem?_getD]
    exact hnext
  · refine ((perm_stored_removeNode 0 hbound (by omega)).filter (fresh t)).trans ?_
    rw [filter_eraseIdx (by omega) hhead]
  · intro j hj (hj' : j < 1)
    omega
  · exact @allInUse_two 0 q.num_pkt _ (by omega) (by omega) (by omega)

/-- If no more than one node is fresh, the search has no best node. -/
theorem not_peekSpec_of_single (h : LaterBest b t (q.stored.filter (fresh t)) (peekEnd env q t))
    (hone : (q.stored.filter (fresh t)).length ≤ 1) : ¬PeekSpec q t (jitPeekLocked env q t) := by
  rcases h.2 with ⟨-, hnone⟩ | ⟨-, k, -, hkpos, hklt⟩
  · exact not_reads_of_none hnone
  · omega

/-- If more are fresh, it has passed over the earliest: right exactly if no node is due. -/
theorem peekSpec_iff_of_later (hbound : q.num_pkt ≤ jitQueueMax)
    (hnodup : (q.stored.map JitNode.count).Nodup)
    (h : LaterBest b t (q.stored.filter (fresh t)) (peekEnd env q t))
    (htwo : 1 < (q.stored.filter (fresh t)).length) :
    PeekSpec q t (jitPeekLocked env q t)
      ↔ ∀ n ∈ q.stored, fresh t n = true → txJitDelay.toNat ≤ ahead t n.count := by
  have hexit := @peekEnd_exit env t q hbound
  obtain ⟨hp, hbest⟩ := h
  obtain ⟨hkept, hmin⟩ := hp.finish hexit
  have hnum : (peekEnd env q t).queue.num_pkt = (q.stored.filter (fresh t)).length := by
    rw [← length_stored hp.bound, hkept.length_eq]
  have hlen := length_stored hp.bound
  obtain ⟨k, hk, hkpos, hklt⟩ : ∃ k : ℕ, (peekEnd env q t).idx_highest_priority = k ∧ 0 < k
      ∧ k < (peekEnd env q t).queue.num_pkt := by
    rcases hbest with ⟨hone, -⟩ | ⟨-, k, hk, hkpos, hklt⟩
    · omega
    · exact ⟨k, hk, hkpos, by omega⟩
  constructor
  · intro hspec n hn hfresh
    have hmem : n ∈ (peekEnd env q t).queue.stored :=
      hkept.mem_iff.mpr (mem_filter.mpr ⟨hn, hfresh⟩)
    have hidx := pkt_idx_of_best hk hklt hp.bound
    rcases hspec.selects with ⟨i, hi, hilt, -, hmin'⟩ | ⟨-, hnone⟩
    · -- the earliest node is the first one only, and it was passed over
      have hik : i = k := by
        rw [hidx] at hi
        split at hi <;> omega
      have hpos : 0 < (peekEnd env q t).queue.stored.length := by omega
      have hle := hmin' _ (getD_mem hpos)
      have hge := hmin _ (getD_mem (i := i) hilt)
      have hnodup' : ((peekEnd env q t).queue.stored.map JitNode.count).Nodup :=
        (hkept.map _).nodup_iff.mpr (hnodup.sublist (filter_sublist.map _))
      have hne := pairwise_getD (pairwise_map.mp hnodup') Ne.symm (i := 0) (j := i)
        (by omega) hilt (by omega)
      exact absurd (ahead_inj (le_antisymm hge hle)) hne
    · exact hnone n hmem
  · intro hnone
    refine peekSpec_of_best hk hklt hp.bound hkept hp.reads (.inr ?_)
    intro n hn
    have hn' := mem_filter.mp (hkept.mem_iff.mp hn)
    exact hnone n hn'.1 hn'.2

/-! ### The first two nodes are outdated -/

/-- The node behind an outdated first node takes its place and is never looked at again. -/
structure Stuck (b t : Word) (s : PeekState) : Prop where
  bound : s.queue.num_pkt ≤ jitQueueMax
  pos : 0 < s.queue.num_pkt
  arc : OnArc b s.queue.stored
  asc : Ascending b s.queue.stored
  head : fresh t (s.queue.stored.getD 0 .zero) = false
  resumed : 0 < s.i

theorem Stuck.peekStep (h : Stuck b t s) (hi : s.i < s.queue.num_pkt) :
    Stuck b t (peekStep env t s) := by
  rcases peekStep_cases env t h.bound hi with ⟨-, hq, hi', -⟩ | ⟨-, hq, hi'⟩
  · have hnum := @num_pkt_removeNode env s.queue s.i h.bound hi
    have hbound := h.bound
    have hresumed := h.resumed
    obtain ⟨harc, hasc, hcount⟩ := count_getD_removeNode env s.i h.bound hi h.arc h.asc
    rw [← hq] at hnum harc hasc hcount
    refine ⟨by omega, by omega, harc, hasc, ?_, by omega⟩
    rw [fresh_congr (hcount 0), getD_eq_getElem?_getD, List.getElem?_eraseIdx_of_lt hresumed,
      ← getD_eq_getElem?_getD]
    exact h.head
  · refine ⟨hq ▸ h.bound, hq ▸ h.pos, hq ▸ h.arc, hq ▸ h.asc, hq ▸ h.head, by omega⟩

theorem not_peekSpec_of_stuck (hbound : q.num_pkt ≤ jitQueueMax) (hpos : 1 < q.num_pkt)
    (harc : OnArc b q.stored) (hasc : Ascending b q.stored)
    (hhead : fresh t (q.stored.getD 0 .zero) = false)
    (hnext : fresh t (q.stored.getD 1 .zero) = false) : ¬PeekSpec q t (jitPeekLocked env q t) := by
  have hend : Stuck b t (peekEnd env q t) := by
    refine peekEnd_invariant (fun s hs hi => hs.peekStep hi) (.inr ⟨by omega, ?_⟩)
    obtain ⟨harc', hasc', hcount⟩ := count_getD_removeNode env 0 hbound (by omega) harc hasc
    have hnum := @num_pkt_removeNode env q 0 hbound (by omega)
    rw [peekStep_peekStart hbound (by omega) hhead]
    refine ⟨?_, ?_, ?_, ?_, ?_, Nat.one_pos⟩ <;> dsimp only
    · omega
    · omega
    · exact harc'
    · exact hasc'
    · rw [fresh_congr (hcount 0), getD_eq_getElem?_getD,
        List.getElem?_eraseIdx_of_ge le_rfl, ← getD_eq_getElem?_getD]
      exact hnext
  intro hspec
  have hmem := @getD_mem (peekEnd env q t).queue.stored 0
    (by rw [length_stored hend.bound]; exact hend.pos)
  have hfresh := (mem_filter.mp (hspec.kept.mem_iff.mp hmem)).2
  rw [hend.head] at hfresh
  cases hfresh

/-- A single node that is outdated leaves the search without a best node. -/
theorem not_peekSpec_of_one (hone : q.num_pkt = 1)
    (hhead : fresh t (q.stored.getD 0 .zero) = false) : ¬PeekSpec q t (jitPeekLocked env q t) := by
  have hbound : q.num_pkt ≤ jitQueueMax := by
    rw [hone]
    decide
  apply not_reads_of_none
  have hend : (peekEnd env q t).queue.num_pkt = 0
      ∧ (peekEnd env q t).idx_highest_priority = -1 := by
    refine peekEnd_invariant (P := fun s => s.queue.num_pkt = 0 ∧ s.idx_highest_priority = -1)
      ?_ (.inr ⟨by omega, ?_⟩)
    · rintro s ⟨hzero, -⟩ hi
      omega
    rw [peekStep_peekStart hbound (by omega) hhead]
    exact ⟨by dsimp only; rw [num_pkt_removeNode 0 hbound (by omega), hone], rfl⟩
  exact hend.2

end Purging

/-! ## When the function is right -/

/-- The departure times are distinct and lie on an arc, so the order of the nodes is determined. -/
def Orderly (q : JitQueue) : Prop := (∃ b, OnArc b q.stored) ∧ (q.stored.map JitNode.count).Nodup

/-- The first node is fresh; or it is followed by two fresh ones, and no fresh one is due. -/
def PurgesRight (q : JitQueue) (t : Word) : Prop :=
  fresh t (q.stored.getD 0 .zero) = true
    ∨ 2 < q.num_pkt ∧ fresh t (q.stored.getD 1 .zero) = true
      ∧ fresh t (q.stored.getD 2 .zero) = true
      ∧ ∀ n ∈ q.stored, fresh t n = true → txJitDelay.toNat ≤ ahead t n.count

instance (q : JitQueue) (t : Word) : Decidable (PurgesRight q t) :=
  inferInstanceAs (Decidable (_ ∨ _))

/-- In a queue in order whose second node is the first fresh one, the third is fresh if any more
are. -/
theorem fresh_third_iff {b : Word} (hbound : q.num_pkt ≤ jitQueueMax) (hpos : 1 < q.num_pkt)
    (harc : OnArc b q.stored) (hasc : Ascending b q.stored)
    (hhead : fresh t (q.stored.getD 0 .zero) = false)
    (hnext : fresh t (q.stored.getD 1 .zero) = true) :
    1 < (q.stored.filter (fresh t)).length
      ↔ 2 < q.num_pkt ∧ fresh t (q.stored.getD 2 .zero) = true := by
  have hlen := length_stored hbound
  obtain ⟨x, y, l, hl⟩ : ∃ x y l, q.stored = x :: y :: l := by
    match hq : q.stored with
    | [] | [_] =>
      rw [hq] at hlen
      simp only [length_nil, length_singleton] at hlen
      omega
    | x :: y :: l => exact ⟨x, y, l, rfl⟩
  rw [hl] at hhead hnext harc hasc hlen ⊢
  replace hhead : fresh t x = false := hhead
  replace hnext : fresh t y = true := hnext
  rw [filter_cons_of_neg (by simp [hhead]), filter_cons_of_pos hnext]
  cases l with
  | nil =>
    simp only [filter_nil, length_cons, length_nil] at hlen ⊢
    omega
  | cons z l =>
    simp only [length_cons] at hlen
    simp only [length_cons, getD_cons_succ, getD_cons_zero]
    have hmem : 1 < ((z :: l).filter (fresh t)).length + 1 ↔ ∃ n ∈ z :: l, fresh t n = true := by
      rw [Nat.lt_add_left_iff_pos, length_pos_iff_exists_mem]
      simp only [mem_filter]
    rw [hmem]
    constructor
    · rintro ⟨n, hn, hfresh⟩
      refine ⟨by omega, ?_⟩
      have hy := fresh_iff.mp hnext
      have hn' := fresh_iff.mp hfresh
      have hyz := hasc.getD_le (i := 1) (j := 2) (by omega) (by simp)
      have hzn : ahead b z.count ≤ ahead b n.count := by
        rcases mem_cons.mp hn with rfl | hn
        · exact le_rfl
        · exact rel_of_pairwise_cons hasc.of_cons.of_cons hn
      have := ahead_between (t := t) (harc n (by simp [mem_cons.mp hn])) hyz hzn
        (by simpa using by omega) (by omega)
      exact fresh_iff.mpr (by simp at this; omega)
    · rintro ⟨-, hz⟩
      exact ⟨z, mem_cons_self, hz⟩

/-- On every reachable queue that is not empty: with nothing to drop `jit_peek` is right, and when
the order of the nodes is determined it is right exactly if `PurgesRight` holds. -/
theorem jitPeek_spec_iff {env : Env} {ok : LgwPktTx → JitPktType → Prop} {q : JitQueue}
    (h : Reachable env ok q) (hpos : q.num_pkt ≠ 0) (t : Word) :
    ∃ r, jitPeek env q t = (.ok, some r)
      ∧ ((∀ n ∈ q.stored, outdated t n = false) → PeekSpec q t r)
      ∧ (Orderly q → (PeekSpec q t r ↔ PurgesRight q t)) := by
  have hbound := h.num_pkt_le
  refine ⟨jitPeekLocked env q t, jitPeek_of_ne_zero hpos t, ?_, ?_⟩
  · intro hnone
    exact peekSpec_of_fresh hbound (by omega) fun n hn => by rw [fresh, hnone n hn]; rfl
  · rintro ⟨⟨b, harc⟩, hnodup⟩
    have hasc := h.ordered b harc
    cases hhead : fresh t (q.stored.getD 0 .zero) with
    | true => exact iff_of_true (peekSpec_of_head hbound (by omega) harc hasc hhead) (.inl hhead)
    | false =>
      have hright : PurgesRight q t ↔ 2 < q.num_pkt ∧ fresh t (q.stored.getD 1 .zero) = true
          ∧ fresh t (q.stored.getD 2 .zero) = true
          ∧ ∀ n ∈ q.stored, fresh t n = true → txJitDelay.toNat ≤ ahead t n.count :=
        or_iff_right (by rw [hhead]; nofun)
      rw [hright]
      rcases Nat.lt_or_ge 1 q.num_pkt with htwo | hone
      · cases hnext : fresh t (q.stored.getD 1 .zero) with
        | false =>
          exact iff_of_false (not_peekSpec_of_stuck hbound htwo harc hasc hhead hnext) (by simp)
        | true =>
          have hlater := @laterBest_peekEnd env t b q hbound htwo harc hasc hhead hnext
          have hthird := fresh_third_iff hbound htwo harc hasc hhead hnext
          by_cases hmore : 1 < (q.stored.filter (fresh t)).length
          · rw [peekSpec_iff_of_later hbound hnodup hlater hmore]
            have hthird := hthird.mp hmore
            exact ⟨fun hnone => ⟨hthird.1, rfl, hthird.2, hnone⟩, fun hc => hc.2.2.2⟩
          · refine iff_of_false (not_peekSpec_of_single hlater (by omega)) ?_
            rintro ⟨hlt, -, hfresh, -⟩
            exact hmore (hthird.mpr ⟨hlt, hfresh⟩)
      · exact iff_of_false (not_peekSpec_of_one (by omega) hhead) fun hc => by omega

theorem jitPeek_spec_iff_sampleQueue :
    sampleQueue.num_pkt ≠ 0 ∧ (∀ n ∈ sampleQueue.stored, outdated 900000 n = false)
      ∧ Orderly sampleQueue ∧ ¬PurgesRight sampleQueue 1500000
      ∧ (∃ r, jitPeek .sample sampleQueue 900000 = (.ok, some r) ∧ PeekSpec sampleQueue 900000 r)
      ∧ ∃ r, jitPeek .sample sampleQueue 1500000 = (.ok, some r)
        ∧ ¬PeekSpec sampleQueue 1500000 r := by
  have hfresh : ∀ n ∈ sampleQueue.stored, outdated 900000 n = false := by decide
  have horderly : Orderly sampleQueue := ⟨⟨0, by unfold OnArc; decide⟩, by decide⟩
  have hwrong : ¬PurgesRight sampleQueue 1500000 := by decide
  obtain ⟨r, hr, hspec, -⟩ := jitPeek_spec_iff reachable_sampleQueue (by decide) 900000
  obtain ⟨r', hr', -, hiff⟩ := jitPeek_spec_iff reachable_sampleQueue (by decide) 1500000
  exact ⟨by decide, hfresh, horderly, hwrong, ⟨r, hr, hspec hfresh⟩,
    ⟨r', hr', fun hspec => hwrong ((hiff horderly).mp hspec)⟩⟩

/-- Both nodes of the sample queue are outdated once their departure times have passed. The function
drops the first one only, and reads the node in front of the array. -/
theorem jitPeek_keeps_outdated :
    Reachable .sample (Fits .sample) sampleQueue ∧ sampleQueue.num_pkt = 2
      ∧ (∀ n ∈ sampleQueue.stored, outdated 2000001 n = true)
      ∧ (jitPeekLocked .sample sampleQueue 2000001).queue.num_pkt = 1
      ∧ ⟨-1, 1⟩ ∈ (jitPeekLocked .sample sampleQueue 2000001).reads
      ∧ ¬PeekSpec sampleQueue 2000001 (jitPeekLocked .sample sampleQueue 2000001) := by
  refine ⟨reachable_sampleQueue, by decide, by decide, by decide, by decide, ?_⟩
  intro hspec
  have hlen := hspec.kept.length_eq
  revert hlen
  decide

end RutosSdk.Jit
