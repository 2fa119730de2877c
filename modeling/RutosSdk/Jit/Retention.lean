import RutosSdk.Jit.Peek

/-! # How long an accepted packet stays

`jit_enqueue` accepts a class A or B downlink up to and including `TX_MAX_ADVANCE_DELAY` ahead, and
a beacon or an immediate downlink at any distance, while `jit_peek` drops what is
`TX_MAX_ADVANCE_DELAY` ahead or more. An accepted packet is kept until it is dequeued exactly when
it lies strictly inside that delay on acceptance.
-/

namespace RutosSdk.Jit

open Hal Circular

/-- The runs of a queue from `q₀` on, with `jit_peek` at the allowed times only. The packets that
`jit_dequeue` handed out are kept in order. -/
inductive RunFrom (env : Env) (allowed : Word → Prop) (q₀ : JitQueue) :
    JitQueue → List (LgwPktTx × JitPktType) → Prop where
  | start : RunFrom env allowed q₀ q₀ []
  | enqueue {q : JitQueue} {out : List (LgwPktTx × JitPktType)} (time_us : Word)
      (packet : LgwPktTx) (ty : JitPktType) : RunFrom env allowed q₀ q out →
      RunFrom env allowed q₀ (jitEnqueue env q time_us packet ty).2.1 out
  | dequeue {q q' : JitQueue} {out : List (LgwPktTx × JitPktType)} {p : LgwPktTx × JitPktType}
      (index : ℕ) : RunFrom env allowed q₀ q out → index < q.num_pkt →
      jitDequeue env q index = (.ok, q', some p) → RunFrom env allowed q₀ q' (out ++ [p])
  | peek {q : JitQueue} {out : List (LgwPktTx × JitPktType)} (time_us : Word)
      {r : PeekResult} :
      RunFrom env allowed q₀ q out → allowed time_us → jitPeek env q time_us = (.ok, some r) →
      RunFrom env allowed q₀ r.queue out

/-! ## What the operations keep -/

variable {n : JitNode} {env : Env} {q : JitQueue}

theorem mem_eraseIdx_or {l : List JitNode} (hn : n ∈ l) {i : ℕ} (hi : i < l.length) :
    n = l.getD i .zero ∨ n ∈ l.eraseIdx i := by
  have hperm := List.getElem_cons_eraseIdx_perm hi
  rw [List.getD_eq_getElem l _ hi]
  exact List.mem_cons.mp (hperm.mem_iff.mpr hn)

/-- No enqueue removes a node. -/
theorem mem_stored_jitEnqueue (hbound : q.num_pkt ≤ jitQueueMax) (time_us : Word)
    (packet : LgwPktTx) (ty : JitPktType) (hn : n ∈ q.stored) :
    n ∈ (jitEnqueue env q time_us packet ty).2.1.stored := by
  rcases jitEnqueue_cases env q time_us packet ty with ⟨hne, -, heq⟩ | ⟨-, heq⟩
  · rw [heq]
    exact (perm_stored_insertNode _ (lt_of_le_of_ne hbound hne)).mem_iff.mpr
      (List.mem_cons_of_mem _ hn)
  · rw [heq]
    exact hn

/-- A search drops outdated nodes only. -/
theorem mem_stored_jitPeekLocked (hbound : q.num_pkt ≤ jitQueueMax) {u : Word}
    (hn : n ∈ q.stored) (hfresh : fresh u n = true) : n ∈ (jitPeekLocked env q u).queue.stored := by
  refine (jitPeekLocked_induction env u
    (P := fun q => q.num_pkt ≤ jitQueueMax ∧ n ∈ q.stored) (fun q hq => hq.1) ?_ ⟨hbound, hn⟩).2
  rintro q i ⟨hbound, hn⟩ hi hout
  have hlen := length_stored hbound
  refine ⟨num_pkt_removeNode_le i hbound hi, ?_⟩
  rcases mem_eraseIdx_or hn (hi.trans_eq hlen.symm) with rfl | hn
  · rw [fresh, hout] at hfresh
    cases hfresh
  · exact (perm_stored_removeNode i hbound hi).mem_iff.mpr hn

/-- A packet inside the delay at `t` is not outdated at any time up to its departure. -/
theorem fresh_upto {t u : Word} (h : ahead t n.count < 512000000)
    (hu : ahead t u ≤ ahead t n.count) : fresh u n = true := by
  rw [fresh_iff, ahead_sub_of_le hu]
  omega

/-- The run invariant: a packet inside the delay is stored or was handed out. -/
theorem RunFrom.stored_or_out {allowed : Word → Prop} {q₀ : JitQueue}
    {out : List (LgwPktTx × JitPktType)} (hrun : RunFrom env allowed q₀ q out)
    (hbound : q₀.num_pkt ≤ jitQueueMax) (hn : n ∈ q₀.stored)
    (hfresh : ∀ u, allowed u → fresh u n = true) :
    q.num_pkt ≤ jitQueueMax ∧ (n ∈ q.stored ∨ (n.pkt, n.pkt_type) ∈ out) := by
  induction hrun with
  | start => exact ⟨hbound, .inl hn⟩
  | enqueue time_us packet ty _ ih =>
    refine ⟨num_pkt_jitEnqueue_le ih.1 time_us packet ty, ?_⟩
    exact ih.2.imp_left (mem_stored_jitEnqueue ih.1 time_us packet ty)
  | @dequeue q q' out p index _ hindex heq ih =>
    rw [jitDequeue_of_lt ih.1 hindex] at heq
    cases heq
    refine ⟨num_pkt_removeNode_le index ih.1 hindex, ?_⟩
    rcases ih.2 with hn | hout
    · rcases mem_eraseIdx_or hn (hindex.trans_eq (length_stored ih.1).symm) with rfl | hn
      · exact .inr (List.mem_append_right _ List.mem_cons_self)
      · exact .inl ((perm_stored_removeNode index ih.1 hindex).mem_iff.mpr hn)
    · exact .inr (List.mem_append_left _ hout)
  | @peek q out u r _ hu heq ih =>
    obtain ⟨-, rfl⟩ := eq_of_jitPeek_eq heq
    refine ⟨num_pkt_jitPeekLocked_le ih.1 u, ?_⟩
    exact ih.2.imp_left fun hn => mem_stored_jitPeekLocked ih.1 hn (hfresh u hu)

/-! ## What is outdated goes -/

/-- A search of a queue with an outdated node drops at least one. -/
theorem num_pkt_jitPeekLocked_lt {env : Env} {q : JitQueue} (hbound : q.num_pkt ≤ jitQueueMax)
    {t : Word} {n : JitNode} (hn : n ∈ q.stored) (hout : fresh t n = false) :
    (jitPeekLocked env q t).queue.num_pkt < q.num_pkt := by
  have hlen := length_stored hbound
  -- until the first drop the search has seen fresh nodes only
  have hend : (peekEnd env q t).queue.num_pkt ≤ jitQueueMax
      ∧ ((peekEnd env q t).queue.num_pkt < q.num_pkt
        ∨ (peekEnd env q t).queue = q
          ∧ ∀ j < (peekEnd env q t).i, j < q.num_pkt →
            fresh t (q.stored.getD j .zero) = true) := by
    refine peekEnd_invariant (P := fun s => s.queue.num_pkt ≤ jitQueueMax
        ∧ (s.queue.num_pkt < q.num_pkt
          ∨ s.queue = q ∧ ∀ j < s.i, j < q.num_pkt → fresh t (q.stored.getD j .zero) = true))
      ?_ (.inl ⟨hbound, .inr ⟨rfl, fun j hj => absurd hj (Nat.not_lt_zero j)⟩⟩)
    rintro s ⟨hs, hcases⟩ hi
    refine ⟨num_pkt_peekStep_le hs hi, ?_⟩
    rcases peekStep_cases env t hs hi with ⟨-, hq, -⟩ | ⟨hnode, hq, hi'⟩
    · left
      rw [hq, num_pkt_removeNode s.i hs hi]
      rcases hcases with hlt | ⟨rfl, -⟩ <;> omega
    · rw [hq, hi']
      refine hcases.imp_right fun ⟨heq, hseen⟩ => ⟨heq, ?_⟩
      intro j hj hlt
      rcases Nat.lt_succ_iff_lt_or_eq.mp hj with hj | rfl
      · exact hseen j hj hlt
      · rw [← heq, fresh, hnode]
        rfl
  have hexit := @peekEnd_exit env t q hbound
  rcases hend.2 with hlt | ⟨heq, hseen⟩
  · exact hlt
  · obtain ⟨j, hj, rfl⟩ := List.mem_iff_getElem.mp hn
    rw [heq] at hexit
    rw [← List.getD_eq_getElem q.stored .zero hj, hseen j (by omega) (by omega)] at hout
    cases hout

/-- Searching again and again at one time leaves no outdated node. -/
theorem RunFrom.exists_all_fresh {env : Env} {allowed : Word → Prop} {q₀ : JitQueue}
    {t : Word} (ht : allowed t) (k : ℕ) {q : JitQueue} (hk : q.num_pkt ≤ k)
    (hrun : RunFrom env allowed q₀ q []) (hbound : q.num_pkt ≤ jitQueueMax) :
    ∃ q', RunFrom env allowed q₀ q' [] ∧ ∀ n ∈ q'.stored, fresh t n = true := by
  induction k generalizing q with
  | zero =>
    refine ⟨q, hrun, ?_⟩
    have hnil : q.stored = [] := List.length_eq_zero_iff.mp (by rw [length_stored hbound]; omega)
    rw [hnil]
    nofun
  | succ k ih =>
    by_cases hall : ∀ n ∈ q.stored, fresh t n = true
    · exact ⟨q, hrun, hall⟩
    · push Not at hall
      obtain ⟨n, hn, hout⟩ := hall
      have hlt := @num_pkt_jitPeekLocked_lt env q hbound t n hn (by simpa using hout)
      exact ih (by omega) (.peek t hrun ht (jitPeek_of_ne_zero (by omega) t))
        (num_pkt_jitPeekLocked_le hbound t)

/-! ## When an accepted packet stays -/

/-- A packet accepted at `t` is kept by every search up to its departure, whatever else happens to
the queue, until it is dequeued, exactly if it departs less than `TX_MAX_ADVANCE_DELAY` after `t`.
-/
theorem accepted_retained_iff {env : Env} {ok : LgwPktTx → JitPktType → Prop} {q : JitQueue}
    (h : Reachable env ok q) {t : Word} {packet : LgwPktTx} {ty : JitPktType}
    (hok : (jitEnqueue env q t packet ty).1 = .ok) :
    (∀ q' out,
      RunFrom env (fun u => ahead t u ≤ ahead t (timedPacket env q t packet ty).count_us)
        (jitEnqueue env q t packet ty).2.1 q' out →
      newNode env q t packet ty ∈ q'.stored ∨ (timedPacket env q t packet ty, ty) ∈ out)
    ↔ ahead t (timedPacket env q t packet ty).count_us < txMaxAdvanceDelay.toNat := by
  have hbound := @num_pkt_jitEnqueue_le env q h.num_pkt_le t packet ty
  have hmem : newNode env q t packet ty ∈ (jitEnqueue env q t packet ty).2.1.stored := by
    rcases jitEnqueue_cases env q t packet ty with ⟨hne, -, heq⟩ | ⟨hrej, -⟩
    · rw [heq]
      exact (perm_stored_insertNode _ (lt_of_le_of_ne h.num_pkt_le hne)).mem_iff.mpr
        List.mem_cons_self
    · exact absurd hok hrej
  constructor
  · intro hkeep
    have hself : ahead t t ≤ ahead t (timedPacket env q t packet ty).count_us := by simp
    obtain ⟨q', hrun, hfresh⟩ := @RunFrom.exists_all_fresh env
      (fun u => ahead t u ≤ ahead t (timedPacket env q t packet ty).count_us) _ t hself _ _ le_rfl
      .start hbound
    rcases hkeep q' [] hrun with hn | hout
    · exact fresh_iff.mp (hfresh _ hn)
    · cases hout
  · intro hlt q' out hrun
    exact (hrun.stored_or_out hbound hmem fun u hu => fresh_upto hlt hu).2

theorem accepted_retained_iff_samplePacket :
    (jitEnqueue .sample jitQueueInit 0 (samplePacket 1000000) .downlinkClassA).1 = .ok
      ∧ ∀ q' out,
        RunFrom .sample
          (fun u => ahead 0 u ≤ ahead 0
            (timedPacket .sample jitQueueInit 0 (samplePacket 1000000) .downlinkClassA).count_us)
          (jitEnqueue .sample jitQueueInit 0 (samplePacket 1000000) .downlinkClassA).2.1 q' out →
        newNode .sample jitQueueInit 0 (samplePacket 1000000) .downlinkClassA ∈ q'.stored
          ∨ (timedPacket .sample jitQueueInit 0 (samplePacket 1000000) .downlinkClassA,
              .downlinkClassA) ∈ out := by
  have hok : (jitEnqueue .sample jitQueueInit 0 (samplePacket 1000000) .downlinkClassA).1
      = .ok := by
    decide
  have hinit : Reachable .sample (Fits .sample) jitQueueInit := .init
  exact ⟨hok, (accepted_retained_iff hinit hok).mpr (by decide)⟩

/-- A class A downlink exactly at the limit and a beacon beyond it: both are accepted, and dropped
by a search at the very time they were accepted. -/
theorem accepted_dropped_at_once :
    (jitEnqueue .sample jitQueueInit 0 (samplePacket 512000000) .downlinkClassA).1 = .ok
      ∧ (jitPeekLocked .sample
          (jitEnqueue .sample jitQueueInit 0 (samplePacket 512000000) .downlinkClassA).2.1
          0).queue.num_pkt = 0
      ∧ (jitEnqueue .sample jitQueueInit 0 (samplePacket 600000000) .beacon).1 = .ok
      ∧ (jitPeekLocked .sample
          (jitEnqueue .sample jitQueueInit 0 (samplePacket 600000000) .beacon).2.1
          0).queue.num_pkt = 0 := by
  decide

end RutosSdk.Jit
