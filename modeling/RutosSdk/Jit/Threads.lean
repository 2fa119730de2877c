import RutosSdk.Jit.Peek

/-! # The threads that share a queue

Reference: `thread_down` and `thread_jit` in `packet_forwarder/src/lora_pkt_fwd.c`.

`thread_down` reads the concentrator time and enqueues a packet; `thread_jit` reads the time, peeks,
and dequeues the index it was given. Each lock is held for one section only, so between any two
sections of one thread the other may run: the steps below are the locked sections. The index that
`jit_peek` returned still means the same node at `jit_dequeue` if whatever was enqueued in between
departs later.
-/

namespace RutosSdk.Jit

open Hal Circular

/-! ## The two programs -/

/-- Where `thread_down` stands: `jit_enqueue` first asks whether the queue is full. -/
inductive DownPc where
  | idle
  | timed (time_us : Word) (packet : LgwPktTx) (ty : JitPktType)
  | notFull (time_us : Word) (packet : LgwPktTx) (ty : JitPktType)
deriving DecidableEq

/-- Where `thread_jit` stands: `jit_peek` and `jit_dequeue` first ask whether the queue is empty.
The node that was selected is kept for comparison; the program has its index only. -/
inductive JitPc where
  | idle
  | timed (time_us : Word)
  | notEmpty (time_us : Word)
  | peeked (pkt_index : ℤ) (selected : JitNode)
  | dequeuing (pkt_index : ℤ) (selected : JitNode)
deriving DecidableEq

/-- The index and the node that `thread_jit` is about to dequeue. -/
def JitPc.selection : JitPc → Option (ℤ × JitNode)
  | .peeked pkt_index selected | .dequeuing pkt_index selected => some (pkt_index, selected)
  | _ => none

/-- A dequeue: the node `jit_peek` selected, and the packet and type `jit_dequeue` handed out. -/
structure Sent where
  selected : JitNode
  pkt : LgwPktTx
  pkt_type : JitPktType
deriving DecidableEq

/-- The packet that was removed is the one that was selected. -/
def Sent.Matches (e : Sent) : Prop := e.pkt = e.selected.pkt ∧ e.pkt_type = e.selected.pkt_type

instance (e : Sent) : Decidable e.Matches := inferInstanceAs (Decidable (_ ∧ _))

/-- The queue, the last concentrator time read, the two threads, and the dequeues so far. -/
structure ThreadState where
  queue : JitQueue
  now : ℕ
  down : DownPc
  jit : JitPc
  sent : List Sent
deriving DecidableEq

def ThreadState.init : ThreadState := ⟨jitQueueInit, 0, .idle, .idle, []⟩

/-- The locked sections. A packet may come down at any time. -/
inductive ThreadAction where
  | downGetInstcnt (now : ℕ) (packet : LgwPktTx) (ty : JitPktType)
  | enqueueIsFull
  | enqueueLocked
  | jitGetInstcnt (now : ℕ)
  | peekIsEmpty
  | peekLocked
  | dequeueIsEmpty
  | dequeueLocked
deriving DecidableEq

variable (env : Env) (s : ThreadState)

/-- One section of one thread, if that is the section the thread is at. -/
def threadStep : ThreadAction → Option ThreadState
  | .downGetInstcnt now packet ty =>
    match s.down with
    | .idle =>
      if s.now ≤ now then
        some { s with now := now, down := .timed (BitVec.ofNat 32 now) packet ty }
      else none
    | _ => none
  | .enqueueIsFull =>
    match s.down with
    | .timed time_us packet ty =>
      some { s with
        down := if jitQueueIsFull s.queue then .idle else .notFull time_us packet ty }
    | _ => none
  | .enqueueLocked =>
    match s.down with
    | .notFull time_us packet ty =>
      some { s with
        queue := (jitEnqueueLocked env s.queue time_us packet ty).2.1
        down := .idle }
    | _ => none
  | .jitGetInstcnt now =>
    match s.jit with
    | .idle =>
      if s.now ≤ now then some { s with now := now, jit := .timed (BitVec.ofNat 32 now) }
      else none
    | _ => none
  | .peekIsEmpty =>
    match s.jit with
    | .timed time_us =>
      some { s with jit := if jitQueueIsEmpty s.queue then .idle else .notEmpty time_us }
    | _ => none
  | .peekLocked =>
    match s.jit with
    | .notEmpty time_us =>
      let r := jitPeekLocked env s.queue time_us
      some { s with
        queue := r.queue
        jit :=
          if r.pkt_idx > -1 then .peeked r.pkt_idx (nodeAt env r.queue r.pkt_idx) else .idle }
    | _ => none
  | .dequeueIsEmpty =>
    match s.jit with
    | .peeked pkt_index selected =>
      some { s with
        jit :=
          if pkt_index < 0 ∨ pkt_index ≥ jitQueueMax ∨ jitQueueIsEmpty s.queue then .idle
          else .dequeuing pkt_index selected }
    | _ => none
  | .dequeueLocked =>
    match s.jit with
    | .dequeuing pkt_index selected =>
      let (node, queue) := jitDequeueLocked env s.queue pkt_index.toNat
      some { s with
        queue := queue
        jit := .idle
        sent := s.sent ++ [⟨selected, node.pkt, node.pkt_type⟩] }
    | _ => none

/-- The states that interleavings of the two threads reach by steps that `ok` allows. -/
inductive ThreadRun (env : Env) (ok : ThreadState → ThreadAction → Prop) : ThreadState → Prop where
  | init : ThreadRun env ok .init
  | step {s s' : ThreadState} (a : ThreadAction) : ThreadRun env ok s → ok s a →
      threadStep env s a = some s' → ThreadRun env ok s'

/-- A run of the given sections. -/
def threadExec (l : List ThreadAction) : Option ThreadState := l.foldlM (threadStep env) s

theorem ThreadRun.exec {env : Env} {ok : ThreadState → ThreadAction → Prop} {l : List ThreadAction}
    {s s' : ThreadState} (h : ThreadRun env ok s) (hok : ∀ a ∈ l, ∀ s, ok s a)
    (hexec : threadExec env s l = some s') : ThreadRun env ok s' := by
  induction l generalizing s with
  | nil =>
    cases hexec
    exact h
  | cons a l ih =>
    rw [threadExec, List.foldlM_cons, Option.bind_eq_bind, Option.bind_eq_some_iff] at hexec
    obtain ⟨s₁, hstep, hrest⟩ := hexec
    exact ih (.step a h (hok a List.mem_cons_self s) hstep)
      (fun a' ha' => hok a' (List.mem_cons_of_mem a ha')) hrest

/-! ## Enqueuing behind the selected node -/

/-- The node `n` departs after the node at index `k`, and the departure times with that of `n` among
them are distinct and on an arc, so that the order is determined. -/
def LandsBehind (q : JitQueue) (k : ℤ) (n : JitNode) : Prop :=
  ∃ b, OnArc b (n :: q.stored) ∧ (q.stored.map JitNode.count).Nodup
    ∧ 0 ≤ k ∧ k < q.num_pkt
    ∧ ahead b (q.stored.getD k.toNat .zero).count < ahead b n.count

/-- A packet accepted between a peek and its dequeue departs after the selected node. -/
def Undisturbed (a : ThreadAction) : Prop :=
  ∀ time_us packet ty pkt_index selected, a = .enqueueLocked → s.down = .notFull time_us packet ty →
    s.jit.selection = some (pkt_index, selected) →
    (jitEnqueueLocked env s.queue time_us packet ty).1 = .ok →
    LandsBehind s.queue pkt_index (newNode env s.queue time_us packet ty)

theorem undisturbed_of_ne {env : Env} {s : ThreadState} {a : ThreadAction}
    (h : a ≠ .enqueueLocked) : Undisturbed env s a := fun _ _ _ _ _ ha => absurd ha h

/-- What every section of an undisturbed run preserves. -/
structure ThreadInv (env : Env) (s : ThreadState) : Prop where
  bound : s.queue.num_pkt ≤ jitQueueMax
  ordered : Ordered s.queue
  room : ∀ time_us packet ty, s.down = .notFull time_us packet ty → s.queue.num_pkt < jitQueueMax
  nonempty : ∀ time_us, s.jit = .notEmpty time_us → 0 < s.queue.num_pkt
  selected : ∀ pkt_index selected, s.jit.selection = some (pkt_index, selected) →
    nodeAt env s.queue pkt_index = selected
  inRange : ∀ pkt_index selected, s.jit = .dequeuing pkt_index selected →
    0 ≤ pkt_index ∧ pkt_index < jitQueueMax ∧ 0 < s.queue.num_pkt
  sent : ∀ e ∈ s.sent, e.Matches

theorem threadInv_init : ThreadInv env .init where
  bound := Nat.zero_le _
  ordered := fun _ _ => List.Pairwise.nil
  room _ _ _ h := by cases h
  nonempty _ h := by cases h
  selected _ _ h := by cases h
  inRange _ _ h := by cases h
  sent _ h := by cases h

section Steps

variable {env : Env} {s : ThreadState}

/-- `thread_down` moves on without touching the queue. -/
theorem ThreadInv.setDown (h : ThreadInv env s) (now : ℕ) (down : DownPc)
    (hroom : ∀ time_us packet ty, down = .notFull time_us packet ty →
      s.queue.num_pkt < jitQueueMax) :
    ThreadInv env { s with now := now, down := down } :=
  ⟨h.bound, h.ordered, hroom, h.nonempty, h.selected, h.inRange, h.sent⟩

/-- `thread_jit` moves on without touching the queue. -/
theorem ThreadInv.setJit (h : ThreadInv env s) (now : ℕ) {jit : JitPc}
    (hnonempty : ∀ time_us, jit = .notEmpty time_us → 0 < s.queue.num_pkt)
    (hselected : ∀ pkt_index selected, jit.selection = some (pkt_index, selected) →
      nodeAt env s.queue pkt_index = selected)
    (hrange : ∀ pkt_index selected, jit = .dequeuing pkt_index selected →
      0 ≤ pkt_index ∧ pkt_index < jitQueueMax ∧ 0 < s.queue.num_pkt) :
    ThreadInv env { s with now := now, jit := jit } :=
  ⟨h.bound, h.ordered, h.room, hnonempty, hselected, hrange, h.sent⟩

/-- The node at an index in use stays there when a node is stored behind it. -/
theorem nodeAt_insertNode {q : JitQueue} {k : ℤ} {n : JitNode} (hordered : Ordered q)
    (hlt : q.num_pkt < jitQueueMax) (hbehind : LandsBehind q k n) :
    nodeAt env (insertNode env q n) k = nodeAt env q k := by
  obtain ⟨b, harc, hnodup, hk, hkn, hafter⟩ := hbehind
  obtain ⟨k, rfl⟩ := Int.eq_ofNat_of_zero_le hk
  have hnum := @num_pkt_insertNode env q n hlt
  rw [nodeAt_natCast (by omega) (by omega), nodeAt_natCast hlt.le (by omega)]
  exact getD_insertNode_of_lt env hordered hlt (by omega) harc hnodup hafter

/-- A node that lands behind the selected one. -/
theorem ThreadInv.enqueueLocked (h : ThreadInv env s) {time_us : Word} {packet : LgwPktTx}
    {ty : JitPktType} (hdown : s.down = .notFull time_us packet ty)
    (hok : Undisturbed env s .enqueueLocked) :
    ThreadInv env { s with
      queue := (jitEnqueueLocked env s.queue time_us packet ty).2.1, down := .idle } := by
  have hlt := h.room _ _ _ hdown
  rcases jitEnqueueLocked_cases env s.queue time_us packet ty with ⟨hacc, heq⟩ | ⟨-, heq⟩
  · have hnum := @num_pkt_insertNode env s.queue (newNode env s.queue time_us packet ty) hlt
    rw [heq]
    refine ⟨?_, ordered_insertNode env _ hlt, ?_, ?_, ?_, ?_, h.sent⟩
    · dsimp only
      omega
    · intro time_us' packet' ty' hdown'
      cases hdown'
    · intro time_us' hjit
      dsimp only
      omega
    · intro pkt_index selected hsel
      rw [← h.selected pkt_index selected hsel]
      exact nodeAt_insertNode h.ordered hlt
        (hok time_us packet ty pkt_index selected rfl hdown hsel (by rw [heq]))
    · intro pkt_index selected hjit
      have := h.inRange pkt_index selected hjit
      dsimp only
      omega
  · rw [heq]
    exact h.setDown s.now .idle fun _ _ _ h => by cases h

/-- A search leaves the queue in order and no longer than it was. -/
theorem jitPeekLocked_queue {q : JitQueue} (hbound : q.num_pkt ≤ jitQueueMax) (hordered : Ordered q)
    (time_us : Word) :
    (jitPeekLocked env q time_us).queue.num_pkt ≤ q.num_pkt
      ∧ Ordered (jitPeekLocked env q time_us).queue := by
  refine jitPeekLocked_induction env time_us
    (P := fun q' => q'.num_pkt ≤ q.num_pkt ∧ Ordered q') (fun q' hq' => hq'.1.trans hbound) ?_
    ⟨le_rfl, hordered⟩
  intro q' i hq' hi _
  have hbound' := hq'.1.trans hbound
  refine ⟨?_, ordered_removeNode env i hbound' (Nat.zero_lt_of_lt hi)⟩
  rw [num_pkt_removeNode i hbound' hi]
  omega

theorem ThreadInv.peekLocked (h : ThreadInv env s) (time_us : Word) (jit : JitPc)
    (hjit : jit = .idle
      ∨ ∃ k, jit = .peeked k (nodeAt env (jitPeekLocked env s.queue time_us).queue k)) :
    ThreadInv env { s with queue := (jitPeekLocked env s.queue time_us).queue, jit := jit } := by
  obtain ⟨hle, hordered⟩ := @jitPeekLocked_queue env s.queue h.bound h.ordered time_us
  refine ⟨hle.trans h.bound, hordered, ?_, ?_, ?_, ?_, h.sent⟩
  · intro time_us' packet ty hdown
    exact lt_of_le_of_lt hle (h.room _ _ _ hdown)
  all_goals rcases hjit with rfl | ⟨k, rfl⟩
  · intro time_us' h
    cases h
  · intro time_us' h
    cases h
  · intro pkt_index selected hsel
    cases hsel
  · intro pkt_index selected hsel
    cases hsel
    rfl
  · intro pkt_index selected h
    cases h
  · intro pkt_index selected h
    cases h

/-- The selected node is removed. -/
theorem ThreadInv.dequeueLocked (h : ThreadInv env s) {pkt_index : ℤ} {selected : JitNode}
    (hjit : s.jit = .dequeuing pkt_index selected) :
    ThreadInv env { s with
      queue := removeNode env s.queue pkt_index.toNat
      jit := .idle
      sent := s.sent ++ [⟨selected, (s.queue.nodes.getD pkt_index.toNat .zero).pkt,
        (s.queue.nodes.getD pkt_index.toNat .zero).pkt_type⟩] } := by
  obtain ⟨hzero, hmax, hpos⟩ := h.inRange pkt_index selected hjit
  have hnum := @num_pkt_removeNode_of_pos env s.queue pkt_index.toNat h.bound hpos
  have hbound := h.bound
  have hnode : s.queue.nodes.getD pkt_index.toNat .zero = selected := by
    rw [← h.selected pkt_index selected (by rw [hjit]; rfl), nodeAt, if_pos ⟨hzero, hmax⟩]
  refine ⟨?_, ?_, ?_, ?_, ?_, ?_, ?_⟩
  · dsimp only
    omega
  · exact ordered_removeNode env pkt_index.toNat h.bound hpos
  · intro time_us packet ty hdown
    dsimp only
    omega
  · intro time_us hjit
    cases hjit
  · intro pkt_index selected hsel
    cases hsel
  · intro pkt_index selected hjit
    cases hjit
  · intro e he
    rcases List.mem_append.mp he with he | he
    · exact h.sent e he
    · obtain rfl := List.mem_singleton.mp he
      rw [hnode]
      exact ⟨rfl, rfl⟩

/-- `jit_peek` goes on if the queue is not empty. -/
theorem ThreadInv.peekIsEmpty (h : ThreadInv env s) (time_us : Word) :
    ThreadInv env
      { s with jit := if jitQueueIsEmpty s.queue then .idle else .notEmpty time_us } := by
  refine h.setJit s.now ?_ ?_ ?_
  · intro time_us hjit
    split at hjit
    · cases hjit
    · rename_i hempty
      exact Nat.pos_of_ne_zero (by simpa [jitQueueIsEmpty] using hempty)
  · intro pkt_index selected hsel
    split at hsel <;> cases hsel
  · intro pkt_index selected hjit
    split at hjit <;> cases hjit

/-- `jit_dequeue` goes on with an index that is in range. -/
theorem ThreadInv.dequeueIsEmpty (h : ThreadInv env s) {pkt_index : ℤ} {selected : JitNode}
    (hjit : s.jit = .peeked pkt_index selected) :
    ThreadInv env { s with
      jit :=
        if pkt_index < 0 ∨ pkt_index ≥ jitQueueMax ∨ jitQueueIsEmpty s.queue then .idle
        else .dequeuing pkt_index selected } := by
  refine h.setJit s.now ?_ ?_ ?_
  · intro time_us hjit'
    split at hjit' <;> cases hjit'
  · intro pkt_index' selected' hsel
    split at hsel <;> cases hsel
    exact h.selected pkt_index selected (by rw [hjit]; rfl)
  · intro pkt_index' selected' hjit'
    split at hjit' <;> cases hjit'
    rename_i hguard
    push Not at hguard
    have hpos : s.queue.num_pkt ≠ 0 := by simpa [jitQueueIsEmpty] using hguard.2.2
    exact ⟨hguard.1, hguard.2.1, by omega⟩

/-- Every section of either thread keeps the invariant, if it does not disturb the selection. -/
theorem ThreadInv.threadStep (h : ThreadInv env s) {a : ThreadAction} {s' : ThreadState}
    (hok : Undisturbed env s a) (hstep : threadStep env s a = some s') : ThreadInv env s' := by
  cases a with
  | downGetInstcnt now packet ty =>
    simp only [Jit.threadStep] at hstep
    split at hstep <;> try split at hstep
    all_goals cases hstep
    exact h.setDown now _ fun _ _ _ h => by cases h
  | enqueueIsFull =>
    simp only [Jit.threadStep] at hstep
    split at hstep <;> cases hstep
    refine h.setDown s.now _ ?_
    intro time_us packet ty hdown
    split at hdown
    · cases hdown
    · rename_i hfull
      exact lt_of_le_of_ne h.bound (by simpa [jitQueueIsFull] using hfull)
  | enqueueLocked =>
    simp only [Jit.threadStep] at hstep
    split at hstep <;> cases hstep
    rename_i hdown
    exact h.enqueueLocked hdown hok
  | jitGetInstcnt now =>
    simp only [Jit.threadStep] at hstep
    split at hstep <;> try split at hstep
    all_goals cases hstep
    exact h.setJit now (fun _ h => by cases h) (fun _ _ h => by cases h) fun _ _ h => by cases h
  | peekIsEmpty =>
    simp only [Jit.threadStep] at hstep
    split at hstep <;> cases hstep
    exact h.peekIsEmpty _
  | peekLocked =>
    simp only [Jit.threadStep] at hstep
    split at hstep <;> cases hstep
    refine h.peekLocked _ _ ?_
    split
    · exact .inr ⟨_, rfl⟩
    · exact .inl rfl
  | dequeueIsEmpty =>
    simp only [Jit.threadStep] at hstep
    split at hstep <;> cases hstep
    rename_i hjit
    exact h.dequeueIsEmpty hjit
  | dequeueLocked =>
    simp only [Jit.threadStep, jitDequeueLocked] at hstep
    split at hstep <;> cases hstep
    rename_i hjit
    exact h.dequeueLocked hjit

end Steps

/-- In every interleaving in which what is accepted between a peek and its dequeue departs after the
selected packet, `jit_dequeue` removes the packet that `jit_peek` selected. -/
theorem undisturbed_run_matches {env : Env} {s : ThreadState}
    (h : ThreadRun env (Undisturbed env) s) : ∀ e ∈ s.sent, e.Matches := by
  have hinv : ThreadInv env s := by
    induction h with
    | init => exact threadInv_init env
    | step a _ hok hstep ih => exact ih.threadStep hok hstep
  exact hinv.sent

/-! ## Two runs -/

/-- A downlink at 143 ms is stored. -/
def sampleStored : List ThreadAction :=
  [.downGetInstcnt 0 (samplePacket 143000) .downlinkClassA, .enqueueIsFull, .enqueueLocked]

/-- With another downlink `thread_down` reads the time and stops before its lock; `thread_jit` peeks
at 110 ms and selects the one that is stored. -/
def sampleSelected (count_us : Word) : List ThreadAction :=
  [.downGetInstcnt 0 (samplePacket count_us) .downlinkClassA, .enqueueIsFull,
    .jitGetInstcnt 110000, .peekIsEmpty, .peekLocked]

/-- The downlink of `thread_down` is stored, and then `thread_jit` dequeues. -/
def sampleDequeued : List ThreadAction := [.enqueueLocked, .dequeueIsEmpty, .dequeueLocked]

/-- The state after the given sections. -/
def sampleAfter (l : List ThreadAction) : ThreadState := (threadExec .sample .init l).getD .init

theorem undisturbed_run_matches_sampleStored :
    ∃ s, ThreadRun .sample (Undisturbed .sample) s ∧ s.sent.length = 1
      ∧ ∀ e ∈ s.sent, e.Matches := by
  have h₁ : ThreadRun .sample (Undisturbed .sample) (sampleAfter (sampleStored.take 2)) :=
    ThreadRun.init.exec (l := sampleStored.take 2)
      (fun a ha s => undisturbed_of_ne (by rintro rfl; revert ha; decide)) rfl
  have h₂ : ThreadRun .sample (Undisturbed .sample) (sampleAfter sampleStored) :=
    .step .enqueueLocked h₁ (fun _ _ _ _ _ _ _ hsel => by cases hsel) rfl
  have h₃ : ThreadRun .sample (Undisturbed .sample)
      (sampleAfter (sampleStored ++ sampleSelected 400000)) :=
    h₂.exec (l := sampleSelected 400000)
      (fun a ha s => undisturbed_of_ne (by rintro rfl; revert ha; decide)) rfl
  -- the downlink at 400 ms is stored behind the one at 143 ms
  have h₄ : ThreadRun .sample (Undisturbed .sample)
      (sampleAfter (sampleStored ++ sampleSelected 400000 ++ [.enqueueLocked])) := by
    refine .step .enqueueLocked h₃ ?_ rfl
    intro time_us packet ty pkt_index selected _ hdown hsel _
    cases hdown
    have hindex : (sampleAfter (sampleStored ++ sampleSelected 400000)).jit.selection.map Prod.fst
        = some 0 := by decide
    rw [hsel] at hindex
    cases hindex
    exact ⟨0, by unfold OnArc; decide, by decide, by decide, by decide, by decide⟩
  have h₅ : ThreadRun .sample (Undisturbed .sample)
      (sampleAfter (sampleStored ++ sampleSelected 400000 ++ sampleDequeued)) :=
    h₄.exec (l := [.dequeueIsEmpty, .dequeueLocked])
      (fun a ha s => undisturbed_of_ne (by rintro rfl; revert ha; decide)) rfl
  exact ⟨_, h₅, by decide, undisturbed_run_matches h₅⟩

/-- The time that `thread_down` read has gone stale: a downlink at 43 ms is accepted at 110 ms, is
stored in front of the selected one, and is dequeued in its place. -/
theorem stale_enqueue_mismatch :
    ∃ s, ThreadRun .sample (fun _ _ => True) s
      ∧ ∃ e ∈ s.sent, e.selected.count = 143000 ∧ e.pkt.count_us = 43000 ∧ ¬e.Matches := by
  refine ⟨sampleAfter (sampleStored ++ sampleSelected 43000 ++ sampleDequeued),
    ThreadRun.init.exec (l := sampleStored ++ sampleSelected 43000 ++ sampleDequeued)
      (fun _ _ _ => trivial) rfl, ?_⟩
  decide

end RutosSdk.Jit
