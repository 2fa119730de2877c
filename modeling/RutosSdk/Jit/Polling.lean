import RutosSdk.Jit.Retention

/-! # A polled queue sends every packet in time

`thread_jit` peeks every 10 ms or more often, and dequeues at most one packet each time. Time is an
ideal counter here, of which the concentrator shows the low 32 bits; an accepted packet has an ideal
deadline. Between two polls, all stored packets depart 40 ms or more after the last one, except for
one beacon that a class A or C downlink was placed in front of: the relaxed guard lets the two fall
into one window, and then the beacon still has more than 32.5 ms left when its predecessor leaves.
-/

namespace RutosSdk.Jit

open List Hal Circular

/-! ## Runs in ideal time -/

/-- A packet with the ideal instant of its departure. -/
structure Job where
  pkt : LgwPktTx
  pkt_type : JitPktType
  deadline : ℕ
deriving DecidableEq

/-- The job that a packet is when the ideal time is `T`. -/
def jobAt (T : ℕ) (pkt : LgwPktTx) (pkt_type : JitPktType) : Job :=
  ⟨pkt, pkt_type, instant T pkt.count_us⟩

/-- The queue, the time, the time of the last poll, the jobs accepted, and the jobs dequeued with
the time of the poll that did it. -/
structure PollState where
  queue : JitQueue
  now : ℕ
  lastPoll : ℕ
  accepted : List Job
  sent : List (ℕ × Job)
deriving DecidableEq

/-- `jit_enqueue` at time `T`. -/
def enqueueAt (env : Env) (s : PollState) (T : ℕ) (packet : LgwPktTx) (ty : JitPktType) :
    PollState :=
  let (err, queue, pkt) := jitEnqueue env s.queue (BitVec.ofNat 32 T) packet ty
  { s with
    queue := queue
    now := T
    accepted := if err = .ok then s.accepted ++ [jobAt T pkt ty] else s.accepted }

/-- The peek-then-dequeue step of `thread_jit` at time `T`. -/
def pollAt (env : Env) (s : PollState) (T : ℕ) : PollState :=
  match jitPeek env s.queue (BitVec.ofNat 32 T) with
  | (.ok, some r) =>
    if r.pkt_idx > -1 then
      match jitDequeue env r.queue r.pkt_idx with
      | (.ok, queue, some (pkt, ty)) =>
        ⟨queue, T, T, s.accepted, s.sent ++ [(T, jobAt T pkt ty)]⟩
      | (_, queue, _) => ⟨queue, T, T, s.accepted, s.sent⟩
    else ⟨r.queue, T, T, s.accepted, s.sent⟩
  | _ => ⟨s.queue, T, T, s.accepted, s.sent⟩

/-- `wait_ms(10)`, in microseconds. -/
def pollInterval : ℕ := 10000

/-- The runs with polls at most `pollInterval` apart, of packets that `ok` allows, in which every
accepted packet lies less than `TX_MAX_ADVANCE_DELAY` ahead. -/
inductive PollRun (env : Env) (ok : LgwPktTx → JitPktType → Prop) : PollState → Prop where
  | init (T : ℕ) : PollRun env ok ⟨jitQueueInit, T, T, [], []⟩
  | enqueue {s : PollState} (T : ℕ) (packet : LgwPktTx) (ty : JitPktType) :
      PollRun env ok s → s.now ≤ T → T ≤ s.lastPoll + pollInterval → ok packet ty →
      ((jitEnqueue env s.queue (BitVec.ofNat 32 T) packet ty).1 = .ok →
        ahead (BitVec.ofNat 32 T)
            (jitEnqueue env s.queue (BitVec.ofNat 32 T) packet ty).2.2.count_us
          < txMaxAdvanceDelay.toNat) →
      PollRun env ok (enqueueAt env s T packet ty)
  | poll {s : PollState} (T : ℕ) : PollRun env ok s → s.now ≤ T → T ≤ s.lastPoll + pollInterval →
      PollRun env ok (pollAt env s T)

/-! ## The invariant -/

/-- What holds at any time between two polls. -/
structure Polled (s : PollState) : Prop where
  spaced : Spaced s.queue
  since : s.lastPoll ≤ s.now
  soon : s.now ≤ s.lastPoll + pollInterval
  fresh : ∀ n ∈ s.queue.stored, ahead (BitVec.ofNat 32 s.now) n.count < 512000000
  late : ∀ n ∈ s.queue.stored, s.lastPoll + 32500 < instant s.now n.count
  early : ∀ n ∈ s.queue.stored, instant s.now n.count < s.lastPoll + 40000 → n.pkt_type = .beacon
  ledger : s.accepted.Perm
    (s.sent.map Prod.snd ++ s.queue.stored.map fun n => jobAt s.now n.pkt n.pkt_type)
  sent : ∀ e ∈ s.sent, e.1 < e.2.deadline ∧ e.2.deadline < e.1 + 40000

theorem polled_init (T : ℕ) : Polled ⟨jitQueueInit, T, T, [], []⟩ where
  spaced := spaced_jitQueueInit
  since := le_rfl
  soon := Nat.le_add_right _ _
  fresh _ h := by cases h
  late _ h := by cases h
  early _ h := by cases h
  ledger := .refl _
  sent _ h := by cases h

variable {T : ℕ} {s : PollState} {env : Env} {m : JitNode}

/-- Up to the next poll time can pass without a deadline being missed. -/
theorem Polled.wait (h : Polled s) (hT : s.now ≤ T) (hT' : T ≤ s.lastPoll + pollInterval) :
    Polled { s with now := T } := by
  have hnext : T ≤ s.lastPoll + 10000 := hT'
  have hinst : ∀ n ∈ s.queue.stored, instant T n.count = instant s.now n.count := fun n hn =>
    instant_eq_of_le hT (by have := h.late n hn; omega)
  refine ⟨h.spaced, h.since.trans hT, hT', ?_, ?_, ?_, ?_, h.sent⟩
  · intro n hn
    have heq := hinst n hn
    have := h.fresh n hn
    have := instant_sub T n.count
    have := instant_sub s.now n.count
    dsimp only
    omega
  · intro n hn
    rw [hinst n hn]
    exact h.late n hn
  · intro n hn
    rw [hinst n hn]
    exact h.early n hn
  · have hmap : (s.queue.stored.map fun n => jobAt T n.pkt n.pkt_type)
        = s.queue.stored.map fun n => jobAt s.now n.pkt n.pkt_type := by
      refine map_congr_left fun n hn => ?_
      rw [jobAt, jobAt, hinst n hn]
    rw [hmap]
    exact h.ledger

/-- The jobs stored change with the nodes. -/
theorem jobs_perm {l l' : List JitNode} (h : l.Perm l') :
    (l.map fun n => jobAt T n.pkt n.pkt_type).Perm (l'.map fun n => jobAt T n.pkt n.pkt_type) :=
  h.map _

/-- An accepted packet is stored more than the JIT delay ahead, and keeps the invariant. -/
theorem Polled.inserted (h : Polled s) {n : JitNode} (hlt : s.queue.num_pkt < jitQueueMax)
    (hspaced : Spaced (insertNode env s.queue n))
    (hlate : 42500 < ahead (BitVec.ofNat 32 s.now) n.count)
    (hnear : ahead (BitVec.ofNat 32 s.now) n.count < 512000000) :
    Polled ⟨insertNode env s.queue n, s.now, s.lastPoll,
      s.accepted ++ [jobAt s.now n.pkt n.pkt_type], s.sent⟩ := by
  have hperm := @perm_stored_insertNode env s.queue n hlt
  have hlate : s.now + 42500 < instant s.now n.count := Nat.add_lt_add_left hlate s.now
  have hsince := h.since
  have hmem : ∀ m ∈ (insertNode env s.queue n).stored, m = n ∨ m ∈ s.queue.stored := fun m hm =>
    mem_cons.mp (hperm.mem_iff.mp hm)
  refine ⟨hspaced, h.since, h.soon, ?_, ?_, ?_, ?_, h.sent⟩
  · intro m hm
    rcases hmem m hm with rfl | hm
    · exact hnear
    · exact h.fresh m hm
  · intro m hm
    rcases hmem m hm with rfl | hm
    · dsimp only
      omega
    · exact h.late m hm
  · intro m hm hearly
    rcases hmem m hm with rfl | hm
    · dsimp only at hearly
      omega
    · exact h.early m hm hearly
  · refine (h.ledger.append_right _).trans ?_
    rw [append_assoc]
    refine List.Perm.append_left _ ?_
    exact (perm_append_singleton _ _).trans (jobs_perm hperm).symm

theorem Polled.enqueueAt (h : Polled s) {packet : LgwPktTx} {ty : JitPktType}
    (hfits : Fits env packet ty)
    (hnear : (jitEnqueue env s.queue (BitVec.ofNat 32 s.now) packet ty).1 = .ok →
      ahead (BitVec.ofNat 32 s.now)
        (jitEnqueue env s.queue (BitVec.ofNat 32 s.now) packet ty).2.2.count_us < 512000000) :
    Polled (enqueueAt env s s.now packet ty) := by
  unfold Jit.enqueueAt
  rcases jitEnqueue_cases env s.queue (BitVec.ofNat 32 s.now) packet ty with
    ⟨hne, hacc, heq⟩ | ⟨hrej, heq⟩
  · rw [heq] at hnear ⊢
    have hlt := lt_of_le_of_ne h.spaced.bound hne
    dsimp only
    rw [if_pos rfl]
    exact h.inserted hlt
      (h.spaced.insertNode hlt (nodeFits_newNode hfits) hacc.no_collision) hacc.not_late
      (hnear rfl)
  · have hout : (jitEnqueue env s.queue (BitVec.ofNat 32 s.now) packet ty).1 = .ok ↔ False :=
      iff_of_false hrej not_false
    simp only [heq, hout, if_false]
    exact h

/-! ## A poll -/

/-- Two stored packets in ideal time: the later one leaves the earlier its air time and its own
guard free. -/
theorem Follows.instant_lt {n : JitNode} (h : Follows n m)
    (hle : instant T n.count ≤ instant T m.count) :
    instant T n.count + n.post_delay.toNat + guardBefore n.pkt_type m + 1000
      < instant T m.count := by
  have h' : n.post_delay.toNat + guardBefore n.pkt_type m + 1000 < ahead n.count m.count := h
  rw [ahead_eq_instant_sub hle] at h'
  omega

/-- In front of anything but a beacon the JIT delay is left free as well. -/
theorem guardBefore_of_ne (hm : NodeFits m) (hne : m.pkt_type ≠ .beacon) (ty : JitPktType) :
    guardBefore ty m = 41500 := by
  rw [guardBefore, targetPreDelay, if_neg fun h => hne h.2, hm.pre, toNat_packetPreDelay,
    if_neg hne]

/-- What remains once the earliest packet has left at a poll. -/
theorem Polled.remaining (h : Polled s) {x : JitNode} (hx : x ∈ s.queue.stored) (hm : NodeFits m)
    (hxm : Apart x m) (hle : instant s.now x.count ≤ instant s.now m.count) :
    s.now + 32500 < instant s.now m.count
      ∧ (instant s.now m.count < s.now + 40000 → m.pkt_type = .beacon) := by
  have hsoon : s.now ≤ s.lastPoll + 10000 := h.soon
  have hgap := hxm.1.instant_lt hle
  have hguard := toNat_targetPreDelay x.pkt_type hm
  have hlate := h.late x hx
  constructor
  · by_cases hearly : instant s.now x.count < s.lastPoll + 40000
    · -- the one early packet is a beacon, which reserves more than two seconds
      have hpost := (h.spaced.fits x hx).beacon (h.early x hx hearly)
      rw [hpost, toNat_beaconReserved] at hgap
      omega
    · omega
  · intro hearly
    by_contra hne
    rw [guardBefore_of_ne hm hne] at hgap
    omega

/-- A poll that sends the earliest packet keeps the invariant. -/
theorem Polled.dequeued (h : Polled s) {rest : JitQueue} {x : JitNode} (hspaced : Spaced rest)
    (hrest : (x :: rest.stored).Perm s.queue.stored)
    (hdue : ahead (BitVec.ofNat 32 s.now) x.count < 40000) (hmin : ∀ m ∈ s.queue.stored,
      ahead (BitVec.ofNat 32 s.now) x.count ≤ ahead (BitVec.ofNat 32 s.now) m.count) :
    Polled ⟨rest, s.now, s.now, s.accepted, s.sent ++ [(s.now, jobAt s.now x.pkt x.pkt_type)]⟩ := by
  have hxmem : x ∈ s.queue.stored := hrest.mem_iff.mp mem_cons_self
  have hmem : ∀ m ∈ rest.stored, m ∈ s.queue.stored := fun m hm =>
    hrest.mem_iff.mp (mem_cons_of_mem x hm)
  have hapart := (hrest.pairwise_iff Apart.symm).mpr h.spaced.apart
  have hremain : ∀ m ∈ rest.stored, s.now + 32500 < instant s.now m.count
      ∧ (instant s.now m.count < s.now + 40000 → m.pkt_type = .beacon) := by
    intro m hm
    exact h.remaining hxmem (h.spaced.fits m (hmem m hm)) (rel_of_pairwise_cons hapart hm)
      (Nat.add_le_add_left (hmin m (hmem m hm)) s.now)
  refine ⟨hspaced, le_rfl, Nat.le_add_right _ _, fun m hm => h.fresh m (hmem m hm),
    fun m hm => (hremain m hm).1, fun m hm => (hremain m hm).2, ?_, ?_⟩
  · refine h.ledger.trans ?_
    rw [map_append, append_assoc]
    exact (jobs_perm hrest.symm).append_left _
  · intro e he
    rcases mem_append.mp he with he | he
    · exact h.sent e he
    · obtain rfl := mem_singleton.mp he
      have hlate := h.late x hxmem
      have hdue' : instant s.now x.count < s.now + 40000 := Nat.add_lt_add_left hdue s.now
      have hsoon : s.now ≤ s.lastPoll + 10000 := h.soon
      exact ⟨by change s.now < instant s.now x.count; omega, hdue'⟩

/-- A poll that finds nothing due keeps the invariant. -/
theorem Polled.waited (h : Polled s) {q : JitQueue} (hspaced : Spaced q)
    (hkept : q.stored.Perm s.queue.stored)
    (hnone : ∀ m ∈ q.stored, 40000 ≤ ahead (BitVec.ofNat 32 s.now) m.count) :
    Polled ⟨q, s.now, s.now, s.accepted, s.sent⟩ := by
  have hmem : ∀ m ∈ q.stored, m ∈ s.queue.stored := fun m hm => hkept.mem_iff.mp hm
  have hlate : ∀ m ∈ q.stored, s.now + 40000 ≤ instant s.now m.count := fun m hm =>
    Nat.add_le_add_left (hnone m hm) s.now
  refine ⟨hspaced, le_rfl, Nat.le_add_right _ _, fun m hm => h.fresh m (hmem m hm), ?_, ?_,
    h.ledger.trans ((jobs_perm hkept.symm).append_left _), h.sent⟩
  · intro m hm
    have := hlate m hm
    dsimp only
    omega
  · intro m hm hsoon
    have := hlate m hm
    dsimp only at hsoon
    omega

/-- A poll keeps the invariant. -/
theorem Polled.pollAt (h : Polled s) : Polled (pollAt env s s.now) := by
  have hbound := h.spaced.bound
  unfold Jit.pollAt
  by_cases hzero : s.queue.num_pkt = 0
  · have hnil : s.queue.stored = [] :=
      length_eq_zero_iff.mp (by rw [length_stored hbound, hzero])
    rw [jitPeek, if_pos (by rw [jitQueueIsEmpty, hzero]; rfl)]
    exact h.waited h.spaced (.refl _) (by rw [hnil]; exact forall_mem_nil _)
  rw [jitPeek_of_ne_zero hzero]
  dsimp only
  -- nothing is outdated, so the search keeps everything and finds the earliest
  have hspec : PeekSpec s.queue (BitVec.ofNat 32 s.now)
      (jitPeekLocked env s.queue (BitVec.ofNat 32 s.now)) :=
    peekSpec_of_fresh hbound (by omega) fun n hn => fresh_iff.mpr (h.fresh n hn)
  have hspaced : Spaced (jitPeekLocked env s.queue (BitVec.ofNat 32 s.now)).queue :=
    jitPeekLocked_induction env _ (fun q hq => hq.bound) (fun q i hq hi _ => hq.removeNode hi)
      h.spaced
  obtain ⟨hkept, -, hselects⟩ := hspec
  generalize jitPeekLocked env s.queue (BitVec.ofNat 32 s.now) = r at hkept hselects hspaced ⊢
  have hfresh : s.queue.stored.filter (Jit.fresh (BitVec.ofNat 32 s.now)) = s.queue.stored :=
    filter_eq_self.mpr fun n hn => fresh_iff.mpr (h.fresh n hn)
  rw [hfresh] at hkept
  rcases hselects with ⟨i, hi, hlt, hdue, hmin⟩ | ⟨hi, hnone⟩
  · rw [length_stored hspaced.bound] at hlt
    have hlen := length_stored hspaced.bound
    rw [hi, if_pos (by omega), jitDequeue_of_lt hspaced.bound hlt]
    dsimp only
    have hrest : (r.queue.stored.getD i .zero :: (removeNode env r.queue i).stored).Perm
        s.queue.stored := by
      refine ((perm_stored_removeNode i hspaced.bound hlt).cons _).trans (.trans ?_ hkept)
      rw [getD_eq_getElem _ _ (by omega)]
      exact getElem_cons_eraseIdx_perm (by omega)
    exact h.dequeued (hspaced.removeNode hlt) hrest hdue fun m hm =>
      hmin m (hkept.mem_iff.mpr hm)
  · rw [hi, if_neg (by omega)]
    exact h.waited hspaced hkept hnone

/-! ## Every run -/

theorem PollRun.polled (h : PollRun env (Fits env) s) : Polled s := by
  induction h with
  | init T => exact polled_init T
  | enqueue T packet ty _ hT hT' hfits hnear ih =>
    exact (ih.wait hT hT').enqueueAt hfits hnear
  | poll T _ hT hT' ih =>
    exact (ih.wait hT hT').pollAt

/-- In a queue polled at most 10 ms apart, every accepted packet is dequeued at a poll strictly
before its departure and less than `TX_JIT_DELAY` before it, or is stored and its departure is still
to come: none is lost, and none is late. -/
theorem polled_in_time {env : Env} {s : PollState} (h : PollRun env (Fits env) s) :
    (∀ e ∈ s.sent, e.1 < e.2.deadline ∧ e.2.deadline < e.1 + txJitDelay.toNat)
      ∧ s.accepted.Perm
        (s.sent.map Prod.snd ++ s.queue.stored.map fun n => jobAt s.now n.pkt n.pkt_type)
      ∧ ∀ j ∈ s.accepted, j.deadline ≤ s.now → j ∈ s.sent.map Prod.snd := by
  have hp := h.polled
  refine ⟨hp.sent, hp.ledger, ?_⟩
  intro j hj hpast
  rcases mem_append.mp (hp.ledger.mem_iff.mp hj) with hsent | hstored
  · exact hsent
  · obtain ⟨n, hn, rfl⟩ := mem_map.mp hstored
    have hlate := hp.late n hn
    have hsoon : s.now ≤ s.lastPoll + 10000 := hp.soon
    have hpast' : instant s.now n.count ≤ s.now := hpast
    omega

theorem polled_in_time_samplePacket :
    ∃ s, PollRun .sample (Fits .sample) s ∧ s.accepted.length = 1 ∧ s.sent.length = 1
      ∧ ∀ e ∈ s.sent, e.1 < e.2.deadline ∧ e.2.deadline < e.1 + txJitDelay.toNat := by
  have henqueue : PollRun .sample (Fits .sample)
      (enqueueAt .sample ⟨jitQueueInit, 951000, 951000, [], []⟩ 951000 (samplePacket 1000000)
        .downlinkClassA) :=
    .enqueue 951000 _ _ (.init 951000) (by decide) (by decide) (fits_samplePacket _ _) (by decide)
  have hpoll := henqueue.poll 961000 (by decide) (by decide)
  exact ⟨_, hpoll, by decide, by decide, (polled_in_time hpoll).1⟩

/-! ## A reservation that overflows -/

/-- An FSK downlink of 10 bytes at 119 bit/s behind a preamble of 63871 bytes. It reserves 4294925
ms, and with the guard and the margin the sum in the collision test rolls over to 204 microseconds.
-/
def longPacket (count_us : Word) : LgwPktTx :=
  { LgwPktTx.zero with
    count_us := count_us
    tx_mode := txTimestamped
    modulation := modFsk
    datarate := 119
    preamble := 63871
    size := 10 }

/-- Five such downlinks, 205 microseconds apart. -/
def longPackets : List Word := [100000, 100205, 100410, 100615, 100820]

def longAccepted : PollState :=
  longPackets.foldl (fun s c => enqueueAt .sample s 51000 (longPacket c) .downlinkClassA)
    ⟨jitQueueInit, 51000, 51000, [], []⟩

def longPolled : PollState :=
  [61000, 71000, 81000, 91000, 101000].foldl (pollAt .sample) longAccepted

/-- All five are accepted, four leave at the polls from 61 ms to 91 ms, and the fifth has departed
by the poll at 101 ms, which drops it. -/
theorem overflowing_reservation_dropped :
    PollRun .sample (fun _ _ => True) longPolled ∧ longPolled.accepted.length = 5
      ∧ longPolled.sent.length = 4 ∧ longPolled.queue.num_pkt = 0
      ∧ ∃ j ∈ longPolled.accepted, j.deadline = 100820
        ∧ ∀ e ∈ longPolled.sent, e.2.deadline ≠ 100820 := by
  refine ⟨?_, by decide, by decide, by decide, by decide⟩
  have h₀ : PollRun .sample (fun _ _ => True) ⟨jitQueueInit, 51000, 51000, [], []⟩ := .init 51000
  have h₁ := h₀.enqueue 51000 (longPacket 100000) .downlinkClassA (by decide) (by decide) trivial
    (by decide)
  have h₂ := h₁.enqueue 51000 (longPacket 100205) .downlinkClassA (by decide) (by decide) trivial
    (by decide)
  have h₃ := h₂.enqueue 51000 (longPacket 100410) .downlinkClassA (by decide) (by decide) trivial
    (by decide)
  have h₄ := h₃.enqueue 51000 (longPacket 100615) .downlinkClassA (by decide) (by decide) trivial
    (by decide)
  have h₅ := h₄.enqueue 51000 (longPacket 100820) .downlinkClassA (by decide) (by decide) trivial
    (by decide)
  have hpolled := ((((h₅.poll 61000 (by decide) (by decide)).poll
    71000 (by decide) (by decide)).poll
    81000 (by decide) (by decide)).poll 91000 (by decide) (by decide)).poll 101000 (by decide)
    (by decide)
  simp only [longPolled, longAccepted, longPackets, foldl_cons, foldl_nil]
  exact hpolled

end RutosSdk.Jit
