import RutosSdk.Jit.Order

/-! # An immediate downlink always finds a slot

Reference: `packet_forwarder/src/jitqueue.c`, `jit_enqueue`.

The search for the slot of a class C downlink looks at one neighbour of each candidate and keeps the
full guard of a beacon, the criteria applied afterwards look at every stored node and ignore that
guard. `Lined` is what makes the two agree: seen from the current time, the stored nodes stand one
behind the other, each after the reservation of the one before.
-/

namespace RutosSdk.Jit

open List Hal Circular

/-! ## Stored nodes were tested against each other -/

/-- One of the two nodes passed the collision test against the other. -/
def Tested (n m : JitNode) : Prop := collides n m = false ∨ collides m n = false

variable {m n : JitNode} {env : Env} {q : JitQueue} {ok : LgwPktTx → JitPktType → Prop}
  {t : Word}

theorem Tested.symm (h : Tested n m) : Tested m n := Or.symm h

theorem Tested.apart (h : Tested n m) (hn : NodeFits n) (hm : NodeFits m) : Apart n m := by
  rcases h with h | h
  · exact apart_of_not_collides hn hm h
  · exact (apart_of_not_collides hm hn h).symm

/-- The delays of a stored node follow from its type, but for the time on air. -/
structure Typed (n : JitNode) : Prop where
  pre : n.pre_delay = packetPreDelay n.pkt_type
  beacon : n.pkt_type = .beacon → n.post_delay = beaconReserved

theorem typed_newNode (env : Env) (q : JitQueue) (time_us : Word) (packet : LgwPktTx)
    (ty : JitPktType) : Typed (newNode env q time_us packet ty) where
  pre := rfl
  beacon := by
    intro (hty : ty = .beacon)
    subst hty
    rfl

theorem Typed.fits (h : Typed n) (hpost : n.post_delay.toNat ≤ 2 ^ 30) :
    NodeFits n := ⟨h.pre, by omega, h.beacon⟩

/-- What every run keeps, with no bound on the times on air. -/
structure Screened (q : JitQueue) : Prop where
  bound : q.num_pkt ≤ jitQueueMax
  typed : ∀ n ∈ q.stored, Typed n
  tested : q.stored.Pairwise Tested

theorem Screened.insertNode (hq : Screened q) (hlt : q.num_pkt < jitQueueMax) (hn : Typed n)
    (h : ∀ m ∈ q.stored, collides n m = false) : Screened (insertNode env q n) where
  bound := by
    rw [num_pkt_insertNode n hlt]
    exact hlt
  typed := forall_stored_insertNode hlt hq.typed hn
  tested := pairwise_stored_insertNode hlt Tested.symm hq.tested fun m hm => .inl (h m hm)

theorem Screened.removeNode {i : ℕ} (hq : Screened q) (hi : i < q.num_pkt) :
    Screened (removeNode env q i) where
  bound := num_pkt_removeNode_le i hq.bound hi
  typed := forall_stored_removeNode hq.bound hi hq.typed
  tested := pairwise_stored_removeNode hq.bound hi Tested.symm hq.tested

theorem Reachable.screened (h : Reachable env ok q) : Screened q := by
  refine h.invariant (fun q hq => hq.bound)
    ⟨Nat.zero_le _, by simp [JitQueue.stored, jitQueueInit], List.Pairwise.nil⟩ ?_ ?_
  · intro q time_us packet ty hq hlt _ hacc
    exact hq.insertNode hlt (typed_newNode env q time_us packet ty) hacc.no_collision
  · intro q i hq hi
    exact hq.removeNode hi

/-! ## The nodes along the time line -/

/-- Seen from `t`, the nodes depart soon and one after the other. -/
structure Lined (t : Word) (l : List JitNode) : Prop where
  fits : ∀ n ∈ l, NodeFits n
  short : ∀ n ∈ l, n.post_delay.toNat ≤ 2 ^ 30
  near : ∀ n ∈ l, ahead t n.count < 512000000
  behind : l.Pairwise fun n m =>
    ahead t n.count + n.post_delay.toNat + guardBefore n.pkt_type m + 1000 < ahead t m.count

theorem Lined.of_cons {l : List JitNode} (h : Lined t (n :: l)) : Lined t l where
  fits m hm := h.fits m (mem_cons_of_mem n hm)
  short m hm := h.short m (mem_cons_of_mem n hm)
  near m hm := h.near m (mem_cons_of_mem n hm)
  behind := h.behind.of_cons

/-- A reachable queue whose packets are near and short is lined up. -/
theorem Reachable.lined (h : Reachable env ok q)
    (hnear : ∀ n ∈ q.stored, ahead t n.count < 512000000)
    (hshort : ∀ n ∈ q.stored, n.post_delay.toNat ≤ 2 ^ 30) : Lined t q.stored := by
  have hq := h.screened
  have hfits : ∀ n ∈ q.stored, NodeFits n := fun n hn => (hq.typed n hn).fits (hshort n hn)
  have hasc : Ascending t q.stored := h.ordered t fun n hn => by
    have := hnear n hn
    omega
  refine ⟨hfits, hshort, hnear, (hq.tested.and hasc).imp_of_mem ?_⟩
  rintro n m hn hm ⟨htested, hle⟩
  have hfollows := (htested.apart (hfits n hn) (hfits m hm)).1
  have := ahead_sub_of_le hle
  unfold Follows at hfollows
  omega

/-! ## The two collision tests -/

/-- The guard in front of a node that class A and C downlinks keep is the least one. -/
theorem guardBefore_classC_le (h : NodeFits n) (ty : JitPktType) :
    guardBefore .downlinkClassC n ≤ guardBefore ty n
      ∧ guardBefore .downlinkClassC n ≤ 41500 ∧ 41500 ≤ n.pre_delay.toNat
      ∧ n.pre_delay.toNat ≤ 3041500 := by
  have hpre := toNat_packetPreDelay n.pkt_type
  rw [← h.pre] at hpre
  simp only [guardBefore, targetPreDelay]
  split_ifs at hpre ⊢ <;> simp_all

/-- Less than the full pre-delay is left only in front of a beacon. -/
theorem guardBefore_or_beacon (h : NodeFits n) (ty : JitPktType) :
    41500 ≤ guardBefore ty n ∨ n.post_delay.toNat = 2120000 := by
  by_cases hty : n.pkt_type = .beacon
  · exact .inr (by rw [h.beacon hty, toNat_beaconReserved])
  · refine .inl ?_
    rw [guardBefore, targetPreDelay, if_neg (fun hboth => hty hboth.2), h.pre,
      toNat_packetPreDelay, if_neg hty]

/-- The test of the search is at least as strict as that of the criteria. -/
theorem not_collides_of_not_collidesAsap (hn : NodeFits n) (hm : NodeFits m)
    (hty : n.pkt_type = .downlinkClassC)
    (h : collidesAsap n.count n.pre_delay n.post_delay m = false) : collides n m = false := by
  have hguard := guardBefore_classC_le hm .downlinkClassC
  have hguard' := guardBefore_classC_le hn .downlinkClassC
  have := hn.post
  have := hm.post
  rw [collidesAsap, jitCollisionTest_eq_false_iff (by omega) (by omega)] at h
  rw [guardBefore] at hguard
  rw [collides, hty, jitCollisionTest_eq_false_iff (by omega) (by omega)]
  omega

/-- Seen from `t`, a departure at `s` with the reservation `post` is clear of node `m`: it comes
after the end of `m`, or ends before the guard of `m`. -/
def ClearOf (t : Word) (m : JitNode) (s post : ℕ) : Prop :=
  ahead t m.count + m.post_delay.toNat + 42500 < s
    ∨ s + post + guardBefore .downlinkClassC m + 1000 < ahead t m.count

/-- Clear of a node means no collision, if the two are not too far from each other. -/
theorem ClearOf.not_collides (hn : Typed n) (hty : n.pkt_type = .downlinkClassC)
    (hpost : n.post_delay.toNat ≤ 2 ^ 30) (hfar : ahead t n.count < 2 ^ 31) (hm : NodeFits m)
    (hmpost : m.post_delay.toNat ≤ 2 ^ 30) (hmfar : ahead t m.count < 2 ^ 31)
    (h : ClearOf t m (ahead t n.count) n.post_delay.toNat) : collides n m = false := by
  have hguard := guardBefore_classC_le hm .downlinkClassC
  have hpre : n.pre_delay.toNat = 41500 := by rw [hn.pre, hty]; rfl
  unfold ClearOf at h
  rw [guardBefore] at hguard h
  rw [collides, hty, jitCollisionTest_eq_false_iff (by omega) (by omega), hpre]
  have := ahead_trans t n.count m.count
  have := ahead_trans t m.count n.count
  omega

/-! ## The search -/

/-- The departure behind node `n`, seen from a time shortly before it. -/
theorem ahead_slotAfter (hnear : ahead t n.count < 512000000)
    (hpost : n.post_delay.toNat ≤ 2 ^ 30) :
    ahead t (slotAfter (packetPreDelay .downlinkClassC) n)
      = ahead t n.count + n.post_delay.toNat + 82500 := by
  have hsum : slotAfter (packetPreDelay .downlinkClassC) n = n.count + n.post_delay + 82500#32 := by
    rw [slotAfter, BitVec.add_assoc, BitVec.add_assoc]
    rfl
  rw [hsum, ahead_add_right, ahead_add_right (by omega)]
  · rfl
  · rw [ahead_add_right (by omega)]
    simp only [BitVec.toNat_ofNat]
    omega

/-- A slot behind `n` that passes the test against the next node ends before that one begins. -/
theorem clear_of_next {post : Word} (hpost : post.toNat ≤ 2 ^ 30)
    (hn : n.post_delay.toNat ≤ 2 ^ 30) (hm : NodeFits m) (hmpost : m.post_delay.toNat ≤ 2 ^ 30)
    (hnear : ahead t n.count < 512000000)
    (hbehind : ahead t n.count + n.post_delay.toNat + guardBefore n.pkt_type m + 1000
      < ahead t m.count) (h : collidesAsap (slotAfter (packetPreDelay .downlinkClassC) n)
      (packetPreDelay .downlinkClassC) post m = false) :
    ahead t (slotAfter (packetPreDelay .downlinkClassC) n) + post.toNat + 42500
      < ahead t m.count := by
  have hslot := ahead_slotAfter hnear hn
  set s := slotAfter (packetPreDelay .downlinkClassC) n
  have hpre : (packetPreDelay .downlinkClassC).toNat = 41500 := rfl
  have hguard := guardBefore_classC_le hm n.pkt_type
  rw [collidesAsap, jitCollisionTest_eq_false_iff (by omega) (by omega), hpre] at h
  -- a slot past the departure of `m` would lie within its reservation
  have hbefore : ahead t s < ahead t m.count := by
    by_contra hafter
    have := ahead_sub_of_le (Nat.le_of_not_lt hafter)
    have := guardBefore_or_beacon hm n.pkt_type
    omega
  have := ahead_sub_of_le hbefore.le
  omega

/-- The slot found lies behind some stored node and is clear of all of them. -/
theorem searchSlot_spec {post : Word} (hpost : post.toNat ≤ 2 ^ 30) :
    ∀ (l : List JitNode) (asap : Word), l ≠ [] → Lined t l →
      ∃ s, ahead t (searchSlot (packetPreDelay .downlinkClassC) post l asap) = s
        ∧ (∃ n ∈ l, s = ahead t n.count + n.post_delay.toNat + 82500)
        ∧ ∀ m ∈ l, ClearOf t m s post.toNat
  | [], _, h, _ => absurd rfl h
  | [n], _, _, h => by
      have hn := ahead_slotAfter (h.near n (by simp)) (h.short n (by simp))
      refine ⟨_, hn, ⟨n, by simp, rfl⟩, ?_⟩
      intro m hm
      obtain rfl := mem_singleton.mp hm
      exact .inl (by omega)
  | n :: m :: rest, _, _, h => by
      have hbehind := (pairwise_cons.mp h.behind).1
      rw [searchSlot]
      split_ifs with hcollides
      · obtain ⟨s, heq, ⟨k, hk, hs⟩, hclear⟩ :=
          searchSlot_spec hpost (m :: rest) (slotAfter (packetPreDelay .downlinkClassC) n)
            (cons_ne_nil m rest) h.of_cons
        refine ⟨s, heq, ⟨k, mem_cons_of_mem n hk, hs⟩, ?_⟩
        intro x hx
        rcases mem_cons.mp hx with rfl | hx
        · -- the slot is behind `k`, and `k` is behind this node
          have := hbehind k hk
          exact .inl (by omega)
        · exact hclear x hx
      · have hn := ahead_slotAfter (h.near n (by simp)) (h.short n (by simp))
        have hnext := clear_of_next hpost (h.short n (by simp)) (h.fits m (by simp))
          (h.short m (by simp)) (h.near n (by simp)) (hbehind m (by simp))
          (Bool.eq_false_iff.mpr hcollides)
        refine ⟨_, hn, ⟨n, by simp, rfl⟩, ?_⟩
        intro x hx
        have hguard := fun hx' => guardBefore_classC_le (h.fits x hx') .downlinkClassC
        rcases mem_cons.mp hx with rfl | hx'
        · exact .inl (by omega)
        · refine .inr ?_
          have := (hguard hx).2.1
          rcases mem_cons.mp hx' with rfl | hx''
          · omega
          · -- later nodes depart after `m`
            have := rel_of_pairwise_cons h.of_cons.behind hx''
            omega

/-! ## The downlink -/

/-- The departure 80 ms from now. -/
theorem ahead_asap (t : Word) : ahead t (t + 2 * txJitDelay) = 80000 := by
  have hself : ahead t t = 0 := ahead_eq_zero_iff.mpr rfl
  rw [ahead_add_right (by rw [hself]; decide), hself]
  rfl

/-- The departure time chosen for an immediate downlink passes all the criteria. -/
theorem acceptable_immediate (env : Env) (h : Lined t q.stored) (packet : LgwPktTx)
    (hpost : (packetPostDelay env packet .downlinkClassC).toNat ≤ 2 ^ 30) :
    Acceptable q t (newNode env q t packet .downlinkClassC) := by
  have htyped := typed_newNode env q t packet .downlinkClassC
  have hcount : (newNode env q t packet .downlinkClassC).count
      = asapCountUs q t (packetPreDelay .downlinkClassC)
          (packetPostDelay env packet .downlinkClassC) := rfl
  set n := newNode env q t packet .downlinkClassC
  have hfits : NodeFits n := htyped.fits hpost
  rw [asapCountUs] at hcount
  split_ifs at hcount with hempty hany
  · refine ⟨by rw [hcount, ahead_asap]; omega, nofun, ?_⟩
    simp [JitQueue.stored, hempty]
  · have hne : q.stored ≠ [] := by
      rintro hnil
      simp [hnil] at hany
    obtain ⟨s, hs, ⟨k, hk, hsk⟩, hclear⟩ :=
      searchSlot_spec hpost q.stored (t + 2 * txJitDelay) hne h
    rw [← hcount] at hs
    have := h.near k hk
    have := h.short k hk
    refine ⟨by omega, nofun, ?_⟩
    intro m hm
    have := h.near m hm
    have hclear' := hclear m hm
    rw [← hs] at hclear'
    exact hclear'.not_collides htyped rfl hpost (by omega) (h.fits m hm) (h.short m hm) (by omega)
  · refine ⟨by rw [hcount, ahead_asap]; omega, nofun, ?_⟩
    intro m hm
    refine not_collides_of_not_collidesAsap hfits (h.fits m hm) rfl ?_
    rw [hcount]
    exact Bool.eq_false_iff.mpr fun htest => hany (any_eq_true.mpr ⟨m, hm, htest⟩)

/-- In every reachable queue with room left, whose packets depart in less than the maximum advance
delay and are on the air for at most 2^30 us, an immediate downlink of such a time on air is
accepted, the departure time written to the packet collides with no stored packet, and the packet
is stored with it and with the delays of that test. -/
theorem jitEnqueue_immediate {env : Env} {ok : LgwPktTx → JitPktType → Prop} {q : JitQueue}
    (h : Reachable env ok q) (hroom : q.num_pkt ≠ jitQueueMax) (time_us : Word)
    (hnear : ∀ n ∈ q.stored, (n.count - time_us).toNat < txMaxAdvanceDelay.toNat)
    (hshort : ∀ n ∈ q.stored, n.post_delay.toNat ≤ 2 ^ 30) (packet : LgwPktTx)
    (hpost : (packetPostDelay env packet .downlinkClassC).toNat ≤ 2 ^ 30) :
    (jitEnqueue env q time_us packet .downlinkClassC).1 = .ok
      ∧ (∀ n ∈ q.stored,
        jitCollisionTest (jitEnqueue env q time_us packet .downlinkClassC).2.2.count_us
          (packetPreDelay .downlinkClassC) (packetPostDelay env packet .downlinkClassC)
          n.count (targetPreDelay .downlinkClassC n) n.post_delay = false)
      ∧ ∃ n ∈ (jitEnqueue env q time_us packet .downlinkClassC).2.1.stored,
        n.pkt = (jitEnqueue env q time_us packet .downlinkClassC).2.2
          ∧ n.pre_delay = packetPreDelay .downlinkClassC
          ∧ n.post_delay = packetPostDelay env packet .downlinkClassC := by
  have hacc := acceptable_immediate env (h.lined hnear hshort) packet hpost
  have hperm := @perm_stored_insertNode env q (newNode env q time_us packet .downlinkClassC)
    (lt_of_le_of_ne h.num_pkt_le hroom)
  rw [jitEnqueue_of_acceptable hroom hacc]
  exact ⟨rfl, hacc.no_collision, _, hperm.mem_iff.mpr mem_cons_self, rfl, rfl, rfl⟩

/-- Between the two downlinks of the sample queue there is room for a third one. -/
theorem jitEnqueue_immediate_sampleQueue :
    (jitEnqueue .sample sampleQueue 900000 (samplePacket 0) .downlinkClassC).1 = .ok :=
  (jitEnqueue_immediate reachable_sampleQueue (by decide) 900000 (by decide) (by decide)
    (samplePacket 0) (by decide)).1

end RutosSdk.Jit
