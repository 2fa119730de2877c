import RutosSdk.Lib.Circular
import RutosSdk.Lib.Qsort
import RutosSdk.Hal.TimeOnAir

/-! # The just-in-time transmission queue

Reference: `packet_forwarder/src/jitqueue.c` and `packet_forwarder/inc/jitqueue.h`.

Each public function takes the queue lock twice, once to look at `num_pkt` and once for its body, so
the bodies are definitions of their own (`jitEnqueueLocked`, `jitDequeueLocked`, `jitPeekLocked`).
`NULL` arguments are excluded by the types.
-/

namespace RutosSdk.Jit

open Hal

/-! ## Constants and types -/

/-- `JIT_QUEUE_MAX` -/
abbrev jitQueueMax : ℕ := 32

def txStartDelay : Word := 1500
def txMarginDelay : Word := 1000
def txJitDelay : Word := 40000
/-- `(JIT_NUM_BEACON_IN_QUEUE + 1) * 128 * 1E6`, an integer that the `double` holds exactly. -/
def txMaxAdvanceDelay : Word := 512000000
def beaconGuard : Word := 3000000
def beaconReserved : Word := 2120000

/-- `enum jit_pkt_type_e` -/
inductive JitPktType where
  | downlinkClassA
  | downlinkClassB
  | downlinkClassC
  | beacon
deriving DecidableEq, Repr

/-- `enum jit_error_e`, the members that the queue returns. -/
inductive JitError where
  | ok
  | tooLate
  | tooEarly
  | full
  | empty
  | collisionPacket
  | collisionBeacon
  | invalid
deriving DecidableEq, Repr

/-- `struct jit_node_s` -/
structure JitNode where
  pkt : LgwPktTx
  pkt_type : JitPktType
  pre_delay : Word
  post_delay : Word
deriving DecidableEq, Repr

/-- A node cleared with `memset`. -/
def JitNode.zero : JitNode := ⟨LgwPktTx.zero, .downlinkClassA, 0, 0⟩

instance : Inhabited JitNode := ⟨JitNode.zero⟩

/-- The departure time of a node. -/
abbrev JitNode.count (n : JitNode) : Word := n.pkt.count_us

/-- `struct jit_queue_s`: two `uint8_t` counters and an array of `jitQueueMax` nodes. -/
structure JitQueue where
  num_pkt : ℕ
  num_beacon : ℕ
  nodes : List JitNode
  length_nodes : nodes.length = jitQueueMax
deriving DecidableEq

/-- The nodes in use. -/
def JitQueue.stored (q : JitQueue) : List JitNode := q.nodes.take q.num_pkt

/-- What the queue functions depend on beside their arguments: the sort of the C library, the HAL
context and conversion behind `lgw_time_on_air`, and the memory a read outside of `nodes` finds. -/
structure Env where
  qsort_r : Qsort JitNode
  context : LgwContext
  u32OfInf : Word
  outside : ℤ → JitNode

/-! ## Helpers -/

/-- `jit_queue_init` -/
def jitQueueInit : JitQueue where
  num_pkt := 0
  num_beacon := 0
  nodes := List.replicate jitQueueMax .zero
  length_nodes := List.length_replicate

variable (env : Env) (queue : JitQueue)

/-- `jit_queue_is_full` -/
def jitQueueIsFull : Bool := queue.num_pkt == jitQueueMax

/-- `jit_queue_is_empty` -/
def jitQueueIsEmpty : Bool := queue.num_pkt == 0

/-- `compare`: the two counters as `int`, subtracted with wrap-around. -/
def compare (p q : JitNode) : ℤ := (p.count - q.count).toInt

/-- `jit_sort_queue` -/
def jitSortQueue : JitQueue :=
  if queue.num_pkt = 0 then queue
  else
    { queue with
      nodes := env.qsort_r.run compare queue.stored ++ queue.nodes.drop queue.num_pkt
      length_nodes := by
        rw [List.length_append, (env.qsort_r.perm _ _).length_eq, ← List.length_append,
          JitQueue.stored, List.take_append_drop, queue.length_nodes] }

/-- `jit_collision_test` -/
def jitCollisionTest (p1_count_us p1_pre_delay p1_post_delay : Word)
    (p2_count_us p2_pre_delay p2_post_delay : Word) : Bool :=
  p1_count_us - p2_count_us ≤ p1_pre_delay + p2_post_delay + txMarginDelay
    || p2_count_us - p1_count_us ≤ p2_pre_delay + p1_post_delay + txMarginDelay

/-- Write one slot of the array. -/
def JitQueue.setNode (i : ℕ) (n : JitNode) : JitQueue :=
  { queue with
    nodes := queue.nodes.set i n
    length_nodes := by rw [List.length_set, queue.length_nodes] }

/-- Read one slot of the array, or the memory around it. -/
def nodeAt (i : ℤ) : JitNode :=
  if 0 ≤ i ∧ i < jitQueueMax then queue.nodes.getD i.toNat .zero else env.outside i

/-- The removal of a node by `jit_dequeue` and `jit_peek` alike: the counters go down, the last node
takes the free slot, its own slot is cleared, and the queue is sorted again. -/
def removeNode (index : ℕ) : JitQueue :=
  let num_pkt := (queue.num_pkt + 255) % 256
  let num_beacon :=
    if (queue.nodes.getD index .zero).pkt_type = .beacon then (queue.num_beacon + 255) % 256
    else queue.num_beacon
  let last := queue.nodes.getD num_pkt .zero
  jitSortQueue env
    { ((queue.setNode index last).setNode num_pkt .zero) with
      num_pkt := num_pkt
      num_beacon := num_beacon }

/-! ## `jit_enqueue` -/

/-- Time reserved before a packet of the given type. -/
def packetPreDelay : JitPktType → Word
  | .downlinkClassA | .downlinkClassB | .downlinkClassC => txStartDelay + txJitDelay
  | .beacon => txStartDelay + beaconGuard + txJitDelay

/-- Time reserved after the timestamp of a packet of the given type. -/
def packetPostDelay (env : Env) (packet : LgwPktTx) : JitPktType → Word
  | .downlinkClassA | .downlinkClassB | .downlinkClassC =>
    lgwTimeOnAir env.context env.u32OfInf packet * 1000
  | .beacon => beaconReserved

/-- The collision test of the slot search, with the stored delays of the node. -/
def collidesAsap (asap_count_us pre post : Word) (n : JitNode) : Bool :=
  jitCollisionTest asap_count_us pre post n.count n.pre_delay n.post_delay

/-- The first departure time that follows node `n`. -/
def slotAfter (pre : Word) (n : JitNode) : Word :=
  n.count + n.post_delay + pre + txJitDelay + txMarginDelay

/-- Search for the best slot: after the first node whose successor leaves room, else after the
last one. -/
def searchSlot (pre post : Word) : List JitNode → Word → Word
  | [], asap => asap
  | [n], _ => slotAfter pre n
  | n :: m :: rest, _ =>
    if collidesAsap (slotAfter pre n) pre post m then
      searchSlot pre post (m :: rest) (slotAfter pre n)
    else slotAfter pre n

/-- The departure time given to an immediate downlink. -/
def asapCountUs (time_us pre post : Word) : Word :=
  let asap := time_us + 2 * txJitDelay
  if queue.num_pkt = 0 then asap
  else if queue.stored.any (collidesAsap asap pre post) then
    searchSlot pre post queue.stored asap
  else asap

/-- The packet with its departure time settled: an immediate downlink becomes a timestamped one. -/
def timedPacket (time_us : Word) (packet : LgwPktTx) (pkt_type : JitPktType) : LgwPktTx :=
  if pkt_type = .downlinkClassC then
    { packet with
      tx_mode := txTimestamped
      count_us := asapCountUs queue time_us (packetPreDelay pkt_type)
        (packetPostDelay env packet pkt_type) }
  else packet

/-- The pre-delay a stored node is tested with: the beacon guard is ignored for class A and C. -/
def targetPreDelay (pkt_type : JitPktType) (n : JitNode) : Word :=
  if (pkt_type = .downlinkClassA ∨ pkt_type = .downlinkClassC) ∧ n.pkt_type = .beacon then
    txStartDelay
  else n.pre_delay

/-- Criteria 3: the new node overlaps with the stored node. -/
def collides (n stored : JitNode) : Bool :=
  jitCollisionTest n.count n.pre_delay n.post_delay
    stored.count (targetPreDelay n.pkt_type stored) stored.post_delay

/-- The error for a collision with a stored node of the given type. -/
def collisionError : JitPktType → JitError
  | .downlinkClassA | .downlinkClassB | .downlinkClassC => .collisionPacket
  | .beacon => .collisionBeacon

/-- The node made of a packet. Its delays are computed from the packet as it was passed, before the
slot search. -/
def newNode (time_us : Word) (packet : LgwPktTx) (pkt_type : JitPktType) : JitNode where
  pkt := timedPacket env queue time_us packet pkt_type
  pkt_type := pkt_type
  pre_delay := packetPreDelay pkt_type
  post_delay := packetPostDelay env packet pkt_type

/-- The insertion at the end of the queue, and the sort. -/
def insertNode (n : JitNode) : JitQueue :=
  jitSortQueue env
    { queue.setNode queue.num_pkt n with
      num_pkt := (queue.num_pkt + 1) % 256
      num_beacon :=
        if n.pkt_type = .beacon then (queue.num_beacon + 1) % 256 else queue.num_beacon }

/-- The body of `jit_enqueue`: the three criteria, then the insertion. The packet is returned
because an immediate downlink is given its departure time in place. -/
def jitEnqueueLocked (time_us : Word) (packet : LgwPktTx) (pkt_type : JitPktType) :
    JitError × JitQueue × LgwPktTx :=
  let n := newNode env queue time_us packet pkt_type
  if n.count - time_us ≤ txStartDelay + txMarginDelay + txJitDelay then (.tooLate, queue, n.pkt)
  else if (pkt_type = .downlinkClassA ∨ pkt_type = .downlinkClassB)
      ∧ txMaxAdvanceDelay < n.count - time_us then (.tooEarly, queue, n.pkt)
  else
    match queue.stored.find? (collides n) with
    | some hit => (collisionError hit.pkt_type, queue, n.pkt)
    | none => (.ok, insertNode env queue n, n.pkt)

/-- `jit_enqueue` -/
def jitEnqueue (time_us : Word) (packet : LgwPktTx) (pkt_type : JitPktType) :
    JitError × JitQueue × LgwPktTx :=
  if jitQueueIsFull queue then (.full, queue, packet)
  else jitEnqueueLocked env queue time_us packet pkt_type

/-! ## `jit_dequeue` -/

/-- The body of `jit_dequeue`: the node removed, as copied out, and the queue left behind. -/
def jitDequeueLocked (index : ℕ) : JitNode × JitQueue :=
  (queue.nodes.getD index .zero, removeNode env queue index)

/-- `jit_dequeue`, with the packet and the type it hands out on success. -/
def jitDequeue (index : ℤ) : JitError × JitQueue × Option (LgwPktTx × JitPktType) :=
  if index < 0 ∨ index ≥ jitQueueMax then (.invalid, queue, none)
  else if jitQueueIsEmpty queue then (.empty, queue, none)
  else
    let (node, queue) := jitDequeueLocked env queue index.toNat
    (.ok, queue, some (node.pkt, node.pkt_type))

/-! ## `jit_peek` -/

/-- One read of `nodes`: the index, and `num_pkt` at that time. -/
structure NodeRead where
  index : ℤ
  num_pkt : ℕ
deriving DecidableEq, Repr

/-- The read stays inside the nodes in use. -/
def NodeRead.InUse (r : NodeRead) : Prop := 0 ≤ r.index ∧ r.index < r.num_pkt

instance (r : NodeRead) : Decidable r.InUse := inferInstanceAs (Decidable (_ ∧ _))

/-- The variables of the search loop. -/
structure PeekState where
  queue : JitQueue
  i : ℕ
  idx_highest_priority : ℤ
  reads : List NodeRead
deriving DecidableEq

/-- The packet was missed: it seems too much in advance. -/
def outdated (time_us : Word) (n : JitNode) : Bool := txMaxAdvanceDelay ≤ n.count - time_us

/-- One iteration of the loop, the increment of `i` included. -/
def peekStep (time_us : Word) (s : PeekState) : PeekState :=
  let node := nodeAt env s.queue s.i
  let here : NodeRead := ⟨s.i, s.queue.num_pkt⟩
  if outdated time_us node then
    -- `i = 0; continue;` goes through the increment: the search resumes at index 1
    { queue := removeNode env s.queue s.i
      i := 1
      idx_highest_priority := s.idx_highest_priority
      reads := s.reads ++ [here, ⟨s.queue.num_pkt - 1, s.queue.num_pkt⟩] }
  else if s.idx_highest_priority = -1 then
    { s with i := s.i + 1, idx_highest_priority := s.i, reads := s.reads ++ [here] }
  else
    let best := nodeAt env s.queue s.idx_highest_priority
    { s with
      i := s.i + 1
      idx_highest_priority :=
        if node.count - time_us < best.count - time_us then s.i else s.idx_highest_priority
      reads := s.reads ++ [here, ⟨s.idx_highest_priority, s.queue.num_pkt⟩] }

/-- The loop, for at most `fuel` iterations. -/
def peekLoop (env : Env) (time_us : Word) : ℕ → PeekState → PeekState
  | 0, s => s
  | fuel + 1, s =>
    if s.i < s.queue.num_pkt then peekLoop env time_us fuel (peekStep env time_us s) else s

/-- Every removal restarts the search, and each search visits each node at most once. -/
def peekFuel : ℕ := (queue.num_pkt + 1) * (queue.num_pkt + 1)

/-- What `jit_peek` leaves behind. -/
structure PeekResult where
  queue : JitQueue
  pkt_idx : ℤ
  reads : List NodeRead
deriving DecidableEq

/-- The body of `jit_peek`. -/
def jitPeekLocked (time_us : Word) : PeekResult :=
  let s := peekLoop env time_us (peekFuel queue) ⟨queue, 0, -1, []⟩
  let best := nodeAt env s.queue s.idx_highest_priority
  { queue := s.queue
    pkt_idx := if best.count - time_us < txJitDelay then s.idx_highest_priority else -1
    reads := s.reads ++ [⟨s.idx_highest_priority, s.queue.num_pkt⟩] }

/-- `jit_peek`; on an empty queue `*pkt_idx` is left alone. -/
def jitPeek (time_us : Word) : JitError × Option PeekResult :=
  if jitQueueIsEmpty queue then (.empty, none) else (.ok, some (jitPeekLocked env queue time_us))

end RutosSdk.Jit
