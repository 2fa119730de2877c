import RutosSdk.Com.Ack

/-! # Bulk requests are sent once, by the client that stored them

Each client collects requests while its write mode is bulk, and its flush is meant to send them, all
of them and nothing else. `Batches` is that purpose: a batch per client, emptied by the flush. The
link keeps to it in the runs where a client has the storage to itself until it has flushed, and
where a flush is acknowledged.
-/

namespace RutosSdk.Com

open List

/-! ## Runs -/

/-- One call to the link, with what the port does during it. -/
inductive BusOp where
  | setWriteMode (c : Client) (write_mode : WriteMode)
  | write (x : Exchange) (stack : ℕ → Byte) (r : UsbRequest)
  | flush (x : Exchange) (c : Client)

def busStep (st : UsbState) : BusOp → UsbResult
  | .setWriteMode c write_mode => ⟨true, usbSetWriteMode st c write_mode, []⟩
  | .write x stack r => usbWrite x stack st r
  | .flush x c => usbFlush x st c

/-! ## What the flushes are for -/

/-- A request that was stored, numbered in the order of the run. -/
structure Stored where
  id : ℕ
  frame : List Byte
deriving DecidableEq

/-- The batches of the two clients, the stored requests that were transmitted so far, and the next
number. -/
structure Batches where
  batch : Client → List Stored
  transmitted : List Stored
  next : ℕ

def Batches.initial : Batches := ⟨fun _ => [], [], 0⟩

variable (b : Batches) (l : List Stored)

/-- One batch replaced. -/
def Batches.set (c : Client) (l : List Stored) : Batches :=
  { b with batch := fun d => if d = c then l else b.batch d }

/-- A batch is what a client has stored since its mode was last set to bulk. -/
def Batches.step (st : UsbState) : BusOp → Batches
  | .setWriteMode c .bulk => b.set c []
  | .setWriteMode _ .single => b
  | .write x stack r =>
    if (st.client r.client).write_mode = .bulk ∧ (usbWrite x stack st r).ok = true then
      { b.set r.client
          (b.batch r.client ++ [⟨b.next, r.frame (st.client r.client).spi_req_nb⟩]) with
        next := b.next + 1 }
    else b
  | .flush _ c => { b.set c [] with transmitted := b.transmitted ++ b.batch c }

/-- The bytes of a sequence of requests. -/
def frames : List Byte := l.flatMap Stored.frame

/-- What a call sends. A change of mode sends nothing, and a request itself at most, in single mode.
A flush sends the batch of its client, and leaves nothing in the storage. -/
def CallRight (st : UsbState) (b : Batches) : BusOp → Prop
  | .setWriteMode c write_mode => (busStep st (.setWriteMode c write_mode)).sent = []
  | .write x stack r => (usbWrite x stack st r).sent = []
      ∨ (st.client r.client).write_mode = .single
        ∧ (usbWrite x stack st r).sent = r.frame (st.client r.client).spi_req_nb
  | .flush x c => (usbFlush x st c).sent = frames (b.batch c)
      ∧ (usbFlush x st c).state.bulk.nb_req = 0 ∧ (usbFlush x st c).state.bulk.size = 0

/-- Every call of the sequence sends what it should, and no stored request is transmitted twice. -/
def BusRight (st : UsbState) (b : Batches) : List BusOp → Prop
  | [] => (b.transmitted.map Stored.id).Nodup
  | op :: ops => (b.transmitted.map Stored.id).Nodup ∧ CallRight st b op
      ∧ BusRight (busStep st op).state (b.step st op) ops

/-! ## The runs that keep to it -/

/-- A client changes its mode with nothing stored; it stores when the other client has nothing
stored and there is room; it flushes when the other client has nothing stored, and the MCU answers
with a right acknowledge. -/
def OpInTurn (st : UsbState) : BusOp → Prop
  | .setWriteMode c _ => (st.client c).spi_req_nb = 0
  | .write _ _ r => (st.client r.client).write_mode = .bulk →
      (st.client r.client.other).spi_req_nb = 0 ∧ st.bulk.HasRoom r.commandSize
  | .flush x c => (st.client c.other).spi_req_nb = 0
      ∧ ((st.client c).spi_req_nb ≠ 0 → Acknowledged x st.bulk.buffer st.bulk.size)

/-- Every call of the sequence is made in turn. -/
def BusInTurn (st : UsbState) : List BusOp → Prop
  | [] => True
  | op :: ops => OpInTurn st op ∧ BusInTurn (busStep st op).state ops

/-- The requests of both batches. -/
def Batches.waiting : List Stored := b.batch .sx1302 ++ b.batch .sx1261

/-- What holds between the link and the batches: the count of a client is the length of its batch,
one of the two batches is empty, and the storage holds the other. -/
structure Holds (st : UsbState) (b : Batches) : Prop where
  count : ∀ c, (st.client c).spi_req_nb.toNat = (b.batch c).length
  mode : ∀ c, b.batch c ≠ [] → (st.client c).write_mode = .bulk
  content : st.bulk.content = frames b.waiting
  number : st.bulk.nb_req = b.waiting.length
  ids : ((b.transmitted ++ b.waiting).map Stored.id).Nodup
  below : ∀ s ∈ b.transmitted ++ b.waiting, s.id < b.next

theorem holds_initial : Holds .initial .initial where
  count _ := rfl
  mode _ h := absurd rfl h
  content := rfl
  number := rfl
  ids := nodup_nil
  below _ hs := absurd hs not_mem_nil

variable {st : UsbState} {b : Batches} {c : Client}

@[simp] theorem Batches.batch_set : (b.set c l).batch c = l := if_pos rfl

theorem Batches.batch_set_of_ne {d : Client} (h : d ≠ c) :
    (b.set c l).batch d = b.batch d := if_neg h

/-- Nothing changes when an empty batch is emptied. -/
theorem Batches.set_nil (h : b.batch c = []) : b.set c [] = b := by
  have hbatch : (fun d => if d = c then [] else b.batch d) = b.batch := by
    funext d
    split
    · rename_i heq
      rw [heq, h]
    · rfl
  rw [Batches.set, hbatch]

/-- While the other client has nothing stored, the batch is all there is. -/
theorem Batches.waiting_eq (h : b.batch c.other = []) : b.waiting = b.batch c := by
  cases c with
  | sx1302 => exact (congrArg (b.batch .sx1302 ++ ·) h).trans (append_nil _)
  | sx1261 => exact congrArg (· ++ b.batch .sx1261) h

theorem Holds.batch_eq_nil (h : Holds st b) (hzero : (st.client c).spi_req_nb = 0) :
    b.batch c = [] := by
  apply eq_nil_of_length_eq_zero
  rw [← h.count, hzero]
  rfl

/-! ## Steps -/

theorem Holds.setWriteMode (h : Holds st b) (hzero : (st.client c).spi_req_nb = 0)
    (write_mode : WriteMode) : Holds (usbSetWriteMode st c write_mode) b where
  count d := by
    rcases eq_or_eq_other c d with rfl | rfl
    · rw [usbSetWriteMode, client_setClient]
      exact h.count d
    · rw [usbSetWriteMode, client_setClient_of_ne _ (ne_other c).symm]
      exact h.count _
  mode d hd := by
    have hne : d ≠ c := fun heq => hd (heq ▸ h.batch_eq_nil hzero)
    rw [usbSetWriteMode, client_setClient_of_ne _ hne]
    exact h.mode d hd
  content := h.content
  number := h.number
  ids := h.ids
  below := h.below

/-- The batch with one more request. -/
def Batches.add (b : Batches) (c : Client) (frame : List Byte) : Batches :=
  { b.set c (b.batch c ++ [⟨b.next, frame⟩]) with next := b.next + 1 }

theorem Batches.waiting_add (h : b.batch c.other = []) (frame : List Byte) :
    (b.add c frame).waiting = b.waiting ++ [⟨b.next, frame⟩] := by
  have hother : (b.add c frame).batch c.other = [] :=
    (b.batch_set_of_ne _ (ne_other c).symm).trans h
  rw [Batches.waiting_eq hother, Batches.waiting_eq h]
  exact b.batch_set _

/-- A request is stored behind the others. -/
theorem Holds.store (h : Holds st b) {frame : List Byte} (hmode : (st.client c).write_mode = .bulk)
    (hother : (st.client c.other).spi_req_nb = 0) (hroom : st.bulk.HasRoom frame.length) :
    Holds { st.setClient c { st.client c with spi_req_nb := (st.client c).spi_req_nb + 1 } with
      bulk := (spiReqBulkInsert st.bulk frame).2 } (b.add c frame) := by
  obtain ⟨-, hsize, hnb, hcontent⟩ := spiReqBulkInsert_of_hasRoom hroom
  have hnil := h.batch_eq_nil hother
  have hwaiting := b.waiting_add hnil frame
  have hcount : (st.client c).spi_req_nb.toNat = st.bulk.nb_req := by
    rw [h.count, h.number, Batches.waiting_eq hnil]
  have htransmitted : b.transmitted ++ (b.waiting ++ [⟨b.next, frame⟩])
      = b.transmitted ++ b.waiting ++ [⟨b.next, frame⟩] := (append_assoc _ _ _).symm
  refine ⟨?_, ?_, ?_, ?_, ?_, ?_⟩
  · intro d
    rcases eq_or_eq_other c d with rfl | rfl
    · have hne := hroom.1
      have hbatch : (b.add d frame).batch d = b.batch d ++ [⟨b.next, frame⟩] := b.batch_set _
      rw [hbatch, length_append, ← h.count]
      rw [client_setClient, BitVec.toNat_add]
      change ((st.client d).spi_req_nb.toNat + 1) % 256 = (st.client d).spi_req_nb.toNat + 1
      omega
    · have hbatch : (b.add c frame).batch c.other = b.batch c.other :=
        b.batch_set_of_ne _ (ne_other c).symm
      rw [hbatch]
      rw [client_setClient_of_ne _ (ne_other c).symm]
      exact h.count _
  · intro d hd
    rcases eq_or_eq_other c d with rfl | rfl
    · rw [client_setClient]
      exact hmode
    · exact absurd ((b.batch_set_of_ne _ (ne_other c).symm).trans hnil) hd
  · rw [hwaiting]
    rw [hcontent, h.content]
    simp [frames]
  · rw [hwaiting]
    rw [hnb, h.number]
    simp
  · change ((b.transmitted ++ (b.add c frame).waiting).map Stored.id).Nodup
    rw [hwaiting, htransmitted, map_append, nodup_append]
    refine ⟨h.ids, pairwise_singleton _ _, ?_⟩
    intro i hi j hj
    obtain ⟨s, hs, rfl⟩ := mem_map.mp hi
    obtain rfl : j = b.next := by simpa using hj
    exact Nat.ne_of_lt (h.below s hs)
  · intro s hs
    change s ∈ b.transmitted ++ (b.add c frame).waiting at hs
    change s.id < b.next + 1
    rw [hwaiting, htransmitted, mem_append] at hs
    rcases hs with hs | hs
    · exact Nat.lt_succ_of_lt (h.below s hs)
    · obtain rfl := mem_singleton.mp hs
      exact Nat.lt_succ_self _

/-- The batches after a flush of the client. -/
def Batches.flush (b : Batches) (c : Client) : Batches :=
  { b.set c [] with transmitted := b.transmitted ++ b.batch c }

/-- A flush that finds both batches empty changes nothing in them. -/
theorem Batches.flush_of_nil (h : b.batch c = []) : b.flush c = b := by
  have hset := Batches.set_nil h
  rw [Batches.flush, hset, h, append_nil]

theorem Holds.flushed (h : Holds st b) (hother : (st.client c.other).spi_req_nb = 0)
    (buffer : ℕ → Byte) :
    Holds { st.setClient c ⟨.single, 0⟩ with bulk := ⟨0, 0, buffer⟩ } (b.flush c) := by
  have hnil := h.batch_eq_nil hother
  have hother' : (b.flush c).batch c.other = [] :=
    (b.batch_set_of_ne [] (ne_other c).symm).trans hnil
  have hself : (b.flush c).batch c = [] := b.batch_set []
  have hwaiting : (b.flush c).waiting = [] := (Batches.waiting_eq hother').trans hself
  have hall : ∀ d, (b.flush c).batch d = [] := fun d => by
    rcases eq_or_eq_other c d with rfl | rfl
    · exact hself
    · exact hother'
  refine ⟨?_, fun d hd => absurd (hall d) hd, ?_, ?_, ?_, ?_⟩
  · intro d
    rw [hall d]
    rcases eq_or_eq_other c d with rfl | rfl
    · rw [client_setClient]
      rfl
    · rw [client_setClient_of_ne _ (ne_other c).symm, hother]
      rfl
  · rw [hwaiting]
    rfl
  · rw [hwaiting]
    rfl
  · change ((b.transmitted ++ b.batch c ++ (b.flush c).waiting).map Stored.id).Nodup
    rw [hwaiting, append_nil, ← Batches.waiting_eq hnil]
    exact h.ids
  · intro s hs
    change s ∈ b.transmitted ++ b.batch c ++ (b.flush c).waiting at hs
    rw [hwaiting, append_nil, ← Batches.waiting_eq hnil] at hs
    exact h.below s hs

/-- A flush in turn is right, and keeps the link and the batches together. -/
theorem Holds.usbFlush (h : Holds st b) {x : Exchange} (hturn : OpInTurn st (.flush x c)) :
    CallRight st b (.flush x c) ∧ Holds (usbFlush x st c).state (b.flush c) := by
  obtain ⟨hother, hack⟩ := hturn
  have hnil := h.batch_eq_nil hother
  by_cases hzero : (st.client c).spi_req_nb = 0
  · -- nothing is stored, and nothing is sent
    have hbatch := h.batch_eq_nil hzero
    have hwaiting : b.waiting = [] := (Batches.waiting_eq hnil).trans hbatch
    have hnb : st.bulk.nb_req = 0 := by rw [h.number, hwaiting]; rfl
    have hsize : st.bulk.size = 0 := by
      have hlen := congrArg List.length h.content
      rw [hwaiting, SpiReqBulk.content, length_bytesOf] at hlen
      exact hlen
    rw [Batches.flush_of_nil hbatch]
    unfold CallRight Com.usbFlush
    dsimp only
    rw [hbatch]
    split
    · exact ⟨⟨rfl, hnb, hsize⟩, h⟩
    · exact ⟨⟨rfl, hnb, hsize⟩, h.setWriteMode hzero .single⟩
  · have hmode : (st.client c).write_mode = .bulk := by
      apply h.mode
      intro hbatch
      apply hzero
      apply BitVec.eq_of_toNat_eq
      rw [h.count, hbatch]
      rfl
    have hok := mcuSpiWrite_ok_iff.mpr (hack hzero)
    have hflush : Com.usbFlush x st c = ⟨true,
        { st.setClient c ⟨.single, 0⟩ with
          bulk := ⟨0, 0, (mcuSpiWrite x st.bulk.buffer st.bulk.size).buf⟩ },
        st.bulk.content⟩ := by
      unfold Com.usbFlush mcuSpiFlush
      dsimp only
      rw [if_neg (not_not_intro hmode), if_neg hzero, if_pos hok, sent_of_ok hok]
      rfl
    simp only [CallRight, hflush]
    refine ⟨⟨?_, trivial, trivial⟩, h.flushed hother _⟩
    rw [h.content, Batches.waiting_eq hnil]

/-- A request sends nothing but itself. -/
theorem callRight_write (st : UsbState) (b : Batches) (x : Exchange) (stack : ℕ → Byte)
    (r : UsbRequest) : CallRight st b (.write x stack r) := by
  unfold CallRight usbWrite
  dsimp only
  split_ifs with hmode
  · exact .inl rfl
  · refine (sent_cases x _ r.commandSize).imp id fun hsent => ⟨?_, ?_⟩
    · cases hsingle : (st.client r.client).write_mode with
      | single => rfl
      | bulk => exact absurd hsingle hmode
    · rw [hsent, ← length_frame (st.client r.client).spi_req_nb, bytesOf_overlay]

/-- One call made in turn. -/
theorem Holds.busStep (h : Holds st b) {op : BusOp} (hturn : OpInTurn st op) :
    CallRight st b op ∧ Holds (busStep st op).state (b.step st op) := by
  cases op with
  | setWriteMode c write_mode =>
    refine ⟨rfl, ?_⟩
    have hstep : b.step st (.setWriteMode c write_mode) = b := by
      cases write_mode with
      | single => rfl
      | bulk => exact Batches.set_nil (h.batch_eq_nil hturn)
    rw [hstep]
    exact h.setWriteMode hturn write_mode
  | write x stack r =>
    refine ⟨callRight_write st b x stack r, ?_⟩
    unfold Com.busStep Batches.step usbWrite
    dsimp only
    by_cases hmode : (st.client r.client).write_mode = .bulk
    · obtain ⟨hother, hroom⟩ := hturn hmode
      rw [← length_frame (st.client r.client).spi_req_nb r] at hroom
      have hok := (spiReqBulkInsert_of_hasRoom hroom).1
      rw [if_pos hmode, if_pos ⟨hmode, hok⟩]
      exact h.store hmode hother hroom
    · rw [if_neg hmode, if_neg (fun hand => hmode hand.1)]
      exact h
  | flush x c => exact h.usbFlush hturn

/-! ## Main result -/

theorem Holds.nodup_transmitted (h : Holds st b) : (b.transmitted.map Stored.id).Nodup := by
  have hids := h.ids
  rw [map_append] at hids
  exact (nodup_append.mp hids).1

/-- In every run made in turn, a flush sends the requests its client stored since it went to bulk
mode, in order, and leaves nothing stored; no other call sends a stored request, and none is sent
twice. -/
theorem busRight_of_inTurn {ops : List BusOp} (hturn : BusInTurn .initial ops) :
    BusRight .initial .initial ops := by
  have hrun : ∀ (ops : List BusOp) (st : UsbState) (b : Batches), Holds st b → BusInTurn st ops →
      BusRight st b ops := by
    intro ops
    induction ops with
    | nil => exact fun st b h _ => h.nodup_transmitted
    | cons op ops ih =>
      intro st b h hturn
      obtain ⟨hright, hnext⟩ := h.busStep hturn.1
      exact ⟨h.nodup_transmitted, hright, ih _ _ hnext hturn.2⟩
  exact hrun ops _ _ holds_initial hturn

/-- The MCU takes a transfer and acknowledges one read-modify-write request. -/
def acknowledged : Exchange := ⟨true, true, some #v[0, 0, 5, 0x46], [0, 2, 0, 0, 0]⟩

/-- The transfer is sent, but its acknowledge cannot be read. -/
def unacknowledged : Exchange := ⟨true, true, none, []⟩

/-- Sets one bit of the register at the given address. -/
def sampleRequest (address : BitVec 16) : UsbRequest := .rmw address 0 1 1

/-- A client goes to bulk mode, stores a request and flushes it. -/
def sampleBatch (x : Exchange) (address : BitVec 16) : List BusOp :=
  [.setWriteMode .sx1302 .bulk, .write x (fun _ => 0) (sampleRequest address), .flush x .sx1302]

theorem busRight_sampleBatch : BusRight .initial .initial (sampleBatch acknowledged 0x5200) :=
  busRight_of_inTurn ⟨rfl, fun _ => ⟨rfl, by decide⟩, ⟨rfl, fun _ => ⟨#v[0, 0, 5, 0x46],
    ⟨by decide, rfl, fun _ => rfl, rfl, rfl, by decide, by decide⟩,
    .inl ⟨[.readModifyWrite 0 0 0], rfl⟩⟩⟩, trivial⟩

/-- The variables after a sequence of calls. -/
def busRun (st : UsbState) (ops : List BusOp) : UsbState :=
  ops.foldl (fun st op => (busStep st op).state) st

/-- A flush whose acknowledge cannot be read leaves its request stored, and the next flush sends it
a second time in front of its own batch. -/
theorem flush_sends_twice :
    let first := busRun .initial ((sampleBatch unacknowledged 0x5200).take 2)
    let second := busRun .initial
      (sampleBatch unacknowledged 0x5200 ++ (sampleBatch acknowledged 0x5400).take 2)
    ¬BusRight .initial .initial (sampleBatch unacknowledged 0x5200)
      ∧ (usbFlush unacknowledged first .sx1302).sent = (sampleRequest 0x5200).frame 0
      ∧ (usbFlush unacknowledged first .sx1302).state.bulk.nb_req = 1
      ∧ (usbFlush acknowledged second .sx1302).sent
        = (sampleRequest 0x5200).frame 0 ++ (sampleRequest 0x5400).frame 0 := by
  refine ⟨?_, by decide, by decide, by decide⟩
  rintro ⟨-, -, -, -, -, ⟨-, hnb, -⟩, -⟩
  exact absurd hnb (by decide)

end RutosSdk.Com
