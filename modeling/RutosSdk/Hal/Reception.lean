import RutosSdk.Hal.Delivery

/-! # Sequences of calls of `lgw_receive`

A FIFO of whole, valid packets is delivered packet by packet over any sequence of calls. Where a
packet fails a check, the call that comes to it delivers nothing: a truncated packet or a wrong
checksum clears the buffer, anything else is `LGW_HAL_ERROR`.
-/

namespace RutosSdk.Hal

open List Traced

variable {context : LgwContext} {fine : FineTimestamp}

/-! ## Reachable states -/

/-- The buffer that a call works on. -/
def RxSystem.fetched (s : RxSystem) (call : ReceiveCall) : RxBuffer :=
  s.hal.rx_buffer.fetched (s.fifoAt call)

/-- The frames that are left between calls. -/
def RxSystem.left (context : LgwContext) (s : RxSystem) : List Outcome :=
  s.hal.rx_buffer.outcomes context

theorem length_fifoAt_le (s : RxSystem) (call : ReceiveCall) :
    (s.fifoAt call).length ≤ rxBufferMax := by
  rw [RxSystem.fifoAt, length_take]
  exact Nat.min_le_left _ _

theorem step_receives {s : RxSystem} (hs : s.hal.rx_buffer.Counted) (call : ReceiveCall) :
    ∃ r, Receives context (min (s.fetched call).pending.length call.max_pkt.toNat)
        ((s.fetched call).outcomes context) r ((s.next context fine call).left context)
      ∧ s.reply context fine call = replyOf context fine r
      ∧ (s.next context fine call).hal.rx_buffer.Counted :=
  lgwReceive_receives hs (length_fifoAt_le s call) rfl rfl

theorem counted_start (fifo : List Byte) (rx_buffer : RxBuffer) (history : TimestampPpsHistory) :
    (RxSystem.start fifo rx_buffer history).hal.rx_buffer.Counted :=
  counted_rxBufferDel rx_buffer.clear

variable {s : RxSystem} {q q' : List Outcome} {r : Except RegFailure (List LgwPktRx)}
  {fs : List RxFrame}

theorem counted_after (hs : s.hal.rx_buffer.Counted) (calls : List ReceiveCall) :
    (s.after context fine calls).hal.rx_buffer.Counted := by
  induction calls generalizing s with
  | nil => exact hs
  | cons call calls ih =>
    obtain ⟨-, -, -, hnext⟩ := @step_receives context fine s hs call
    exact ih hnext

/-! ## Failing packets -/

def Outcome.isPacket : Outcome → Bool
  | .packet _ => true
  | _ => false

/-- What a call with room for `max` packets makes of the frames `q` that it finds: its reply, and
the frames that it leaves. It depends on the first frame within its reach that is not a packet. -/
def CallResult (context : LgwContext) (fine : FineTimestamp) (max : ℕ) (q : List Outcome)
    (reply : Except HalFailure (List LgwPktRx)) (q' : List Outcome) : Prop :=
  match (q.take max).find? (fun o => !o.isPacket) with
  | none => ∃ pkts ps, q.take max = pkts.map .packet ∧ List.Forall₂ (Delivered context) pkts ps
      ∧ reply = replyOf context fine (.ok ps) ∧ q' = q.drop max
  | some .warning => reply = .ok [] ∧ q' = []
  | some .error => reply = .error .error ∧ q' = q.dropWhile Outcome.isPacket
  | some .refused => reply = .error .error ∧ q' = (q.dropWhile Outcome.isPacket).tail
  | some (.packet _) => False

theorem Receives.result {n : ℕ} (h : Receives context n q r q') :
    match (q.take n).find? (fun o => !o.isPacket) with
    | none => ∃ pkts ps, q.take n = pkts.map .packet ∧ List.Forall₂ (Delivered context) pkts ps
        ∧ r = .ok ps ∧ q' = q.drop n
    | some .warning => r = .error .warning ∧ q' = []
    | some .error => r = .error .error ∧ q' = q.dropWhile Outcome.isPacket
    | some .refused => r = .error .error ∧ q' = (q.dropWhile Outcome.isPacket).tail
    | some (.packet _) => False := by
  induction h with
  | done q => exact ⟨[], [], rfl, .nil, rfl, rfl⟩
  | @packet n q q' r pkt p hp h ih =>
    rw [take_succ_cons, List.find?_cons_of_neg (by simp [Outcome.isPacket]),
      dropWhile_cons_of_pos rfl, drop_succ_cons]
    split at ih
    · obtain ⟨pkts, ps, htake, hps, rfl, rfl⟩ := ih
      exact ⟨pkt :: pkts, p :: ps, by rw [htake]; rfl, .cons hp hps, rfl, rfl⟩
    · exact ⟨by rw [ih.1]; rfl, ih.2⟩
    · exact ⟨by rw [ih.1]; rfl, ih.2⟩
    · exact ⟨by rw [ih.1]; rfl, ih.2⟩
    · exact ih
  | warning n q => exact ⟨rfl, rfl⟩
  | error n q => exact ⟨rfl, rfl⟩
  | refused n q => exact ⟨rfl, rfl⟩

theorem Receives.callResult {max : ℕ} (h : Receives context (min q.length max) q r q') :
    CallResult context fine max q (replyOf context fine r) q' := by
  have htake : q.take (min q.length max) = q.take max := by
    rw [Nat.min_comm, ← take_take, take_length]
  have hdrop : q.drop (min q.length max) = q.drop max := by
    rcases Nat.le_total max q.length with hle | hle
    · rw [Nat.min_eq_right hle]
    · rw [Nat.min_eq_left hle, drop_length, drop_of_length_le hle]
  have hresult := h.result
  rw [htake, hdrop] at hresult
  rw [CallResult]
  split at hresult
  · obtain ⟨pkts, ps, hq, hps, rfl, hq'⟩ := hresult
    exact ⟨pkts, ps, hq, hps, rfl, hq'⟩
  · rw [hresult.1]
    exact ⟨rfl, hresult.2⟩
  · rw [hresult.1]
    exact ⟨rfl, hresult.2⟩
  · rw [hresult.1]
    exact ⟨rfl, hresult.2⟩
  · exact hresult

theorem step_callResult {s : RxSystem} (hs : s.hal.rx_buffer.Counted) (call : ReceiveCall) :
    CallResult context fine call.max_pkt.toNat ((s.fetched call).outcomes context)
        (s.reply context fine call) ((s.next context fine call).left context)
      ∧ (s.next context fine call).hal.rx_buffer.Counted := by
  obtain ⟨r, hreceives, hreply, hnext⟩ := @step_receives context fine s hs call
  refine ⟨?_, hnext⟩
  rw [hreply]
  apply Receives.callResult
  rw [RxBuffer.outcomes, length_map]
  exact hreceives

theorem pending_eq_nil_iff :
    s.left context = [] ↔ s.hal.rx_buffer.pending = [] := map_eq_nil_iff

theorem next_fifo_of_eq_zero {call : ReceiveCall} (hnb : s.hal.rx_buffer.buffer_pkt_nb = 0) :
    (s.next context fine call).fifo = [] :=
  if_pos hnb

/-- In every state that a sequence of calls reaches, a call delivers the packets at the front of
what is left or, if nothing is, of the FIFO; a frame that fails costs the packets that the same call
has parsed, and clears the buffer or makes the call return `LGW_HAL_ERROR`. What is left is what the
next call finds, and a FIFO that is read is empty. -/
theorem receive_results (context : LgwContext) (fine : FineTimestamp) (fifo : List Byte)
    (rx_buffer : RxBuffer) (history : TimestampPpsHistory) (calls : List ReceiveCall)
    (call : ReceiveCall) : let s := (RxSystem.start fifo rx_buffer history).after context fine calls
    CallResult context fine call.max_pkt.toNat ((s.fetched call).outcomes context)
        (s.reply context fine call) ((s.next context fine call).left context)
      ∧ (s.left context ≠ [] → (s.fetched call).outcomes context = s.left context)
      ∧ (s.left context = [] → (s.next context fine call).fifo = []) := by
  intro s
  have hs : s.hal.rx_buffer.Counted := counted_after (counted_start fifo rx_buffer history) calls
  refine ⟨(step_callResult hs call).1, fun hne => ?_, fun hnil => ?_⟩
  · have hpending : s.hal.rx_buffer.pending ≠ [] := fun h => hne (pending_eq_nil_iff.mpr h)
    rw [RxSystem.fetched, (sx1302Fetch_spec hs (length_fifoAt_le s call)).2.2 hpending]
    rfl
  · have hnb : s.hal.rx_buffer.buffer_pkt_nb = 0 := by
      rw [hs.pkt_nb, pending_eq_nil_iff.mp hnil]
      rfl
    exact next_fifo_of_eq_zero hnb

/-- A packet at spreading factor 7 without payload, CRC and metrics. -/
def emptyFrame (modem_id rx_channel_in : Byte) : RxFrame where
  payload := []
  length_payload := by decide
  rx_channel_in := rx_channel_in
  crc_en := false
  coding_rate := 1
  rx_rate_sf := 7
  modem_id := modem_id
  frequency_offset_error := 0
  unused_8 := 0
  payload_crc_error := false
  unused_9_1 := false
  sync_error := false
  header_error := false
  timing_set := false
  unused_9_5 := 0
  snr_average := 0
  rssi_chan_avg := 0
  rssi_signal_avg := 0
  rssi_chan_max_delta := 0
  rssi_sig_max_delta := 0
  timestamp_cnt := 0
  rx_crc16_value := 0
  num_ts_metrics := 0
  num_ts_metrics_le := by decide
  timestamp_avg := []
  length_timestamp_avg := rfl

/-- A call for up to `max_pkt` packets, with no bytes before it. -/
def sampleCall (max_pkt : Byte) : ReceiveCall where
  arrived := []
  buff := none
  buff_wa := none
  buff_wa' := none
  temperature := 0
  max_pkt := max_pkt
  pkt_data := fun _ => .zero

/-- Without fine timestamps. -/
def noFineTimestamp : FineTimestamp := ⟨fun _ _ _ _ _ _ => (false, 0), id⟩

/-- The number of packets that each call returns. -/
def replyCounts (fifo : List Byte) (calls : List ReceiveCall) : List (Except HalFailure ℕ) :=
  ((RxSystem.start fifo .initial .initial).replies .initial noFineTimestamp calls).map
    (Except.map List.length)

/-- A packet is lost with the one behind it, whose checksum is wrong, unless an earlier call took
it; and a packet with modem 18 makes every call fail from then on. -/
theorem failing_packet_loses_preceding :
    replyCounts ((emptyFrame 0 0).encode ++ ((emptyFrame 0 0).body ++ [0]))
        [sampleCall 2, sampleCall 2] = [.ok 0, .ok 0]
      ∧ replyCounts ((emptyFrame 0 0).encode ++ ((emptyFrame 0 0).body ++ [0]))
        [sampleCall 1, sampleCall 2] = [.ok 1, .ok 0]
      ∧ replyCounts (emptyFrame 18 0).encode [sampleCall 2, sampleCall 2]
        = [.error .error, .error .error] := by
  decide

/-! ## Valid packets -/

/-- The CRC status of a packet as its flags encode it; on the LoRa service channel the configuration
can say that packets have a CRC. -/
def RxFrame.status (context : LgwContext) (f : RxFrame) : Byte :=
  if f.crc_en || (f.rx_channel_in == 8 && context.lora_service_cfg.implicit_crc_en) then
    if f.payload_crc_error then statCrcBad else statCrcOk
  else statNoCrc

/-- The packet has modem, channel and spreading factor in range, and a LoRa packet with CRC status
OK carries the CRC of its payload. -/
structure RxFrame.WellFormed (context : LgwContext) (f : RxFrame) : Prop where
  modem : f.modem_id ≤ 17
  channel : f.rx_channel_in ≤ 9
  sf : f.modem_id ≤ 16 ∨ f.rx_channel_in ≤ 8 → 5 ≤ f.rx_rate_sf.toNat ∧ f.rx_rate_sf.toNat ≤ 12
  crc : f.status context = statCrcOk → f.rx_channel_in ≤ 8 → f.payload ≠ [] →
    sx1302LoraPayloadCrc f.payload = f.rx_crc16_value

/-- The caller's structure holds what the packet encodes; on the FSK channel the datarate is the one
configured. -/
structure DeliveredAs (context : LgwContext) (f : RxFrame) (p : LgwPktRx) : Prop where
  payload : p.payload.toList.take f.payload.length = f.payload
  size : p.size.toNat = f.payload.length
  if_chain : p.if_chain = f.rx_channel_in
  modem_id : p.modem_id = f.modem_id
  crc : p.crc = f.rx_crc16_value
  status : p.status = f.status context
  sf : f.rx_channel_in ≠ 9 → p.datarate.toNat = f.rx_rate_sf.toNat
  fsk : f.rx_channel_in = 9 → p.datarate = context.fsk_cfg.datarate

theorem RxFrame.toNat_rx_rate_sf (f : RxFrame) :
    f.toPacket.rx_rate_sf.toNat = f.rx_rate_sf.toNat := by
  change (f.rx_rate_sf.setWidth 8).toNat = _
  rw [BitVec.toNat_setWidth]
  omega

theorem ifmodConfig_beq_loraStd (if_chain : Byte) :
    (ifmodConfig if_chain == .loraStd) = (if_chain == 8) := by
  revert if_chain
  decide

theorem RxFrame.crcStatus_eq (context : LgwContext) (f : RxFrame) :
    crcStatus context (ifmodConfig f.rx_channel_in) f.toPacket = f.status context := by
  rw [crcStatus, ifmodConfig_beq_loraStd]
  rfl

namespace RxFrame.WellFormed

variable {f : RxFrame}

theorem inRange (h : f.WellFormed context) : f.toPacket.inRange = true := by
  have hmodem : ¬f.toPacket.modem_id > fskModemId := Nat.not_lt.mpr h.modem
  have hchannel : ¬f.toPacket.rx_channel_in > 9 := Nat.not_lt.mpr h.channel
  rw [RxPacket.inRange, if_neg hmodem, if_neg hchannel]
  split
  · next hlora =>
      obtain ⟨hmin, hmax⟩ := h.sf (.inl hlora)
      have hsf : ¬(f.toPacket.rx_rate_sf < 5 ∨ f.toPacket.rx_rate_sf > 12) := by
        rw [not_or]
        exact ⟨Nat.not_lt.mpr (by rw [f.toNat_rx_rate_sf]; exact hmin),
          Nat.not_lt.mpr (by rw [f.toNat_rx_rate_sf]; exact hmax)⟩
      rw [if_neg hsf]
  · rfl

theorem not_refused (h : f.WellFormed context) : ¬Refused context f.toPacket := by
  rintro (hchannel | ⟨hle, hstatus, hsize, hcrc⟩)
  · exact absurd hchannel (Nat.not_lt.mpr h.channel)
  · refine hcrc (h.crc ?_ hle ?_)
    · rw [← f.crcStatus_eq]
      exact hstatus
    · intro hnil
      have hzero : f.toPacket.rxbytenb_modem = 0 := by
        rw [RxFrame.toPacket, hnil]
        rfl
      rw [hzero] at hsize
      exact absurd hsize (by decide)

/-- The packet has the values of its frame. -/
theorem deliveredAs (h : f.WellFormed context) {p : LgwPktRx}
    (hp : Delivered context f.toPacket p) : DeliveredAs context f p where
  payload := hp.payload
  size := by
    have hlen := f.length_payload
    have hsize : p.size = (BitVec.ofNat 8 f.payload.length).setWidth 16 := hp.size
    rw [hsize, BitVec.toNat_setWidth, BitVec.toNat_ofNat]
    omega
  if_chain := hp.if_chain
  modem_id := hp.modem_id
  crc := hp.crc
  status := hp.status.trans (f.crcStatus_eq context)
  sf := by
    intro hne
    have hle : f.rx_channel_in ≤ 8 := by
      have hchannel := h.channel
      bv_omega
    obtain ⟨hmin, hmax⟩ := h.sf (.inr hle)
    have hrange : 5 ≤ f.toPacket.rx_rate_sf ∧ f.toPacket.rx_rate_sf ≤ 12 := by
      rw [BitVec.le_def, BitVec.le_def, f.toNat_rx_rate_sf]
      exact ⟨hmin, hmax⟩
    have hsf := f.toNat_rx_rate_sf
    have hdatarate := hp.datarate
    rw [if_neg (by exact hne), datarateOfSf, if_pos hrange] at hdatarate
    rw [hdatarate, BitVec.toNat_setWidth, hsf]
    omega
  fsk := by
    intro hfsk
    have hdatarate := hp.datarate
    rw [if_pos (by exact hfsk)] at hdatarate
    exact hdatarate

end RxFrame.WellFormed

/-- The FIFO's bytes stand in the loaded buffer. -/
theorem holds_loaded (b : RxBuffer) (fifo : List Byte) : Holds (b.loaded fifo).buffer 0 fifo := by
  refine @holds_of_getD _ _ 0 0 fifo ?_
  intro i hi
  rw [Nat.zero_add]
  exact if_pos hi

/-- A buffer of whole packets is taken as it is. -/
theorem outcomes_sync {a : RxBuffer} (hne : fs ≠ []) (hfs : ∀ f ∈ fs, f.WellFormed context)
    (hholds : Holds a.buffer 0 (encodeAll fs)) (hsize : a.buffer_size = (encodeAll fs).length) :
    a.sync.val.outcomes context = fs.map fun f => .packet f.toPacket := by
  obtain ⟨hsync, hverdict⟩ := frames_encodeAll hholds ((Nat.zero_add _).trans hsize.symm)
    fun f hf => (hfs f hf).inRange
  have hsync : ∀ p ∈ a.framesFrom 0, HasSync a.buffer p := hsync
  obtain ⟨f, fs, rfl⟩ := exists_cons_of_ne_nil hne
  have hcons : encodeAll (f :: fs) = f.encode ++ encodeAll fs := rfl
  have hlen := f.length_encode
  rw [hcons, length_append] at hsize
  rw [hcons, holds_append] at hholds
  have hsynced : Synced a a :=
    ⟨by omega, 0, by omega, (frameAt_of_holds hholds.1).hasSync,
      fun k hk => absurd hk (Nat.not_lt_zero k), rfl⟩
  rw [sync_val_of_synced hsynced, RxBuffer.counted, if_pos hsync]
  change (a.framesFrom 0).map (outcomeOf context ∘ frameVerdict a.buffer a.buffer_size) = _
  rw [← map_map, RxBuffer.framesFrom, hverdict, map_map]
  exact map_congr_left fun g hg => if_neg (hfs g hg).not_refused

/-- A FIFO of whole packets is fetched packet by packet. -/
theorem fetched_encodeAll {b : RxBuffer} {fs : List RxFrame} (hnb : b.buffer_pkt_nb = 0)
    (hfs : ∀ f ∈ fs, f.WellFormed context) (hmax : (encodeAll fs).length ≤ rxBufferMax) :
    (b.fetched (encodeAll fs)).outcomes context = fs.map fun f => .packet f.toPacket := by
  rw [RxBuffer.fetched, sx1302Fetch, if_pos hnb]
  by_cases hne : fs = []
  · rw [hne]
    rfl
  · have hpos : 0 < (encodeAll fs).length := by
      obtain ⟨f, fs, rfl⟩ := exists_cons_of_ne_nil hne
      have hlen := f.length_encode
      change 0 < (f.encode ++ encodeAll fs).length
      rw [length_append]
      omega
    rw [rxBufferFetch_of_pos hpos hmax]
    exact outcomes_sync hne hfs (holds_loaded (rxBufferNew b) (encodeAll fs)) rfl

/-! ## Delivery of a FIFO -/

theorem callResult_of_packets {max : ℕ} {pkts : List RxPacket}
    {reply : Except HalFailure (List LgwPktRx)}
    (h : CallResult context fine max (pkts.map .packet) reply q') :
    ∃ ps, reply = replyOf context fine (.ok ps)
      ∧ List.Forall₂ (Delivered context) (pkts.take max) ps
      ∧ q' = (pkts.drop max).map .packet := by
  have hnone : ((pkts.map Outcome.packet).take max).find? (fun o => !o.isPacket) = none := by
    rw [List.find?_eq_none, ← map_take]
    intro o ho
    obtain ⟨pkt, -, rfl⟩ := mem_map.mp ho
    simp [Outcome.isPacket]
  rw [CallResult, hnone] at h
  obtain ⟨pkts', ps, htake, hps, hreply, hq'⟩ := h
  rw [← map_take] at htake
  have hpkts : pkts.take max = pkts' :=
    map_injective_iff.mpr (fun _ _ heq => Outcome.packet.inj heq) htake
  rw [← hpkts] at hps
  exact ⟨ps, hreply, hps, by rw [hq', map_drop]⟩

/-- The next call finds the packets `fs`, and no bytes are left behind them. -/
structure Ready (context : LgwContext) (fine : FineTimestamp) (s : RxSystem) (fs : List RxFrame) :
    Prop where
  counted : s.hal.rx_buffer.Counted
  finds : ∀ call, call.arrived = [] →
    (s.fetched call).outcomes context = fs.map fun f => .packet f.toPacket
  empties : ∀ call, call.arrived = [] → (s.next context fine call).fifo = []

theorem ready_start (rx_buffer : RxBuffer) (history : TimestampPpsHistory)
    (hfs : ∀ f ∈ fs, f.WellFormed context) (hmax : (encodeAll fs).length ≤ rxBufferMax) :
    Ready context fine (.start (encodeAll fs) rx_buffer history) fs where
  counted := counted_start _ _ _
  finds := by
    intro call harrived
    have hfifo : (RxSystem.start (encodeAll fs) rx_buffer history).fifoAt call = encodeAll fs := by
      rw [RxSystem.fifoAt, harrived, append_nil]
      exact take_of_length_le hmax
    rw [RxSystem.fetched, hfifo]
    exact fetched_encodeAll rfl hfs hmax
  empties := by
    intro call _
    exact next_fifo_of_eq_zero rfl

/-- Between calls the packets are in the buffer. -/
theorem ready_of_left (hs : s.hal.rx_buffer.Counted) (hfifo : s.fifo = [])
    (hleft : s.left context = fs.map fun f => .packet f.toPacket) : Ready context fine s fs where
  counted := hs
  finds := by
    intro call harrived
    have hempty : s.fifoAt call = [] := by rw [RxSystem.fifoAt, hfifo, harrived]; rfl
    by_cases hpending : s.hal.rx_buffer.pending = []
    · have hnb : s.hal.rx_buffer.buffer_pkt_nb = 0 := by
        rw [hs.pkt_nb, hpending]
        rfl
      have hnil : fs = [] := by
        rw [pending_eq_nil_iff.mpr hpending] at hleft
        exact map_eq_nil_iff.mp hleft.symm
      rw [RxSystem.fetched, hempty, hnil]
      exact @fetched_encodeAll context _ [] hnb (fun f hf => by cases hf) (Nat.zero_le _)
    · rw [RxSystem.fetched, (sx1302Fetch_spec hs (length_fifoAt_le s call)).2.2 hpending]
      exact hleft
  empties := by
    intro call harrived
    have hempty : s.fifoAt call = [] := by rw [RxSystem.fifoAt, hfifo, harrived]; rfl
    rw [RxSystem.next, hempty, ite_self]

/-- One call delivers the first packets and leaves the others. -/
theorem Ready.next (h : Ready context fine s fs) (hft : context.ftime_enable = false)
    (hfs : ∀ f ∈ fs, f.WellFormed context) {call : ReceiveCall} (harrived : call.arrived = []) :
    ∃ ps, s.reply context fine call = .ok ps
      ∧ List.Forall₂ (DeliveredAs context) (fs.take call.max_pkt.toNat) ps
      ∧ Ready context fine (s.next context fine call) (fs.drop call.max_pkt.toNat) := by
  obtain ⟨hresult, hnext⟩ := @step_callResult context fine s h.counted call
  have hfinds : (s.fetched call).outcomes context = (fs.map RxFrame.toPacket).map .packet :=
    (h.finds call harrived).trans map_map.symm
  rw [hfinds] at hresult
  obtain ⟨ps, hreply, hps, hleft⟩ := callResult_of_packets hresult
  refine ⟨ps, ?_, ?_, ?_⟩
  · rw [hreply, replyOf, hft, if_neg (by simp)]
  · rw [← map_take, forall₂_map_left_iff] at hps
    have hboth := (forall₂_and_left _ _).mpr
      ⟨fun f hf => hfs f (mem_of_mem_take hf), hps⟩
    exact hboth.imp fun f p hp => hp.1.deliveredAs hp.2
  · refine ready_of_left hnext (h.empties call harrived) ?_
    rw [hleft, ← map_drop, map_map]
    rfl

theorem Ready.replies (hft : context.ftime_enable = false) (hfs : ∀ f ∈ fs, f.WellFormed context)
    (calls : List ReceiveCall) (harrived : ∀ call ∈ calls, call.arrived = [])
    (h : Ready context fine s fs) :
    ∃ deliveries : List (List LgwPktRx),
      s.replies context fine calls = deliveries.map .ok
        ∧ List.Forall₂ (DeliveredAs context) (fs.take (calls.map (·.max_pkt.toNat)).sum)
          deliveries.flatten := by
  induction calls generalizing s fs with
  | nil => exact ⟨[], rfl, .nil⟩
  | cons call calls ih =>
    rw [forall_mem_cons] at harrived
    obtain ⟨ps, hreply, hps, hnext⟩ := h.next hft hfs harrived.1
    obtain ⟨deliveries, hreplies, hdelivered⟩ :=
      ih (fun f hf => hfs f (mem_of_mem_drop hf)) harrived.2 hnext
    refine ⟨ps :: deliveries, ?_, ?_⟩
    · rw [RxSystem.replies, hreply, hreplies, map_cons]
    · rw [map_cons, sum_cons, take_add, flatten_cons]
      exact rel_append hps hdelivered

/-- A FIFO of whole valid packets is delivered over the calls, each packet once and in order, as
many as the calls have room for. -/
theorem fifo_delivered (context : LgwContext) (hft : context.ftime_enable = false)
    (fine : FineTimestamp) (fs : List RxFrame) (hfs : ∀ f ∈ fs, f.WellFormed context)
    (hmax : (encodeAll fs).length ≤ rxBufferMax) (rx_buffer : RxBuffer)
    (history : TimestampPpsHistory) (calls : List ReceiveCall)
    (harrived : ∀ call ∈ calls, call.arrived = []) :
    ∃ deliveries : List (List LgwPktRx),
      (RxSystem.start (encodeAll fs) rx_buffer history).replies context fine calls
          = deliveries.map .ok
        ∧ List.Forall₂ (DeliveredAs context) (fs.take (calls.map (·.max_pkt.toNat)).sum)
          deliveries.flatten :=
  (ready_start rx_buffer history hfs hmax).replies hft hfs calls harrived

theorem emptyFrame_wellFormed {modem_id rx_channel_in : Byte} (hmodem : modem_id ≤ 17)
    (hchannel : rx_channel_in ≤ 9) : (emptyFrame modem_id rx_channel_in).WellFormed context where
  modem := hmodem
  channel := hchannel
  sf := by
    intro _
    change 5 ≤ 7 ∧ 7 ≤ 12
    decide
  crc := fun _ _ hne => absurd rfl hne

theorem fifo_delivered_two :
    ∃ deliveries : List (List LgwPktRx),
      (RxSystem.start (encodeAll [emptyFrame 0 0, emptyFrame 17 9]) .initial .initial).replies
          .initial noFineTimestamp [sampleCall 1, sampleCall 2] = deliveries.map .ok
        ∧ List.Forall₂ (DeliveredAs .initial) [emptyFrame 0 0, emptyFrame 17 9]
          deliveries.flatten := by
  refine fifo_delivered .initial rfl noFineTimestamp [emptyFrame 0 0, emptyFrame 17 9] ?_
    (by decide) .initial .initial [sampleCall 1, sampleCall 2] ?_
  · intro f hf
    simp only [mem_cons, not_mem_nil, or_false] at hf
    rcases hf with rfl | rfl
    · exact emptyFrame_wellFormed (by decide) (by decide)
    · exact emptyFrame_wellFormed (by decide) (by decide)
  · intro call hcall
    simp only [mem_cons, not_mem_nil, or_false] at hcall
    rcases hcall with rfl | rfl
    · rfl
    · rfl

/-- The configuration with implicit headers that say that packets have a CRC. -/
def implicitCrcContext : LgwContext :=
  { LgwContext.initial with
    lora_service_cfg := { LgwContext.initial.lora_service_cfg with implicit_crc_en := true } }

/-- A packet on the FSK channel is delivered with the FSK datarate in place of its spreading factor,
and one without CRC on the LoRa service channel with CRC status OK. -/
theorem channel_overrides_packet :
    (emptyFrame 0 9).WellFormed .initial ∧ (emptyFrame 0 9).rx_rate_sf = 7
      ∧ ((RxSystem.start (emptyFrame 0 9).encode .initial .initial).replies .initial
          noFineTimestamp [sampleCall 1]).map (Except.map (List.map LgwPktRx.datarate))
        = [.ok [50000]]
      ∧ (emptyFrame 0 8).WellFormed implicitCrcContext ∧ (emptyFrame 0 8).crc_en = false
      ∧ ((RxSystem.start (emptyFrame 0 8).encode .initial .initial).replies implicitCrcContext
          noFineTimestamp [sampleCall 1]).map (Except.map (List.map LgwPktRx.status))
        = [.ok [statCrcOk]] :=
  ⟨emptyFrame_wellFormed (by decide) (by decide), rfl, by decide,
    emptyFrame_wellFormed (by decide) (by decide), rfl, by decide⟩

end RutosSdk.Hal
