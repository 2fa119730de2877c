import RutosSdk.Hal.RxFormat
import RutosSdk.Hal.Receive

/-! # What `lgw_receive` delivers

Seen from the caller, the RX buffer is a queue of frames, each of which is a packet or fails in one
of three ways. A call takes packets from the front of the queue, and `Receives` says what becomes of
the queue; the code's buffer refines it in every state that a sequence of calls reaches.
-/

namespace RutosSdk.Hal

open Traced

/-! ## Frames as the caller sees them -/

/-- `sx1302_parse` refuses the packet after it has taken it from the buffer: it has no valid IF
chain, or the CRC of its payload is not the one received. -/
def Refused (context : LgwContext) (pkt : RxPacket) : Prop :=
  9 < pkt.rx_channel_in ∨ (pkt.rx_channel_in ≤ 8
    ∧ crcStatus context (ifmodConfig pkt.rx_channel_in) pkt = statCrcOk ∧ pkt.rxbytenb_modem > 0
    ∧ sx1302LoraPayloadCrc pkt.payload ≠ pkt.rx_crc16_value)

instance (context : LgwContext) (pkt : RxPacket) : Decidable (Refused context pkt) :=
  inferInstanceAs (Decidable (_ ∨ _))

/-- What comes of a frame. -/
inductive Outcome where
  /-- A packet that passes every check. -/
  | packet (pkt : RxPacket)
  /-- A truncated packet, or one with a wrong checksum. -/
  | warning
  /-- A packet with modem, channel or spreading factor out of range. -/
  | error
  /-- A packet without IF chain, or with a wrong payload CRC. -/
  | refused

def outcomeOf (context : LgwContext) : Except RegFailure RxPacket → Outcome
  | .ok pkt => if Refused context pkt then .refused else .packet pkt
  | .error .warning => .warning
  | .error .error => .error

/-- The frames that are still to be popped. -/
def RxBuffer.pending (b : RxBuffer) : List ℕ := b.framesFrom b.buffer_index

/-- What comes of them. -/
def RxBuffer.outcomes (context : LgwContext) (b : RxBuffer) : List Outcome :=
  b.pending.map fun p => outcomeOf context (frameVerdict b.buffer b.buffer_size p)

/-- The caller's structure holds the packet. -/
structure Delivered (context : LgwContext) (pkt : RxPacket) (p : LgwPktRx) : Prop where
  size : p.size = pkt.rxbytenb_modem.setWidth 16
  payload : p.payload.toList.take pkt.payload.length = pkt.payload
  if_chain : p.if_chain = pkt.rx_channel_in
  modem_id : p.modem_id = pkt.modem_id
  crc : p.crc = pkt.rx_crc16_value
  status : p.status = crcStatus context (ifmodConfig pkt.rx_channel_in) pkt
  datarate : p.datarate
    = if pkt.rx_channel_in = 9 then context.fsk_cfg.datarate else datarateOfSf pkt.rx_rate_sf

/-- `n` steps of the receive loop on a queue of frames: what they return, and the queue they
leave. -/
inductive Receives (context : LgwContext) :
    ℕ → List Outcome → Except RegFailure (List LgwPktRx) → List Outcome → Prop where
  | done (q : List Outcome) : Receives context 0 q (.ok []) q
  | packet {n : ℕ} {q q' : List Outcome} {r : Except RegFailure (List LgwPktRx)} {pkt : RxPacket}
      {p : LgwPktRx} (hp : Delivered context pkt p) (h : Receives context n q r q') :
      Receives context (n + 1) (.packet pkt :: q) (r.map (p :: ·)) q'
  | warning (n : ℕ) (q : List Outcome) :
      Receives context (n + 1) (.warning :: q) (.error .warning) []
  | error (n : ℕ) (q : List Outcome) :
      Receives context (n + 1) (.error :: q) (.error .error) (.error :: q)
  | refused (n : ℕ) (q : List Outcome) :
      Receives context (n + 1) (.refused :: q) (.error .error) q

/-! ## Parsing -/

section Parse

variable {context : LgwContext} {fine : FineTimestamp} {counter_us : TimestampCounter}
  {pkt : RxPacket}

theorem take_copyPayload {payload : Vector Byte 256} {data : List Byte}
    (h : data.length ≤ 256) : (copyPayload payload data).toList.take data.length = data := by
  apply List.ext_getElem
  · simp [h]
  · intro i _ hi
    simp [copyPayload, hi]

theorem ifmodConfig_of_le {if_chain : Byte} (h : if_chain ≤ 8) :
    ifmodConfig if_chain = .loraMulti ∨ ifmodConfig if_chain = .loraStd := by
  rw [ifmodConfig]
  by_cases hlt : if_chain < 8
  · rw [if_pos hlt]
    exact .inl rfl
  · have heq : if_chain = 8 := by bv_omega
    rw [heq]
    exact .inr rfl

/-- What the modulation branches leave as it is, and what they set. -/
structure Modulated (context : LgwContext) (pkt : RxPacket) (p p' : LgwPktRx) : Prop where
  size : p'.size = p.size
  payload : p'.payload = p.payload
  if_chain : p'.if_chain = p.if_chain
  modem_id : p'.modem_id = p.modem_id
  status : p'.status = crcStatus context (ifmodConfig pkt.rx_channel_in) pkt
  datarate : p'.datarate
    = if pkt.rx_channel_in = 9 then context.fsk_cfg.datarate else datarateOfSf pkt.rx_rate_sf

theorem parseModulation_of_fsk (h : pkt.rx_channel_in = 9) (p : LgwPktRx) :
    ∃ p' correction, parseModulation context fine pkt p = .ok (p', correction)
      ∧ Modulated context pkt p p' := by
  have hmod : ifmodConfig pkt.rx_channel_in = .fskStd := by
    rw [h]
    rfl
  refine ⟨(parseFsk context pkt p).1, (parseFsk context pkt p).2, ?_, rfl, rfl, rfl, rfl, ?_, ?_⟩
  · rw [parseModulation, hmod]
    rfl
  · rw [hmod]
    rfl
  · rw [if_pos h]
    rfl

theorem parseModulation_of_lora (h : pkt.rx_channel_in ≤ 8) (p : LgwPktRx) :
    if crcStatus context (ifmodConfig pkt.rx_channel_in) pkt = statCrcOk ∧ pkt.rxbytenb_modem > 0
        ∧ sx1302LoraPayloadCrc pkt.payload ≠ pkt.rx_crc16_value then
      parseModulation context fine pkt p = .error .error
    else ∃ p' correction, parseModulation context fine pkt p = .ok (p', correction)
      ∧ Modulated context pkt p p' := by
  have hne : pkt.rx_channel_in ≠ 9 := by
    intro h9
    rw [h9] at h
    exact absurd h (by decide)
  rw [parseModulation, if_pos (ifmodConfig_of_le h), parseLora]
  split
  · rfl
  · exact ⟨_, _, rfl, rfl, rfl, rfl, rfl, rfl, (if_neg hne).symm⟩

theorem parsePacket_of_modulated (hlen : pkt.payload.length ≤ 256) {p p' : LgwPktRx}
    {correction : Word} (hchain : ¬pkt.rx_channel_in.toNat ≥ ifChainNb)
    (hp' : parseModulation context fine pkt (parseCommon context pkt p) = .ok (p', correction))
    (hmod : Modulated context pkt (parseCommon context pkt p) p') :
    ∃ q, parsePacket context fine counter_us pkt p = .ok q ∧ Delivered context pkt q := by
  refine ⟨parseEnd counter_us pkt (p', correction), ?_, ?_⟩
  · rw [parsePacket, if_neg hchain, hp']
    rfl
  · refine ⟨hmod.size, ?_, hmod.if_chain, hmod.modem_id, rfl, hmod.status, hmod.datarate⟩
    change p'.payload.toList.take pkt.payload.length = _
    rw [hmod.payload]
    exact take_copyPayload hlen

/-- A packet is delivered unless it is refused. -/
theorem parsePacket_spec (hlen : pkt.payload.length ≤ 256) (p : LgwPktRx) :
    if Refused context pkt then parsePacket context fine counter_us pkt p = .error .error
    else ∃ p', parsePacket context fine counter_us pkt p = .ok p' ∧ Delivered context pkt p' := by
  -- the channel decides: LoRa up to 8, FSK on 9, and none beyond
  rcases Nat.lt_trichotomy pkt.rx_channel_in.toNat 9 with hlt | heq | hgt
  · have hle : pkt.rx_channel_in ≤ 8 := Nat.le_of_lt_succ hlt
    have hnot : ¬(9 : Byte) < pkt.rx_channel_in := Nat.not_lt.mpr (Nat.le_of_lt hlt)
    have hspec := @parseModulation_of_lora context fine pkt hle (parseCommon context pkt p)
    split at hspec
    · next hcrc =>
        have hrefused : Refused context pkt := .inr ⟨hle, hcrc⟩
        rw [if_pos hrefused, parsePacket, if_neg (by unfold ifChainNb; omega), hspec]
        rfl
    · next hcrc =>
        have hrefused : ¬Refused context pkt := by
          rintro (h | h)
          · exact hnot h
          · exact hcrc h.2
        obtain ⟨p', correction, hp', hmod⟩ := hspec
        rw [if_neg hrefused]
        exact parsePacket_of_modulated hlen (by unfold ifChainNb; omega) hp' hmod
  · have hfsk : pkt.rx_channel_in = 9 := BitVec.eq_of_toNat_eq heq
    have hrefused : ¬Refused context pkt := by
      rw [Refused, hfsk]
      rintro (h | h)
      · exact absurd h (by decide)
      · exact absurd h.1 (by decide)
    obtain ⟨p', correction, hp', hmod⟩ :=
      @parseModulation_of_fsk context fine pkt hfsk (parseCommon context pkt p)
    rw [if_neg hrefused]
    exact parsePacket_of_modulated hlen (by unfold ifChainNb; omega) hp' hmod
  · have hrefused : Refused context pkt := .inl hgt
    rw [if_pos hrefused, parsePacket, if_pos (by unfold ifChainNb; omega)]

end Parse

/-! ## The buffer between calls -/

/-- The packet count is the number of frames left, and each of them has its sync word. -/
structure RxBuffer.Counted (b : RxBuffer) : Prop where
  size_le : b.buffer_size ≤ rxBufferMax
  sync : ∀ p ∈ b.pending, HasSync b.buffer p
  pkt_nb : b.buffer_pkt_nb = BitVec.ofNat 8 b.pending.length

theorem pending_of_le {b : RxBuffer} (h : b.buffer_size ≤ b.buffer_index) : b.pending = [] :=
  frames_of_le h

theorem pending_of_lt {b : RxBuffer} (hlt : b.buffer_index < b.buffer_size)
    (hs : HasSync b.buffer b.buffer_index) : b.pending = b.buffer_index :: b.advance.pending := by
  have h := @frames_of_lt b.buffer b.buffer_size b.buffer_size b.buffer_index (by omega) hlt
  rw [if_pos hs] at h
  exact h

theorem counted_of_le {b : RxBuffer} (hsize : b.buffer_size ≤ rxBufferMax)
    (h : b.buffer_size ≤ b.buffer_index) (hnb : b.buffer_pkt_nb = 0) : b.Counted where
  size_le := hsize
  sync := by
    rw [pending_of_le h]
    exact fun p hp => by cases hp
  pkt_nb := by
    rw [pending_of_le h]
    exact hnb

theorem counted_rxBufferDel (b : RxBuffer) : (rxBufferDel b).Counted :=
  counted_of_le (Nat.zero_le _) (Nat.le_refl 0) rfl

namespace RxBuffer.Counted

variable {b : RxBuffer}

theorem length_lt (h : b.Counted) : b.pending.length < 256 := by
  have hle := h.size_le
  have hframes : 23 * b.pending.length ≤ b.buffer_size - b.buffer_index + 22 :=
    length_frames_le b.buffer_size b.buffer_index
  unfold rxBufferMax at hle
  omega

theorem pkt_nb_toNat (h : b.Counted) : b.buffer_pkt_nb.toNat = b.pending.length := by
  rw [h.pkt_nb, BitVec.toNat_ofNat]
  exact Nat.mod_eq_of_lt h.length_lt

/-- The first frame is the one at the index. -/
theorem lt_of_pending_ne_nil (hne : b.pending ≠ []) : b.buffer_index < b.buffer_size := by
  by_contra hlt
  exact hne (pending_of_le (Nat.not_lt.mp hlt))

theorem hasSync (h : b.Counted) (hlt : b.buffer_index < b.buffer_size) :
    HasSync b.buffer b.buffer_index := by
  refine h.sync b.buffer_index ?_
  rw [RxBuffer.pending, RxBuffer.framesFrom, frames_of_lt (by omega) hlt]
  exact List.mem_cons_self

theorem advance (h : b.Counted) (hlt : b.buffer_index < b.buffer_size) : b.advance.Counted := by
  have hpending := pending_of_lt hlt (h.hasSync hlt)
  refine ⟨h.size_le, ?_, ?_⟩
  · intro p hp
    refine h.sync p ?_
    rw [hpending]
    exact List.mem_cons_of_mem _ hp
  · have hnb : b.advance.buffer_pkt_nb = b.buffer_pkt_nb - 1 := rfl
    rw [hnb, h.pkt_nb, hpending, List.length_cons, BitVec.ofNat_add]
    exact BitVec.add_sub_cancel _ _

end RxBuffer.Counted

/-! ## The receive loop -/

section Loop

variable {context : LgwContext} {fine : FineTimestamp} {counter_us : TimestampCounter}
  {b : RxBuffer}

/-- What the caller sees of the first frame. -/
def RxBuffer.firstOutcome (context : LgwContext) (b : RxBuffer) : Outcome :=
  outcomeOf context (frameVerdict b.buffer b.buffer_size b.buffer_index)

theorem outcomes_of_lt (hb : b.Counted) (hlt : b.buffer_index < b.buffer_size) :
    b.outcomes context = b.firstOutcome context :: b.advance.outcomes context := by
  rw [RxBuffer.outcomes, pending_of_lt hlt (hb.hasSync hlt)]
  rfl

theorem eq_packetAt_of_frameVerdict {buffer : ℕ → Byte} {size p : ℕ} {pkt : RxPacket}
    (h : frameVerdict buffer size p = .ok pkt) : pkt = packetAt buffer p := by
  rw [frameVerdict] at h
  split at h
  · split at h
    · exact (Except.ok.inj h).symm
    · cases h
  · cases h

theorem length_payload_le {buffer : ℕ → Byte} (p : ℕ) :
    (packetAt buffer p).payload.length ≤ 256 := by
  have h : (packetAt buffer p).payload.length = (buffer (p + 2)).toNat := length_readRange_val _ _
  omega

/-- `sx1302_parse` on the first frame. -/
theorem sx1302Parse_spec (hb : b.Counted) (hlt : b.buffer_index < b.buffer_size) (p : LgwPktRx) :
    match b.firstOutcome context with
    | .packet pkt => ∃ p', sx1302Parse context fine counter_us b p = (.ok p', b.advance)
        ∧ Delivered context pkt p'
    | .warning => sx1302Parse context fine counter_us b p = (.error .warning, rxBufferDel b)
    | .error => sx1302Parse context fine counter_us b p = (.error .error, b)
    | .refused => sx1302Parse context fine counter_us b p = (.error .error, b.advance) := by
  have hval := rxBufferPop_val hlt (hb.hasSync hlt)
  rw [RxBuffer.firstOutcome]
  cases hv : frameVerdict b.buffer b.buffer_size b.buffer_index with
  | error e =>
    rw [hv] at hval
    cases e with
    | error | warning =>
      change sx1302Parse context fine counter_us b p = _
      rw [sx1302Parse, hval]
  | ok pkt =>
    rw [hv] at hval
    have hlen : pkt.payload.length ≤ 256 := by
      rw [eq_packetAt_of_frameVerdict hv]
      exact length_payload_le _
    have hspec := @parsePacket_spec context fine counter_us pkt hlen p
    have hparse : sx1302Parse context fine counter_us b p
        = (parsePacket context fine counter_us pkt p, b.advance) := by
      rw [sx1302Parse, hval]
    rw [outcomeOf, hparse]
    by_cases hr : Refused context pkt
    · rw [if_pos hr] at hspec
      rw [if_pos hr, hspec]
    · rw [if_neg hr] at hspec
      obtain ⟨p', hp', hdelivered⟩ := hspec
      rw [if_neg hr, hp']
      exact ⟨p', rfl, hdelivered⟩

variable {temperature : Float32} {pkt_data : ℕ → LgwPktRx}

theorem Delivered.applyRssiOffset {pkt : RxPacket} {p : LgwPktRx} (h : Delivered context pkt p) :
    Delivered context pkt (applyRssiOffset context temperature p) :=
  ⟨h.size, h.payload, h.if_chain, h.modem_id, h.crc, h.status, h.datarate⟩

/-- The loop takes frames from the front of the queue. -/
theorem receiveLoop_receives {n i : ℕ} (hb : b.Counted) (hn : n ≤ b.pending.length) :
    Receives context n (b.outcomes context)
        (receiveLoop context fine counter_us temperature pkt_data n i b).1
        ((receiveLoop context fine counter_us temperature pkt_data n i b).2.outcomes context)
      ∧ (receiveLoop context fine counter_us temperature pkt_data n i b).2.Counted := by
  induction n generalizing i b with
  | zero => exact ⟨.done _, hb⟩
  | succ n ih =>
    have hne : b.pending ≠ [] := fun h => by simp [h] at hn
    have hlt := RxBuffer.Counted.lt_of_pending_ne_nil hne
    have hspec := @sx1302Parse_spec context fine counter_us b hb hlt (pkt_data i)
    rw [outcomes_of_lt hb hlt, receiveLoop]
    cases ho : b.firstOutcome context with
    | packet pkt =>
      rw [ho] at hspec
      obtain ⟨p', hparse, hdelivered⟩ := hspec
      rw [hparse]
      have hlen : n ≤ b.advance.pending.length := by
        rw [pending_of_lt hlt (hb.hasSync hlt), List.length_cons] at hn
        omega
      obtain ⟨hrest, hcounted⟩ := @ih b.advance (i + 1) (hb.advance hlt) hlen
      exact ⟨.packet hdelivered.applyRssiOffset hrest, hcounted⟩
    | warning =>
      rw [ho] at hspec
      rw [hspec]
      exact ⟨.warning n _, counted_rxBufferDel b⟩
    | error =>
      -- the buffer is left as it is, with the frame at its front
      rw [ho] at hspec
      rw [hspec]
      refine ⟨?_, hb⟩
      rw [outcomes_of_lt hb hlt, ho]
      exact .error n _
    | refused =>
      -- popped before it was refused
      rw [ho] at hspec
      rw [hspec]
      exact ⟨.refused n _, hb.advance hlt⟩

end Loop

/-! ## One call -/

section Call

variable {context : LgwContext} {fine : FineTimestamp} {b : RxBuffer} {fifo : List Byte}

theorem counted_sync {a : RxBuffer} (hsize : a.buffer_size ≤ rxBufferMax)
    (hnb : a.buffer_pkt_nb = 0) : a.sync.val.Counted := by
  by_cases hsync : ∃ c, Synced a c
  · obtain ⟨c, hc⟩ := hsync
    obtain ⟨s, -, -, -, rfl⟩ := hc.moved
    have hle := resync_size_le a s
    have hc0 : (a.resync s).val.buffer_pkt_nb = 0 := by
      rw [RxBuffer.resync, ite_val]
      split <;> exact hnb
    rw [sync_val_of_synced hc, RxBuffer.counted]
    split
    · next hall =>
        refine ⟨Nat.le_trans hle hsize, hall, ?_⟩
        change (a.resync s).val.buffer_pkt_nb + _ = _
        rw [hc0]
        exact BitVec.zero_add _
    · -- a frame without its sync word: the fetch gives the buffer up
      exact counted_rxBufferDel _
  · rw [sync_val_of_not_synced fun c hc => hsync ⟨c, hc⟩]
    exact counted_rxBufferDel a

/-- The buffer that a call of `sx1302_fetch` leaves. -/
def RxBuffer.fetched (b : RxBuffer) (fifo : List Byte) : RxBuffer := (sx1302Fetch b (.of fifo)).2

theorem rxBufferFetch_counted (hfifo : fifo.length ≤ rxBufferMax) (hnb : b.buffer_pkt_nb = 0) :
    ∃ b', (rxBufferFetch b (.of fifo)).val = (.ok (), b') ∧ b'.Counted := by
  by_cases hpos : 0 < fifo.length
  · refine ⟨(b.loaded fifo).sync.val, ?_, counted_sync hfifo hnb⟩
    rw [rxBufferFetch_of_pos hpos hfifo]
    rfl
  · obtain rfl : fifo = [] := List.eq_nil_of_length_eq_zero (by omega)
    rw [rxBufferFetch_nil]
    exact ⟨_, rfl, counted_of_le (Nat.zero_le _) (Nat.le_refl 0) hnb⟩

/-- A fetch succeeds, and finds what is left in the buffer or, if nothing is, the FIFO. -/
theorem sx1302Fetch_spec (hb : b.Counted) (hfifo : fifo.length ≤ rxBufferMax) :
    sx1302Fetch b (.of fifo) = (.ok (b.fetched fifo).buffer_pkt_nb, b.fetched fifo)
      ∧ (b.fetched fifo).Counted ∧ (b.pending ≠ [] → b.fetched fifo = b) := by
  rw [RxBuffer.fetched, sx1302Fetch]
  by_cases hnb : b.buffer_pkt_nb = 0
  · obtain ⟨b', hval, hcounted⟩ := @rxBufferFetch_counted (rxBufferNew b) fifo hfifo rfl
    rw [if_pos hnb, hval]
    refine ⟨rfl, hcounted, fun hne => ?_⟩
    have hlen := hb.pkt_nb_toNat
    rw [hnb] at hlen
    exact absurd (List.eq_nil_of_length_eq_zero hlen.symm) hne
  · rw [if_neg hnb]
    exact ⟨rfl, hb, fun _ => rfl⟩

/-- What `lgw_receive` returns for what its loop does. -/
def replyOf (context : LgwContext) (fine : FineTimestamp) :
    Except RegFailure (List LgwPktRx) → Except HalFailure (List LgwPktRx)
  | .ok pkts => .ok (if pkts ≠ [] ∧ context.ftime_enable then fine.merge_packets pkts else pkts)
  | .error .warning => .ok []
  | .error .error => .error .error

@[simp] theorem sx1302Update_rx_buffer (hal : RxHal) (io : ReceiveIo) :
    (sx1302Update hal io).rx_buffer = hal.rx_buffer := by
  rw [sx1302Update]
  split <;> rfl

/-- A call takes frames from the front of the queue, as many as the caller has room for. -/
theorem lgwReceive_receives {hal : RxHal} {io : ReceiveIo} {temperature : Float32} {max_pkt : Byte}
    {pkt_data : ℕ → LgwPktRx} (hb : hal.rx_buffer.Counted) (hfifo : fifo.length ≤ rxBufferMax)
    (hio : io.fifo = .of fifo) (htemp : io.temperature = some temperature) :
    ∃ r, Receives context
        (min (hal.rx_buffer.fetched fifo).pending.length max_pkt.toNat)
        ((hal.rx_buffer.fetched fifo).outcomes context) r
        ((lgwReceive context fine hal io max_pkt pkt_data).2.rx_buffer.outcomes context)
      ∧ (lgwReceive context fine hal io max_pkt pkt_data).1 = replyOf context fine r
      ∧ (lgwReceive context fine hal io max_pkt pkt_data).2.rx_buffer.Counted := by
  obtain ⟨hfetch, hcounted, -⟩ := sx1302Fetch_spec hb hfifo
  have hlen := hcounted.pkt_nb_toNat
  rw [lgwReceive, hio, hfetch]
  dsimp only
  by_cases hnb : (hal.rx_buffer.fetched fifo).buffer_pkt_nb = 0
  · rw [hnb] at hlen
    rw [if_pos hnb, ← hlen]
    refine ⟨.ok [], ?_, ?_, ?_⟩
    · rw [sx1302Update_rx_buffer]
      exact .done _
    · rfl
    · rw [sx1302Update_rx_buffer]
      exact hcounted
  · have hmin : (if (hal.rx_buffer.fetched fifo).buffer_pkt_nb ≤ max_pkt
          then (hal.rx_buffer.fetched fifo).buffer_pkt_nb else max_pkt).toNat
        = min (hal.rx_buffer.fetched fifo).pending.length max_pkt.toNat := by
      rw [← hlen]
      split
      · next h => exact (Nat.min_eq_left h).symm
      · next h => exact (Nat.min_eq_right (Nat.le_of_not_le h)).symm
    rw [if_neg hnb, htemp]
    rw [hmin, sx1302Update_rx_buffer]
    dsimp only
    obtain ⟨hreceives, hafter⟩ := @receiveLoop_receives context fine
      (sx1302Update { hal with rx_buffer := hal.rx_buffer.fetched fifo } io).counter_us
      (hal.rx_buffer.fetched fifo) temperature pkt_data
      (min (hal.rx_buffer.fetched fifo).pending.length max_pkt.toNat) 0 hcounted
      (Nat.min_le_left _ _)
    generalize receiveLoop context fine _ temperature pkt_data _ 0 _ = result at hreceives hafter ⊢
    obtain ⟨r, b'⟩ := result
    refine ⟨r, ?_⟩
    rcases r with (_ | _) | pkts <;> exact ⟨hreceives, rfl, hafter⟩

end Call

end RutosSdk.Hal
