import RutosSdk.Hal.Reception
import RutosSdk.Tools.Rfc4648

/-! # Serialisation of received packets

Reference: `thread_up` in `packet_forwarder/src/lora_pkt_fwd.c`.

`thread_up` passes the same array to `lgw_receive` for ever. What it serialises for a LoRa packet is
filled in anew for each packet; for an FSK packet `sx1302_parse` leaves the fine timestamp as the
array held it. A member of the JSON object carries the value that is printed.
-/

namespace RutosSdk.Forwarder

open Hal Tools Traced Writes

/-! ## The JSON object of a packet -/

/-- What a packet is serialised with: the filters, and the UTC and the GPS time of a counter value
where there is a time reference. -/
structure UpSettings where
  fwd_valid_pkt : Bool
  fwd_error_pkt : Bool
  fwd_nocrc_pkt : Bool
  cnt2utc : Word → Option (List Char)
  cnt2gps : Word → Option (BitVec 64)

/-- The members of an `rxpk` object. -/
inductive RxpkMember where
  | jver (version : ℕ)
  | tmst (count_us : Word)
  | time (text : List Char)
  | tmms (pkt_gps_time_ms : BitVec 64)
  | ftime (ftime : Word)
  | chan (if_chain : Byte)
  | rfch (rf_chain : Byte)
  | freq (mhz : Float)
  | mid (modem_id : Byte)
  | stat (status : ℤ)
  | modu (text : List Char)
  | loraDatr (text : List Char)
  | fskDatr (datarate : Word)
  | codr (text : List Char)
  | rssis (dbm : Float32)
  | lsnr (snr : Float32)
  | foff (freq_offset : Word)
  | rssi (dbm : Float32)
  | size (size : BitVec 16)
  | data (writes : List (Write Byte))

/-- What becomes of a packet: it is filtered out, the process exits, or an object is sent. -/
inductive UpResult where
  | skipped
  | exited
  | object (members : List RxpkMember)

variable (up : UpSettings) (p : LgwPktRx) (bytes : List Byte)

/-- Basic packet filtering. -/
def forwards (status : Byte) : Bool :=
  if status = statCrcOk then up.fwd_valid_pkt
  else if status = statCrcBad then up.fwd_error_pkt
  else if status = statNoCrc then up.fwd_nocrc_pkt
  else false

/-- The packet status. -/
def statMember (status : Byte) : RxpkMember :=
  .stat (if status = statCrcOk then 1 else if status = statCrcBad then -1 else 0)

/-- The packet RX time, if it can be converted. -/
def timeMembers (count_us : Word) : List RxpkMember :=
  ((up.cnt2utc count_us).map .time).toList ++ ((up.cnt2gps count_us).map .tmms).toList

/-- The fine timestamp. -/
def ftimeMembers : List RxpkMember :=
  if p.ftime_received then [.ftime p.ftime] else []

/-- The text of a spreading factor. -/
def sfText (datarate : Word) : Option (List Char) :=
  if datarate = 5 then some ['S', 'F', '5']
  else if datarate = 6 then some ['S', 'F', '6']
  else if datarate = 7 then some ['S', 'F', '7']
  else if datarate = 8 then some ['S', 'F', '8']
  else if datarate = 9 then some ['S', 'F', '9']
  else if datarate = 10 then some ['S', 'F', '1', '0']
  else if datarate = 11 then some ['S', 'F', '1', '1']
  else if datarate = 12 then some ['S', 'F', '1', '2']
  else none

/-- The text of a bandwidth. -/
def bwText (bandwidth : Byte) : Option (List Char) :=
  if bandwidth = bw125Khz then some ['B', 'W', '1', '2', '5']
  else if bandwidth = bw250Khz then some ['B', 'W', '2', '5', '0']
  else if bandwidth = bw500Khz then some ['B', 'W', '5', '0', '0']
  else none

/-- The text of a coding rate; 0 is mostly a false sync. -/
def crText (coderate : Byte) : Option (List Char) :=
  if coderate = 1 then some ['4', '/', '5']
  else if coderate = 2 then some ['4', '/', '6']
  else if coderate = 3 then some ['4', '/', '7']
  else if coderate = 4 then some ['4', '/', '8']
  else if coderate = 0 then some ['O', 'F', 'F']
  else none

/-- The members that depend on the modulation. -/
def modulationMembers : Option (List RxpkMember) :=
  if p.modulation = modLora then do
    let sf ← sfText p.datarate
    let bw ← bwText p.bandwidth
    let cr ← crText p.coderate
    return [.modu ['L', 'O', 'R', 'A'], .loraDatr (sf ++ bw), .codr cr, .rssis p.rssis.round,
      .lsnr p.snr, .foff p.freq_offset]
  else if p.modulation = modFsk then
    return [.modu ['F', 'S', 'K'], .fskDatr p.datarate]
  else none

/-- The bytes that `bin_to_b64` is given. -/
def sentBytes : List Byte := p.payload.toList.take p.size.toNat

/-- The payload; 255 bytes are 340 characters and the terminator. -/
def dataMember : Option RxpkMember := do
  let (j, ws) ← binToB64 bytes 341
  if 0 ≤ j then some (.data ws) else none

/-- The members of the object, in their order; `bytes` are those of the payload. -/
def rxpkMembers : Option (List RxpkMember) := do
  let modulation ← modulationMembers p
  let data ← dataMember bytes
  return [.jver 1, .tmst p.count_us] ++ timeMembers up p.count_us ++ ftimeMembers p
    ++ ([.chan p.if_chain, .rfch p.rf_chain, .freq (Float.ofNat p.freq_hz.toNat / 1e6),
        .mid p.modem_id, statMember p.status]
      ++ modulation ++ [.rssi p.rssic.round, .size p.size, data])

/-- The serialisation of a packet with the given payload. -/
def serialiseWith : UpResult :=
  if forwards up p.status then (rxpkMembers up p bytes).elim .exited .object else .skipped

/-- The serialisation of one packet of the array. -/
def serialise : UpResult := serialiseWith up p (sentBytes p)

/-! ## What the array held before -/

/-- What `lgw_receive` makes of an entry of the array: the next packet parsed into it, with the RSSI
corrections. -/
def receiveInto (context : LgwContext) (fine : FineTimestamp) (counter_us : TimestampCounter)
    (temperature : Float32) (rx_buffer : RxBuffer) (p : LgwPktRx) : Except RegFailure LgwPktRx :=
  (sx1302Parse context fine counter_us rx_buffer p).1.map (applyRssiOffset context temperature)

/-- The fields that `thread_up` reads, and the bytes of the payload. -/
def visible : LgwPktRx × List Byte :=
  ({ p with snr_min := 0, snr_max := 0, payload := Vector.replicate 256 0 }, sentBytes p)

theorem serialise_eq_visible (context : LgwContext) (temperature : Float32) (p : LgwPktRx) :
    serialise up (applyRssiOffset context temperature p)
      = serialiseWith up (applyRssiOffset context temperature (visible p).1) (visible p).2 := rfl

section Parse

variable {context : LgwContext} {fine : FineTimestamp} {counter_us : TimestampCounter}
  {pkt : RxPacket}

/-- A packet that is popped has as many bytes as it says. -/
theorem length_payload_of_pop {b b' : RxBuffer} (h : (rxBufferPop b).val = (.ok pkt, b')) :
    pkt.payload.length = pkt.rxbytenb_modem.toNat := by
  by_cases hlt : b.buffer_index < b.buffer_size
  · by_cases hs : HasSync b.buffer b.buffer_index
    · rw [rxBufferPop_val hlt hs] at h
      rw [eq_packetAt_of_frameVerdict (congrArg Prod.fst h)]
      exact length_readRange_val _ _
    · rw [rxBufferPop, if_neg (by omega), bind_val, syncwordAt_val, if_pos (by simp [hs])] at h
      cases congrArg Prod.fst h
  · rw [rxBufferPop_of_le (by omega)] at h
    cases congrArg Prod.fst h

theorem sentBytes_parseCommon (hlen : pkt.payload.length = pkt.rxbytenb_modem.toNat)
    (p : LgwPktRx) : sentBytes (parseCommon context pkt p) = pkt.payload := by
  have hsize : (parseCommon context pkt p).size.toNat = pkt.payload.length := by
    rw [hlen]
    exact BitVec.toNat_setWidth_of_le (by decide)
  have hle : pkt.payload.length ≤ 256 := by
    rw [hlen]
    exact pkt.rxbytenb_modem.isLt.le
  rw [sentBytes, hsize]
  exact take_copyPayload hle

/-- A LoRa packet leaves nothing visible of what the entry held. -/
theorem visible_parsePacket_of_lora (h : pkt.rx_channel_in ≤ 8)
    (hlen : pkt.payload.length = pkt.rxbytenb_modem.toNat) (p p' : LgwPktRx) :
    (parsePacket context fine counter_us pkt p).map visible
      = (parsePacket context fine counter_us pkt p').map visible := by
  have hchain : ¬pkt.rx_channel_in.toNat ≥ ifChainNb := by
    have hle : pkt.rx_channel_in.toNat ≤ 8 := h
    unfold ifChainNb
    omega
  rw [parsePacket, parsePacket, if_neg hchain, if_neg hchain, Hal.parseModulation,
    Hal.parseModulation, if_pos (ifmodConfig_of_le h), if_pos (ifmodConfig_of_le h), Hal.parseLora,
    Hal.parseLora]
  split
  · rfl
  · refine congrArg Except.ok (Prod.ext rfl ?_)
    exact (@sentBytes_parseCommon context pkt hlen p).trans
      (@sentBytes_parseCommon context pkt hlen p').symm

/-- A payload of at most 255 bytes is encoded in the 341 bytes it is given. -/
theorem binToB64_payload {bytes : List Byte} (h : bytes.length ≤ 255) :
    ∃ ws, binToB64 bytes 341 = some (((rfcPadded bytes).length : ℤ), ws) ∧ InBuffer 341 ws
      ∧ ∀ mem, HoldsString (run mem ws) (rfcPadded bytes) := by
  have hlen := length_rfcNopad bytes
  have hfits : NopadFits bytes 341 := ⟨fun _ => by decide, fun _ => by omega⟩
  have hencodes : Encodes (binToB64 bytes 341) (rfcPadded bytes) 341 :=
    (encodes_padded_iff (by omega) (by decide) (by decide)).mpr
      ⟨hfits, fun hlast => absurd hlast.2 (by decide)⟩
  obtain ⟨ret, ws, hres, hbuf, hret⟩ := hencodes
  have hpad : (rfcPadded bytes).length < 341 := by
    rw [rfcPadded, pad, List.length_append, List.length_replicate]
    omega
  rcases hret with ⟨-, hle⟩ | ⟨rfl, hmem⟩
  · omega
  · exact ⟨ws, hres, hbuf, hmem⟩

/-- The serialisation of a payload of at most 255 bytes does not fail. -/
theorem exists_dataMember {bytes : List Byte} (h : bytes.length ≤ 255) :
    ∃ m, dataMember bytes = some m := by
  obtain ⟨ws, hres, -, -⟩ := binToB64_payload h
  refine ⟨.data ws, ?_⟩
  rw [dataMember, hres]
  rfl

/-- The entry of an FSK packet. -/
def fskEntry (context : LgwContext) (counter_us : TimestampCounter) (temperature : Float32)
    (pkt : RxPacket) (p : LgwPktRx) : LgwPktRx :=
  applyRssiOffset context temperature
    (parseEnd counter_us pkt (Hal.parseFsk context pkt (parseCommon context pkt p)))

theorem parsePacket_of_fsk (h : pkt.rx_channel_in = 9) (temperature : Float32) (p : LgwPktRx) :
    (parsePacket context fine counter_us pkt p).map (applyRssiOffset context temperature)
      = .ok (fskEntry context counter_us temperature pkt p) := by
  rw [parsePacket, Hal.parseModulation, h]
  rfl

/-- The members of an FSK packet in front of the fine timestamp. -/
def fskFront (up : UpSettings) (q : LgwPktRx) : List RxpkMember :=
  [.jver 1, .tmst q.count_us] ++ timeMembers up q.count_us

/-- The members of an FSK packet behind the fine timestamp. -/
def fskBack (q : LgwPktRx) (data : RxpkMember) : List RxpkMember :=
  [.chan q.if_chain, .rfch q.rf_chain, .freq (Float.ofNat q.freq_hz.toNat / 1e6), .mid q.modem_id,
      statMember q.status]
    ++ [.modu ['F', 'S', 'K'], .fskDatr q.datarate] ++ [.rssi q.rssic.round, .size q.size, data]

/-- An FSK packet that is forwarded shows the fine timestamp that the entry held. -/
theorem serialise_fskEntry (up : UpSettings) (temperature : Float32)
    (hlen : pkt.payload.length = pkt.rxbytenb_modem.toNat)
    (hfwd : forwards up (crcStatus context .fskStd pkt)) :
    ∃ front back, ∀ p, serialise up (fskEntry context counter_us temperature pkt p)
      = .object (front ++ ftimeMembers p ++ back) := by
  obtain ⟨data, hdata⟩ := @exists_dataMember pkt.payload
    (by have := pkt.rxbytenb_modem.isLt; omega)
  -- everything else is the same as with an entry that held nothing
  let q := fskEntry context counter_us temperature pkt .zero
  refine ⟨fskFront up q, fskBack q data, fun p => ?_⟩
  have hbytes : sentBytes (fskEntry context counter_us temperature pkt p) = pkt.payload :=
    @sentBytes_parseCommon context pkt hlen p
  have hforward : forwards up (fskEntry context counter_us temperature pkt p).status = true := hfwd
  rw [serialise, hbytes, serialiseWith, if_pos hforward, rxpkMembers, hdata]
  rfl

theorem serialise_fskEntry_of_not_forwards {up : UpSettings} (temperature : Float32)
    (hfwd : ¬forwards up (crcStatus context .fskStd pkt)) (p : LgwPktRx) :
    serialise up (fskEntry context counter_us temperature pkt p) = .skipped :=
  if_neg hfwd

/-- The packet is an FSK packet that is forwarded. -/
def Leaks (up : UpSettings) (context : LgwContext) (pkt : RxPacket) : Prop :=
  pkt.rx_channel_in = 9 ∧ forwards up (crcStatus context .fskStd pkt)

/-- Any other packet is serialised the same, whatever the entry held. -/
theorem serialise_parsePacket_eq {up : UpSettings} (h : ¬Leaks up context pkt)
    (hlen : pkt.payload.length = pkt.rxbytenb_modem.toNat) (temperature : Float32)
    (p p' : LgwPktRx) :
    ((parsePacket context fine counter_us pkt p).map (applyRssiOffset context temperature)).map
        (serialise up)
      = ((parsePacket context fine counter_us pkt p').map
          (applyRssiOffset context temperature)).map (serialise up) := by
  rcases Nat.lt_trichotomy pkt.rx_channel_in.toNat 9 with hlt | heq | hgt
  · have hvisible := @visible_parsePacket_of_lora context fine counter_us pkt
      (Nat.le_of_lt_succ hlt) hlen p p'
    have hserialise : ∀ r : Except RegFailure LgwPktRx,
        (r.map (applyRssiOffset context temperature)).map (serialise up)
          = (r.map visible).map fun v =>
            serialiseWith up (applyRssiOffset context temperature v.1) v.2 := by
      intro r
      cases r with
      | error e => rfl
      | ok q => exact congrArg Except.ok (serialise_eq_visible up context temperature q)
    rw [hserialise, hserialise, hvisible]
  · have h9 : pkt.rx_channel_in = 9 := BitVec.eq_of_toNat_eq heq
    have hfwd : ¬forwards up (crcStatus context .fskStd pkt) := fun hfwd => h ⟨h9, hfwd⟩
    rw [parsePacket_of_fsk h9, parsePacket_of_fsk h9]
    refine congrArg Except.ok ?_
    rw [serialise_fskEntry_of_not_forwards temperature hfwd,
      serialise_fskEntry_of_not_forwards temperature hfwd]
  · have hchain : pkt.rx_channel_in.toNat ≥ ifChainNb := hgt
    rw [parsePacket, parsePacket, if_pos hchain, if_pos hchain]

end Parse

section Receive

variable {context : LgwContext} {fine : FineTimestamp} {counter_us : TimestampCounter}

theorem sx1302Parse_of_pop {pkt : RxPacket} {b : RxBuffer} (h : (rxBufferPop b).val.1 = .ok pkt)
    (p : LgwPktRx) :
    sx1302Parse context fine counter_us b p
      = (parsePacket context fine counter_us pkt p, (rxBufferPop b).val.2) := by
  rw [sx1302Parse, ← Prod.mk.eta (p := (rxBufferPop b).val), h]

/-- The packets that the loop of `lgw_receive` pops. -/
def popped : ℕ → RxBuffer → List RxPacket
  | 0, _ => []
  | n + 1, b =>
    match (rxBufferPop b).val.1 with
    | .ok pkt => pkt :: popped n (rxBufferPop b).val.2
    | .error _ => []

theorem sx1302Parse_of_pop_error {e : RegFailure} {b : RxBuffer}
    (h : (rxBufferPop b).val.1 = .error e) :
    ∃ b', ∀ p, sx1302Parse context fine counter_us b p = (.error e, b') := by
  cases e with
  | error =>
    refine ⟨(rxBufferPop b).val.2, fun p => ?_⟩
    rw [sx1302Parse, ← Prod.mk.eta (p := (rxBufferPop b).val), h]
  | warning =>
    refine ⟨rxBufferDel (rxBufferPop b).val.2, fun p => ?_⟩
    rw [sx1302Parse, ← Prod.mk.eta (p := (rxBufferPop b).val), h]

theorem map_cons_map {ε α β : Type} (f : α → β) (x : α) (r : Except ε (List α)) :
    (r.map (x :: ·)).map (List.map f) = (r.map (List.map f)).map (f x :: ·) := by
  cases r <;> rfl

/-- The packets of the loop are serialised the same, whatever the array held before. -/
theorem receiveLoop_serialised {up : UpSettings} {temperature : Float32} (a a' : ℕ → LgwPktRx)
    {n i : ℕ} {b : RxBuffer} (h : ∀ pkt ∈ popped n b, ¬Leaks up context pkt) :
    (receiveLoop context fine counter_us temperature a n i b).1.map (List.map (serialise up))
      = (receiveLoop context fine counter_us temperature a' n i b).1.map
        (List.map (serialise up)) := by
  induction n generalizing i b with
  | zero => rfl
  | succ n ih =>
    rw [receiveLoop, receiveLoop]
    cases hpop : (rxBufferPop b).val.1 with
    | error e =>
      obtain ⟨b', hparse⟩ := @sx1302Parse_of_pop_error context fine counter_us e b hpop
      rw [hparse, hparse]
    | ok pkt =>
      rw [popped, hpop] at h
      have hlen := @length_payload_of_pop pkt b (rxBufferPop b).val.2 (Prod.ext hpop rfl)
      have hrest := @ih (i + 1) (rxBufferPop b).val.2
        fun q hq => h q (List.mem_cons_of_mem _ hq)
      have hsame := @serialise_parsePacket_eq context fine counter_us pkt up
        (h pkt List.mem_cons_self) hlen temperature (a i) (a' i)
      rw [sx1302Parse_of_pop hpop, sx1302Parse_of_pop hpop]
      -- the two entries are both refused, or serialised alike
      cases hp : parsePacket context fine counter_us pkt (a i) with
      | error e =>
        cases hp' : parsePacket context fine counter_us pkt (a' i) with
        | error e' =>
          rw [hp, hp'] at hsame
          exact congrArg Except.error (Except.error.inj hsame)
        | ok q' =>
          rw [hp, hp'] at hsame
          cases hsame
      | ok q =>
        cases hp' : parsePacket context fine counter_us pkt (a' i) with
        | error e' =>
          rw [hp, hp'] at hsame
          cases hsame
        | ok q' =>
          rw [hp, hp'] at hsame
          have hhead := Except.ok.inj hsame
          rw [map_cons_map, map_cons_map, hrest, hhead]

/-- What is serialised for a packet that was popped is independent of what the array held before
exactly if it is not an FSK packet that is forwarded. -/
theorem serialised_independent_iff (context : LgwContext) (fine : FineTimestamp)
    (counter_us : TimestampCounter) (temperature : Float32) (up : UpSettings)
    (rx_buffer : RxBuffer) (pkt : RxPacket) (hpop : (rxBufferPop rx_buffer).val.1 = .ok pkt) :
    (∀ p p', (receiveInto context fine counter_us temperature rx_buffer p).map (serialise up)
        = (receiveInto context fine counter_us temperature rx_buffer p').map (serialise up))
      ↔ ¬Leaks up context pkt := by
  have hlen := @length_payload_of_pop pkt rx_buffer (rxBufferPop rx_buffer).val.2
    (Prod.ext hpop rfl)
  have hinto : ∀ p, receiveInto context fine counter_us temperature rx_buffer p
      = (parsePacket context fine counter_us pkt p).map (applyRssiOffset context temperature) := by
    intro p
    rw [receiveInto, sx1302Parse_of_pop hpop]
  simp only [hinto]
  constructor
  · rintro hindep ⟨h9, hfwd⟩
    obtain ⟨front, back, hobject⟩ :=
      @serialise_fskEntry context counter_us pkt up temperature hlen hfwd
    -- one entry with a fine timestamp and one without
    have hsame := hindep .zero { LgwPktRx.zero with ftime_received := true }
    rw [parsePacket_of_fsk h9, parsePacket_of_fsk h9] at hsame
    have hmembers := UpResult.object.inj
      ((hobject _).symm.trans ((Except.ok.inj hsame).trans (hobject _)))
    have hlength := congrArg List.length hmembers
    simp [ftimeMembers, LgwPktRx.zero] at hlength
  · intro hnot p p'
    exact serialise_parsePacket_eq hnot hlen temperature p p'

/-- A whole call without an FSK packet that is forwarded is serialised the same, whatever the array
held before it, if no packets are merged. -/
theorem lgwReceive_serialised_eq {up : UpSettings} (hftime : context.ftime_enable = false)
    {hal : RxHal} {io : ReceiveIo} {max_pkt : Byte} (a a' : ℕ → LgwPktRx)
    (h : ∀ nb_pkt_fetched b, sx1302Fetch hal.rx_buffer io.fifo = (.ok nb_pkt_fetched, b) →
      ∀ pkt ∈ popped (if nb_pkt_fetched ≤ max_pkt then nb_pkt_fetched else max_pkt).toNat b,
        ¬Leaks up context pkt) :
    (lgwReceive context fine hal io max_pkt a).1.map (List.map (serialise up))
      = (lgwReceive context fine hal io max_pkt a').1.map (List.map (serialise up)) := by
  have hbuffer : ∀ hal : RxHal, (sx1302Update hal io).rx_buffer = hal.rx_buffer := by
    intro hal
    unfold sx1302Update
    split <;> rfl
  unfold lgwReceive
  cases hfetch : sx1302Fetch hal.rx_buffer io.fifo with
  | mk res b =>
    cases res with
    | error e => rfl
    | ok nb_pkt_fetched =>
      by_cases hzero : nb_pkt_fetched = 0
      · simp only [if_pos hzero]
      · simp only [if_neg hzero]
        cases io.temperature with
        | none => rfl
        | some temperature =>
          have hloop := @receiveLoop_serialised context fine
            (sx1302Update { hal with rx_buffer := b } io).counter_us up temperature a a' _ 0 b
            (h nb_pkt_fetched b hfetch)
          simp only [hbuffer]
          generalize receiveLoop _ _ _ _ a _ _ _ = r at hloop ⊢
          generalize receiveLoop _ _ _ _ a' _ _ _ = r' at hloop ⊢
          obtain ⟨r, b⟩ := r
          obtain ⟨r', b'⟩ := r'
          cases r with
          | error e =>
            cases r' with
            | error e' =>
              cases Except.error.inj hloop
              cases e <;> rfl
            | ok pkts => cases hloop
          | ok pkts =>
            cases r' with
            | error e => cases hloop
            | ok pkts' =>
              simp only [hftime, Bool.false_eq_true, and_false, if_false]
              exact congrArg Except.ok (Except.ok.inj hloop)

end Receive

/-- A buffer that holds one frame. -/
def frameBuffer (f : RxFrame) : RxBuffer where
  buffer := fun i => f.encode.getD i 0
  buffer_size := f.encode.length
  buffer_index := 0
  buffer_pkt_nb := 1

/-- Everything is forwarded, and there is no GPS. -/
def forwardAll : UpSettings := ⟨true, true, true, fun _ => none, fun _ => none⟩

/-- The fine timestamp of what is sent. -/
def UpResult.ftimes : UpResult → List Word
  | .object members => members.filterMap fun | .ftime v => some v | _ => none
  | _ => []

/-- An entry with a fine timestamp. -/
def staleEntry : LgwPktRx := { LgwPktRx.zero with ftime_received := true, ftime := 123456789 }

/-- A call that receives a LoRa packet, with room for two. -/
theorem lgwReceive_serialised_emptyFrame :
    let hal : RxHal := ⟨frameBuffer (emptyFrame 0 0), timestampCounterNew, .initial⟩
    let io : ReceiveIo := ⟨.of [], none, none, none, some 0⟩
    (lgwReceive .initial noFineTimestamp hal io 2 fun _ => .zero).1.map
        (List.map (serialise forwardAll))
      = (lgwReceive .initial noFineTimestamp hal io 2 fun _ => staleEntry).1.map
        (List.map (serialise forwardAll)) := by
  refine lgwReceive_serialised_eq rfl _ _ fun nb_pkt_fetched b hfetch => ?_
  have hpopped : popped 1 (frameBuffer (emptyFrame 0 0)) = [(emptyFrame 0 0).toPacket] := by decide
  cases hfetch
  intro pkt (hpkt : pkt ∈ popped 1 (frameBuffer (emptyFrame 0 0)))
  rw [hpopped] at hpkt
  rw [List.mem_singleton.mp hpkt]
  rintro ⟨h9, -⟩
  exact absurd h9 (by decide)

/-- A LoRa packet on channel 0 is serialised the same into both entries. -/
theorem serialised_independent_emptyFrame :
    (receiveInto .initial noFineTimestamp timestampCounterNew 0 (frameBuffer (emptyFrame 0 0))
        .zero).map (serialise forwardAll)
      = (receiveInto .initial noFineTimestamp timestampCounterNew 0
          (frameBuffer (emptyFrame 0 0)) staleEntry).map (serialise forwardAll) := by
  refine (serialised_independent_iff .initial noFineTimestamp timestampCounterNew 0 forwardAll
    (frameBuffer (emptyFrame 0 0)) (emptyFrame 0 0).toPacket (by decide)).mpr ?_ _ _
  rintro ⟨h9, -⟩
  exact absurd h9 (by decide)

/-- An FSK packet is sent with the fine timestamp that an earlier packet left in the array. -/
theorem stale_ftime_serialised :
    (receiveInto .initial noFineTimestamp timestampCounterNew 0 (frameBuffer (emptyFrame 17 9))
        .zero).map (fun p => (serialise forwardAll p).ftimes) = .ok []
      ∧ (receiveInto .initial noFineTimestamp timestampCounterNew 0 (frameBuffer (emptyFrame 17 9))
        staleEntry).map (fun p => (serialise forwardAll p).ftimes) = .ok [123456789] :=
  ⟨by decide, by decide⟩

end RutosSdk.Forwarder
