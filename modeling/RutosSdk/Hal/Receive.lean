import RutosSdk.Hal.Parse

/-! # Reception

Reference: `sx1302_update`, `sx1302_rssi_get_temperature_offset` in `libloragw/src/loragw_sx1302.c`,
`lgw_receive` in `libloragw/src/loragw_hal.c`.

`lgw_receive` fetches from the chip only when the RX buffer holds no packet any more, and gives the
caller at most `max_pkt` of its packets. A run of it is a run of the whole receive path: the chip's
FIFO fills between the calls, and a fetch empties it.
-/

namespace RutosSdk.Hal

/-! ## The library -/

/-- The static variables of the receive path. -/
structure RxHal where
  rx_buffer : RxBuffer
  counter_us : TimestampCounter
  timestamp_pps_history : TimestampPpsHistory

/-- What the hardware answers during one `lgw_receive`: the FIFO, the three reads of the counter
registers, and the temperature unless its sensor fails. -/
structure ReceiveIo where
  fifo : FifoRead
  buff : Option (Vector Byte 8)
  buff_wa : Option (Vector Byte 8)
  buff_wa' : Option (Vector Byte 8)
  temperature : Option Float32

/-- `LGW_HAL_ERROR` -/
inductive HalFailure where
  | error
deriving DecidableEq, Repr

/-- `sx1302_update`; the result of `timestamp_counter_get` is not looked at. -/
def sx1302Update (hal : RxHal) (io : ReceiveIo) : RxHal :=
  match timestampCounterGet hal.counter_us hal.timestamp_pps_history io.buff io.buff_wa
      io.buff_wa' with
  | none => hal
  | some get => { hal with counter_us := get.self, timestamp_pps_history := get.history }

/-- `sx1302_rssi_get_temperature_offset` -/
def rssiTemperatureOffset (context : LgwRssiTcomp) (temperature : Float32) : Float32 :=
  let t := temperature.toFloat
  ((context.coeff_a.toFloat * Float.pow t 4 + context.coeff_b.toFloat * Float.pow t 3
    + context.coeff_c.toFloat * Float.pow t 2 + (context.coeff_d * temperature).toFloat
    + context.coeff_e.toFloat) / Float.pow 2 16).toFloat32

/-- The RSSI corrections of `lgw_receive`. -/
def applyRssiOffset (context : LgwContext) (temperature : Float32) (p : LgwPktRx) : LgwPktRx :=
  let rf := context.rfChain p.rf_chain
  let offset := rssiTemperatureOffset rf.rssi_tcomp temperature
  { p with rssic := p.rssic + rf.rssi_offset + offset, rssis := p.rssis + rf.rssi_offset + offset }

/-- The loop of `lgw_receive`, with `left` packets to parse into `pkt_data` behind the first
`nb_pkt_found`. -/
def receiveLoop (context : LgwContext) (fine : FineTimestamp) (counter_us : TimestampCounter)
    (temperature : Float32) (pkt_data : ℕ → LgwPktRx) :
    ℕ → ℕ → RxBuffer → Except RegFailure (List LgwPktRx) × RxBuffer
  | 0, _, rx_buffer => (.ok [], rx_buffer)
  | left + 1, nb_pkt_found, rx_buffer =>
    match sx1302Parse context fine counter_us rx_buffer (pkt_data nb_pkt_found) with
    | (.error e, rx_buffer) => (.error e, rx_buffer)
    | (.ok p, rx_buffer) =>
      let rest := receiveLoop context fine counter_us temperature pkt_data left
        (nb_pkt_found + 1) rx_buffer
      (rest.1.map (applyRssiOffset context temperature p :: ·), rest.2)

/-- `lgw_receive`: the packets it counts in `pkt_data`. -/
def lgwReceive (context : LgwContext) (fine : FineTimestamp) (hal : RxHal) (io : ReceiveIo)
    (max_pkt : Byte) (pkt_data : ℕ → LgwPktRx) : Except HalFailure (List LgwPktRx) × RxHal :=
  match sx1302Fetch hal.rx_buffer io.fifo with
  | (.error _, rx_buffer) => (.error .error, { hal with rx_buffer })
  | (.ok nb_pkt_fetched, rx_buffer) =>
    let hal := sx1302Update { hal with rx_buffer } io
    if nb_pkt_fetched = 0 then (.ok [], hal)
    else
      match io.temperature with
      | none => (.error .error, hal)
      | some temperature =>
        let nb_pkt := if nb_pkt_fetched ≤ max_pkt then nb_pkt_fetched else max_pkt
        match receiveLoop context fine hal.counter_us temperature pkt_data nb_pkt.toNat 0
            hal.rx_buffer with
        -- the packets parsed so far are not counted
        | (.error .warning, rx_buffer) => (.ok [], { hal with rx_buffer })
        | (.error .error, rx_buffer) => (.error .error, { hal with rx_buffer })
        | (.ok pkts, rx_buffer) =>
          let pkts :=
            if pkts ≠ [] ∧ context.ftime_enable then fine.merge_packets pkts else pkts
          (.ok pkts, { hal with rx_buffer })

/-! ## Runs -/

/-- The library and the bytes in the chip's FIFO. -/
structure RxSystem where
  fifo : List Byte
  hal : RxHal

/-- The state that `sx1302_init` leaves, with the bytes that are in the FIFO by then. -/
def RxSystem.start (fifo : List Byte) (rx_buffer : RxBuffer)
    (timestamp_pps_history : TimestampPpsHistory) : RxSystem where
  fifo := fifo
  hal := ⟨rxBufferNew rx_buffer, timestampCounterNew, timestamp_pps_history⟩

/-- One call of `lgw_receive`, the bytes that came into the FIFO before it, and what it is given. -/
structure ReceiveCall where
  arrived : List Byte
  buff : Option (Vector Byte 8)
  buff_wa : Option (Vector Byte 8)
  buff_wa' : Option (Vector Byte 8)
  temperature : Float32
  max_pkt : Byte
  pkt_data : ℕ → LgwPktRx

/-- The FIFO that a call finds; it has room for 4096 bytes. -/
def RxSystem.fifoAt (s : RxSystem) (call : ReceiveCall) : List Byte :=
  (s.fifo ++ call.arrived).take rxBufferMax

/-- What the hardware answers to a call when no communication fails. -/
def RxSystem.io (s : RxSystem) (call : ReceiveCall) : ReceiveIo where
  fifo := .of (s.fifoAt call)
  buff := call.buff
  buff_wa := call.buff_wa
  buff_wa' := call.buff_wa'
  temperature := some call.temperature

section Run

variable (context : LgwContext) (fine : FineTimestamp)

/-- What a call returns. -/
def RxSystem.reply (s : RxSystem) (call : ReceiveCall) : Except HalFailure (List LgwPktRx) :=
  (lgwReceive context fine s.hal (s.io call) call.max_pkt call.pkt_data).1

/-- The state behind a call; the FIFO is read to its end if it is read at all. -/
def RxSystem.next (s : RxSystem) (call : ReceiveCall) : RxSystem where
  fifo := if s.hal.rx_buffer.buffer_pkt_nb = 0 then [] else s.fifoAt call
  hal := (lgwReceive context fine s.hal (s.io call) call.max_pkt call.pkt_data).2

/-- The state behind a sequence of calls. -/
def RxSystem.after (s : RxSystem) (calls : List ReceiveCall) : RxSystem :=
  calls.foldl (fun s call => s.next context fine call) s

/-- What a sequence of calls returns. -/
def RxSystem.replies : RxSystem → List ReceiveCall → List (Except HalFailure (List LgwPktRx))
  | _, [] => []
  | s, call :: calls => s.reply context fine call :: (s.next context fine call).replies calls

end Run

end RutosSdk.Hal
