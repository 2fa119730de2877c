import RutosSdk.Hal.Gps
import RutosSdk.Jit.Queue

/-! # The pre-allocation of beacons

Reference: `crc16`, and the beacon packet and the pre-allocation loop of `thread_down`, in
`packet_forwarder/src/lora_pkt_fwd.c`.

A turn of the loop finds the time reference, the counter and the queue as the other threads have
left them: a `Turn` gives the three, with the counter as the number of ticks since the reference
was taken. `thread_down` enters the loop again and again, and the time of the last beacon queued and
the packet stay from one visit to the next. `time_t` is wide enough for every time.
-/

namespace RutosSdk.Forwarder

open Binary64 Hal Jit

/-! ## `crc16` -/

/-- One bit of the checksum, with the polynomial 0x1021. -/
def crc16Bit (x : BitVec 16) : BitVec 16 :=
  if x &&& 0x8000 ≠ 0 then (x <<< 1) ^^^ 0x1021 else x <<< 1

/-- `crc16` -/
def crc16 (data : List Byte) : BitVec 16 :=
  data.foldl (fun x b => Nat.repeat crc16Bit 8 (x ^^^ (b.setWidth 16).shiftLeft 8)) 0

/-! ## The beacon packet -/

/-- The cases of the `switch` over `beacon_datarate`; any other value ends the program. -/
inductive BeaconDatarate where
  | sf8
  | sf9
  | sf10
  | sf12
deriving DecidableEq, Repr

def BeaconDatarate.datarate : BeaconDatarate → Word
  | .sf8 => 8
  | .sf9 => 9
  | .sf10 => 10
  | .sf12 => 12

/-- `beacon_RFU1_size` -/
def BeaconDatarate.rfu1Size : BeaconDatarate → ℕ
  | .sf8 => 1
  | .sf9 => 2
  | .sf10 => 3
  | .sf12 => 5

/-- `beacon_RFU2_size` -/
def BeaconDatarate.rfu2Size : BeaconDatarate → ℕ
  | .sf8 => 3
  | .sf9 => 0
  | .sf10 => 1
  | .sf12 => 3

/-- The cases of the `switch` over `beacon_bw_hz`; any other value ends the program. -/
inductive BeaconBw where
  | hz125000
  | hz500000
deriving DecidableEq, Repr

def BeaconBw.bandwidth : BeaconBw → Byte
  | .hz125000 => bw125Khz
  | .hz500000 => bw500Khz

/-- The configuration of the beacons. -/
structure BeaconConf where
  beacon_period : Word
  beacon_freq_hz : Word
  beacon_freq_nb : Byte
  beacon_freq_step : Word
  beacon_datarate : BeaconDatarate
  beacon_bw_hz : BeaconBw
  beacon_power : Byte
  beacon_infodesc : Byte
  lat : Double
  lon : Double

/-- Consecutive bytes of the payload; those of a beacon end long before the array does. -/
def writeBytes (payload : Vector Byte 256) : ℕ → List Byte → Vector Byte 256
  | _, [] => payload
  | i, b :: bs => writeBytes (payload.setIfInBounds i b) (i + 1) bs

/-- The `n` low bytes of a signed number, the least significant one first. -/
def lowBytes (n : ℕ) (x : ℤ) : List Byte := (List.range n).map fun k => BitVec.ofInt 8 (x / 256 ^ k)

/-- The latitude or the longitude, for a coordinate between `-limit` and `limit` degrees. -/
def fieldCoord (wild : Double.WildCast) (limit : ℕ) (coord : Double) : ℤ :=
  let field := (((coord.divNat limit).mul (.ofInt (2 ^ 23))).toSigned wild 32).toInt
  if field > 0x007FFFFF then 0x007FFFFF
  else if field < -0x00800000 then -0x00800000
  else field

/-- The packet as it is prepared before the first visit of the loop; what is not set keeps the
contents of the stack. -/
def beaconPktInit (wild : Double.WildCast) (conf : BeaconConf) (stack : LgwPktTx) : LgwPktTx :=
  let rfu1 := conf.beacon_datarate.rfu1Size
  let rfu2 := conf.beacon_datarate.rfu2Size
  let specific := conf.beacon_infodesc :: lowBytes 3 (fieldCoord wild 90 conf.lat)
    ++ lowBytes 3 (fieldCoord wild 180 conf.lon) ++ List.replicate rfu2 0
  let payload := writeBytes (writeBytes stack.payload 0 (List.replicate rfu1 0)) (rfu1 + 6) specific
  let field_crc2 := crc16 ((payload.toList.drop (6 + rfu1)).take (7 + rfu2))
  { stack with
    tx_mode := txOnGps
    rf_chain := 0
    rf_power := conf.beacon_power
    modulation := modLora
    bandwidth := conf.beacon_bw_hz.bandwidth
    datarate := conf.beacon_datarate.datarate
    size := BitVec.ofNat 16 (rfu1 + 4 + 2 + 7 + rfu2 + 2)
    coderate := 1
    invert_pol := false
    preamble := 10
    no_crc := true
    no_header := true
    payload := writeBytes payload (rfu1 + 6 + 7 + rfu2) (lowBytes 2 field_crc2.toNat) }

/-! ## The loop -/

/-- `JIT_NUM_BEACON_IN_QUEUE` -/
def jitNumBeaconInQueue : Byte := 3

/-- The variables of the loop. -/
structure BeaconState where
  beacon_loop : Byte
  retry : Word
  last_beacon_gps_time : ℤ
  beacon_pkt : LgwPktTx
deriving DecidableEq, Repr

/-- What a turn finds: whether `gps_ref_valid` and `xtal_correct_ok` are set, the time reference,
the ticks since it was taken, and the queue. -/
structure Turn where
  ready : Bool
  time_reference_gps : Tref
  age : ℕ
  jit_queue : JitQueue
deriving DecidableEq

/-- `current_concentrator_time` -/
def Turn.currentTime (t : Turn) : Word := t.time_reference_gps.count_us + BitVec.ofNat 32 t.age

/-- A beacon that was put in the queue: the turn, its GPS time and the packet. -/
structure Beacon where
  turn : Turn
  gps_time : ℤ
  pkt : LgwPktTx
deriving DecidableEq

section Loop

variable (wild : Double.WildCast) (env : Env) (conf : BeaconConf)

/-- `next_beacon_gps_time.tv_sec`; the product of `retry` and the period is a `uint32_t`. -/
def nextBeaconGpsTime (ref : Tref) (s : BeaconState) : ℤ :=
  let beacon_period : ℤ := conf.beacon_period.toNat
  let tv_sec :=
    if s.last_beacon_gps_time = 0 then
      ref.gps.tv_sec + (beacon_period - ref.gps.tv_sec.tmod beacon_period)
    else s.last_beacon_gps_time + beacon_period
  tv_sec + (s.retry * conf.beacon_period).toNat

/-- `beacon_chan` -/
def beaconChan (tv_sec : ℤ) : Byte :=
  if 1 < conf.beacon_freq_nb then
    BitVec.ofInt 8 ((tv_sec.tdiv conf.beacon_period.toNat).tmod conf.beacon_freq_nb.toNat)
  else 0

/-- The packet for a GPS time: its counter, its frequency, and the time and the checksum in the
payload. -/
def loadBeacon (ref : Tref) (tv_sec : ℤ) (beacon_pkt : LgwPktTx) : LgwPktTx :=
  let rfu1 := conf.beacon_datarate.rfu1Size
  let payload := writeBytes beacon_pkt.payload rfu1 (lowBytes 4 tv_sec)
  let field_crc1 := crc16 (payload.toList.take (4 + rfu1))
  { beacon_pkt with
    count_us := (lgwGps2cnt (doubles wild) ref ⟨tv_sec, 0⟩).getD beacon_pkt.count_us
    freq_hz := conf.beacon_freq_hz + (beaconChan conf tv_sec).setWidth 32 * conf.beacon_freq_step
    payload := writeBytes payload (rfu1 + 4) (lowBytes 2 field_crc1.toNat) }

/-- The body of the loop with a valid time reference, and the beacon if it was queued. -/
def beaconTurn (t : Turn) (s : BeaconState) : BeaconState × Option Beacon :=
  let tv_sec := nextBeaconGpsTime conf t.time_reference_gps s
  let loaded := loadBeacon wild conf t.time_reference_gps tv_sec s.beacon_pkt
  let (jit_result, _, beacon_pkt) := jitEnqueue env t.jit_queue t.currentTime loaded .beacon
  if jit_result = .ok then
    (⟨s.beacon_loop - 1, 0, tv_sec, beacon_pkt⟩, some ⟨t, tv_sec, beacon_pkt⟩)
  else ({ s with retry := s.retry + 1, beacon_pkt := beacon_pkt }, none)

/-- The loop after some turns: the variables, the beacons queued so far, and whether it goes on. -/
structure LoopState where
  vars : BeaconState
  queued : List Beacon
  running : Bool
deriving DecidableEq

/-- `while (beacon_loop && (beacon_period != 0))` -/
def BeaconState.looping (s : BeaconState) : Bool := s.beacon_loop ≠ 0 && conf.beacon_period ≠ 0

/-- The body of the loop is entered, and not left by the `break`. -/
def LoopState.goesOn (t : Turn) (l : LoopState) : Bool :=
  l.running && l.vars.looping conf && t.ready

/-- One turn of the loop, its condition and the `break` included. -/
def loopStep (t : Turn) (l : LoopState) : LoopState :=
  if l.goesOn conf t then
    let (vars, beacon) := beaconTurn wild env conf t l.vars
    ⟨vars, l.queued ++ beacon.toList, true⟩
  else { l with running := false }

/-- The loop from the given variables, after `n` turns. -/
def beaconLoop (turns : ℕ → Turn) (s : BeaconState) : ℕ → LoopState
  | 0 => ⟨s, [], true⟩
  | n + 1 => loopStep wild env conf (turns n) (beaconLoop turns s n)

/-! ## The life of the thread -/

/-- One visit of the loop: `num_beacon` of the queue when it is entered, and the turns. -/
structure Visit where
  num_beacon : Byte
  turns : ℕ → Turn

/-- The variables at the entry of the loop. -/
def BeaconState.enter (s : BeaconState) (num_beacon : Byte) : BeaconState :=
  { s with beacon_loop := jitNumBeaconInQueue - num_beacon, retry := 0 }

/-- The loop of a visit. -/
def Visit.loop (v : Visit) (s : BeaconState) : ℕ → LoopState :=
  beaconLoop wild env conf v.turns (s.enter v.num_beacon)

/-- The variables of the thread before the first visit. -/
def beaconInit (stack : LgwPktTx) : BeaconState := ⟨0, 0, 0, beaconPktInit wild conf stack⟩

/-- Visits one after the other, each up to its end, and the beacons they have queued. -/
inductive BeaconRun : BeaconState → List Visit → BeaconState → List Beacon → Prop where
  | nil (s : BeaconState) : BeaconRun s [] s []
  | cons {s s' : BeaconState} {v : Visit} {vs : List Visit} {queued : List Beacon} (n : ℕ)
      (ended : (v.loop wild env conf s n).running = false)
      (rest : BeaconRun (v.loop wild env conf s n).vars vs s' queued) :
      BeaconRun s (v :: vs) s' ((v.loop wild env conf s n).queued ++ queued)

end Loop

end RutosSdk.Forwarder
