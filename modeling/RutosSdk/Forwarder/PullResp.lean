import RutosSdk.Forwarder.Request
import RutosSdk.Forwarder.TxPower

/-! # Answering downlink requests

Reference: `send_tx_ack`, the PULL_RESP branch of `thread_down` and the radio settings of
`parse_SX130x_configuration` in `packet_forwarder/src/lora_pkt_fwd.c`;
`packet_forwarder/PROTOCOL.md`.

A handled datagram gives the datagrams sent back, the queues, and the packet that was queued. The
parser of the JSON text and the queue's environment are parameters. A datagram fits the buffer, so
the terminator added behind it is in bounds.
-/

namespace RutosSdk.Forwarder

open Binary64 Hal Jit Tools Writes

/-! ## TX_ACK -/

/-- `enum jit_error_e`: the errors of the queue and those of `thread_down`. -/
inductive AckError where
  | jit (e : JitError)
  | txFreq
  | txPower
  | gpsUnlocked
deriving DecidableEq, Repr

/-- The quoted text of an error or warning. -/
def AckError.text : AckError → List Char
  | .jit .full | .jit .collisionPacket =>
    ['C', 'O', 'L', 'L', 'I', 'S', 'I', 'O', 'N', '_', 'P', 'A', 'C', 'K', 'E', 'T']
  | .jit .tooLate => ['T', 'O', 'O', '_', 'L', 'A', 'T', 'E']
  | .jit .tooEarly => ['T', 'O', 'O', '_', 'E', 'A', 'R', 'L', 'Y']
  | .jit .collisionBeacon =>
    ['C', 'O', 'L', 'L', 'I', 'S', 'I', 'O', 'N', '_', 'B', 'E', 'A', 'C', 'O', 'N']
  | .txFreq => ['T', 'X', '_', 'F', 'R', 'E', 'Q']
  | .txPower => ['T', 'X', '_', 'P', 'O', 'W', 'E', 'R']
  | .gpsUnlocked => ['G', 'P', 'S', '_', 'U', 'N', 'L', 'O', 'C', 'K', 'E', 'D']
  | .jit _ => ['U', 'N', 'K', 'N', 'O', 'W', 'N']

/-- The conversion `%d`. -/
def decimal (z : ℤ) : List Char :=
  if z < 0 then '-' :: Nat.toDigits 10 z.natAbs else Nat.toDigits 10 z.natAbs

/-- `PROTOCOL_VERSION` -/
def protocolVersion : Byte := 2
/-- What a datagram leaves behind: the datagrams sent, the queues, the packet put in a queue, and
whether the RF chain of a request that was parsed is one of the two. If it is not, the settings and
the queue are the memory behind the arrays, and C defines no outcome. -/
structure Outcome where
  sent : List (List Byte)
  jit_queue : ℕ → JitQueue
  queued : Option LgwPktTx
  within : Bool

end RutosSdk.Forwarder
