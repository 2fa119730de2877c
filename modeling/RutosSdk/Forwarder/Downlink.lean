import RutosSdk.Jit.Spacing
import RutosSdk.Forwarder.PullResp

/-! # What becomes of a downlink request

`parseTxpk` succeeds on the complete requests, and gives the packet that their fields describe. A
request that is complete, or that only lacks the GPS time, is answered by one TX_ACK. The packet of
an accepted request carries its fields, and is one that `lgw_send` accepts exactly if those that are
not checked are in range.
-/

namespace RutosSdk.Forwarder

open Option Binary64 Hal Jit Tools Writes

/-! ## Parsing -/

section Except

variable {ε α β : Type}

end Except

variable (wild : Double.WildCast)

/-- The RF chain that a request names. -/
def rfChainOf (rfch : JsonValue) : Byte := (jsonValueGetNumber rfch).toUnsigned wild 8

/-- The RF chain that a request names is one of the two, which `thread_down` does not check. -/
def RfchInRange (txpk : Txpk) : Prop :=
  ∀ rfch, txpk .rfch = some rfch → (rfChainOf wild rfch).toNat < rfChainNb

/-- The fields of a LoRa packet are there, and well formed. -/
structure LoraComplete (txpk : Txpk) : Prop where
  modu : txpk.getString .modu = some (chars ['L', 'O', 'R', 'A'])
  datr : ∃ datr x0 x1, txpk.getString .datr = some datr ∧ scanDatr datr = some (x0, x1)
    ∧ (loraDatarate x0).isSome ∧ (loraBandwidth x1).isSome
  codr : ∃ codr, txpk.getString .codr = some codr ∧ (loraCoderate codr).isSome

/-- The fields of an FSK packet are there. -/
structure FskComplete (txpk : Txpk) : Prop where
  modu : txpk.getString .modu = some (chars ['F', 'S', 'K'])
  datr : (txpk .datr).isSome
  fdev : (txpk .fdev).isSome

/-- The packet carries what the fields of the request say. -/
structure Describes (gw : Gateway) (txpk : Txpk) (p : LgwPktTx) : Prop where
  rfch : ∃ rfch, txpk .rfch = some rfch ∧ p.rf_chain = rfChainOf gw.wild rfch
    ∧ (gw.chain p.rf_chain.toNat).tx_enable
  modulation : LoraComplete txpk ∧ p.modulation = modLora ∧ isLoraBw p.bandwidth
      ∧ isLoraDr p.datarate ∧ isLoraCr p.coderate
      ∧ p.preamble = parsePreamble gw.wild 8 6 (txpk .prea)
    ∨ FskComplete txpk ∧ p.modulation = modFsk
      ∧ (∃ datr, txpk .datr = some datr
        ∧ p.datarate = (jsonValueGetNumber datr).toUnsigned gw.wild 32)
      ∧ (∃ fdev, txpk .fdev = some fdev
        ∧ p.f_dev = ((jsonValueGetNumber fdev).divNat 1000).toUnsigned gw.wild 8)
      ∧ p.preamble = parsePreamble gw.wild 5 3 (txpk .prea)
  size : ∃ size, txpk .size = some size ∧ p.size = (jsonValueGetNumber size).toUnsigned gw.wild 16
  -- a length of the data other than the size only gives a warning
  data : ∃ data ret ws, txpk.getString .data = some data ∧ b64ToBin data 256 = some (ret, ws)
    ∧ p.payload = Vector.ofFn fun k => run (fun _ => 0) ws k
  tx_mode : p.tx_mode = txImmediate ∨ p.tx_mode = txTimestamped

variable {gw : Gateway} {p p' : LgwPktTx} {txpk : Txpk} {wild : Double.WildCast} {d : Downlink}
  {h : Handler} {jit_queue : ℕ → JitQueue} {radio : Vector (Option RadioConf) rfChainNb}

/-- An integer as a JSON number. -/
def number (n : ℤ) : JsonValue := .number (.ofInt n)

/-- The fields that `thread_down` does not check are in range. -/
structure InRange (wild : Double.WildCast) (txpk : Txpk) : Prop where
  rfch : RfchInRange wild txpk
  size : ∀ size, txpk .size = some size →
    ((jsonValueGetNumber size).toUnsigned wild 16).toNat ≤ 255
  fsk : txpk.getString .modu = some (chars ['F', 'S', 'K']) →
    (∀ datr, txpk .datr = some datr → isFskDr ((jsonValueGetNumber datr).toUnsigned wild 32))
    ∧ ∀ fdev, txpk .fdev = some fdev →
      1 ≤ ((jsonValueGetNumber fdev).divNat 1000).toUnsigned wild 8
        ∧ ((jsonValueGetNumber fdev).divNat 1000).toUnsigned wild 8 ≤ 200

end RutosSdk.Forwarder
