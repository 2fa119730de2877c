import RutosSdk.Forwarder.UpText
import RutosSdk.Hal.Merge
import RutosSdk.Lib.Exits

/-! # The datagrams of `thread_up`

Reference: `thread_up` and `main` in `packet_forwarder/src/lora_pkt_fwd.c`.

A round of `thread_up` fetches packets and composes one text from those that pass the filter and
from the status report that waits to be sent. The pieces are put in the buffer at a running index,
without a check of the room that is left. There is enough for what one call of `lgw_receive`
returns, since the packets come out of a FIFO of 4096 bytes. The report is put in as it stands in
its own buffer, where `main` may have cut it.
-/

namespace RutosSdk.Forwarder

open List hiding Vector
open Hal Tools Writes Decimal
open Balance (Balanced Plain comma openBrace closeBrace quote commaJoin)

/-! ## Composing -/

/-- `STATUS_SIZE` -/
abbrev statusSize : ℕ := 200

/-- `TX_BUFF_SIZE` -/
abbrev txBuffSize : ℕ := 540 * 255 + 30 + statusSize

/-- The buffer of the upstream packet: how far it is filled, and what was assigned in this round. -/
structure UpBuffer where
  buff_index : ℕ
  writes : List (Write Byte)

/-- One piece. Where the process exits instead, the buffer is as it is then. -/
def UpBuffer.append (b : UpBuffer) : Append → Except UpBuffer UpBuffer
  | .print text =>
    let writes := b.writes ++ snprintf 0 txBuffSize b.buff_index text
    if 0 < text.length then .ok ⟨b.buff_index + text.length, writes⟩
    else .error ⟨b.buff_index, writes⟩
  | .copy text => .ok ⟨b.buff_index + text.length, b.writes ++ writesAt b.buff_index text⟩
  | .encode bytes =>
    match binToB64 bytes 341 with
    | some (j, ws) =>
      let writes := b.writes ++ shift b.buff_index ws
      if 0 ≤ j then .ok ⟨b.buff_index + j.toNat, writes⟩ else .error ⟨b.buff_index, writes⟩
    | none => .error b
  | .exit => .error b

/-- Several pieces. -/
def UpBuffer.appends (b : UpBuffer) : List Append → Except UpBuffer UpBuffer
  | [] => .ok b
  | a :: appends => do
      let b ← b.append a
      b.appends appends

/-- The packets, one by one through the filter. -/
def UpBuffer.packets (print : Printf) (up : UpSettings) (b : UpBuffer) (pkt_in_dgram : ℕ) :
    List LgwPktRx → Except UpBuffer (UpBuffer × ℕ)
  | [] => .ok (b, pkt_in_dgram)
  | p :: rxpkt =>
    if forwards up p.status then do
      let b ← b.appends (packetAppends print up p pkt_in_dgram)
      UpBuffer.packets print up b (pkt_in_dgram + 1) rxpkt
    else UpBuffer.packets print up b pkt_in_dgram rxpkt

/-- What a round finds besides the packets: whether a report is ready, its buffer, and the random
token. -/
structure UpInputs where
  send_report : Bool
  status_report : Vector Byte statusSize
  token_h : Byte
  token_l : Byte

/-- The report, up to its terminator. -/
def UpInputs.report (inputs : UpInputs) : List Byte := inputs.status_report.toList.takeWhile (· ≠ 0)

/-- How a round ends. -/
inductive UpRound where
  | idle
  | fetchFailed
  | exited (b : UpBuffer)
  | restarted (b : UpBuffer)
  | sent (b : UpBuffer)

/-- The buffer behind the 12 bytes of the header. -/
def upStart (inputs : UpInputs) : UpBuffer := ⟨12, [⟨1, inputs.token_h⟩, ⟨2, inputs.token_l⟩]⟩

/-- What stands behind the packets. -/
def UpBuffer.ending (b : UpBuffer) (inputs : UpInputs) (pkt_in_dgram : ℕ) :
    Except UpBuffer UpRound := do
  if pkt_in_dgram = 0 ∧ inputs.send_report = false then
    -- all packets have been filtered out and there is no report
    return .restarted b
  let b ←
    if pkt_in_dgram = 0 then
      -- removes "rxpk":[
      pure { b with buff_index := b.buff_index - 8 }
    else b.appends (.copy (ascii "]") :: if inputs.send_report then [.copy (ascii ",")] else [])
  let b ← if inputs.send_report then b.append (.print inputs.report) else pure b
  let b ← b.append (.copy (ascii "\x7d"))
  return .sent { b with writes := b.writes ++ [⟨b.buff_index, 0⟩] }

/-- One text. -/
def composeDatagram (print : Printf) (up : UpSettings) (rxpkt : List LgwPktRx) (inputs : UpInputs) :
    Except UpBuffer UpRound := do
  let b ← (upStart inputs).append (.copy (ascii "\x7b\"rxpk\":["))
  let (b, pkt_in_dgram) ← UpBuffer.packets print up b 0 rxpkt
  b.ending inputs pkt_in_dgram

/-- One round of the loop of `thread_up`, with what `lgw_receive` returns. -/
def threadUpRound (print : Printf) (up : UpSettings)
    (received : Except HalFailure (List LgwPktRx)) (inputs : UpInputs) : UpRound :=
  match received with
  | .error _ => .fetchFailed
  | .ok rxpkt =>
    if rxpkt.length = 0 ∧ inputs.send_report = false then .idle
    else
      match composeDatagram print up rxpkt inputs with
      | .ok round => round
      | .error b => .exited b

/-! ## One piece after the other -/

/-- The second buffer is the first with a text behind it, and at most `slack` bytes behind the
text. -/
structure Extends (slack : ℕ) (b b' : UpBuffer) (text : List Byte) : Prop where
  index : b'.buff_index = b.buff_index + text.length
  writes : ∃ ws, b'.writes = b.writes ++ ws ∧ Fills ws b.buff_index text slack

namespace Extends

variable {slack : ℕ} {b b' b'' : UpBuffer} {text text' : List Byte}

theorem refl (slack : ℕ) (b : UpBuffer) : Extends slack b b [] where
  index := rfl
  writes := ⟨[], (append_nil _).symm, Fills.nil _ _⟩

theorem trans (h : Extends slack b b' text) (h' : Extends slack b' b'' text') :
    Extends slack b b'' (text ++ text') where
  index := by rw [h'.index, h.index, length_append, Nat.add_assoc]
  writes := by
    obtain ⟨ws, hws, hfills⟩ := h.writes
    obtain ⟨ws', hws', hfills'⟩ := h'.writes
    rw [h.index] at hfills'
    refine ⟨ws ++ ws', ?_, hfills.append hfills'⟩
    rw [hws', hws, append_assoc]

theorem mono (h : Extends slack b b' text) {slack' : ℕ} (hle : slack ≤ slack') :
    Extends slack' b b' text where
  index := h.index
  writes := by
    obtain ⟨ws, hws, hfills⟩ := h.writes
    exact ⟨ws, hws, hfills.mono hle⟩

/-- The index is set back by the length of the end of the text. -/
theorem cut (h : Extends slack b b' (text ++ text')) :
    Extends (text'.length + slack) b { b' with buff_index := b'.buff_index - text'.length }
      text where
  index := by
    have := h.index
    rw [length_append] at this
    dsimp only
    omega
  writes := by
    obtain ⟨ws, hws, hfills⟩ := h.writes
    have hcut := @Fills.take Byte ws b.buff_index slack (text ++ text') hfills text.length
      (by rw [length_append]; omega)
    rw [take_left, length_append, Nat.add_sub_cancel_left] at hcut
    exact ⟨ws, hws, hcut⟩

/-- Everything of a round is assigned inside the buffer. -/
theorem inBuffer {inputs : UpInputs} (h : Extends slack (upStart inputs) b text)
    (hfit : 12 + text.length + slack ≤ txBuffSize) : InBuffer txBuffSize b.writes := by
  obtain ⟨ws, hws, hfills⟩ := h.writes
  rw [hws]
  refine inBuffer_append.mpr ⟨?_, fun w hw => ?_⟩
  · simp [upStart, InBuffer]
  · have hlow : 12 ≤ w.index := (hfills.within w hw).1
    have hhigh : w.index < 12 + text.length + slack := (hfills.within w hw).2
    omega

end Extends

/-- The payload is one that a packet can have. -/
def Append.Small : Append → Prop
  | .encode bytes => bytes.length ≤ 255
  | _ => True

/-- The process exits. -/
def Append.Fails : Append → Prop
  | .print text => text = []
  | .exit => True
  | _ => False

/-- With enough room a piece is put whole. -/
theorem append_spec {b : UpBuffer} {a : Append} (hsmall : a.Small)
    (hfit : b.buff_index + a.text.length + 341 ≤ txBuffSize) :
    Ends (b.append a) (fun b' => Extends 341 b b' a.text ∧ ¬a.Fails)
      (fun b' => Extends 341 b b' [] ∧ a.Fails) := by
  have hsize : txBuffSize ≤ 2147483648 := by decide
  cases a with
  | print text =>
    have hfills : Fills (snprintf 0 txBuffSize b.buff_index text) b.buff_index text 341 :=
      (Fills.snprintf 0 (Nat.lt_of_lt_of_le (Nat.lt_add_of_pos_right (by decide)) hfit)
        hsize).mono (by decide)
    rw [UpBuffer.append]
    split_ifs with hpos
    · exact ⟨⟨rfl, _, rfl, hfills⟩, ne_nil_of_length_pos hpos⟩
    · obtain rfl : text = [] := eq_nil_of_length_eq_zero (by omega)
      exact ⟨⟨rfl, _, rfl, hfills⟩, rfl⟩
  | copy text =>
    have hfills := @Fills.writesAt Byte b.buff_index text (by
      rw [Append.text] at hfit
      omega)
    exact ⟨⟨rfl, _, rfl, hfills.mono (Nat.zero_le _)⟩, id⟩
  | encode bytes =>
    obtain ⟨ws, hres, hbuf, hmem⟩ := binToB64_payload hsmall
    have hfills : Fills (shift b.buff_index ws) b.buff_index (rfcPadded bytes) 341 := by
      constructor
      · intro w hw
        obtain ⟨v, hv, rfl⟩ := mem_map.mp hw
        have := hbuf v hv
        dsimp only
        omega
      · intro mem k hk
        rw [run_shift, hmem _ k (Nat.le_of_lt hk), getD_eq_getElem _ _ hk]
    rw [UpBuffer.append, hres]
    dsimp only
    rw [if_pos (Int.natCast_nonneg _), Int.toNat_natCast]
    exact ⟨⟨rfl, _, rfl, hfills⟩, id⟩
  | exit => exact ⟨Extends.refl 341 b, trivial⟩

theorem appends_spec {b : UpBuffer} {appends : List Append} (hsmall : ∀ a ∈ appends, a.Small)
    (hfit : b.buff_index + (appendsText appends).length + 341 ≤ txBuffSize) :
    Ends (b.appends appends)
      (fun b' => Extends 341 b b' (appendsText appends) ∧ ∀ a ∈ appends, ¬a.Fails)
      (fun b' => (∃ text, text.length ≤ (appendsText appends).length ∧ Extends 341 b b' text)
        ∧ ∃ a ∈ appends, a.Fails) := by
  induction appends generalizing b with
  | nil => exact ⟨Extends.refl 341 b, forall_mem_nil _⟩
  | cons a appends ih =>
    obtain ⟨ha, hrest⟩ := forall_mem_cons.mp hsmall
    rw [appendsText_cons, length_append] at hfit ⊢
    refine (append_spec ha (by omega)).bind ?_ ?_
    · rintro b' ⟨hb', hfails⟩
      exact ⟨⟨[], Nat.zero_le _, hb'⟩, a, mem_cons_self, hfails⟩
    · rintro b' ⟨hb', ha⟩
      refine (ih hrest (by rw [hb'.index]; omega)).imp ?_ ?_
      · rintro b'' ⟨hb'', hall⟩
        exact ⟨hb'.trans hb'', forall_mem_cons.mpr ⟨ha, hall⟩⟩
      · rintro b'' ⟨⟨text, hle, hb''⟩, c, hc, hfails⟩
        refine ⟨⟨a.text ++ text, ?_, hb'.trans hb''⟩, c, mem_cons_of_mem _ hc, hfails⟩
        rw [length_append]
        omega

/-! ## The pieces of a packet -/

/-- A piece of which nothing goes wrong, unless it is an `exit` of the source. -/
def Append.Sound (a : Append) : Prop := a.Small ∧ (a.Fails → a = .exit)

theorem sound_copy (text : List Byte) : (Append.copy text).Sound := ⟨trivial, fun h => absurd h id⟩

theorem sound_exit : Append.exit.Sound := ⟨trivial, fun _ => rfl⟩

variable (print : Printf) (inputs : UpInputs) (up : UpSettings) (b : UpBuffer) (p : LgwPktRx)
  (pkt_in_dgram : ℕ)

theorem sound_moreMembers (m : RxpkMember) (members : List RxpkMember) :
    (Append.print (moreMembers print (m :: members))).Sound :=
  ⟨trivial, fun h => by cases h⟩

theorem sound_statAppends (status : Byte) : ∀ a ∈ statAppends status, a.Sound := by
  rw [statAppends]
  split_ifs <;> simp [sound_copy, sound_exit]

theorem sound_modulationAppends : ∀ a ∈ modulationAppends print p, a.Sound := by
  rw [modulationAppends, datrAppends, bwAppends, codrAppends]
  split_ifs
  · cases sfText p.datarate <;> cases bwText p.bandwidth <;> cases crText p.coderate
      <;> simp [sound_copy, sound_exit, sound_moreMembers]
  · simp [sound_copy, sound_moreMembers]
  · simp [sound_exit]

theorem sound_packetAppends {p : LgwPktRx} (hsize : p.size.toNat ≤ 255) (pkt_in_dgram : ℕ) :
    ∀ a ∈ packetAppends print up p pkt_in_dgram, a.Sound := by
  have hjver : (Append.print (memberText print (.jver 1))).Sound :=
    ⟨trivial, fun h => by cases h⟩
  have hencode : (Append.encode (sentBytes p)).Sound := by
    refine ⟨?_, fun h => absurd h id⟩
    rw [Append.Small, sentBytes, length_take]
    omega
  have hmap : ∀ members : List RxpkMember,
      ∀ a ∈ members.map (fun m => Append.print (moreMembers print [m])), a.Sound := by
    intro members a ha
    obtain ⟨m, -, rfl⟩ := mem_map.mp ha
    exact sound_moreMembers print m []
  rw [packetAppends]
  simp only [forall_mem_append, forall_mem_cons]
  exact ⟨⟨⟨⟨⟨⟨⟨sound_copy _, hjver, sound_moreMembers print _ _, forall_mem_nil _⟩, hmap _⟩,
      hmap _⟩, sound_moreMembers print _ _, forall_mem_nil _⟩, sound_statAppends _⟩,
    sound_modulationAppends print p⟩,
    sound_moreMembers print _ _, sound_copy _, hencode, sound_copy _, forall_mem_nil _⟩

/-! ## The packets -/

/-- The packets that pass the filter. -/
def passing (rxpkt : List LgwPktRx) : List LgwPktRx := rxpkt.filter fun p => forwards up p.status

/-- The text is the object of a packet. -/
def IsObject (text : List Byte) : Prop :=
  ∃ members, serialise up p = .object members ∧ text = rxpkObject print members

/-- Objects behind `pkt_in_dgram` others. -/
def moreObjects (objects : List (List Byte)) : List Byte :=
  if pkt_in_dgram = 0 then commaJoin objects else objects.flatMap fun text => comma :: text

/-- The room that a packet is given. -/
def packetRoom : ℕ := 472 + (rfcPadded (sentBytes p)).length

theorem passing_cons (rxpkt : List LgwPktRx) :
    passing up (p :: rxpkt)
      = if forwards up p.status then p :: passing up rxpkt else passing up rxpkt :=
  filter_cons

theorem moreObjects_cons (object : List Byte) (objects : List (List Byte)) :
    moreObjects pkt_in_dgram (object :: objects)
      = ((if pkt_in_dgram = 0 then [] else [comma]) ++ object)
        ++ moreObjects (pkt_in_dgram + 1) objects := by
  rw [moreObjects, moreObjects, if_neg (Nat.succ_ne_zero _)]
  split_ifs
  · rfl
  · rw [flatMap_cons, singleton_append]

/-- One packet that is forwarded. -/
theorem packet_spec {config : UpConfig} {b : UpBuffer} {p : LgwPktRx}
    (hfwd : forwards config.settings p.status) (hsize : p.size.toNat ≤ 255)
    (hfit : b.buff_index + packetRoom p + 341 ≤ txBuffSize) :
    Ends (b.appends (packetAppends print config.settings p pkt_in_dgram))
      (fun b' => ∃ object, IsObject print config.settings p object
        ∧ ((if pkt_in_dgram = 0 then [] else [comma]) ++ object).length ≤ packetRoom p
        ∧ Extends 341 b b' ((if pkt_in_dgram = 0 then [] else [comma]) ++ object))
      (fun b' => (∃ text, text.length ≤ packetRoom p ∧ Extends 341 b b' text)
        ∧ serialise config.settings p = .exited) := by
  have hroom := @length_packetAppends_le config print p pkt_in_dgram
  have hsound := sound_packetAppends print config.settings hsize pkt_in_dgram
  have htext := packetAppends_text print pkt_in_dgram hfwd hsize
  have hspec := @appends_spec b _ (fun a ha => (hsound a ha).1)
    (Nat.le_trans (Nat.add_le_add_right (Nat.add_le_add_left hroom _) _) hfit)
  cases hserial : serialise config.settings p with
  | skipped =>
    rw [hserial] at htext
    exact htext.elim
  | exited =>
    rw [hserial] at htext
    refine hspec.imp ?_ ?_
    · rintro b' ⟨-, hnone⟩
      exact absurd trivial (hnone _ htext)
    · rintro b' ⟨⟨text, hle, hb'⟩, -⟩
      exact ⟨⟨text, Nat.le_trans hle hroom, hb'⟩, rfl⟩
  | object members =>
    rw [hserial] at htext
    obtain ⟨hnoexit, htext⟩ := htext
    rw [htext] at hspec hroom
    refine hspec.imp ?_ ?_
    · rintro b' ⟨hb', -⟩
      exact ⟨_, ⟨members, hserial, rfl⟩, hroom, hb'⟩
    · rintro b' ⟨-, a, ha, hfails⟩
      rw [(hsound a ha).2 hfails] at ha
      exact absurd ha hnoexit

/-- All packets. -/
theorem packets_spec {config : UpConfig} {b : UpBuffer} {rxpkt : List LgwPktRx}
    (hsize : ∀ p ∈ rxpkt, p.size.toNat ≤ 255)
    (hfit : b.buff_index + (rxpkt.map packetRoom).sum + 341 ≤ txBuffSize) :
    Ends (UpBuffer.packets print config.settings b pkt_in_dgram rxpkt)
      (fun r => ∃ objects,
        List.Forall₂ (IsObject print config.settings) (passing config.settings rxpkt) objects
        ∧ (moreObjects pkt_in_dgram objects).length ≤ (rxpkt.map packetRoom).sum
        ∧ Extends 341 b r.1 (moreObjects pkt_in_dgram objects)
        ∧ r.2 = pkt_in_dgram + objects.length)
      (fun b' => (∃ text, text.length ≤ (rxpkt.map packetRoom).sum ∧ Extends 341 b b' text)
        ∧ ∃ p ∈ rxpkt, serialise config.settings p = .exited) := by
  induction rxpkt generalizing b pkt_in_dgram with
  | nil =>
    have hnone : moreObjects pkt_in_dgram [] = [] := by
      rw [moreObjects]
      split_ifs <;> rfl
    refine ⟨[], .nil, ?_, ?_, rfl⟩ <;> rw [hnone]
    · exact Nat.zero_le _
    · exact Extends.refl 341 b
  | cons p rxpkt ih =>
    obtain ⟨hp, hrest⟩ := forall_mem_cons.mp hsize
    rw [map_cons, sum_cons] at hfit ⊢
    rw [UpBuffer.packets, passing_cons]
    split_ifs with hfwd
    · refine (packet_spec print pkt_in_dgram hfwd hp (by omega)).bind ?_ ?_
      · rintro b' ⟨⟨text, hle, hb'⟩, hexited⟩
        exact ⟨⟨text, Nat.le_trans hle (Nat.le_add_right _ _), hb'⟩, p, mem_cons_self,
          hexited⟩
      · rintro b' ⟨object, hobject, hlen, hb'⟩
        refine (ih (pkt_in_dgram + 1) hrest (by rw [hb'.index]; omega)).imp ?_ ?_
        · rintro r ⟨objects, hobjects, hlens, hr, hnb⟩
          refine ⟨object :: objects, .cons hobject hobjects, ?_, ?_, ?_⟩
          · rw [moreObjects_cons, length_append]
            omega
          · rw [moreObjects_cons]
            exact hb'.trans hr
          · rw [hnb, length_cons]
            omega
        · rintro b'' ⟨⟨text, hle, hb''⟩, q, hq, hexited⟩
          refine ⟨⟨_, ?_, hb'.trans hb''⟩, q, mem_cons_of_mem p hq, hexited⟩
          rw [length_append]
          omega
    · refine (ih pkt_in_dgram hrest (by omega)).imp ?_ ?_
      · rintro r ⟨objects, hobjects, hlens, hr, hnb⟩
        exact ⟨objects, hobjects, Nat.le_trans hlens (Nat.le_add_left _ _), hr, hnb⟩
      · rintro b' ⟨⟨text, hle, hb'⟩, q, hq, hexited⟩
        exact ⟨⟨text, Nat.le_trans hle (Nat.le_add_left _ _), hb'⟩, q,
          mem_cons_of_mem p hq, hexited⟩

/-! ## The whole text -/

/-- What is put behind the packets. -/
def endingAppends : List Append :=
  (if pkt_in_dgram = 0 then []
    else .copy (ascii "]") :: if inputs.send_report then [.copy (ascii ",")] else [])
    ++ (if inputs.send_report then [.print inputs.report] else []) ++ [.copy (ascii "\x7d")]

/-- The string terminator, for safety. -/
def UpBuffer.terminated : UpBuffer :=
  { b with writes := b.writes ++ [⟨b.buff_index, 0⟩] }

theorem appends_append (appends appends' : List Append) :
    b.appends (appends ++ appends') = (b.appends appends).bind fun b => b.appends appends' := by
  induction appends generalizing b with
  | nil => rfl
  | cons a appends ih =>
    rw [cons_append, UpBuffer.appends, UpBuffer.appends]
    cases b.append a with
    | error b' => rfl
    | ok b' => exact ih b'

theorem appends_singleton (a : Append) : b.appends [a] = b.append a := by
  rw [UpBuffer.appends]
  cases b.append a <;> rfl

/-- What stands behind the packets is put like any other pieces. -/
theorem ending_eq (inputs : UpInputs) (pkt_in_dgram : ℕ)
    (h : ¬(pkt_in_dgram = 0 ∧ inputs.send_report = false)) :
    b.ending inputs pkt_in_dgram
      = ((if pkt_in_dgram = 0 then { b with buff_index := b.buff_index - 8 } else b).appends
          (endingAppends inputs pkt_in_dgram)).map fun b => .sent b.terminated := by
  rw [UpBuffer.ending, if_neg h, endingAppends]
  by_cases hnone : pkt_in_dgram = 0
  · obtain hsend : inputs.send_report = true := by
      cases hs : inputs.send_report with
      | false => exact absurd ⟨hnone, hs⟩ h
      | true => rfl
    simp only [if_pos hnone, hsend, if_true, nil_append]
    rw [appends_append, appends_singleton]
    change UpBuffer.append _ (.print inputs.report) >>= _ = _
    cases ({ b with buff_index := b.buff_index - 8 } : UpBuffer).append (.print inputs.report)
      <;> rfl
  · cases hsend : inputs.send_report with
    | false =>
      simp only [if_neg hnone]
      rfl
    | true =>
      simp only [if_neg hnone, if_true]
      rw [appends_append, appends_append]
      cases b.appends [.copy (ascii "]"), .copy (ascii ",")] with
      | error b' => rfl
      | ok b' =>
        change _ = ((b'.appends [.print inputs.report]).bind _).map _
        rw [appends_singleton]
        change UpBuffer.append _ (.print inputs.report) >>= _ = _
        cases b'.append (.print inputs.report) <;> rfl

/-- The text that is sent: the buffer behind the header, whatever was in it before the round. -/
def UpBuffer.text (mem : ℤ → Byte) : List Byte :=
  (List.range (b.buff_index - 12)).map fun k : ℕ => run mem b.writes ((12 : ℕ) + k)

theorem text_terminated {slack : ℕ} {inputs : UpInputs} {b : UpBuffer} {text : List Byte}
    (h : Extends slack (upStart inputs) b text) (mem : ℤ → Byte) :
    b.terminated.text mem = text := by
  have hindex : b.buff_index = 12 + text.length := h.index
  obtain ⟨ws, hws, hfills⟩ := h.writes
  have hlen : b.terminated.buff_index - 12 = text.length := by
    rw [UpBuffer.terminated, hindex, Nat.add_sub_cancel_left]
  refine ext_getElem (by simp [UpBuffer.text, hlen]) fun k hk hk' => ?_
  simp only [UpBuffer.text, getElem_map, getElem_range]
  rw [UpBuffer.terminated, run_append, run_of_ne, hws, run_append]
  · exact hfills.text _ k hk'
  · intro w hw
    rw [mem_singleton.mp hw]
    dsimp only
    omega

/-- The array of the objects. -/
def rxpkArray (objects : List (List Byte)) : List Byte :=
  ascii "\"rxpk\":[" ++ commaJoin objects ++ ascii "]"

/-- What stands between the outer braces: the packets, the packets and the report, or the report. -/
inductive BodyForm (report : List Byte) :
    (send_report : Bool) → (objects : List (List Byte)) → (body : List Byte) → Prop
  | packets {objects : List (List Byte)} (h : objects ≠ []) :
      BodyForm report false objects (rxpkArray objects)
  | packetsAndReport {objects : List (List Byte)} (h : objects ≠ []) :
      BodyForm report true objects (rxpkArray objects ++ comma :: report)
  | report : BodyForm report true [] report

theorem length_report_le : inputs.report.length ≤ statusSize := by
  refine Nat.le_trans (takeWhile_sublist _).length_le ?_
  rw [Vector.length_toList]

/-- The pieces behind the packets, after what is left of the text in front of them. -/
theorem endingAppends_text (objects : List (List Byte))
    (h : ¬(objects.length = 0 ∧ inputs.send_report = false)) :
    ∃ body, BodyForm inputs.report inputs.send_report objects body
      ∧ (if objects.length = 0 then [openBrace] else ascii "\x7b\"rxpk\":[" ++ commaJoin objects)
          ++ appendsText (endingAppends inputs objects.length)
        = openBrace :: (body ++ [closeBrace]) := by
  cases hsend : inputs.send_report with
  | false =>
    have hne : objects.length ≠ 0 := fun hzero => h ⟨hzero, hsend⟩
    refine ⟨_, .packets (length_pos_iff.mp (Nat.pos_of_ne_zero hne)), ?_⟩
    rw [endingAppends, hsend, if_neg hne, if_neg hne, rxpkArray]
    simp only [appendsText, flatMap_append, flatMap_cons, flatMap_nil, Append.text,
      append_assoc, append_nil]
    rfl
  | true =>
    by_cases hzero : objects.length = 0
    · obtain rfl := eq_nil_of_length_eq_zero hzero
      refine ⟨_, .report, ?_⟩
      rw [endingAppends, hsend, if_pos hzero, if_pos hzero]
      simp only [appendsText, flatMap_append, flatMap_cons, flatMap_nil,
        Append.text, append_nil, nil_append, if_true]
      rfl
    · refine ⟨_, .packetsAndReport (length_pos_iff.mp (Nat.pos_of_ne_zero hzero)), ?_⟩
      rw [endingAppends, hsend, if_neg hzero, if_neg hzero, rxpkArray]
      simp only [appendsText, flatMap_append, flatMap_cons, flatMap_nil,
        Append.text, append_assoc, append_nil, if_true]
      rfl

theorem small_endingAppends : ∀ a ∈ endingAppends inputs pkt_in_dgram, a.Small := by
  rw [endingAppends]
  split_ifs <;> simp [Append.Small]

/-- Only a report without a text makes the process exit here. -/
theorem fails_endingAppends :
    ∀ a ∈ endingAppends inputs pkt_in_dgram, a.Fails →
      inputs.send_report = true ∧ inputs.report = [] := by
  rw [endingAppends]
  split_ifs with hnone hsend <;> simp [Append.Fails, *]

theorem length_endingAppends_le :
    (appendsText (endingAppends inputs pkt_in_dgram)).length ≤ 203 := by
  have hreport : inputs.report.length ≤ 200 := length_report_le inputs
  have hbracket : (ascii "]").length = 1 := rfl
  have hcomma : (ascii ",").length = 1 := rfl
  have hbrace : (ascii "\x7d").length = 1 := rfl
  rw [endingAppends]
  split_ifs <;> simp only [appendsText, flatMap_append, flatMap_cons, flatMap_nil,
    Append.text, length_append, length_nil, hbracket, hcomma, hbrace] <;> omega

/-- A text that is sent. -/
structure Sent (b : UpBuffer) (body : List Byte) : Prop where
  inBuffer : InBuffer txBuffSize b.writes
  text : ∀ mem, b.text mem = openBrace :: (body ++ [closeBrace])

/-- What is left of the text in front of the last pieces, with the index set back if there are no
packets. -/
theorem ending_front {inputs : UpInputs} {b : UpBuffer} {objects : List (List Byte)}
    (hb : Extends 341 (upStart inputs) b (ascii "\x7b\"rxpk\":[" ++ commaJoin objects)) :
    Extends 349 (upStart inputs)
      (if objects.length = 0 then { b with buff_index := b.buff_index - 8 } else b)
      (if objects.length = 0 then [openBrace]
        else ascii "\x7b\"rxpk\":[" ++ commaJoin objects) := by
  by_cases hzero : objects.length = 0
  · rw [if_pos hzero, if_pos hzero]
    obtain rfl := eq_nil_of_length_eq_zero hzero
    exact @Extends.cut 341 (upStart inputs) b [openBrace] (ascii "\"rxpk\":[") hb
  · rw [if_neg hzero, if_neg hzero]
    exact hb.mono (by decide)

/-- The end of a round, with room for the packets of a whole FIFO. -/
theorem ending_spec {inputs : UpInputs} {b : UpBuffer} {objects : List (List Byte)}
    (hb : Extends 341 (upStart inputs) b (ascii "\x7b\"rxpk\":[" ++ commaJoin objects))
    (hlen : (commaJoin objects).length ≤ 86016) :
    Ends (b.ending inputs objects.length)
      (fun round => objects = [] ∧ inputs.send_report = false ∧ round = .restarted b
        ∨ ∃ b' body, round = .sent b'
          ∧ BodyForm inputs.report inputs.send_report objects body ∧ Sent b' body)
      (fun b' => InBuffer txBuffSize b'.writes ∧ inputs.send_report = true
        ∧ inputs.report = []) := by
  by_cases hrestart : objects.length = 0 ∧ inputs.send_report = false
  · rw [UpBuffer.ending, if_pos hrestart]
    exact .inl ⟨eq_nil_of_length_eq_zero hrestart.1, hrestart.2, rfl⟩
  · obtain ⟨body, hform, htext⟩ := endingAppends_text inputs objects hrestart
    have hfront := ending_front hb
    have hending := length_endingAppends_le inputs objects.length
    rw [ending_eq b inputs _ hrestart]
    generalize (if objects.length = 0 then ({ b with buff_index := b.buff_index - 8 } : UpBuffer)
      else b) = b₁ at hfront ⊢
    have hname : (ascii "\x7b\"rxpk\":[").length = 9 := rfl
    have hlen₁ : (if objects.length = 0 then [openBrace]
        else ascii "\x7b\"rxpk\":[" ++ commaJoin objects).length ≤ 86025 := by
      split_ifs
      · decide
      · rw [length_append, hname]
        omega
    generalize (if objects.length = 0 then [openBrace]
      else ascii "\x7b\"rxpk\":[" ++ commaJoin objects) = front at hfront htext hlen₁
    have hindex : b₁.buff_index = 12 + front.length := hfront.index
    refine (@appends_spec b₁ _ (small_endingAppends inputs objects.length) (by
      rw [txBuffSize, statusSize]
      omega)).map ?_ ?_
    · rintro b' ⟨⟨text, hle, hb'⟩, a, ha, hfails⟩
      refine ⟨?_, fails_endingAppends inputs _ a ha hfails⟩
      refine (hfront.trans (hb'.mono (by decide : 341 ≤ 349))).inBuffer ?_
      rw [length_append, txBuffSize, statusSize]
      omega
    · rintro b' ⟨hb', -⟩
      have hall := hfront.trans (hb'.mono (by decide : 341 ≤ 349))
      have hwithin : InBuffer txBuffSize b'.writes := by
        refine hall.inBuffer ?_
        rw [length_append, txBuffSize, statusSize]
        omega
      have hend : b'.buff_index < txBuffSize := by
        rw [hb'.index, txBuffSize, statusSize]
        omega
      rw [htext] at hall
      refine .inr ⟨b'.terminated, body, rfl, hform, ?_, text_terminated hall⟩
      refine inBuffer_append.mpr ⟨hwithin, fun w hw => ?_⟩
      rw [mem_singleton.mp hw]
      exact ⟨Int.natCast_nonneg _, Int.ofNat_lt.mpr hend⟩

/-- A whole text, with room for the packets of a whole FIFO. -/
theorem composeDatagram_spec (print : Printf) {config : UpConfig} {rxpkt : List LgwPktRx}
    (inputs : UpInputs) (hsize : ∀ p ∈ rxpkt, p.size.toNat ≤ 255)
    (hroom : (rxpkt.map packetRoom).sum ≤ 86016) :
    Ends (composeDatagram print config.settings rxpkt inputs)
      (fun round => (inputs.send_report = false ∧ ∃ b, round = .restarted b
          ∧ InBuffer txBuffSize b.writes)
        ∨ ∃ b body objects, round = .sent b
          ∧ List.Forall₂ (IsObject print config.settings) (passing config.settings rxpkt) objects
          ∧ BodyForm inputs.report inputs.send_report objects body ∧ Sent b body)
      (fun b => InBuffer txBuffSize b.writes
        ∧ ((∃ p ∈ rxpkt, serialise config.settings p = .exited) ∨ inputs.report = [])) := by
  have hname : (ascii "\x7b\"rxpk\":[").length = 9 := rfl
  have hopen := @append_spec (upStart inputs) (.copy (ascii "\x7b\"rxpk\":[")) trivial (by
    rw [Append.text, hname]
    exact (by decide : 12 + 9 + 341 ≤ txBuffSize))
  rw [composeDatagram]
  refine hopen.bind (fun b h => absurd h.2 id) ?_
  rintro b ⟨hb, -⟩
  have hindex : b.buff_index = 21 := hb.index
  -- whatever the packets add, it stays in the buffer
  have hwithin : ∀ {b' : UpBuffer} {text : List Byte}, Extends 341 b b' text →
      text.length ≤ (rxpkt.map packetRoom).sum → InBuffer txBuffSize b'.writes := by
    intro b' text hb' hle
    refine (hb.trans hb').inBuffer ?_
    rw [Append.text, length_append, hname, txBuffSize, statusSize]
    omega
  refine (packets_spec print 0 hsize (by rw [hindex, txBuffSize, statusSize]; omega)).bind ?_ ?_
  · rintro b' ⟨⟨text, hle, hb'⟩, hexited⟩
    exact ⟨hwithin hb' hle, .inl hexited⟩
  · rintro ⟨b', nb⟩ ⟨objects, hobjects, hle, hb', hnb⟩
    rw [Nat.zero_add] at hnb
    subst hnb
    refine (ending_spec (hb.trans hb') (Nat.le_trans hle hroom)).imp ?_ ?_
    · rintro round (⟨-, hsend, rfl⟩ | ⟨b'', body, rfl, hform, hsent⟩)
      · exact .inl ⟨hsend, b', rfl, hwithin hb' hle⟩
      · exact .inr ⟨b'', body, objects, rfl, hobjects, hform, hsent⟩
    · rintro b'' ⟨hin, -, hempty⟩
      exact ⟨hin, .inr hempty⟩

end RutosSdk.Forwarder
