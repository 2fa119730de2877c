import RutosSdk.Forwarder.PullResp
import RutosSdk.Forwarder.UpDatagram

/-! # The status report in a datagram

Reference: `main` and `thread_up` in `packet_forwarder/src/lora_pkt_fwd.c`.

Every text that `thread_up` sends has one of its three forms, and stays in the buffer. Its quotes,
braces and brackets are balanced if those of the report are. `main` prints the report in a buffer of
200 bytes without a look at what `snprintf` returns. A longer report is cut there, and misses its
closing brace.
-/

namespace RutosSdk.Forwarder

open List hiding Vector
open Hal Tools Writes Decimal
open Balance (Balanced Plain comma openBrace closeBrace openBracket closeBracket quote commaJoin)

/-! ## Packets that have a text -/

/-- The modulation is known, and for LoRa the datarate, the bandwidth and the coding rate. -/
def Serialisable (p : LgwPktRx) : Prop :=
  p.modulation = modLora ∧ (5 ≤ p.datarate ∧ p.datarate ≤ 12)
      ∧ (p.bandwidth = bw125Khz ∨ p.bandwidth = bw250Khz ∨ p.bandwidth = bw500Khz)
      ∧ p.coderate ≤ 4
    ∨ p.modulation = modFsk

theorem sfText_eq_none_iff (datarate : Word) :
    sfText datarate = none ↔ ¬(5 ≤ datarate ∧ datarate ≤ 12) := by
  rw [sfText]
  split_ifs with h₅ h₆ h₇ h₈ h₉ h₁₀ h₁₁ h₁₂ <;> simp only [false_iff, true_iff] <;>
    bv_omega

theorem bwText_eq_none_iff (bandwidth : Byte) :
    bwText bandwidth = none
      ↔ ¬(bandwidth = bw125Khz ∨ bandwidth = bw250Khz ∨ bandwidth = bw500Khz) := by
  rw [bwText]
  split_ifs <;> simp [*]

theorem crText_eq_none_iff (coderate : Byte) : crText coderate = none ↔ ¬coderate ≤ 4 := by
  rw [crText]
  split_ifs <;> simp only [false_iff, true_iff] <;> bv_omega

theorem modulationMembers_eq_none_iff (p : LgwPktRx) :
    modulationMembers p = none ↔ ¬Serialisable p := by
  rw [modulationMembers, Serialisable]
  split_ifs with hlora hfsk
  · have hne : modLora ≠ modFsk := by decide
    have htexts : (do
        let sf ← sfText p.datarate
        let bw ← bwText p.bandwidth
        let cr ← crText p.coderate
        return [RxpkMember.modu ['L', 'O', 'R', 'A'], .loraDatr (sf ++ bw), .codr cr,
          .rssis p.rssis.round, .lsnr p.snr, .foff p.freq_offset]) = none
        ↔ sfText p.datarate = none ∨ bwText p.bandwidth = none ∨ crText p.coderate = none := by
      cases sfText p.datarate <;> cases bwText p.bandwidth <;> cases crText p.coderate <;> simp
    rw [htexts, sfText_eq_none_iff, bwText_eq_none_iff, crText_eq_none_iff, ← not_and_or,
      ← not_and_or]
    simp only [hlora, true_and, hne, or_false]
  · simp [hfsk]
  · simp [hlora, hfsk]

variable {up : UpSettings} {objects : List (List Byte)} {print : Printf} {rxpkt : List LgwPktRx}
  {inputs : UpInputs}

/-- The process exits at a packet that passes the filter and has no text. -/
theorem serialise_eq_exited_iff {p : LgwPktRx} (hsize : p.size.toNat ≤ 255) :
    serialise up p = .exited ↔ forwards up p.status ∧ ¬Serialisable p := by
  have hlen : (sentBytes p).length ≤ 255 := by
    rw [sentBytes, length_take]
    omega
  obtain ⟨data, hdata⟩ := exists_dataMember hlen
  rw [← modulationMembers_eq_none_iff, serialise, serialiseWith]
  split_ifs with hfwd
  · rw [rxpkMembers, hdata]
    cases modulationMembers p <;> simp [hfwd]
  · simp [hfwd]

/-! ## Balanced texts -/

/-- The objects of the packets are balanced. -/
theorem balanced_objects {config : UpConfig} (hsize : ∀ p ∈ rxpkt, p.size.toNat ≤ 255)
    (h : List.Forall₂ (IsObject print config.settings) rxpkt objects) :
    ∀ object ∈ objects, Balanced object := by
  induction h with
  | nil => exact forall_mem_nil _
  | @cons p object rxpkt objects hobject _ ih =>
    obtain ⟨hp, hrest⟩ := forall_mem_cons.mp hsize
    obtain ⟨members, hserial, rfl⟩ := hobject
    exact forall_mem_cons.mpr
      ⟨balanced_rxpkObject print (printable_members hp hserial), ih hrest⟩

theorem serialise_of_isObject (h : List.Forall₂ (IsObject print up) rxpkt objects) :
    ∀ p ∈ rxpkt, ∃ members, serialise up p = .object members := by
  induction h with
  | nil => exact forall_mem_nil _
  | cons hobject _ ih =>
    obtain ⟨members, hserial, -⟩ := hobject
    exact forall_mem_cons.mpr ⟨⟨members, hserial⟩, ih⟩

theorem balanced_rxpkArray (h : ∀ object ∈ objects, Balanced object) :
    Balanced (rxpkArray objects) := by
  have hname : Balanced (ascii "\"rxpk\":") := by
    simp [ascii, ofChars, Balance.Balanced, Balance.read, Balance.step]
  have heq : rxpkArray objects
      = ascii "\"rxpk\":" ++ (openBracket :: (commaJoin objects ++ [closeBracket])) := by
    rw [rxpkArray, append_assoc]
    rfl
  rw [heq]
  exact hname.append (Balance.balanced_commaJoin h).brackets

/-- Only the report can spoil the text. -/
theorem balanced_body_iff {report body : List Byte} {send_report : Bool}
    (hform : BodyForm report send_report objects body) (h : ∀ object ∈ objects, Balanced object) :
    Balanced body ↔ (send_report = true → Balanced report) := by
  have harray := balanced_rxpkArray h
  have hcomma : Balanced [comma] := by decide
  cases hform with
  | packets => simp [harray]
  | packetsAndReport =>
    rw [← singleton_append, harray.append_iff, hcomma.append_iff]
    simp
  | report => simp

/-! ## The report of `main` -/

/-- A text without a terminator, quotes, braces and brackets. -/
abbrev Printed := { text : List Char // ∀ c ∈ ofChars text, c ≠ 0 ∧ Plain c }

/-- What `main` reports. The timestamp is the one of `strftime`; the coordinates, if there are any,
the rate of acknowledged datagrams and the temperature are as `%.5f` and `%.1f` print them. -/
structure StatusReport where
  stat_timestamp : Printed
  coord : Option (Printed × Printed × BitVec 16)
  cp_nb_rx_rcv : Word
  cp_nb_rx_ok : Word
  cp_up_pkt_fwd : Word
  ackr : Printed
  cp_dw_dgram_rcv : Word
  cp_nb_tx_ok : Word
  temp : Printed

variable (r : StatusReport) (net_mac : Vector Byte 8)

/-- The numbers, with what stands in front of them. -/
def StatusReport.numbers : List (String × List Char) :=
  (match r.coord with
    | some (lat, lon, alt) => [(",\"lati\":", lat.1), (",\"long\":", lon.1),
        (",\"alti\":", signed alt.toInt)]
    | none => [])
    ++ [(",\"rxnb\":", unsigned r.cp_nb_rx_rcv.toNat), (",\"rxok\":", unsigned r.cp_nb_rx_ok.toNat),
      (",\"rxfw\":", unsigned r.cp_up_pkt_fwd.toNat), (",\"ackr\":", r.ackr.1),
      (",\"dwnb\":", unsigned r.cp_dw_dgram_rcv.toNat),
      (",\"txnb\":", unsigned r.cp_nb_tx_ok.toNat), (",\"temp\":", r.temp.1)]

/-- What stands between the braces. -/
def StatusReport.inner : List Byte :=
  ascii "\"time\":\"" ++ ofChars r.stat_timestamp.1 ++ ascii "\""
    ++ r.numbers.flatMap fun n => ascii n.1 ++ ofChars n.2

/-- The whole report. -/
def StatusReport.text : List Byte := ascii "\"stat\":\x7b" ++ r.inner ++ ascii "\x7d"

/-- `status_report` after the report is printed into it. -/
def StatusReport.store (mem : ℤ → Byte) : Vector Byte statusSize :=
  Vector.ofFn fun i => run mem (snprintf 0 statusSize 0 r.text) (i : ℕ)

/-- A character of a report between the braces. -/
def Flat (c : Byte) : Prop := c ≠ 0 ∧ (c = quote ∨ Plain c)

/-- The names are balanced, and have nothing but quotes to balance. -/
theorem names_spec : ∀ name ∈ [",\"lati\":", ",\"long\":", ",\"alti\":", ",\"rxnb\":",
      ",\"rxok\":", ",\"rxfw\":", ",\"ackr\":", ",\"dwnb\":", ",\"txnb\":", ",\"temp\":"],
    Balanced (ascii name) ∧ ∀ c ∈ ascii name, Flat c := by
  simp [ascii, ofChars, Balance.Balanced, Balance.read, Balance.step, Flat, Plain]

theorem numbers_spec :
    ∀ n ∈ r.numbers, (Balanced (ascii n.1) ∧ ∀ c ∈ ascii n.1, Flat c)
      ∧ ∀ c ∈ ofChars n.2, c ≠ 0 ∧ Plain c := by
  have hunsigned : ∀ n, ∀ c ∈ ofChars (unsigned n), c ≠ 0 ∧ Plain c := fun n =>
    numeric_ofChars numeric_unsigned
  have hsigned : ∀ x, ∀ c ∈ ofChars (signed x), c ≠ 0 ∧ Plain c := fun x =>
    numeric_ofChars numeric_signed
  rw [StatusReport.numbers]
  simp only [forall_mem_append, forall_mem_cons]
  refine ⟨?_, ⟨names_spec _ (by simp), hunsigned _⟩, ⟨names_spec _ (by simp), hunsigned _⟩,
    ⟨names_spec _ (by simp), hunsigned _⟩, ⟨names_spec _ (by simp), r.ackr.2⟩,
    ⟨names_spec _ (by simp), hunsigned _⟩, ⟨names_spec _ (by simp), hunsigned _⟩,
    ⟨names_spec _ (by simp), r.temp.2⟩, forall_mem_nil _⟩
  cases r.coord with
  | none => exact forall_mem_nil _
  | some coord =>
    simp only [forall_mem_cons]
    exact ⟨⟨names_spec _ (by simp), coord.1.2⟩, ⟨names_spec _ (by simp), coord.2.1.2⟩,
      ⟨names_spec _ (by simp), hsigned _⟩, forall_mem_nil _⟩

/-- Between the braces there are quotes, which are balanced, and nothing else to balance. -/
theorem inner_spec : Balanced r.inner ∧ ∀ c ∈ r.inner, Flat c := by
  have htime : Balanced (ascii "\"time\":\"" ++ ofChars r.stat_timestamp.1 ++ ascii "\"") :=
    balanced_string (balanced_quoted_names _ (by simp)) fun c hc => (r.stat_timestamp.2 c hc).2.1
  have hnumbers := numbers_spec r
  constructor
  · refine htime.append ?_
    revert hnumbers
    -- one number after the other
    induction r.numbers with
    | nil => exact fun _ => rfl
    | cons n numbers ih =>
      intro hnumbers
      obtain ⟨⟨⟨hname, -⟩, hvalue⟩, hrest⟩ := forall_mem_cons.mp hnumbers
      exact (balanced_number hname fun c hc => (hvalue c hc).2).append (ih hrest)
  · rw [StatusReport.inner]
    simp only [forall_mem_append, mem_flatMap]
    refine ⟨⟨⟨by simp [ascii, ofChars, Flat, Plain], fun c hc => ?_⟩,
      by simp [ascii, ofChars, Flat]⟩, ?_⟩
    · exact ⟨(r.stat_timestamp.2 c hc).1, .inr (r.stat_timestamp.2 c hc).2⟩
    · rintro c ⟨n, hn, hc⟩
      obtain ⟨⟨-, hname⟩, hvalue⟩ := hnumbers n hn
      rcases mem_append.mp hc with hc | hc
      · exact hname c hc
      · exact ⟨(hvalue c hc).1, .inr (hvalue c hc).2⟩

theorem text_ne_zero : ∀ c ∈ r.text, c ≠ 0 := by
  rw [StatusReport.text]
  simp only [forall_mem_append]
  exact ⟨⟨by simp [ascii, ofChars], fun c hc => ((inner_spec r).2 c hc).1⟩,
    by simp [ascii, ofChars]⟩

variable {r : StatusReport} {received : Except HalFailure (List LgwPktRx)}

/-- The report is cut where its buffer ends. -/
theorem report_store {mem : ℤ → Byte} (h : inputs.status_report = r.store mem) :
    inputs.report = r.text.take 199 := by
  have hlist : inputs.status_report.toList
      = (List.range statusSize).map fun k : ℕ => run mem (snprintf 0 statusSize 0 r.text) k := by
    rw [h, StatusReport.store, Vector.toList_ofFn]
    refine ext_getElem ?_ fun k hk hk' => ?_
    · rw [length_ofFn, length_map, length_range]
    · rw [List.getElem_ofFn, getElem_map, getElem_range]
  have hlen : (r.text.take 199).length ≤ 199 := length_take_le _ _
  have hholds : HoldsString (run mem (snprintf 0 statusSize 0 r.text)) (r.text.take 199) := by
    intro k hk
    have hlt : k < (r.text.take 199 ++ [0]).length := by
      rw [length_append, length_singleton]
      omega
    have hrun := @run_writesAt Byte mem 0 (Int.le_refl 0) (r.text.take 199 ++ [0]) (by
      rw [length_append, length_singleton]
      omega) k hlt
    rw [Int.zero_add] at hrun
    rw [snprintf, if_pos (by decide)]
    refine hrun.trans ?_
    rcases Nat.lt_or_eq_of_le hk with hk | hk
    · rw [getElem_append_left hk, getD_eq_getElem _ _ hk]
    · rw [getElem_append_right (Nat.le_of_eq hk.symm),
        getD_eq_default _ _ (Nat.le_of_eq hk.symm), getElem_singleton]
  rw [UpInputs.report, hlist]
  exact stringAt_of_holdsString hholds (Nat.lt_of_le_of_lt hlen (by decide)) fun c hc =>
    text_ne_zero r c (mem_of_mem_take hc)

/-- A report is balanced exactly if it is not cut. -/
theorem balanced_store_iff {mem : ℤ → Byte} (h : inputs.status_report = r.store mem) :
    Balanced inputs.report ↔ r.text.length < statusSize := by
  obtain ⟨hbalanced, hflat⟩ := inner_spec r
  rw [report_store h]
  constructor
  · intro hreport
    by_contra hlong
    have htext : r.text = (ascii "\"stat\":\x7b" ++ r.inner) ++ [closeBrace] := rfl
    have hfront : 199 ≤ (ascii "\"stat\":\x7b" ++ r.inner).length := by
      rw [htext, length_append, length_singleton] at hlong
      exact Nat.le_of_lt_succ (Nat.not_lt.mp hlong)
    have hstart : Balance.read ⟨false, []⟩ (ascii "\"stat\":\x7b")
        = some ⟨false, [closeBrace]⟩ := by
      simp [ascii, ofChars, Balance.read, Balance.step]
    -- the brace that was opened waits, however far the rest is read
    obtain ⟨quoted, hread⟩ := @Balance.read_flat (r.inner.take 191)
      (fun c hc => (hflat c (mem_of_mem_take hc)).2) ⟨false, [closeBrace]⟩
    have hname : (ascii "\"stat\":\x7b").length = 8 := rfl
    rw [htext, take_append_of_le_length hfront, take_append, hname,
      take_of_length_le (by rw [hname]; decide), Balance.Balanced, Balance.read_append, hstart,
      Option.bind_some, hread] at hreport
    cases hreport
  · intro hlen
    have hname : Balanced (ascii "\"stat\":") := balanced_names _ (by simp)
    have htext : r.text = ascii "\"stat\":" ++ (openBrace :: (r.inner ++ [closeBrace])) := by
      rw [StatusReport.text, append_assoc]
      rfl
    rw [take_of_length_le (Nat.le_of_lt_succ hlen), htext]
    exact hname.append hbalanced.braces

/-! ## Rounds -/

/-- `PKT_PUSH_DATA` -/
def pktPushData : Byte := 0

/-- The fixed fields, which are filled in before the loop. -/
def prefill : List (Write Byte) :=
  [⟨0, protocolVersion⟩, ⟨3, pktPushData⟩] ++ writesAt 4 net_mac.toList

/-- What a round assigns. -/
def UpRound.writes : UpRound → List (Write Byte)
  | .idle => []
  | .fetchFailed => []
  | .exited b => b.writes
  | .restarted b => b.writes
  | .sent b => b.writes

/-- A round assigns inside the buffer. If it sends a text, that has one of the three forms, with an
object for each packet that passes the filter, in their order, and is balanced between its outer
braces. -/
def RoundRight (print : Printf) (up : UpSettings) (net_mac : Vector Byte 8)
    (received : Except HalFailure (List LgwPktRx)) (inputs : UpInputs) : Prop :=
  InBuffer txBuffSize (prefill net_mac ++ (threadUpRound print up received inputs).writes)
    ∧ ∀ rxpkt b, received = .ok rxpkt → threadUpRound print up received inputs = .sent b →
      ∃ objects body, List.Forall₂ (IsObject print up) (passing up rxpkt) objects
        ∧ BodyForm inputs.report inputs.send_report objects body ∧ Balanced body
        ∧ ∀ mem, b.text mem = openBrace :: (body ++ [closeBrace])

theorem packetRoom_le (p : LgwPktRx) : packetRoom p ≤ 21 * p.occupied := by
  have hlen := length_rfcNopad (sentBytes p)
  have hsent : (sentBytes p).length ≤ p.size.toNat := by
    rw [sentBytes]
    exact length_take_le _ _
  rw [packetRoom, LgwPktRx.occupied, rfcPadded, length_pad]
  omega

/-- The packets of a whole FIFO have room. -/
theorem sum_packetRoom_le (h : (rxpkt.map LgwPktRx.occupied).sum ≤ rxBufferMax) :
    (rxpkt.map packetRoom).sum ≤ 86016 := by
  have hsum : (rxpkt.map packetRoom).sum ≤ 21 * (rxpkt.map LgwPktRx.occupied).sum := by
    clear h
    induction rxpkt with
    | nil => exact Nat.le_refl _
    | cons p rxpkt ih =>
      have := packetRoom_le p
      rw [map_cons, map_cons, sum_cons, sum_cons]
      omega
  rw [rxBufferMax] at h
  omega

theorem inBuffer_prefill : InBuffer txBuffSize (prefill net_mac) := by
  refine inBuffer_append.mpr ⟨by decide, inBuffer_writesAt (by decide) ?_ (by decide)⟩
  rw [Vector.length_toList]
  decide

/-- A round with the packets of a whole FIFO sends a text of the right form. Otherwise it sends
nothing, and there is no report, a packet has no text, or the report has none. -/
theorem threadUpRound_spec (print : Printf) {config : UpConfig} {rxpkt : List LgwPktRx}
    (inputs : UpInputs) (hsum : (rxpkt.map LgwPktRx.occupied).sum ≤ rxBufferMax)
    (hsize : ∀ p ∈ rxpkt, p.size.toNat ≤ 255) :
    (∃ b body objects, threadUpRound print config.settings (.ok rxpkt) inputs = .sent b
        ∧ List.Forall₂ (IsObject print config.settings) (passing config.settings rxpkt) objects
        ∧ BodyForm inputs.report inputs.send_report objects body ∧ Sent b body)
      ∨ (∀ b, threadUpRound print config.settings (.ok rxpkt) inputs ≠ .sent b)
        ∧ InBuffer txBuffSize (threadUpRound print config.settings (.ok rxpkt) inputs).writes
        ∧ (inputs.send_report = false ∨ (∃ p ∈ rxpkt, serialise config.settings p = .exited)
          ∨ inputs.report = []) := by
  have hspec := @composeDatagram_spec print config rxpkt inputs hsize (sum_packetRoom_le hsum)
  rw [threadUpRound]
  split_ifs with hidle
  · exact .inr ⟨fun b h => (by cases h), fun w hw => (by cases hw), .inl hidle.2⟩
  · cases hcompose : composeDatagram print config.settings rxpkt inputs with
    | error b =>
      rw [hcompose] at hspec
      exact .inr ⟨fun b h => (by cases h), hspec.1, .inr hspec.2⟩
    | ok round =>
      rw [hcompose] at hspec
      rcases hspec with ⟨hsend, b, rfl, hwithin⟩
        | ⟨b, body, objects, rfl, hobjects, hform, hsent⟩
      · exact .inr ⟨fun b h => (by cases h), hwithin, .inl hsend⟩
      · exact .inl ⟨b, body, objects, rfl, hobjects, hform, hsent⟩

/-- Nothing is wrong with a round that sends nothing. -/
theorem roundRight_of_not_sent (hround : ∀ b, threadUpRound print up received inputs ≠ .sent b)
    (hwithin : InBuffer txBuffSize (threadUpRound print up received inputs).writes) :
    RoundRight print up net_mac received inputs :=
  ⟨inBuffer_append.mpr ⟨inBuffer_prefill net_mac, hwithin⟩, fun _ b _ h => absurd h (hround b)⟩

/-- A round that sends a text is right if the report is. -/
theorem roundRight_iff_of_sent {config : UpConfig} {b : UpBuffer} {body : List Byte}
    (net_mac : Vector Byte 8) (hsize : ∀ p ∈ rxpkt, p.size.toNat ≤ 255)
    (hround : threadUpRound print config.settings (.ok rxpkt) inputs = .sent b)
    (hobjects : List.Forall₂ (IsObject print config.settings) (passing config.settings rxpkt)
      objects) (hform : BodyForm inputs.report inputs.send_report objects body)
    (hsent : Sent b body) :
    RoundRight print config.settings net_mac (.ok rxpkt) inputs
      ↔ (inputs.send_report = true → Balanced inputs.report) := by
  have hpassing : ∀ p ∈ passing config.settings rxpkt, p.size.toNat ≤ 255 :=
    fun p hp => hsize p (mem_of_mem_filter hp)
  constructor
  · rintro ⟨-, hright⟩
    obtain ⟨objects', body', hobjects', hform', hbody, -⟩ := hright rxpkt b rfl hround
    exact (balanced_body_iff hform' (balanced_objects hpassing hobjects')).mp hbody
  · intro hreport
    rw [RoundRight, hround]
    refine ⟨inBuffer_append.mpr ⟨inBuffer_prefill net_mac, hsent.inBuffer⟩, ?_⟩
    intro rxpkt' b' heq hb'
    obtain rfl := Except.ok.inj heq
    obtain rfl := UpRound.sent.inj hb'
    exact ⟨objects, body, hobjects, hform,
      (balanced_body_iff hform (balanced_objects hpassing hobjects)).mpr hreport, hsent.text⟩

/-- A round is right exactly if the report that it sends, if any, is balanced. -/
theorem roundRight_iff (print : Printf) (config : UpConfig) (net_mac : Vector Byte 8)
    (inputs : UpInputs)
    (hfits : ∀ rxpkt, received = .ok rxpkt → (rxpkt.map LgwPktRx.occupied).sum ≤ rxBufferMax
      ∧ ∀ p ∈ rxpkt, p.size.toNat ≤ 255) :
    RoundRight print config.settings net_mac received inputs
      ↔ ∀ rxpkt, received = .ok rxpkt → inputs.send_report = true →
        (∀ p ∈ rxpkt, forwards config.settings p.status → Serialisable p) →
          Balanced inputs.report := by
  cases received with
  | error e =>
    refine iff_of_true (roundRight_of_not_sent net_mac ?_ ?_) ?_
    · exact fun b h => by cases h
    · exact fun w hw => by cases hw
    · exact fun rxpkt h => by cases h
  | ok rxpkt =>
    obtain ⟨hsum, hsize⟩ := hfits rxpkt rfl
    rcases @threadUpRound_spec print config rxpkt inputs hsum hsize with
      ⟨b, body, objects, hround, hobjects, hform, hsent⟩ | ⟨hround, hwithin, hcause⟩
    · rw [roundRight_iff_of_sent net_mac hsize hround hobjects hform hsent]
      -- the text was sent, so every packet that passed had one
      have htexts : ∀ p ∈ rxpkt, forwards config.settings p.status → Serialisable p := by
        intro p hp hfwd
        by_contra hnot
        obtain ⟨members, hserial⟩ :=
          serialise_of_isObject hobjects p (mem_filter.mpr ⟨hp, hfwd⟩)
        rw [(serialise_eq_exited_iff (hsize p hp)).mpr ⟨hfwd, hnot⟩] at hserial
        cases hserial
      constructor
      · rintro hreport rxpkt' - hsend -
        exact hreport hsend
      · intro hcond hsend
        exact hcond rxpkt rfl hsend htexts
    · refine iff_of_true (roundRight_of_not_sent net_mac hround hwithin) ?_
      intro rxpkt' heq hsend htexts
      obtain rfl := Except.ok.inj heq
      rcases hcause with hnone | ⟨p, hp, hexited⟩ | hempty
      · rw [hnone] at hsend
        cases hsend
      · obtain ⟨hfwd, hnot⟩ := (serialise_eq_exited_iff (hsize p hp)).mp hexited
        exact absurd (htexts p hp hfwd) hnot
      · rw [hempty]
        exact Balance.balanced_nil

/-- Whatever is in the FIFO, after any calls, and whatever the filters, the time reference and the
report are: the text of a round is right exactly if the report is balanced, where one is sent and
the process does not exit at a packet. -/
theorem threadUp_text_right_iff (print : Printf) (config : UpConfig) (net_mac : Vector Byte 8)
    (context : LgwContext) (fine : FineTimestamp) (sort : Qsort LgwPktRx)
    (fifo : List Byte) (rx_buffer : RxBuffer) (history : TimestampPpsHistory)
    (calls : List ReceiveCall) (call : ReceiveCall) (inputs : UpInputs) :
    let fine := { fine with merge_packets := mergePackets sort }
    let received :=
      ((RxSystem.start fifo rx_buffer history).after context fine calls).reply context fine call
    RoundRight print config.settings net_mac received inputs
      ↔ ∀ rxpkt, received = .ok rxpkt → inputs.send_report = true →
        (∀ p ∈ rxpkt, forwards config.settings p.status → Serialisable p) →
          Balanced inputs.report := by
  intro fine received
  refine roundRight_iff print config net_mac inputs fun rxpkt hreply => ?_
  exact reply_fits (counted_after (counted_start fifo rx_buffer history) calls)
    (mergePackets_subperm sort) hreply

/-- A C library that prints every number as 0. -/
def zeroPrintf : Printf where
  fixed0 _ := ['0']
  fixed1 _ := ['0']
  fixed6 _ := ['0']
  plain0 _ := by decide
  plain1 _ := by decide
  plain6 _ := by decide
  length0 _ := by decide
  length1 _ := by decide
  length6 _ := by decide

/-- Valid packets only, and no time reference. -/
def validConfig : UpConfig := ⟨true, false, false, fun _ => none, fun _ => none⟩

/-- A report of 203 characters. -/
def longReport : StatusReport where
  stat_timestamp := ⟨"2024-05-06 07:08:09 GMT".toList, by decide⟩
  coord := some (⟨"-12.34567".toList, by decide⟩, ⟨"-123.45678".toList, by decide⟩, -123)
  cp_nb_rx_rcv := 4294967295
  cp_nb_rx_ok := 4294967295
  cp_up_pkt_fwd := 4294967295
  ackr := ⟨"100.0".toList, by decide⟩
  cp_dw_dgram_rcv := 4294967295
  cp_nb_tx_ok := 4294967295
  temp := ⟨"25.0".toList, by decide⟩

/-- The report waits in its buffer. -/
def longInputs : UpInputs := ⟨true, longReport.store fun _ => 0, 0, 0⟩

/-- A report that does not fit in its buffer is sent without its closing brace. -/
theorem longReport_unbalances_text :
    ¬RoundRight zeroPrintf validConfig.settings (Vector.replicate 8 0)
      ((RxSystem.start [] .initial .initial).reply .initial
        { noFineTimestamp with merge_packets := mergePackets (Qsort.insertion LgwPktRx) }
        (sampleCall 255)) longInputs := by
  have hreply : (RxSystem.start [] .initial .initial).reply .initial
      { noFineTimestamp with merge_packets := mergePackets (Qsort.insertion LgwPktRx) }
      (sampleCall 255) = .ok [] := rfl
  have hlong : ¬longReport.text.length < statusSize := by decide +kernel
  have hstored : longInputs.status_report = longReport.store fun _ => 0 := by rw [longInputs]
  rw [hreply, roundRight_iff zeroPrintf validConfig (Vector.replicate 8 0) _ fun rxpkt h => ?_]
  · intro h
    exact hlong ((balanced_store_iff hstored).mp (h [] rfl rfl (forall_mem_nil _)))
  · obtain rfl := Except.ok.inj h
    exact ⟨Nat.zero_le _, forall_mem_nil _⟩

end RutosSdk.Forwarder
