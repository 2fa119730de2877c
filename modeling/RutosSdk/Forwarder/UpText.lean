import RutosSdk.Forwarder.Uplink
import RutosSdk.Lib.Appends
import RutosSdk.Lib.Balance
import RutosSdk.Lib.Decimal
import Mathlib.Data.List.GetD

/-! # The text of a received packet

Reference: `thread_up` in `packet_forwarder/src/lora_pkt_fwd.c`.

A packet is put in the buffer piece by piece, with `snprintf`, `memcpy` and `bin_to_b64`, and the
process exits at the first value it has no text for. Where it does not, the pieces are the members
of the packet's object, with commas between them. How many characters they have is bounded by the
size of the payload.
-/

namespace RutosSdk.Forwarder

open List Hal Tools Writes Decimal
open Balance (Balanced Plain comma openBrace closeBrace quote commaJoin)

/-! ## Members -/

/-- Characters as bytes. -/
def ofChars (text : List Char) : List Byte := text.map fun c => BitVec.ofNat 8 c.toNat

/-- A literal of the source. -/
def ascii (s : String) : List Byte := ofChars s.toList

/-- How the C library prints the floating-point numbers of `thread_up`. A `float` has at most 39
digits before the point, and a frequency in MHz at most 4; nothing of it is a quote, a brace or a
bracket. -/
structure Printf where
  fixed0 : Float32 → List Char
  fixed1 : Float32 → List Char
  fixed6 : Float → List Char
  plain0 : ∀ x, ∀ c ∈ ofChars (fixed0 x), Plain c
  plain1 : ∀ x, ∀ c ∈ ofChars (fixed1 x), Plain c
  plain6 : ∀ x, ∀ c ∈ ofChars (fixed6 x), Plain c
  length0 : ∀ x, (fixed0 x).length ≤ 40
  length1 : ∀ x, (fixed1 x).length ≤ 42
  length6 : ∀ freq_hz : Word, (fixed6 (Float.ofNat freq_hz.toNat / 1e6)).length ≤ 11

/-- The string that stands at the beginning of a buffer of `n` bytes. -/
def stringAt (mem : ℤ → Byte) (n : ℕ) : List Byte :=
  ((List.range n).map fun k : ℕ => mem k).takeWhile (· ≠ 0)

/-- The text of a member. -/
def memberText (print : Printf) : RxpkMember → List Byte
  | .jver version => ascii "\"jver\":" ++ ofChars (signed version)
  | .tmst count_us => ascii "\"tmst\":" ++ ofChars (unsigned count_us.toNat)
  | .time text => ascii "\"time\":\"" ++ ofChars text ++ ascii "\""
  | .tmms ms => ascii "\"tmms\":" ++ ofChars (unsigned ms.toNat)
  | .ftime ftime => ascii "\"ftime\":" ++ ofChars (unsigned ftime.toNat)
  | .chan if_chain => ascii "\"chan\":" ++ ofChars (unsigned if_chain.toNat)
  | .rfch rf_chain => ascii "\"rfch\":" ++ ofChars (unsigned rf_chain.toNat)
  | .freq mhz => ascii "\"freq\":" ++ ofChars (print.fixed6 mhz)
  | .mid modem_id => ascii "\"mid\":" ++ ofChars (padLeft ' ' 2 (unsigned modem_id.toNat))
  | .stat status => ascii "\"stat\":" ++ ofChars (signed status)
  | .modu text => ascii "\"modu\":\"" ++ ofChars text ++ ascii "\""
  | .loraDatr text => ascii "\"datr\":\"" ++ ofChars text ++ ascii "\""
  | .fskDatr datarate => ascii "\"datr\":" ++ ofChars (unsigned datarate.toNat)
  | .codr text => ascii "\"codr\":\"" ++ ofChars text ++ ascii "\""
  | .rssis dbm => ascii "\"rssis\":" ++ ofChars (print.fixed0 dbm)
  | .lsnr snr => ascii "\"lsnr\":" ++ ofChars (print.fixed1 snr)
  | .foff freq_offset => ascii "\"foff\":" ++ ofChars (signed freq_offset.toInt)
  | .rssi dbm => ascii "\"rssi\":" ++ ofChars (print.fixed0 dbm)
  | .size size => ascii "\"size\":" ++ ofChars (unsigned size.toNat)
  | .data writes => ascii "\"data\":\"" ++ stringAt (run (fun _ => 0) writes) 341 ++ ascii "\""

variable (print : Printf) (members : List RxpkMember)

/-- Members behind others. -/
def moreMembers : List Byte := members.flatMap fun m => comma :: memberText print m

/-- The object of a packet. -/
def rxpkObject : List Byte :=
  openBrace :: (commaJoin (members.map (memberText print)) ++ [closeBrace])

/-- The UTC time of a packet, as `gmtime` breaks it down, with the nanoseconds. -/
structure BrokenTime where
  tm_year : Word
  tm_mon : Word
  tm_mday : Word
  tm_hour : Word
  tm_min : Word
  tm_sec : Word
  tv_nsec : BitVec 64

/-- ISO 8601 format, with microseconds -/
def isoTime (t : BrokenTime) : List Char :=
  zeroPadded 4 (t.tm_year + 1900).toInt ++ ['-'] ++ zeroPadded 2 (t.tm_mon + 1).toInt ++ ['-']
    ++ zeroPadded 2 t.tm_mday.toInt ++ ['T'] ++ zeroPadded 2 t.tm_hour.toInt ++ [':']
    ++ zeroPadded 2 t.tm_min.toInt ++ [':'] ++ zeroPadded 2 t.tm_sec.toInt ++ ['.']
    ++ zeroPadded 6 (t.tv_nsec.toInt.tdiv 1000) ++ ['Z']

/-- The filters, and the times of a counter value if there is a time reference. -/
structure UpConfig where
  fwd_valid_pkt : Bool
  fwd_error_pkt : Bool
  fwd_nocrc_pkt : Bool
  cnt2utc : Word → Option BrokenTime
  cnt2gps : Word → Option (BitVec 64)

/-- The same, with the UTC time in its text. -/
def UpConfig.settings (config : UpConfig) : UpSettings where
  fwd_valid_pkt := config.fwd_valid_pkt
  fwd_error_pkt := config.fwd_error_pkt
  fwd_nocrc_pkt := config.fwd_nocrc_pkt
  cnt2utc count_us := (config.cnt2utc count_us).map isoTime
  cnt2gps := config.cnt2gps

/-! ## Pieces -/

/-- What is put in the buffer at once: with `snprintf`, with `memcpy` or an assignment, or with
`bin_to_b64`. -/
inductive Append where
  | print (text : List Byte)
  | copy (text : List Byte)
  | encode (bytes : List Byte)
  | exit

/-- The text that is put. -/
def Append.text : Append → List Byte
  | .print text => text
  | .copy text => text
  | .encode bytes => rfcPadded bytes
  | .exit => []

/-- The text of several pieces. -/
def appendsText (appends : List Append) : List Byte := appends.flatMap Append.text

/-- The packet status. -/
def statAppends (status : Byte) : List Append :=
  if status = statCrcOk then [.copy (ascii ",\"stat\":1")]
  else if status = statCrcBad then [.copy (ascii ",\"stat\":-1")]
  else if status = statNoCrc then [.copy (ascii ",\"stat\":0")]
  else [.copy (ascii ",\"stat\":?"), .exit]

/-- The LoRa datarate. -/
def datrAppends (datarate : Word) : List Append :=
  match sfText datarate with
  | some sf => [.copy (ascii ",\"datr\":\"" ++ ofChars sf)]
  | none => [.copy (ascii ",\"datr\":\"SF?"), .exit]

/-- The LoRa bandwidth. -/
def bwAppends (bandwidth : Byte) : List Append :=
  match bwText bandwidth with
  | some bw => [.copy (ofChars bw ++ ascii "\"")]
  | none => [.copy (ascii "BW?\""), .exit]

/-- The coding rate. -/
def codrAppends (coderate : Byte) : List Append :=
  match crText coderate with
  | some cr => [.copy (ascii ",\"codr\":\"" ++ ofChars cr ++ ascii "\"")]
  | none => [.copy (ascii ",\"codr\":\"?\""), .exit]

/-- The part that depends on the modulation. -/
def modulationAppends (p : LgwPktRx) : List Append :=
  if p.modulation = modLora then
    .copy (ascii ",\"modu\":\"LORA\"") :: (datrAppends p.datarate ++ bwAppends p.bandwidth
      ++ codrAppends p.coderate
      ++ [.print (moreMembers print [.rssis p.rssis.round]),
        .print (moreMembers print [.lsnr p.snr]), .print (moreMembers print [.foff p.freq_offset])])
  else if p.modulation = modFsk then
    [.copy (ascii ",\"modu\":\"FSK\""), .print (moreMembers print [.fskDatr p.datarate])]
  else [.exit]

/-- The serialisation of a packet, the first of the datagram or not. -/
def packetAppends (up : UpSettings) (p : LgwPktRx) (pkt_in_dgram : ℕ) : List Append :=
  [Append.copy (if pkt_in_dgram = 0 then ascii "\x7b" else ascii ",\x7b"),
      Append.print (memberText print (.jver 1)),
      Append.print (moreMembers print [.tmst p.count_us])]
    ++ (timeMembers up p.count_us).map (fun m => Append.print (moreMembers print [m]))
    ++ (ftimeMembers p).map (fun m => Append.print (moreMembers print [m]))
    ++ [Append.print (moreMembers print [.chan p.if_chain, .rfch p.rf_chain,
        .freq (Float.ofNat p.freq_hz.toNat / 1e6), .mid p.modem_id])]
    ++ statAppends p.status ++ modulationAppends print p
    ++ [Append.print (moreMembers print [.rssi p.rssic.round, .size p.size]),
      Append.copy (ascii ",\"data\":\""), Append.encode (sentBytes p),
      Append.copy (ascii "\"\x7d")]

/-! ## The pieces make up the object -/

theorem appendsText_append (a b : List Append) :
    appendsText (a ++ b) = appendsText a ++ appendsText b := flatMap_append

theorem appendsText_nil : appendsText [] = [] := rfl

theorem appendsText_cons (a : Append) (appends : List Append) :
    appendsText (a :: appends) = a.text ++ appendsText appends := rfl

theorem rxpkObject_cons (m : RxpkMember) (members : List RxpkMember) :
    rxpkObject print (m :: members)
      = openBrace :: (memberText print m ++ moreMembers print members ++ [closeBrace]) := by
  rw [rxpkObject, map_cons, commaJoin, flatMap_map, moreMembers]

/-- One `snprintf` a member. -/
theorem appendsText_map_print :
    appendsText (members.map fun m => .print (moreMembers print [m]))
      = moreMembers print members := by
  induction members with
  | nil => rfl
  | cons m members ih =>
    rw [map_cons, appendsText, flatMap_cons]
    refine (congrArg _ ih).trans ?_
    rw [Append.text, moreMembers, moreMembers, flatMap_cons, flatMap_nil, append_nil]
    rfl

theorem statAppends_text {up : UpSettings} {status : Byte} (h : forwards up status) :
    Append.exit ∉ statAppends status
      ∧ appendsText (statAppends status) = moreMembers print [statMember status] := by
  rw [forwards] at h
  rw [statAppends, statMember]
  split_ifs at h ⊢
  · exact ⟨by simp, rfl⟩
  · exact ⟨by simp, rfl⟩
  · exact ⟨by simp, rfl⟩

/-- The modulation has its text, or the process exits. -/
theorem modulationAppends_text (print : Printf) (p : LgwPktRx) : match modulationMembers p with
    | some members => Append.exit ∉ modulationAppends print p
        ∧ appendsText (modulationAppends print p) = moreMembers print members
    | none => Append.exit ∈ modulationAppends print p := by
  rw [modulationMembers, modulationAppends, datrAppends, bwAppends, codrAppends]
  split_ifs with hlora hfsk
  · cases hsf : sfText p.datarate with
    | none => simp
    | some sf =>
      cases hbw : bwText p.bandwidth with
      | none => simp
      | some bw =>
        cases hcr : crText p.coderate with
        | none => simp
        | some cr =>
          refine ⟨by simp, ?_⟩
          simp only [appendsText, flatMap_cons, flatMap_nil, cons_append, nil_append, Append.text,
            moreMembers, memberText, append_nil, ofChars, map_append, append_assoc]
          rfl
  · refine ⟨by simp, ?_⟩
    simp only [appendsText, flatMap_cons, flatMap_nil, Append.text, moreMembers, append_nil]
    rfl
  · simp

/-- A string that a memory holds is read back. -/
theorem stringAt_of_holdsString {mem : ℤ → Byte} {text : List Byte} {n : ℕ}
    (h : HoldsString mem text) (hn : text.length < n) (hne : ∀ c ∈ text, c ≠ 0) :
    stringAt mem n = text := by
  obtain ⟨m, rfl⟩ := Nat.exists_eq_add_of_lt hn
  have htext : (List.range text.length).map (fun k : ℕ => mem k) = text := by
    refine ext_getElem (by simp) ?_
    intro k hk hk'
    rw [getElem_map, getElem_range, h k (by omega), getD_eq_getElem _ _ hk']
  have hend : mem text.length = 0 := by
    rw [h text.length (Nat.le_refl _), getD_eq_default _ _ (Nat.le_refl _)]
  rw [stringAt, Nat.add_assoc, range_add, map_append, htext,
    takeWhile_append_of_pos fun c hc => by simpa using hne c hc, Nat.add_comm m 1, range_add,
    map_append, map_append, range_one, map_singleton, map_singleton, Nat.add_zero, singleton_append,
    takeWhile_cons_of_neg (by simp [hend]), append_nil]

/-- The characters of an encoding are neither terminators nor quotes. -/
theorem rfcPadded_chars (bytes : List Byte) : ∀ c ∈ rfcPadded bytes, c ≠ 0 ∧ c ≠ quote := by
  have halphabet : ∀ x : BitVec 6, alphabet x ≠ 0 ∧ alphabet x ≠ quote := by decide
  intro c hc
  rcases mem_append.mp hc with hc | hc
  · obtain ⟨x, -, rfl⟩ := mem_map.mp hc
    exact halphabet x
  · rw [eq_of_mem_replicate hc]
    decide

/-- The payload, as it is read back from the buffer. -/
theorem dataMember_text {bytes : List Byte} (h : bytes.length ≤ 255) :
    ∃ data, dataMember bytes = some data
      ∧ memberText print data = ascii "\"data\":\"" ++ rfcPadded bytes ++ ascii "\"" := by
  obtain ⟨ws, hres, -, hmem⟩ := binToB64_payload h
  have hlen : (rfcPadded bytes).length < 341 := by
    have := length_rfcNopad bytes
    rw [rfcPadded, length_pad]
    omega
  refine ⟨.data ws, ?_, ?_⟩
  · rw [dataMember, hres]
    rfl
  · rw [memberText,
      stringAt_of_holdsString (hmem _) hlen fun c hc => (rfcPadded_chars bytes c hc).1]

/-- The object of a packet, in the groups that are put together. -/
theorem rxpkObject_members (up : UpSettings) (p : LgwPktRx) (modulation : List RxpkMember)
    (data : RxpkMember) :
    rxpkObject print ([.jver 1, .tmst p.count_us] ++ timeMembers up p.count_us ++ ftimeMembers p
        ++ ([.chan p.if_chain, .rfch p.rf_chain, .freq (Float.ofNat p.freq_hz.toNat / 1e6),
            .mid p.modem_id, statMember p.status]
          ++ modulation ++ [.rssi p.rssic.round, .size p.size, data]))
      = openBrace :: (memberText print (.jver 1) ++ moreMembers print [.tmst p.count_us]
        ++ moreMembers print (timeMembers up p.count_us) ++ moreMembers print (ftimeMembers p)
        ++ moreMembers print [.chan p.if_chain, .rfch p.rf_chain,
          .freq (Float.ofNat p.freq_hz.toNat / 1e6), .mid p.modem_id]
        ++ moreMembers print [statMember p.status] ++ moreMembers print modulation
        ++ moreMembers print [.rssi p.rssic.round, .size p.size] ++ moreMembers print [data]
        ++ [closeBrace]) := by
  simp only [cons_append, nil_append, rxpkObject_cons]
  simp only [moreMembers, flatMap_cons, flatMap_append, flatMap_nil,
    append_assoc, cons_append, append_nil]

variable {p : LgwPktRx} {text : List Char} {members : List RxpkMember}

/-- The pieces of a packet that is forwarded are its object, unless the process exits. -/
theorem packetAppends_text (print : Printf) {up : UpSettings} (pkt_in_dgram : ℕ)
    (hfwd : forwards up p.status) (hsize : p.size.toNat ≤ 255) : match serialise up p with
    | .object members => Append.exit ∉ packetAppends print up p pkt_in_dgram
        ∧ appendsText (packetAppends print up p pkt_in_dgram)
          = (if pkt_in_dgram = 0 then [] else [comma]) ++ rxpkObject print members
    | .exited => Append.exit ∈ packetAppends print up p pkt_in_dgram
    | .skipped => False := by
  have hlen : (sentBytes p).length ≤ 255 := by
    rw [sentBytes, length_take]
    omega
  obtain ⟨data, hdata, htext⟩ := dataMember_text print hlen
  obtain ⟨hstat, hstatText⟩ := statAppends_text print hfwd
  have hmod := modulationAppends_text print p
  rw [serialise, serialiseWith, if_pos hfwd, rxpkMembers, hdata]
  cases hm : modulationMembers p with
  | none =>
    rw [hm] at hmod
    simp only [packetAppends, mem_append]
    exact .inl (.inr hmod)
  | some modulation =>
    rw [hm] at hmod
    obtain ⟨hexit, hmodText⟩ := hmod
    refine ⟨?_, ?_⟩
    · simp [packetAppends, hstat, hexit]
    · have hopen : (if pkt_in_dgram = 0 then ascii "\x7b" else ascii ",\x7b")
          = (if pkt_in_dgram = 0 then [] else [comma]) ++ [openBrace] := by
        split_ifs <;> rfl
      have hend : appendsText [.copy (ascii ",\"data\":\""), .encode (sentBytes p),
          .copy (ascii "\"\x7d")] = moreMembers print [data] ++ [closeBrace] := by
        rw [moreMembers, flatMap_cons, flatMap_nil, htext, append_nil]
        simp only [appendsText, flatMap_cons, flatMap_nil, Append.text, append_nil,
          cons_append, append_assoc]
        rfl
      simp only [packetAppends, appendsText_append, appendsText_map_print, hstatText, hmodText]
      rw [appendsText_cons, Append.text, hopen, appendsText_cons, Append.text, appendsText_cons,
        Append.text, appendsText_nil, appendsText_cons, Append.text, appendsText_nil,
        appendsText_cons, Append.text, hend]
      refine Eq.trans ?_ (congrArg _ (rxpkObject_members print up p modulation data).symm)
      simp only [append_assoc, cons_append, nil_append]

/-! ## Members that are printed -/

/-- What the members of a packet have in common: short texts without quotes, and numbers that are
bounded. -/
def Printable : RxpkMember → Prop
  | .jver version => version < 10
  | .time text => ∃ t, text = isoTime t
  | .freq mhz => ∃ freq_hz : Word, mhz = Float.ofNat freq_hz.toNat / 1e6
  | .stat status => status.natAbs < 10
  | .modu text => text.length ≤ 4 ∧ ∀ c ∈ ofChars text, c ≠ quote
  | .loraDatr text => text.length ≤ 9 ∧ ∀ c ∈ ofChars text, c ≠ quote
  | .codr text => text.length ≤ 3 ∧ ∀ c ∈ ofChars text, c ≠ quote
  | .data writes => ∃ bytes : List Byte, bytes.length ≤ 255
      ∧ stringAt (run (fun _ => 0) writes) 341 = rfcPadded bytes
  | _ => True

theorem length_ofChars (text : List Char) : (ofChars text).length = text.length := length_map _

/-- A character of a number is no terminator, and means nothing to a reader. -/
theorem numeric_ofChars (h : ∀ c ∈ text, Numeric c) : ∀ c ∈ ofChars text, c ≠ 0 ∧ Plain c := by
  have hdigit : ∀ n < 58, 48 ≤ n → BitVec.ofNat 8 n ≠ 0 ∧ Plain (BitVec.ofNat 8 n) := by decide
  intro c hc
  obtain ⟨d, hd, rfl⟩ := mem_map.mp hc
  rcases h d hd with rfl | rfl | ⟨hlow, hhigh⟩
  · decide
  · decide
  · have hhigh : d.toNat ≤ 57 := hhigh
    exact hdigit d.toNat (by omega) hlow

theorem plain_ofChars (h : ∀ c ∈ text, Numeric c) : ∀ c ∈ ofChars text, Plain c :=
  fun c hc => (numeric_ofChars h c hc).2

/-- The time has at most 90 characters, none of them a quote. -/
theorem isoTime_chars (t : BrokenTime) :
    (isoTime t).length ≤ 90 ∧ ∀ c ∈ ofChars (isoTime t), c ≠ quote := by
  constructor
  · have hint : ∀ w ≤ 11, ∀ x : Word, (zeroPadded w x.toInt).length ≤ 11 := fun w hw x =>
      length_zeroPadded_le (by decide) (natAbs_toInt_lt x) hw
    have hnsec : (zeroPadded 6 (t.tv_nsec.toInt.tdiv 1000)).length ≤ 17 := by
      refine length_zeroPadded_le (by decide) ?_ (by decide)
      have := natAbs_toInt_lt_of_long t.tv_nsec
      rw [Int.natAbs_tdiv]
      exact Nat.div_lt_of_lt_mul this
    have h1 := hint 4 (by decide) (t.tm_year + 1900)
    have h2 := hint 2 (by decide) (t.tm_mon + 1)
    have h3 := hint 2 (by decide) t.tm_mday
    have h4 := hint 2 (by decide) t.tm_hour
    have h5 := hint 2 (by decide) t.tm_min
    have h6 := hint 2 (by decide) t.tm_sec
    simp only [isoTime, length_append, length_singleton]
    omega
  · have hnumber : ∀ {w x}, ∀ d ∈ zeroPadded w x, BitVec.ofNat 8 d.toNat ≠ quote := fun d hd =>
      (plain_ofChars numeric_zeroPadded _ (mem_map_of_mem hd)).1
    intro c hc
    obtain ⟨d, hd, rfl⟩ := mem_map.mp hc
    simp only [isoTime, mem_append, mem_singleton] at hd
    -- numbers and separators alternate
    rcases hd with ((((((((((((h | rfl) | h) | rfl) | h) | rfl) | h) | rfl) | h) | rfl) | h) | rfl)
      | h) | rfl
    all_goals first | exact hnumber d h | decide

/-- The most characters that a member has. -/
def memberMax : RxpkMember → ℕ
  | .jver _ => 8
  | .tmst _ => 17
  | .time _ => 99
  | .tmms _ => 27
  | .ftime _ => 18
  | .chan _ => 10
  | .rfch _ => 10
  | .freq _ => 18
  | .mid _ => 9
  | .stat _ => 9
  | .modu _ => 13
  | .loraDatr _ => 18
  | .fskDatr _ => 17
  | .codr _ => 12
  | .rssis _ => 48
  | .lsnr _ => 49
  | .foff _ => 18
  | .rssi _ => 47
  | .size _ => 12
  | .data _ => 349

/-- A number under its name. -/
theorem length_number_le {name : String} {k : ℕ} (htext : text.length ≤ k) :
    (ascii name ++ ofChars text).length ≤ name.toList.length + k := by
  rw [length_append, length_ofChars, ascii, length_ofChars]
  omega

/-- A string under its name, with the quote that ends it. -/
theorem length_string_le {name : String} {text : List Byte} {k : ℕ} (htext : text.length ≤ k) :
    (ascii name ++ text ++ ascii "\"").length ≤ name.toList.length + k + 1 := by
  have hquote : (ascii "\"").length = 1 := by simp [ascii, ofChars]
  rw [length_append, length_append, hquote, ascii, length_ofChars]
  omega

/-- No member is longer. -/
theorem length_memberText_le {m : RxpkMember} (h : Printable m) :
    (memberText print m).length ≤ memberMax m := by
  have hunsigned : ∀ {w : ℕ} (x : BitVec w) (k : ℕ), 0 < k → 2 ^ w ≤ 10 ^ k →
      (unsigned x.toNat).length ≤ k := fun x k => length_unsigned_toNat_le x
  cases m with
  | jver v =>
    refine length_number_le (k := 1) ?_
    rw [signed, if_neg (by omega)]
    exact length_unsigned_le (by decide) h
  | time text =>
    obtain ⟨t, ht⟩ := h
    have hlen := (isoTime_chars t).1
    rw [← ht, ← length_ofChars] at hlen
    exact length_string_le hlen
  | tmms x => exact length_number_le (hunsigned x 20 (by decide) (by decide))
  | tmst x | ftime x | fskDatr x =>
    exact length_number_le (hunsigned x 10 (by decide) (by decide))
  | chan x | rfch x => exact length_number_le (hunsigned x 3 (by decide) (by decide))
  | size x => exact length_number_le (hunsigned x 5 (by decide) (by decide))
  | freq x =>
    obtain ⟨f, rfl⟩ := h
    exact length_number_le (print.length6 f)
  | mid x =>
    refine length_number_le (k := 3) ?_
    have := hunsigned x 3 (by decide) (by decide)
    rw [length_padLeft]
    omega
  | stat x => exact length_number_le (@length_signed_le x 1 (by decide) h)
  | foff x => exact length_number_le (@length_signed_le _ 10 (by decide) (natAbs_toInt_lt x))
  | modu text | loraDatr text | codr text =>
    exact length_string_le ((length_ofChars text).trans_le h.1)
  | rssis x | rssi x => exact length_number_le (print.length0 x)
  | lsnr x => exact length_number_le (print.length1 x)
  | data ws =>
    obtain ⟨bytes, hbytes, htext⟩ := h
    refine length_string_le (k := 340) ?_
    have := length_rfcNopad bytes
    rw [htext, rfcPadded, length_pad]
    omega

theorem length_moreMembers_le (h : ∀ m ∈ members, Printable m) :
    (moreMembers print members).length ≤ (members.map fun m => 1 + memberMax m).sum := by
  induction members with
  | nil => exact Nat.le_refl 0
  | cons m members ih =>
    have hm := length_memberText_le print (h m mem_cons_self)
    have hrest := ih fun m' hm' => h m' (mem_cons_of_mem m hm')
    rw [moreMembers, flatMap_cons, length_append, length_cons, map_cons, sum_cons]
    have : (moreMembers print members).length ≤ _ := hrest
    rw [moreMembers] at this
    omega

theorem balanced_number {name : String} (hname : Balanced (ascii name))
    (htext : ∀ c ∈ ofChars text, Plain c) : Balanced (ascii name ++ ofChars text) :=
  hname.append (Balance.balanced_plain htext)

theorem balanced_string {name : String} {text : List Byte}
    (hname : ∃ front, Balanced front ∧ ascii name = front ++ [quote])
    (htext : ∀ c ∈ text, c ≠ quote) : Balanced (ascii name ++ text ++ ascii "\"") := by
  have hquote : ascii "\"" = [quote] := by simp [ascii, ofChars]
  obtain ⟨front, hfront, heq⟩ := hname
  rw [heq, hquote, append_assoc, append_assoc, singleton_append]
  exact hfront.append (Balance.balanced_quoted htext)

/-- The names of the members that are numbers are balanced. -/
theorem balanced_names : ∀ name ∈ ["\"jver\":", "\"tmst\":", "\"tmms\":", "\"ftime\":", "\"chan\":",
      "\"rfch\":", "\"freq\":", "\"mid\":", "\"stat\":", "\"datr\":", "\"rssis\":", "\"lsnr\":",
      "\"foff\":", "\"rssi\":", "\"size\":"],
    Balanced (ascii name) := by
  simp [ascii, ofChars, Balance.Balanced, Balance.read, Balance.step]

/-- Those of the strings are, up to the quote that opens the string. -/
theorem balanced_quoted_names :
    ∀ name ∈ ["\"time\":\"", "\"modu\":\"", "\"datr\":\"", "\"codr\":\"", "\"data\":\""],
      ∃ front, Balanced front ∧ ascii name = front ++ [quote] := by
  intro name hname
  refine ⟨(ascii name).dropLast, ?_, ?_⟩
  all_goals
    revert name
    simp [ascii, ofChars, Balance.Balanced, Balance.read, Balance.step]

/-- A member is balanced in itself. -/
theorem balanced_memberText {m : RxpkMember} (h : Printable m) : Balanced (memberText print m) := by
  have hunsigned : ∀ {n}, ∀ c ∈ ofChars (unsigned n), Plain c := plain_ofChars numeric_unsigned
  have hsigned : ∀ {x}, ∀ c ∈ ofChars (signed x), Plain c := plain_ofChars numeric_signed
  cases m with
  | jver x | stat x | foff x => exact balanced_number (balanced_names _ (by simp)) hsigned
  | tmst x | tmms x | ftime x | chan x | rfch x | fskDatr x | size x =>
    exact balanced_number (balanced_names _ (by simp)) hunsigned
  | time text =>
    obtain ⟨t, ht⟩ := h
    have htext := (isoTime_chars t).2
    rw [← ht] at htext
    exact balanced_string (balanced_quoted_names _ (by simp)) htext
  | freq x => exact balanced_number (balanced_names _ (by simp)) (print.plain6 x)
  | mid x =>
    exact balanced_number (balanced_names _ (by simp))
      (plain_ofChars (numeric_padLeft (.inl rfl) numeric_unsigned))
  | modu text | loraDatr text | codr text =>
    exact balanced_string (balanced_quoted_names _ (by simp)) h.2
  | rssis x | rssi x => exact balanced_number (balanced_names _ (by simp)) (print.plain0 x)
  | lsnr x => exact balanced_number (balanced_names _ (by simp)) (print.plain1 x)
  | data ws =>
    obtain ⟨bytes, -, htext⟩ := h
    refine balanced_string (balanced_quoted_names _ (by simp)) fun c hc => ?_
    rw [htext] at hc
    exact (rfcPadded_chars bytes c hc).2

/-- So is an object. -/
theorem balanced_rxpkObject (h : ∀ m ∈ members, Printable m) :
    Balanced (rxpkObject print members) := by
  refine (Balance.balanced_commaJoin ?_).braces
  intro text htext
  obtain ⟨m, hm, rfl⟩ := mem_map.mp htext
  exact balanced_memberText print (h m hm)

/-! ## Members of a packet -/

theorem sfText_chars {datarate : Word} {sf : List Char} (h : sfText datarate = some sf) :
    sf.length ≤ 4 ∧ ∀ c ∈ ofChars sf, c ≠ quote := by
  rw [sfText] at h
  split_ifs at h <;> obtain rfl := Option.some.inj h <;> simp [ofChars]

theorem bwText_chars {bandwidth : Byte} {bw : List Char} (h : bwText bandwidth = some bw) :
    bw.length ≤ 5 ∧ ∀ c ∈ ofChars bw, c ≠ quote := by
  rw [bwText] at h
  split_ifs at h <;> obtain rfl := Option.some.inj h <;> simp [ofChars]

theorem crText_chars {coderate : Byte} {cr : List Char} (h : crText coderate = some cr) :
    cr.length ≤ 3 ∧ ∀ c ∈ ofChars cr, c ≠ quote := by
  rw [crText] at h
  split_ifs at h <;> obtain rfl := Option.some.inj h <;> simp [ofChars]

theorem printable_modulationMembers (h : modulationMembers p = some members) :
    ∀ m ∈ members, Printable m := by
  rw [modulationMembers] at h
  split_ifs at h
  · obtain ⟨sf, hsf, h⟩ := Option.bind_eq_some_iff.mp h
    obtain ⟨bw, hbw, h⟩ := Option.bind_eq_some_iff.mp h
    obtain ⟨cr, hcr, h⟩ := Option.bind_eq_some_iff.mp h
    obtain rfl := Option.some.inj h
    obtain ⟨hsf, hsf'⟩ := sfText_chars hsf
    obtain ⟨hbw, hbw'⟩ := bwText_chars hbw
    have hdatr : Printable (.loraDatr (sf ++ bw)) := by
      refine ⟨by rw [length_append]; omega, ?_⟩
      rw [ofChars, map_append]
      exact forall_mem_append.mpr ⟨hsf', hbw'⟩
    have hmodu : Printable (.modu ['L', 'O', 'R', 'A']) := ⟨by decide, by decide⟩
    simp only [forall_mem_cons]
    exact ⟨hmodu, hdatr, crText_chars hcr, trivial, trivial, trivial, forall_mem_nil _⟩
  · obtain rfl := Option.some.inj h
    have hmodu : Printable (.modu ['F', 'S', 'K']) := ⟨by decide, by decide⟩
    simp only [forall_mem_cons]
    exact ⟨hmodu, trivial, forall_mem_nil _⟩

section Packet

variable {config : UpConfig}

theorem printable_timeMembers (count_us : Word) :
    ∀ m ∈ timeMembers config.settings count_us, Printable m := by
  rw [timeMembers, forall_mem_append]
  constructor
  · intro m hm
    obtain ⟨text, htext, rfl⟩ := Option.map_eq_some_iff.mp (Option.mem_toList.mp hm)
    obtain ⟨t, -, rfl⟩ := Option.map_eq_some_iff.mp htext
    exact ⟨t, rfl⟩
  · intro m hm
    obtain ⟨ms, -, rfl⟩ := Option.map_eq_some_iff.mp (Option.mem_toList.mp hm)
    exact trivial

theorem printable_ftimeMembers (p : LgwPktRx) : ∀ m ∈ ftimeMembers p, Printable m := by
  rw [ftimeMembers]
  split_ifs
  · exact forall_mem_singleton.mpr trivial
  · exact forall_mem_nil _

theorem printable_jver : Printable (.jver 1) := Nat.one_lt_ofNat

theorem printable_statMember (status : Byte) : Printable (statMember status) := by
  rw [statMember]
  split_ifs
  · exact (by decide : Int.natAbs 1 < 10)
  · exact (by decide : Int.natAbs (-1) < 10)
  · exact (by decide : Int.natAbs 0 < 10)

/-- The members of every object that is sent. -/
theorem printable_members (hsize : p.size.toNat ≤ 255)
    (h : serialise config.settings p = .object members) : ∀ m ∈ members, Printable m := by
  have hlen : (sentBytes p).length ≤ 255 := by
    rw [sentBytes, length_take]
    omega
  rw [serialise, serialiseWith] at h
  split_ifs at h
  cases hmembers : rxpkMembers config.settings p (sentBytes p) with
  | none =>
    rw [hmembers] at h
    cases h
  | some members' =>
    rw [hmembers] at h
    obtain rfl : members' = members := UpResult.object.inj h
    obtain ⟨modulation, hmod, h⟩ := Option.bind_eq_some_iff.mp hmembers
    obtain ⟨data, hdata, h⟩ := Option.bind_eq_some_iff.mp h
    obtain rfl := Option.some.inj h
    have hprintable : Printable data := by
      obtain ⟨ws, hres, -, hmem⟩ := binToB64_payload hlen
      rw [dataMember, hres] at hdata
      obtain rfl : data = .data ws := (Option.some.inj hdata).symm
      refine ⟨sentBytes p, hlen, stringAt_of_holdsString (hmem _) ?_ fun c hc =>
        (rfcPadded_chars _ c hc).1⟩
      have := length_rfcNopad (sentBytes p)
      rw [rfcPadded, length_pad]
      omega
    simp only [forall_mem_append, forall_mem_cons]
    exact ⟨⟨⟨⟨printable_jver, trivial, forall_mem_nil _⟩, printable_timeMembers p.count_us⟩,
        printable_ftimeMembers p⟩,
      ⟨⟨trivial, trivial, ⟨p.freq_hz, rfl⟩, trivial, printable_statMember p.status,
        forall_mem_nil _⟩, printable_modulationMembers hmod⟩,
      trivial, trivial, hprintable, forall_mem_nil _⟩

/-! ## How long it gets -/

theorem length_statAppends_le (status : Byte) : (appendsText (statAppends status)).length ≤ 10 := by
  rw [statAppends]
  split_ifs <;> decide

theorem length_datrAppends_le (datarate : Word) :
    (appendsText (datrAppends datarate)).length ≤ 13 := by
  rw [datrAppends]
  cases hsf : sfText datarate with
  | none => decide
  | some sf =>
    have := (sfText_chars hsf).1
    have hname : (ascii ",\"datr\":\"").length = 9 := by simp [ascii, ofChars]
    rw [appendsText_cons, appendsText_nil, Append.text, append_nil, length_append,
      hname, length_ofChars]
    omega

theorem length_bwAppends_le (bandwidth : Byte) :
    (appendsText (bwAppends bandwidth)).length ≤ 6 := by
  rw [bwAppends]
  cases hbw : bwText bandwidth with
  | none => decide
  | some bw =>
    have := (bwText_chars hbw).1
    have hquote : (ascii "\"").length = 1 := by simp [ascii, ofChars]
    rw [appendsText_cons, appendsText_nil, Append.text, append_nil, length_append,
      hquote, length_ofChars]
    omega

theorem length_codrAppends_le (coderate : Byte) :
    (appendsText (codrAppends coderate)).length ≤ 13 := by
  rw [codrAppends]
  cases hcr : crText coderate with
  | none => decide
  | some cr =>
    have := (crText_chars hcr).1
    have hname : (ascii ",\"codr\":\"").length = 9 := by simp [ascii, ofChars]
    have hquote : (ascii "\"").length = 1 := by simp [ascii, ofChars]
    rw [appendsText_cons, appendsText_nil, Append.text, append_nil, length_append,
      length_append, hname, hquote, length_ofChars]
    omega

theorem length_modulationAppends_le (print : Printf) (p : LgwPktRx) :
    (appendsText (modulationAppends print p)).length ≤ 164 := by
  have hmore : ∀ m, Printable m → (moreMembers print [m]).length ≤ 1 + memberMax m := fun m hm =>
    length_moreMembers_le print (forall_mem_singleton.mpr hm)
  rw [modulationAppends]
  split_ifs
  · have hdatr := length_datrAppends_le p.datarate
    have hbw := length_bwAppends_le p.bandwidth
    have hcodr := length_codrAppends_le p.coderate
    have hmodu : (ascii ",\"modu\":\"LORA\"").length = 14 := by simp [ascii, ofChars]
    have hrssis : (moreMembers print [.rssis p.rssis.round]).length ≤ 49 := hmore _ trivial
    have hlsnr : (moreMembers print [.lsnr p.snr]).length ≤ 50 := hmore _ trivial
    have hfoff : (moreMembers print [.foff p.freq_offset]).length ≤ 19 := hmore _ trivial
    simp only [appendsText_cons, appendsText_append, appendsText_nil, Append.text,
      length_append, length_nil, hmodu]
    omega
  · have hmodu : (ascii ",\"modu\":\"FSK\"").length = 13 := by simp [ascii, ofChars]
    have hdatr : (moreMembers print [.fskDatr p.datarate]).length ≤ 18 := hmore _ trivial
    simp only [appendsText_cons, appendsText_nil, Append.text, length_append, length_nil, hmodu]
    omega
  · decide

theorem length_timeMembers_le (print : Printf) (count_us : Word) :
    (moreMembers print (timeMembers config.settings count_us)).length ≤ 128 := by
  refine Nat.le_trans (length_moreMembers_le print (printable_timeMembers count_us)) ?_
  rw [timeMembers]
  cases config.settings.cnt2utc count_us <;> cases config.settings.cnt2gps count_us
    <;> simp [memberMax]

theorem length_ftimeMembers_le (print : Printf) (p : LgwPktRx) :
    (moreMembers print (ftimeMembers p)).length ≤ 19 := by
  refine Nat.le_trans (length_moreMembers_le print (printable_ftimeMembers p)) ?_
  rw [ftimeMembers]
  split_ifs <;> simp [memberMax]

/-- A packet takes up less than 480 characters besides its payload, whether it is sent or not. -/
theorem length_packetAppends_le (print : Printf) (p : LgwPktRx) (pkt_in_dgram : ℕ) :
    (appendsText (packetAppends print config.settings p pkt_in_dgram)).length
      ≤ 472 + (rfcPadded (sentBytes p)).length := by
  have hopen : (if pkt_in_dgram = 0 then ascii "\x7b" else ascii ",\x7b").length ≤ 2 := by
    split_ifs <;> decide
  have hjver : (memberText print (.jver 1)).length ≤ 8 := length_memberText_le print printable_jver
  have htmst : (moreMembers print [.tmst p.count_us]).length ≤ 18 :=
    length_moreMembers_le print (forall_mem_singleton.mpr trivial)
  have htime := @length_timeMembers_le config print p.count_us
  have hftime := length_ftimeMembers_le print p
  have hchan : (moreMembers print [.chan p.if_chain, .rfch p.rf_chain,
      .freq (Float.ofNat p.freq_hz.toNat / 1e6), .mid p.modem_id]).length ≤ 51 := by
    refine length_moreMembers_le print ?_
    simp only [forall_mem_cons]
    exact ⟨trivial, trivial, ⟨p.freq_hz, rfl⟩, trivial, forall_mem_nil _⟩
  have hstat := length_statAppends_le p.status
  have hmod := length_modulationAppends_le print p
  have hrssi : (moreMembers print [.rssi p.rssic.round, .size p.size]).length ≤ 61 := by
    refine length_moreMembers_le print ?_
    simp only [forall_mem_cons]
    exact ⟨trivial, trivial, forall_mem_nil _⟩
  have hdata : (ascii ",\"data\":\"").length = 9 := by simp [ascii, ofChars]
  have hend : (ascii "\"\x7d").length = 2 := by simp [ascii, ofChars]
  simp only [packetAppends, appendsText_append, appendsText_map_print, appendsText_cons,
    appendsText_nil, Append.text, length_append, length_nil, hdata, hend]
  omega

end Packet

end RutosSdk.Forwarder
