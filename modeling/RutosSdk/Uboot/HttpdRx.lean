import RutosSdk.Uboot.HttpdPost

/-! # What a segment can do

Reference: `net/httpd.c` in `package/boot/uboot-mt7621/src`.

A segment of any bytes comes in on a connection in any state. It leaves the RAM for uploads alone,
or it begins an upload there with a new identifier, or it goes on with one; an upload that is
complete and has no answer is handled once more. The values of a form in the buffer of a connection
are shorter than the buffer, unless their size went below zero.
-/

namespace RutosSdk.Uboot.Httpd

open List Regions Search

/-! ## Lengths -/

variable {mem mem' : List Byte} {limit : ℕ} {places : List (ℕ × ℕ)}

theorem length_memcpy {data : List Byte} {offset : ℕ} (h : memcpy mem offset data = some mem') :
    mem'.length = mem.length := by
  unfold memcpy at h
  split_ifs at h with hfits
  cases h
  exact length_write hfits rfl

theorem length_nameExtract (mem : List Byte) (s : ℕ) :
    (nameExtract mem s).1.length = mem.length := by
  unfold nameExtract
  split_ifs
  · split
    · exact length_set
    · rfl
  · split
    · exact length_set
    · rfl

theorem length_extractParam (mem : List Byte) (s : Option ℕ) :
    (extractParam mem s).1.length = mem.length := by
  cases s with
  | none => rfl
  | some s => exact length_nameExtract mem s

theorem alignData_some {p size data : ℕ} (h : alignData mem p size = some (mem', data)) :
    mem'.length = mem.length ∧ data ≤ p := by
  have hle : p / 4 * 4 ≤ p := Nat.div_mul_le_self p 4
  unfold alignData at h
  dsimp only at h
  split_ifs at h with haligned hfits
  · cases h
    exact ⟨rfl, hle⟩
  · cases hcopy : memcpy mem (p / 4 * 4) (read mem ⟨p, size⟩) with
    | none =>
      rw [hcopy] at h
      cases h
    | some moved =>
      rw [hcopy] at h
      obtain ⟨ended, hpoke, hpair⟩ := Option.map_eq_some_iff.mp h
      cases hpair
      exact ⟨(length_memcpy hpoke).trans (length_memcpy hcopy), hle⟩

/-! ## The values of a form -/

/-- A value cut out of a buffer of `len` bytes: its data began at `p` and its part ended at `stop`,
and the size is the difference as a `u32`. -/
def Value.Within (len limit : ℕ) (value : Value) : Prop :=
  ∃ p stop, value.data ≤ p ∧ p ≤ len ∧ stop ≤ limit ∧ value.size = (stop + U32 - p) % U32

/-- A size that did not go below zero reaches to the end of the part. -/
theorem Value.Within.size_cases {len : ℕ} {value : Value} (h : value.Within len limit)
    (hlimit : limit < U32) : value.data + value.size ≤ limit ∨ U32 ≤ value.size + len := by
  obtain ⟨p, stop, hdata, hp, hstop, hsize⟩ := h
  rcases Nat.lt_or_ge stop p with hbehind | hbefore
  · right
    rcases Nat.lt_or_ge (stop + U32) p with hfar | hnear
    · omega
    · rw [Nat.mod_eq_of_lt (by omega)] at hsize
      omega
  · left
    rw [show stop + U32 - p = stop - p + U32 by omega, Nat.add_mod_right,
      Nat.mod_eq_of_lt (by omega)] at hsize
    omega

/-- A part stays within the payload. -/
theorem processPart_some {start stop : ℕ} {value : Option Value}
    (h : processPart mem start stop = some (mem', value)) (hstop : stop ≤ limit) :
    mem'.length = mem.length ∧ ∀ v ∈ value, v.Within mem.length limit := by
  unfold processPart at h
  cases hblank : strstr (cstr (mem.drop start)) (crlf ++ crlf) with
  | none =>
    rw [hblank] at h
    cases h
    exact ⟨rfl, by simp⟩
  | some i =>
    have hfound : i + (crlf ++ crlf).length ≤ (cstr (mem.drop start)).length :=
      length_le_of_findSub hblank
    have hcstr : (cstr (mem.drop start)).length ≤ (mem.drop start).length :=
      (List.takeWhile_prefix _).length_le
    have hfour : (crlf ++ crlf).length = 4 := rfl
    rw [length_drop] at hcstr
    simp only [hblank] at h
    split at h
    · cases h
    · rename_i moved data halign
      cases h
      obtain ⟨hlength, hdata⟩ := alignData_some halign
      refine ⟨?_, fun v hv => ?_⟩
      · rw [hlength, length_extractParam, length_extractParam, length_set]
      · cases hv
        exact ⟨start + i + 4, stop, hdata, by omega, hstop, rfl⟩

theorem splitForm_some {boundary : List Byte} {payload_end n p : ℕ}
    (h : splitForm boundary payload_end n mem p = some (mem', places)) :
    mem'.length = mem.length ∧ ∀ place ∈ places, place.2 ≤ payload_end := by
  induction n generalizing mem p places with
  | zero =>
    cases h
    exact ⟨rfl, by simp⟩
  | succ n ih =>
    rw [splitForm] at h
    dsimp only at h
    split_ifs at h with hline hpast
    · cases h
      exact ⟨rfl, by simp⟩
    · split at h
      · cases h
        exact ⟨rfl, by simp⟩
      · rename_i q hfind
        split at h
        · cases h
        · rename_i cut rest hrest
          cases h
          obtain ⟨hlength, hplaces⟩ := ih hrest
          have hq := length_le_of_findSub hfind
          rw [length_take] at hq
          refine ⟨?_, ?_⟩
          · rw [hlength]
            split_ifs <;> exact length_set
          · intro place hplace
            rcases mem_cons.mp hplace with rfl | hplace
            · omega
            · exact hplaces place hplace

theorem processForm_some (hplaces : ∀ place ∈ places, place.2 ≤ limit) {values values' : List Value}
    (h : processForm places mem values = some (mem', values')) :
    mem'.length = mem.length ∧ ∀ v ∈ values', v ∈ values ∨ v.Within mem.length limit := by
  induction places generalizing mem values with
  | nil =>
    cases h
    exact ⟨rfl, fun v hv => .inl hv⟩
  | cons place places ih =>
    obtain ⟨hstop, hrest⟩ := forall_mem_cons.mp hplaces
    rw [processForm] at h
    split at h
    · cases h
    · rename_i cut hpart
      obtain ⟨hlength, -⟩ := processPart_some hpart hstop
      rw [← hlength]
      exact ih hrest h
    · rename_i cut value hpart
      obtain ⟨hlength, hvalue⟩ := processPart_some hpart hstop
      split_ifs at h
      obtain ⟨hlength', hvalues⟩ := ih hrest h
      refine ⟨hlength'.trans hlength, fun v hv => ?_⟩
      rcases hvalues v hv with hmem | hwithin
      · rcases mem_append.mp hmem with hmem | hmem
        · exact .inl hmem
        · cases mem_singleton.mp hmem
          exact .inr (hvalue value rfl)
      · rw [hlength] at hwithin
        exact .inr hwithin

theorem parseForm_some {boundary : List Byte} {start payload_size : ℕ} {values values' : List Value}
    (h : parseForm boundary mem start payload_size values = some (mem', values')) :
    mem'.length = mem.length ∧
      ∀ v ∈ values', v ∈ values ∨ v.Within mem.length (start + payload_size) := by
  unfold parseForm at h
  dsimp only at h
  split at h
  · cases h
  · rename_i cut places hsplit
    obtain ⟨hlength, hplaces⟩ := splitForm_some hsplit
    rw [← hlength]
    exact processForm_some hplaces h

/-! ## A request that is handled -/

variable {handlers : List (List Byte)} {rand : Word} {sh sh' : Shared} {pd pd' : Pdata}
  {next : Next} {data : List Byte}

/-- What is left of the state of a connection when its request was handled. -/
structure HandledFrom (sh : Shared) (pd : Pdata) (sh' : Shared) (pd' : Pdata) : Prop where
  upload_id : sh'.upload_id = sh.upload_id
  ram : pd.in_ram = false → sh'.ram = sh.ram
  ram_length : sh'.ram.length = sh.ram.length
  in_ram : pd'.in_ram = pd.in_ram
  method : pd'.method = pd.method
  payload_end : pd'.upload_offset + pd'.payload_size = pd.upload_offset + pd.payload_size
  status : pd'.status = pd.status ∨ pd'.status = .responding
  buf_length : pd'.buf.length = pd.buf.length
  values : ∀ v ∈ pd'.values, v ∈ pd.values ∨
    pd.method = .post ∧
      v.Within (payloadMem sh pd).length (payloadOffset pd + pd.payload_size)

theorem httpdHandleRequest_some (h : httpdHandleRequest handlers sh pd = some (sh', pd', next)) :
    HandledFrom sh pd sh' pd' := by
  have hsame : ∀ status : Status, status = pd.status ∨ status = .responding →
      HandledFrom sh pd sh { pd with status := status } := fun status hstatus =>
    ⟨rfl, fun _ => rfl, rfl, rfl, rfl, rfl, hstatus, rfl, fun v hv => .inl hv⟩
  unfold httpdHandleRequest at h
  split at h
  · cases h
    exact hsame .responding (.inr rfl)
  · split at h <;> cases h <;> exact hsame pd.status (.inl rfl)
  · rename_i hmethod
    split at h
    · cases h
      exact hsame pd.status (.inl rfl)
    · split at h
      · cases h
      · split_ifs at h with hram
        · split at h
          · cases h
          · rename_i ram values hform
            cases h
            obtain ⟨hlength, hvalues⟩ := parseForm_some hform
            refine ⟨rfl, fun hbuf => ?_, hlength, rfl, rfl, rfl, .inl rfl, rfl, fun v hv => ?_⟩
            · exact absurd (hram.symm.trans hbuf) (by decide)
            · refine (hvalues v hv).imp_right fun hwithin => ⟨hmethod, ?_⟩
              rwa [payloadMem, payloadOffset, if_pos hram, if_pos hram]
        · split at h
          · cases h
          · rename_i buf values hform
            cases h
            obtain ⟨hlength, hvalues⟩ := parseForm_some hform
            refine ⟨rfl, fun _ => rfl, rfl, rfl, rfl, rfl, .inl rfl, hlength, fun v hv => ?_⟩
            refine (hvalues v hv).imp_right fun hwithin => ⟨hmethod, ?_⟩
            rwa [payloadMem, payloadOffset, if_neg hram, if_neg hram]

theorem endPayload_some (h : endPayload sh pd = some (sh', pd')) :
    sh'.upload_id = sh.upload_id ∧
      (pd.in_ram = false → sh'.ram = sh.ram) ∧ (∃ buf, pd' = { pd with buf := buf } ∧
        buf.length = pd.buf.length) ∧
      payloadOffset pd + pd.payload_size < (payloadMem sh pd).length ∧
      sh'.ram.length = sh.ram.length := by
  rw [endPayload_eq] at h
  obtain ⟨mem, hpoke, hpair⟩ := Option.map_eq_some_iff.mp h
  have hlength := length_memcpy hpoke
  have hroom : payloadOffset pd + pd.payload_size < (payloadMem sh pd).length := by
    unfold poke memcpy at hpoke
    split_ifs at hpoke with hfits
    exact hfits
  unfold withPayloadMem at hpair
  unfold payloadMem at hlength
  split_ifs at hpair hlength with hram <;> cases hpair
  · exact ⟨rfl, fun hbuf => absurd (hram.symm.trans hbuf) (by decide), ⟨_, rfl, rfl⟩, hroom,
      hlength⟩
  · exact ⟨rfl, fun _ => rfl, ⟨mem, rfl, hlength⟩, hroom, rfl⟩

/-! ## The state of a connection -/

/-- What holds of the state of a connection at any time: it has its buffer, before the header is
complete there is no form, and a form in the buffer ends there and has no value of a size between
that of the buffer and one that went below zero. -/
structure Pdata.Sound (pd : Pdata) : Prop where
  buf_length : pd.buf.length = BUF_SIZE
  header : pd.status = .new ∨ pd.status = .headerRecving → pd.values = [] ∧ pd.in_ram = false
  full : pd.status = .fullRcvd → pd.method = .post → pd.in_ram = false →
    pd.upload_offset + pd.payload_size < BUF_SIZE
  values : pd.in_ram = false → ∀ v ∈ pd.values, v.size < BUF_SIZE ∨ U32 ≤ v.size + BUF_SIZE

theorem sound_new : ({} : Pdata).Sound where
  buf_length := length_replicate
  header _ := ⟨rfl, rfl⟩
  full h := by cases h
  values _ _ hv := absurd hv not_mem_nil

/-- Once the request is answered the state is not looked at any more. -/
theorem Pdata.Sound.done (h : pd.Sound) {status : Status}
    (hstatus : status = .responding ∨ status = .closing) : { pd with status := status }.Sound where
  buf_length := h.buf_length
  header hheader := by rcases hstatus with rfl | rfl <;> rcases hheader with h | h <;> cases h
  full hfull := by rcases hstatus with rfl | rfl <;> cases hfull
  values := h.values

theorem HandledFrom.sound (h : HandledFrom sh pd sh' pd') (hpd : pd.Sound)
    (hstatus : pd.status = .fullRcvd) : pd'.Sound where
  buf_length := h.buf_length.trans hpd.buf_length
  header hheader := by
    rcases h.status with heq | heq <;> rw [heq] at hheader
    · rw [hstatus] at hheader
      rcases hheader with hheader | hheader <;> cases hheader
    · rcases hheader with hheader | hheader <;> cases hheader
  full _ hmethod hbuf := by
    rw [h.payload_end]
    exact hpd.full hstatus (h.method ▸ hmethod) (h.in_ram ▸ hbuf)
  values hbuf v hv := by
    rw [h.in_ram] at hbuf
    rcases h.values v hv with hold | ⟨hmethod, hwithin⟩
    · exact hpd.values hbuf v hold
    · have hend := hpd.full hstatus hmethod hbuf
      have hsizes : BUF_SIZE < U32 := by decide
      simp only [payloadMem, payloadOffset, hbuf, Bool.false_eq_true, if_false] at hwithin
      rw [hpd.buf_length] at hwithin
      exact (hwithin.size_cases (by omega)).imp_left fun hle => by omega

/-! ## A payload -/

/-- The payload stays where it is, in the buffer or in the RAM, and the connection waits for more of
it or its request was handled. The values of a form in the RAM were cut out of the payload. -/
structure Stays (sh : Shared) (pd : Pdata) (sh' : Shared) (pd' : Pdata) (next : Next) : Prop where
  upload_id : sh'.upload_id = sh.upload_id
  ram : pd.in_ram = false → sh'.ram = sh.ram
  in_ram : pd'.in_ram = pd.in_ram
  status : next = .wait ∨ pd'.status ≠ .payloadRecving
  sound : pd'.Sound
  ram_length : sh'.ram.length = sh.ram.length
  values : pd.in_ram = true → ∀ v ∈ pd'.values, v ∈ pd.values ∨
    v.Within sh.ram.length pd.payload_size

theorem handled_stays (hpd : pd.Sound) (hstatus : pd.status = .fullRcvd)
    (h : httpdHandleRequest handlers sh pd = some (sh', pd', next)) : Stays sh pd sh' pd' next := by
  have hhandled := httpdHandleRequest_some h
  refine ⟨hhandled.upload_id, hhandled.ram, hhandled.in_ram, .inr ?_, hhandled.sound hpd hstatus,
    hhandled.ram_length, fun hin v hv => (hhandled.values v hv).imp_right fun hwithin => ?_⟩
  · rcases hhandled.status with heq | heq <;> rw [heq]
    · rw [hstatus]
      decide
    · decide
  · simpa only [payloadMem, payloadOffset, hin, if_true, Nat.zero_add] using hwithin.2

/-- The payload is complete. -/
theorem complete_stays {sh₁ : Shared} {pd₁ : Pdata} (hbuf : pd.buf.length = BUF_SIZE)
    (hvalues : pd.in_ram = false → ∀ v ∈ pd.values, v.size < BUF_SIZE ∨ U32 ≤ v.size + BUF_SIZE)
    (hend : endPayload sh pd = some (sh₁, pd₁)) {uploading flag : Bool}
    (h : httpdHandleRequest handlers { sh₁ with is_uploading := uploading }
      { pd₁ with status := .fullRcvd, is_uploading := flag } = some (sh', pd', next)) :
    Stays sh pd sh' pd' next := by
  obtain ⟨hid, hram, ⟨buf, rfl, hlength⟩, hroom, hsame⟩ := endPayload_some hend
  have hfull : Pdata.Sound { pd with buf := buf, status := .fullRcvd, is_uploading := flag } := by
    refine ⟨hlength.trans hbuf, ?_, fun _ _ hin => ?_, hvalues⟩
    · rintro (hstatus | hstatus) <;> cases hstatus
    · dsimp only at hin ⊢
      simpa only [payloadMem, payloadOffset, hin, Bool.false_eq_true, if_false, hbuf] using hroom
  have hstays := handled_stays hfull rfl h
  refine ⟨hstays.upload_id.trans hid, fun hin => (hstays.ram hin).trans (hram hin), hstays.in_ram,
    hstays.status, hstays.sound, hstays.ram_length.trans hsame, fun hin v hv => ?_⟩
  rw [← hsame]
  exact hstays.values hin v hv

theorem startPayload_stays (hbuf : pd.buf.length = BUF_SIZE) (hvalues : pd.values = [])
    (h : startPayload handlers sh pd = some (sh', pd', next)) : Stays sh pd sh' pd' next := by
  have hnone : ∀ v ∈ pd.values, v.size < BUF_SIZE ∨ U32 ≤ v.size + BUF_SIZE := by
    simp [hvalues]
  unfold startPayload at h
  split_ifs at h with hsize
  · split at h
    · cases h
    · rename_i sh₁ pd₁ hend
      exact complete_stays hbuf (fun _ => hnone) hend h
  · cases h
    refine ⟨rfl, fun _ => rfl, rfl, .inl rfl, ⟨hbuf, ?_, fun hstatus => ?_, fun _ => hnone⟩, rfl,
      fun _ v hv => .inl hv⟩
    · rintro (hstatus | hstatus) <;> cases hstatus
    · cases hstatus

/-- A segment of the payload. -/
theorem httpdRecvPayload_stays (hpd : pd.Sound) (hstatus : pd.status = .payloadRecving)
    (h : httpdRecvPayload handlers sh pd data = some (sh', pd', next)) :
    Stays sh pd sh' pd' next := by
  unfold httpdRecvPayload at h
  dsimp only at h
  split at h
  · cases h
  · rename_i sh₁ pd₁ hcopied
    obtain ⟨hid, hram, hsame, buf, hlength, rfl⟩ : sh₁.upload_id = sh.upload_id ∧
        (pd.in_ram = false → sh₁.ram = sh.ram) ∧ sh₁.ram.length = sh.ram.length ∧
        ∃ buf, buf.length = pd.buf.length ∧ pd₁ = { pd with buf := buf } := by
      split_ifs at hcopied with hin
      · obtain ⟨ram, hcopy, hpair⟩ := Option.map_eq_some_iff.mp hcopied
        cases hpair
        exact ⟨rfl, fun hout => absurd (hin.symm.trans hout) (by decide), length_memcpy hcopy, _,
          rfl, rfl⟩
      · obtain ⟨buf, hcopy, hpair⟩ := Option.map_eq_some_iff.mp hcopied
        cases hpair
        exact ⟨rfl, fun _ => rfl, rfl, buf, length_memcpy hcopy, rfl⟩
    have hbuf := hlength.trans hpd.buf_length
    split_ifs at h with hsize
    · split at h
      · cases h
      · rename_i sh₂ pd₂ hend
        have hstays := complete_stays (by exact hbuf) (by exact hpd.values) hend h
        refine ⟨hstays.upload_id.trans hid, fun hin => (hstays.ram hin).trans (hram hin),
          hstays.in_ram, hstays.status, hstays.sound, hstays.ram_length.trans hsame,
          fun hin v hv => ?_⟩
        rw [← hsame]
        exact hstays.values hin v hv
    · cases h
      refine ⟨hid, hram, rfl, .inl rfl, ⟨hbuf, ?_, fun hfull => ?_, hpd.values⟩, hsame,
        fun _ v hv => .inl hv⟩
      · rintro (hheader | hheader) <;> exact absurd (hstatus.symm.trans hheader) (by decide)
      · exact absurd (hstatus.symm.trans hfull) (by decide)

/-! ## A segment -/

/-- The segment ends the header of a request with a payload that is too large for the buffer. -/
def Announces (pd : Pdata) (data : List Byte) : Prop :=
  (pd.status = .new ∨ pd.status = .headerRecving) ∧
    ∃ buf i header, (memcpy pd.buf pd.bufsize
        (data.take (min data.length (BUF_SIZE - pd.bufsize - 1)))).bind
          (poke · (pd.bufsize + min data.length (BUF_SIZE - pd.bufsize - 1)) 0) = some buf ∧
      strstr (cstr buf) (crlf ++ crlf) = some i ∧ parseHeader (buf.take i) = .ok header ∧
      header.method = .post ∧ BUF_SIZE ≤ (i + 4 + header.payload_size) % U32

/-- What a segment can do to the RAM for uploads. -/
inductive RxEnds (rand : Word) (sh : Shared) (pd : Pdata) (data : List Byte) :
    Shared → Pdata → Next → Prop
  | idle (hstatus : pd.status = .responding ∨ pd.status = .closing) :
    RxEnds rand sh pd data sh pd .wait
  | apart {sh' : Shared} {pd' : Pdata} {next : Next} (hram : sh'.ram = sh.ram)
    (hid : sh'.upload_id = sh.upload_id) (hin : pd'.in_ram = false) :
    RxEnds rand sh pd data sh' pd' next
  | began {sh' : Shared} {pd' : Pdata} {next : Next} (hlarge : Announces pd data)
    (hfree : sh.is_uploading = false) (hid : sh'.upload_id = rand)
    (hnext : next = .wait ∨ pd'.status ≠ .payloadRecving) : RxEnds rand sh pd data sh' pd' next
  | wentOn {sh' : Shared} {pd' : Pdata} {next : Next}
    (hstatus : pd.status = .payloadRecving ∨ pd.status = .fullRcvd) (hin : pd.in_ram = true)
    (hid : sh'.upload_id = sh.upload_id)
    (hnext : next = .wait ∨ pd'.status ≠ .payloadRecving) : RxEnds rand sh pd data sh' pd' next

/-- The header is complete, and the state has what was read from it. -/
theorem placePayload_ends {hdr : Pdata} (hhdr : hdr.Sound) (hheader : hdr.status = .headerRecving)
    {hdr_size : ℕ} (hlarge : BUF_SIZE ≤ (hdr_size + hdr.payload_size) % U32 → Announces pd data)
    (h : placePayload handlers rand sh hdr hdr_size data = some (sh', pd', next)) :
    RxEnds rand sh pd data sh' pd' next ∧ pd'.Sound := by
  obtain ⟨hvalues, hbefore⟩ := hhdr.header (.inr hheader)
  unfold placePayload at h
  split_ifs at h with hsmall huploading hshort
  · have hstays := startPayload_stays (by exact hhdr.buf_length) (by exact hvalues) h
    exact ⟨.apart (hstays.ram rfl) hstays.upload_id hstays.in_ram, hstays.sound⟩
  · cases h
    exact ⟨.apart rfl rfl hbefore, hhdr⟩
  · split at h
    · cases h
    · rename_i ram hcopy
      have hstays := startPayload_stays (by exact hhdr.buf_length) (by exact hvalues) h
      exact ⟨.began (hlarge (Nat.le_of_not_lt hsmall)) (Bool.eq_false_iff.mpr huploading)
        hstays.upload_id hstays.status, hstays.sound⟩

/-- A segment while the header comes in. -/
theorem httpdRecvHdr_ends (hpd : pd.Sound) (hstatus : pd.status = .new ∨ pd.status = .headerRecving)
    (h : httpdRecvHdr handlers rand sh pd data = some (sh', pd', next)) :
    RxEnds rand sh pd data sh' pd' next ∧ pd'.Sound := by
  obtain ⟨hvalues, hin⟩ := hpd.header hstatus
  unfold httpdRecvHdr at h
  dsimp only at h
  split at h
  · cases h
  · rename_i buf hcollect
    obtain ⟨copied, hcopy, hpoke⟩ := Option.bind_eq_some_iff.mp hcollect
    have hbuf : buf.length = BUF_SIZE :=
      (length_memcpy hpoke).trans ((length_memcpy hcopy).trans hpd.buf_length)
    generalize hsize : min data.length (BUF_SIZE - pd.bufsize - 1) = size_rcvd at h
    -- whatever the header says, the state has no form yet
    have hsound : ∀ (status : Status) (uri : List Byte) (boundary : Option (List Byte))
        (payload_size : ℕ) (method : Method), (status = .fullRcvd → method ≠ .post) →
        Pdata.Sound { pd with
          status := status, buf := buf, bufsize := pd.bufsize + size_rcvd, uri := uri
          boundary := boundary, payload_size := payload_size, method := method } :=
      fun _ _ _ _ _ hmethod => ⟨hbuf, fun _ => ⟨hvalues, hin⟩,
        fun hfull hpost => absurd hpost (hmethod hfull), hpd.values⟩
    have hhandled : ∀ {full : Pdata}, full.Sound → full.status = .fullRcvd →
        full.in_ram = false → httpdHandleRequest handlers sh full = some (sh', pd', next) →
        RxEnds rand sh pd data sh' pd' next ∧ pd'.Sound := by
      intro full hfull hstatus hout hcall
      have hstays := handled_stays hfull hstatus hcall
      exact ⟨.apart (hstays.ram hout) hstays.upload_id (hstays.in_ram.trans hout), hstays.sound⟩
    split at h
    · exact hhandled (hsound .fullRcvd _ _ _ .serial (by decide)) rfl hin h
    · split at h
      · split_ifs at h <;> cases h
        · exact ⟨.apart rfl rfl hin, hsound .headerRecving _ _ _ _ (by simp)⟩
        · exact ⟨.apart rfl rfl hin, hsound .responding _ _ _ _ (by simp)⟩
      · rename_i i hblank
        split at h
        · cases h
          exact ⟨.apart rfl rfl hin, hsound .responding _ _ _ _ (by simp)⟩
        · rename_i header hparse
          split_ifs at h with hmethod
          · refine placePayload_ends (hsound .headerRecving _ _ _ _ (by simp)) rfl
              (fun hlarge => ?_) h
            exact ⟨hstatus, buf, _, _, hcollect, hblank, hparse, hmethod, hlarge⟩
          · exact hhandled (hsound .fullRcvd _ _ _ _ fun _ => hmethod) rfl hin h

/-- A segment on a connection in any state. -/
theorem httpdRx_ends (hpd : pd.Sound)
    (h : httpdRx handlers rand sh pd data = some (sh', pd', next)) :
    RxEnds rand sh pd data sh' pd' next ∧ pd'.Sound := by
  unfold httpdRx at h
  split at h
  · rename_i hstatus
    exact httpdRecvHdr_ends hpd (.inl hstatus) h
  · rename_i hstatus
    exact httpdRecvHdr_ends hpd (.inr hstatus) h
  · rename_i hstatus
    have hstays := httpdRecvPayload_stays hpd hstatus h
    refine ⟨?_, hstays.sound⟩
    cases hin : pd.in_ram with
    | false => exact .apart (hstays.ram hin) hstays.upload_id (hstays.in_ram.trans hin)
    | true => exact .wentOn (.inl hstatus) hin hstays.upload_id hstays.status
  · rename_i hstatus
    have hstays := handled_stays hpd hstatus h
    refine ⟨?_, hstays.sound⟩
    cases hin : pd.in_ram with
    | false => exact .apart (hstays.ram hin) hstays.upload_id (hstays.in_ram.trans hin)
    | true => exact .wentOn (.inr hstatus) hin hstays.upload_id hstays.status
  · rename_i hstatus
    cases h
    exact ⟨.idle (.inl hstatus), hpd⟩
  · rename_i hstatus
    cases h
    exact ⟨.idle (.inr hstatus), hpd⟩

/-! ## Requests in segments -/

variable (handlers rand sh) in
/-- A header that comes in one segment. -/
theorem httpdRx_header {text : List Byte} (hzero : 0 ∉ text) (hlen : text.length < BUF_SIZE)
    (hserial : text ≠ str "REQUEST SERIAL") {i : ℕ} (hblank : findSub (crlf ++ crlf) text = some i)
    {header : Header} (hparse : parseHeader (text.take i) = .ok header) :
    ∃ pd : Pdata, pd.bufsize = text.length ∧ pd.payload_size = header.payload_size ∧
      httpdRx handlers rand sh {} text
        = if header.method = .post then placePayload handlers rand sh pd (i + 4) text
          else httpdHandleRequest handlers sh
            { pd with status := .fullRcvd, uri := header.uri, method := header.method } := by
  obtain ⟨buf, hcollect, hbuf, hholds⟩ := collect_holds text collects_new.buf_length
    collects_new.holds (by rwa [length_nil, Nat.zero_add])
  have hcstr : cstr buf = text := by
    rw [← drop_zero (l := buf)]
    exact cstr_of_holds hholds hzero
  have htake : buf.take i = text.take i := by
    have hstart : buf = text ++ (0 :: buf.drop (text.length + 1)) := by
      simpa using hholds.drop_eq
    have hle := length_le_of_findSub hblank
    rw [hstart, take_append_of_le_length (by omega)]
  have hsize : min text.length (BUF_SIZE - 0 - 1) = text.length := by omega
  refine ⟨{ status := .headerRecving, buf := buf, bufsize := text.length, uri := header.uri
            boundary := header.boundary, payload_size := header.payload_size
            method := header.method }, rfl, rfl, ?_⟩
  rw [httpdRx_collects collects_new]
  unfold httpdRecvHdr
  dsimp only
  rw [length_nil, Nat.zero_add] at hcollect
  rw [hsize, take_length, Nat.zero_add, hcollect]
  dsimp only
  rw [hcstr, if_neg hserial, strstr, hblank]
  dsimp only
  rw [htake, hparse]

/-- A large upload of which only the header has come in. -/
structure Begun (post : Post) (pd : Pdata) : Prop where
  knows : Knows post pd
  status : pd.status = .payloadRecving
  in_ram : pd.in_ram = true
  upload_size : pd.upload_size = 0

variable {post : Post} (hwf : post.Readable)
include hwf

variable (handlers rand) in
/-- The header of a large upload, while none is being received. -/
theorem httpdRx_begins (hlarge : BUF_SIZE ≤ post.text.length) (hlong : post.text.length < U32)
    (hbody : post.body ≠ []) (hfree : sh.is_uploading = false) :
    ∃ pd, httpdRx handlers rand sh {} post.header
        = some ({ sh with is_uploading := true, upload_id := rand }, pd, .wait) ∧
      Begun post pd := by
  have hlen := length_text_post post
  have hpos : 0 < post.body.length := length_pos_iff.mpr hbody
  obtain ⟨pd, hrx, hknows, -⟩ := httpdRecvHdr_places handlers rand sh hwf collects_new
    post.header_pos (show post.header <+: [] ++ post.header from prefix_rfl)
  have hsum : (post.header.length + pd.payload_size) % U32 = post.text.length := by
    rw [hknows.payload_size, ← hlen, Nat.mod_eq_of_lt hlong]
  have hcopy : memcpy sh.ram 0 (post.header.drop post.header.length) = some sh.ram := by
    rw [drop_length, memcpy_eq (Nat.zero_le _)]
    simp [write]
  refine ⟨{ pd with
    in_ram := true, upload_size := 0, status := .payloadRecving, is_uploading := true },
    ?_, ⟨hknows.method, hknows.uri, hknows.boundary, hknows.payload_size, hknows.values⟩, rfl, rfl,
    rfl⟩
  rw [httpdRx_collects collects_new, hrx, placePayload, hsum, if_neg (by omega),
    if_neg (Bool.eq_false_iff.mp hfree), if_neg (Nat.lt_irrefl _), hcopy]
  dsimp only
  rw [startPayload, Nat.sub_self, if_neg]
  dsimp only
  rw [hknows.payload_size]
  omega

/-- The first bytes of the body, whatever they are, are put at the start of the RAM. -/
theorem Begun.httpdRx_eq (h : Begun post pd) (hmore : data.length < post.body.length)
    (hroom : data.length ≤ sh.ram.length) :
    ∃ pd', httpdRx handlers rand sh pd data
      = some ({ sh with ram := write sh.ram ⟨0, data.length⟩ data }, pd', .wait) := by
  have hbody := hwf.body_length
  have hpayload := h.knows.payload_size
  have hmem : payloadMem sh pd = sh.ram := if_pos h.in_ram
  have hoffset : payloadOffset pd = 0 := if_pos h.in_ram
  have hleft : data.length ≤ (pd.payload_size + U32 - pd.upload_size) % U32 := by
    rw [hpayload, h.upload_size, Nat.sub_zero, Nat.add_mod_right, Nat.mod_eq_of_lt hbody]
    omega
  rw [httpdRx, h.status]
  rw [httpdRecvPayload_eq sh pd hleft, hmem, hoffset, h.upload_size,
    memcpy_eq (by omega), Option.map_some, withPayloadMem, if_pos h.in_ram]
  dsimp only
  rw [h.upload_size, hpayload, if_neg (by omega)]
  exact ⟨_, rfl⟩

/-- A large upload of which `received` has come in, with room for all of it. -/
structure Coming (post : Post) (received : List Byte) (sh : Shared) (pd : Pdata) : Prop where
  loads : Loads post 0 True received sh pd
  status : pd.status = .payloadRecving
  in_ram : pd.in_ram = true
  sound : pd.Sound

omit hwf in
theorem Begun.coming (h : Begun post pd) (hpd : pd.Sound)
    (hroom : post.body.length < sh.ram.length) : Coming post post.header sh pd := by
  refine ⟨⟨h.knows, by rw [h.upload_size]; rfl, fun _ => ?_, ?_⟩, h.status, h.in_ram, hpd⟩
  · rw [drop_length]
    rfl
  · rw [payloadMem, payloadOffset, if_pos h.in_ram, if_pos h.in_ram, Nat.zero_add]
    exact ⟨fun _ => hroom, fun _ => trivial⟩

variable {urih received : List Byte}
  (hurih : httpdFindUriHandler handlers post.uri = some urih) (hcoming : Coming post received sh pd)
include hurih hcoming

variable (rand) in
/-- A segment of the body with more to come. -/
theorem httpdRx_continues (hpre : received ++ data <+: post.text)
    (hmore : received ++ data ≠ post.text) :
    ∃ sh' pd', httpdRx handlers rand sh pd data = some (sh', pd', .wait) ∧
      Stays sh pd sh' pd' .wait ∧ Coming post (received ++ data) sh' pd' := by
  have hrx : httpdRx handlers rand sh pd data = httpdRecvPayload handlers sh pd data := by
    rw [httpdRx, hcoming.status]
  have hloaded := httpdRecvPayload_loaded hwf hurih hcoming.loads hcoming.status hpre
  generalize hr : httpdRecvPayload handlers sh pd data = r at hloaded
  cases hloaded with
  | crashed hnot => exact absurd trivial hnot
  | @waits sh' pd' hstatus hloads _ =>
    have hstays := httpdRecvPayload_stays hcoming.sound hcoming.status hr
    exact ⟨sh', pd', hrx.trans hr, hstays,
      ⟨hloads, hstatus, hstays.in_ram.trans hcoming.in_ram, hstays.sound⟩⟩
  | handled _ hall => exact absurd hall hmore

variable (rand) in
/-- The last segment of the body: the handler is called for the parts as they were sent, and they
lie in the payload. -/
theorem httpdRx_completes (hends : post.ParamsEnd) (hall : received ++ data = post.text) :
    ∃ sh' pd', httpdRx handlers rand sh pd data = some (sh', pd', .call urih) ∧
      Stays sh pd sh' pd' (.call urih) ∧
      pd'.values.map (Value.contents sh'.ram) = post.parts.map Part.contents := by
  have hrx : httpdRx handlers rand sh pd data = httpdRecvPayload handlers sh pd data := by
    rw [httpdRx, hcoming.status]
  have hloaded := httpdRecvPayload_loaded hwf hurih hcoming.loads hcoming.status
    (show received ++ data <+: post.text from hall ▸ prefix_rfl)
  generalize hr : httpdRecvPayload handlers sh pd data = r at hloaded
  cases hloaded with
  | crashed hnot => exact absurd trivial hnot
  | waits _ _ hmore => exact absurd hall (hmore.resolve_left (by simp))
  | handled _ _ _ hhandled =>
    cases hhandled with
    | crashed hnot => exact absurd hends hnot
    | @called sh' pd' hvalues =>
      have hstays := httpdRecvPayload_stays hcoming.sound hcoming.status hr
      have hmem : payloadMem sh' pd' = sh'.ram := if_pos (hstays.in_ram.trans hcoming.in_ram)
      refine ⟨sh', pd', hrx.trans hr, hstays, ?_⟩
      rw [← hmem]
      exact hvalues.mpr hends

end RutosSdk.Uboot.Httpd
