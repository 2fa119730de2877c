import RutosSdk.Uboot.Server

/-! # Runs of the failsafe web server

Reference: `failsafe/failsafe.c` and `net/httpd.c` in `package/boot/uboot-mt7621/src`.

A firmware that is uploaded while nothing else comes in is accepted and flashed as it was sent, in
whatever segments its body comes. In every run of safe steps what is flashed was accepted. When a
second upload is let in while the first one is being received, its bytes can change the first one
between its acceptance and its flashing.
-/

namespace RutosSdk.Uboot.Server

open List Httpd Regions Search Steps

variable {checks : Checks} {s s' : State} {c c' : ℕ} {conn : Conn}

/-! ## Runs -/

/-- A run all of whose steps meet a condition, with the state it ends in. -/
inductive Run (checks : Checks) (p : State → Event → Prop) : State → List Event → State → Prop
  | nil (s : State) : Run checks p s [] s
  | cons {s s₁ s₂ : State} {event : Event} {events : List Event} (hp : p s event)
    (hstep : step checks s event = some s₁) (hrest : Run checks p s₁ events s₂) :
    Run checks p s (event :: events) s₂

variable {events : List Event} {p : State → Event → Prop} {calloc : Bool} {pd : Pdata}
  {rand : Word} {sh : Shared}

theorem Run.append {s₁ s₂ : State} {events' : List Event} (h : Run checks p s events s₁)
    (h' : Run checks p s₁ events' s₂) : Run checks p s (events ++ events') s₂ := by
  induction h with
  | nil s => exact h'
  | cons hp hstep _ ih => exact .cons hp hstep (ih h')

theorem Run.foldl (h : Run checks p s events s') :
    events.foldl (next checks) (some s) = some s' := by
  induction h with
  | nil s => rfl
  | cons _ hstep _ ih =>
    rw [foldl_cons, next, Option.bind_some, hstep]
    exact ih

theorem Run.allSteps {q : Option State → Event → Prop}
    (hq : ∀ s event, p s event → (step checks s event).isSome → q (some s) event)
    (h : Run checks p s events s') : AllSteps (next checks) q (some s) events := by
  induction h with
  | nil s => trivial
  | @cons s s₁ s₂ event events hp hstep _ ih =>
    refine ⟨hq s event hp (by rw [hstep]; rfl), ?_⟩
    rw [next, Option.bind_some, hstep]
    exact ih

/-! ## Single steps -/

theorem step_connect (checks : Checks) (hnone : s.conns c = none) :
    step checks s (.connect c) = some (s.put c (some {})) := by
  simp only [step, hnone]

theorem step_wait (hconn : s.conns c = some conn) {data : List Byte} (hdata : data ≠ [])
    (hrx : httpdRx handlers rand s.sh conn.pd data = some (sh, pd, .wait)) :
    step checks s (.segment c rand calloc data) = some (s.took c conn sh pd) := by
  simp only [step, hconn, if_neg hdata, rx, hrx]

theorem step_call (hconn : s.conns c = some conn) {data : List Byte} (hdata : data ≠ [])
    {urih : List Byte} (hrx : httpdRx handlers rand s.sh conn.pd data = some (sh, pd, .call urih)) :
    step checks s (.segment c rand calloc data)
      = call checks (s.took c conn sh pd) c { conn with pd := pd } calloc urih := by
  simp only [step, hconn, if_neg hdata, rx, hrx]

/-! ## The upload of a firmware -/

/-- The POST uploads an image that passes the checks of a firmware. -/
structure Uploads (checks : Checks) (image : List Byte) (post : Post) : Prop where
  readable : post.Readable
  ends : post.ParamsEnd
  uri : post.uri = str "/flashing"
  part : post.parts.map Part.contents = [(some (str "firmware"), image.length, image)]
  pass : uploadAccepted checks .firmware image image.length = some image.length
  length : post.text.length < U32

/-- `g_state` when the image at the offset was accepted. -/
def known (image : List Byte) (upload_id : Word) (offset : ℕ) : GState where
  upl_tp := .firmware
  upload_data_id := upload_id
  upload_data := some (.ram offset)
  upload_size := image.length
  data_size := image.length

def imageUpdate (image : List Byte) (offset : ℕ) : Update :=
  ⟨.firmware, some (.ram offset), image.length⟩

variable {image : List Byte} {post : Post} (hup : Uploads checks image post)
include hup

theorem Uploads.urih : httpdFindUriHandler handlers post.uri = some (str "/flashing") := by
  rw [hup.uri]
  decide

theorem Uploads.length_le : image.length ≤ post.body.length := by
  obtain ⟨part, rest, hparts, hpart, -⟩ := map_eq_cons_iff.mp hup.part
  have hdata : part.data = image := congrArg (·.2.2) hpart
  have hle := @length_data_le post.boundary post.epilogue part post.parts
    (hparts ▸ mem_cons_self)
  rw [hdata] at hle
  rw [Post.body, bodyOf, length_append]
  omega

theorem Uploads.large : BUF_SIZE ≤ image.length := by
  have hsizes : BUF_SIZE ≤ MIN_UPLOAD_SIZE := by decide
  exact Nat.le_trans hsizes (uploadAccepted_some hup.pass none).1

theorem Uploads.body_ne_nil : post.body ≠ [] := by
  have hpos : 0 < BUF_SIZE := by decide
  have := hup.large
  have := hup.length_le
  rw [← length_pos_iff]
  omega

theorem Uploads.header_ne_text : post.header ≠ post.text := by
  intro heq
  have hlength := congrArg List.length heq
  have hpos := length_pos_iff.mpr hup.body_ne_nil
  rw [length_text_post] at hlength
  omega

/-- The upload begins on a new connection. -/
theorem Uploads.step_header (hconn : s.conns c = some {}) (hfree : s.sh.is_uploading = false)
    (rand : Word) (calloc : Bool) :
    ∃ pd, step checks s (.segment c rand calloc post.header)
        = some (s.took c {} { s.sh with is_uploading := true, upload_id := rand } pd) ∧
      Begun post pd ∧ pd.Sound := by
  have hlarge : BUF_SIZE ≤ post.text.length := by
    have := hup.large
    have := hup.length_le
    rw [length_text_post]
    omega
  obtain ⟨pd, hrx, hbegun⟩ := httpdRx_begins handlers rand hup.readable hlarge hup.length
    hup.body_ne_nil hfree
  have hheader : post.header ≠ [] := by
    rw [← length_pos_iff]
    exact post.header_pos
  exact ⟨pd, step_wait hconn hheader hrx, hbegun, (httpdRx_ends sound_new hrx).2⟩

omit hup

/-- The upload was accepted on the connection, and is in the RAM at the offset. -/
structure Accepted (image : List Byte) (post : Post) (s : State) (c offset : ℕ) (s' : State) :
    Prop where
  place : offset + image.length ≤ post.body.length
  g : s'.g = known image s.sh.upload_id offset
  upload_id : s'.sh.upload_id = s.sh.upload_id
  ram_length : s'.sh.ram.length = s.sh.ram.length
  ram : read s'.sh.ram ⟨offset, image.length⟩ = image
  log : s'.log = .accepted (imageUpdate image offset) image :: s.log
  ids : ∀ id ∈ s'.ids, id = s.sh.upload_id ∨ id ∈ s.ids
  conns : ∃ conn : Conn, s'.conns = Function.update s.conns c (some conn.answered)

/-- What was accepted after a segment with more to come. -/
theorem Accepted.of_took {offset : ℕ} (hid : sh.upload_id = s.sh.upload_id)
    (hlength : sh.ram.length = s.sh.ram.length)
    (h : Accepted image post (s.took c conn sh pd) c offset s') :
    Accepted image post s c offset s' := by
  obtain ⟨conn', hconns⟩ := h.conns
  refine ⟨h.place, h.g.trans ?_, h.upload_id.trans hid, h.ram_length.trans hlength, h.ram, h.log,
    fun id hmem => ?_, conn', hconns.trans ?_⟩
  · exact congrArg (known image · offset) hid
  · rcases h.ids id hmem with heq | hmem
    · exact .inl (heq.trans hid)
    · rcases mem_cons.mp hmem with heq | hmem
      · exact .inl (heq.trans hid)
      · exact .inr hmem
  · simp [State.took, State.put]

variable {received data : List Byte}

/-- What `flashing_handler` makes of the form when the image is in the RAM. -/
theorem Uploads.flashingHandler_eq (hup : Uploads checks image post) {ram : List Byte} {offset : ℕ}
    (hread : read ram ⟨offset, image.length⟩ = image) (buf : List Byte) (upload_id : Word)
    (g : GState) :
    flashingHandler checks (contents ram buf) upload_id g
        [⟨str "firmware", .ram offset, image.length⟩]
      = (known image upload_id offset, .flashing) := by
  simp only [flashingHandler, httpdRequestFindValue, List.find?_cons, decide_true, flashingUpload,
    contents, hread, hup.pass]
  rfl

/-- The last segment of the upload. -/
theorem Uploads.step_last (hup : Uploads checks image post) (hconn : s.conns c = some conn)
    (hcoming : Coming post received s.sh conn.pd) (hdata : data ≠ [])
    (hall : received ++ data = post.text) (hram : s.sh.ram.length + image.length < U32)
    (rand : Word) (calloc : Bool) :
    ∃ offset s', step checks s (.segment c rand calloc data) = some s' ∧
      Accepted image post s c offset s' := by
  obtain ⟨sh, pd, hrx, hstays, hcontents⟩ := httpdRx_completes rand hup.readable hup.urih hcoming
    hup.ends hall
  have hin : pd.in_ram = true := hstays.in_ram.trans hcoming.in_ram
  -- there is one value, with the name, the size and the data of the part
  rw [hup.part] at hcontents
  obtain ⟨v, rest, hvalues, hpart, hrest⟩ := map_eq_cons_iff.mp hcontents
  cases map_eq_nil_iff.mp hrest
  simp only [Value.contents, Prod.mk.injEq] at hpart
  obtain ⟨hname, hsize, hread⟩ := hpart
  obtain ⟨offset, hoffset, hcstr⟩ := Option.map_eq_some_iff.mp hname
  rw [hsize] at hread
  have hform : readValues (payloadPtr c pd) (payloadMem sh pd) pd.values
      = some [⟨str "firmware", .ram v.data, image.length⟩] := by
    rw [hvalues, payloadMem, if_pos hin]
    simp only [readValues, hoffset, hcstr, if_true, payloadPtr, if_pos hin, hsize]
  have hplace : v.data + image.length ≤ post.body.length := by
    have hknows := hcoming.loads.knows
    have hwithin := hstays.values hcoming.in_ram v (hvalues ▸ mem_singleton_self v)
    rw [hknows.values, hknows.payload_size] at hwithin
    have hcases :=
      (hwithin.resolve_left not_mem_nil).size_cases hup.readable.body_length
    omega
  have hcall : call checks (s.took c conn sh pd) c { conn with pd := pd } calloc (str "/flashing")
      = some { s.took c conn sh pd with
          g := known image sh.upload_id v.data
          conns := Function.update (s.took c conn sh pd).conns c
            (some ({ conn with pd := pd } : Conn).answered)
          log := .accepted (imageUpdate image v.data) image :: s.log } := by
    have hsh : (s.took c conn sh pd).sh = sh := rfl
    have hnote : noteAccepted (contents sh.ram pd.buf) (imageUpdate image v.data)
        = .accepted (imageUpdate image v.data) image := congrArg (Note.accepted _) hread
    rw [call, if_pos rfl, callFlashing]
    simp only [hsh, hform, hup.flashingHandler_eq hread, reduceCtorEq, if_false, ← hnote]
    rfl
  refine ⟨v.data, _, (step_call hconn hdata hrx).trans hcall, hplace, ?_, hstays.upload_id,
    hstays.ram_length, hread, rfl, fun id hid => ?_, ⟨{ conn with pd := pd }, ?_⟩⟩
  · exact congrArg (known image · v.data) hstays.upload_id
  · rcases mem_cons.mp hid with rfl | hid
    · exact .inl hstays.upload_id
    · exact .inr hid
  · simp [State.took, State.put]

/-- The segments of the body come in one after the other, and the upload is accepted. -/
theorem Uploads.run_body (hup : Uploads checks image post) {p : State → Event → Prop}
    {rand : Word} {segments : List (List Byte)} (hconn : s.conns c = some conn)
    (hcoming : Coming post received s.sh conn.pd) (hne : [] ∉ segments)
    (hsplit : received ++ segments.flatten = post.text) (hmore : received ≠ post.text)
    (hram : s.sh.ram.length + image.length < U32)
    (hp : ∀ (t : State) (conn : Conn) (data : List Byte), t.conns c = some conn →
      conn.pd.status = .payloadRecving → (∀ id ∈ t.ids, id = s.sh.upload_id ∨ id ∈ s.ids) →
      p t (.segment c rand true data)) :
    ∃ offset s', Run checks p s (segments.map (.segment c rand true ·)) s' ∧
      Accepted image post s c offset s' := by
  induction segments generalizing s conn received with
  | nil => exact absurd (by simpa using hsplit) hmore
  | cons segment segments ih =>
    obtain ⟨hsegment, hne'⟩ : segment ≠ [] ∧ [] ∉ segments :=
      ⟨fun h => hne (h ▸ mem_cons_self), fun h => hne (mem_cons_of_mem _ h)⟩
    have hfirst := hp s conn segment hconn hcoming.status fun id hid => .inr hid
    rw [flatten_cons, ← append_assoc] at hsplit
    by_cases hall : received ++ segment = post.text
    · have hdone : segments = [] := by
        refine eq_nil_of_flatten_eq_nil hne' ?_
        rwa [hall, append_right_eq_self] at hsplit
      obtain ⟨offset, s', hstep, haccepted⟩ :=
        hup.step_last hconn hcoming hsegment hall hram rand true
      rw [hdone]
      exact ⟨offset, s', .cons hfirst hstep (.nil s'), haccepted⟩
    · obtain ⟨sh, pd, hrx, hstays, hcoming'⟩ := httpdRx_continues rand hup.readable hup.urih
        hcoming ⟨_, hsplit⟩ hall
      obtain ⟨offset, s', hrun, haccepted⟩ := ih (s.conns_took_self c conn sh pd) hcoming' hne'
        hsplit hall (by rw [← hstays.ram_length] at hram; exact hram)
        fun t conn' data ht hstatus hold => hp t conn' data ht hstatus fun id hid => by
          rcases hold id hid with heq | hmem
          · exact .inl (heq.trans hstays.upload_id)
          · rcases mem_cons.mp hmem with heq | hmem
            · exact .inl (heq.trans hstays.upload_id)
            · exact .inr hmem
      exact ⟨offset, s', .cons hfirst (step_wait hconn hsegment hrx) hrun,
        haccepted.of_took hstays.upload_id hstays.ram_length⟩

/-! ## The request for the result -/

/-- The request for the result. -/
def getResult : List Byte :=
  str "GET /result HTTP/1.1" ++ (crlf ++ (str "Host: 192.168.1.1" ++ (crlf ++ crlf)))

/-- The session of a request for the result. -/
def asking (pd : Pdata) : Conn := { ({ pd := pd } : Conn).answered with body_sent := some false }

theorem step_getResult (checks : Checks) (hconn : s.conns c = some {}) (rand : Word) :
    ∃ pd, step checks s (.segment c rand true getResult)
      = some ((s.took c {} s.sh pd).put c (some (asking pd))) := by
  have hblank : findSub (crlf ++ crlf) getResult = some 39 := by decide
  have hparse : parseHeader (getResult.take 39) = .ok ⟨.get, str "/result", 0, none⟩ := by
    decide
  have hurih : httpdFindUriHandler handlers (str "/result") = some (str "/result") := by
    decide
  obtain ⟨pd, hrx⟩ : ∃ pd,
      httpdRx handlers rand s.sh {} getResult = some (s.sh, pd, .call (str "/result")) := by
    obtain ⟨pd, -, -, hrx⟩ := httpdRx_header handlers rand s.sh (by decide)
      (by decide) (by decide) hblank hparse
    simp only [httpdHandleRequest, hurih] at hrx
    exact ⟨_, hrx⟩
  refine ⟨pd, (step_call hconn (by decide) hrx).trans ?_⟩
  rw [call, if_neg (by decide), if_pos rfl]
  rfl

/-- The result is asked for, and the upload that is known is flashed. -/
theorem run_ask (checks : Checks) {p : State → Event → Prop} {offset : ℕ} {rand rand' : Word}
    (hnone : s.conns c = none) (hg : s.g = known image s.sh.upload_id offset)
    (hpos : 0 < image.length) (hconnect : p s (.connect c))
    (hsegment : p (s.put c (some {})) (.segment c rand true getResult))
    (hsent : ∀ t, p t (.sent c 0 rand')) :
    ∃ s', Run checks p s [.connect c, .segment c rand true getResult, .sent c 0 rand'] s' ∧
      s'.log = .flashed (imageUpdate image offset)
        (some (read s.sh.ram ⟨offset, image.length⟩)) :: s.log := by
  obtain ⟨pd, hstep⟩ := step_getResult checks (s.conns_put_self c (some {})) rand
  let s₂ := ((s.put c (some {})).took c {} s.sh pd).put c (some (asking pd))
  have hsession : step checks s₂ (.sent c 0 rand')
      = some (callResult s₂ c (asking pd) 0 rand') := by
    simp only [step, show s₂.conns c = some (asking pd) from State.conns_put_self _ c _]
    rfl
  refine ⟨_, .cons hconnect (step_connect checks hnone) (.cons hsegment hstep
    (.cons (hsent _) hsession (.nil _))), ?_⟩
  have hflash : (flashUpload s.sh.upload_id 0 s.g).2 = some (imageUpdate image offset) := by
    rw [hg, flashUpload]
    simp [known, hpos, imageUpdate]
  show ((flashUpload s.sh.upload_id 0 s.g).2.map _).toList ++ s.log = _
  rw [hflash]
  rfl

/-! ## An upload that comes in alone -/

theorem init_quiet (ram : List Byte) (c : ℕ) : ¬(init ram).Receives c := by
  rintro ⟨conn, hconn, -⟩
  cases hconn

theorem quiet_connect (h : ∀ c', ¬s.Receives c') (c' : ℕ) : ¬(s.put c (some {})).Receives c' := by
  intro hc'
  rcases hc'.of_put with ⟨-, conn, hnew, hreceiving⟩ | ⟨-, hold⟩
  · cases hnew
    exact absurd hreceiving.1 (by decide)
  · exact h c' hold

/-- The first segment of a connection, while no upload is being received. -/
theorem guarded_connect (h : ∀ c', ¬s.Receives c') (rand : Word) (calloc : Bool)
    (data : List Byte) : Guarded (s.put c (some {})) (.segment c rand calloc data) := by
  intro conn hconn
  rw [State.conns_put_self] at hconn
  cases hconn
  refine ⟨fun _ ⟨c', hc'⟩ => absurd hc' (quiet_connect h c'), fun hstatus => ?_⟩
  cases hstatus

/-- A segment of a payload that is still coming in. -/
theorem guarded_receiving (hconn : s.conns c = some conn)
    (hstatus : conn.pd.status = .payloadRecving) : Guarded s (.segment c rand calloc data) := by
  intro conn' hconn'
  cases hconn.symm.trans hconn'
  refine ⟨fun hlarge => ?_, fun hfull => ?_⟩
  · rcases hlarge.1 with hheader | hheader <;>
      exact absurd (hstatus.symm.trans hheader) (by decide)
  · exact absurd (hstatus.symm.trans hfull) (by decide)

/-- One upload, and the request for the result. -/
def alone (post : Post) (segments : List (List Byte)) : List Event :=
  [.connect 0, .segment 0 1 true post.header] ++ segments.map (.segment 0 2 true ·)
    ++ [.connect 1, .segment 1 3 true getResult, .sent 1 0 4]

/-- It is accepted and flashed as it was sent, and all steps are safe. -/
theorem Uploads.run_alone (hup : Uploads checks image post) {ram : List Byte}
    (hroom : post.body.length < ram.length) (hram : ram.length + image.length < U32)
    {segments : List (List Byte)} (hne : [] ∉ segments) (hsplit : segments.flatten = post.body) :
    ∃ s offset, Run checks (fun s event => Fresh s event ∧ Guarded s event) (init ram)
        (alone post segments) s ∧
      s.log = [.flashed (imageUpdate image offset) (some image),
        .accepted (imageUpdate image offset) image] := by
  let s₁ := (init ram).put 0 (some {})
  obtain ⟨pd₀, hstep₂, hbegun₀, hsound₀⟩ := @Uploads.step_header checks s₁ 0 image post hup
    (State.conns_put_self _ 0 _) rfl 1 true
  let s₂ := s₁.took 0 {} { s₁.sh with is_uploading := true, upload_id := 1 } pd₀
  have hfresh : ∀ t : State, (∀ id ∈ t.ids, id = 1 ∨ id ∈ [1, -1]) → 2 ∉ t.ids ∧ 3 ∉ t.ids :=
    fun t ht => ⟨fun hid => absurd (ht 2 hid) (by decide), fun hid => absurd (ht 3 hid) (by decide)⟩
  obtain ⟨offset, s₃, hrun₃, haccepted⟩ := @Uploads.run_body checks s₂ 0 { pd := pd₀ } image post
    post.header hup (fun s event => Fresh s event ∧ Guarded s event) 2 segments
    (s₁.conns_took_self 0 {} _ pd₀) (hbegun₀.coming hsound₀ hroom) hne (by rw [hsplit]; rfl)
    hup.header_ne_text hram
    fun t conn data hconn hstatus hids => ⟨(hfresh t hids).1, guarded_receiving hconn hstatus⟩
  obtain ⟨conn₀, hconns⟩ := haccepted.conns
  -- the connection of the upload is the only one, and it has its answer
  have hquiet : ∀ c, ¬s₃.Receives c := by
    rintro c ⟨conn, hconn, hreceiving⟩
    rw [hconns] at hconn
    rcases State.Receives.of_put (s := s₂) ⟨conn, hconn, hreceiving⟩ with
      ⟨-, conn', hnew, hreceiving'⟩ | ⟨hc, hold⟩
    · cases hnew
      exact conn₀.not_receiving_answered hreceiving'
    · rcases hold.of_took with ⟨hc', -⟩ | ⟨-, hold⟩
      · exact hc hc'
      · exact quiet_connect (init_quiet ram) c hold
  have hnone : s₃.conns 1 = none := by
    rw [hconns]
    rfl
  have hpos : 0 < image.length := Nat.lt_of_lt_of_le (by decide) hup.large
  have hg := haccepted.g
  rw [← haccepted.upload_id] at hg
  obtain ⟨s, hrun, hlog⟩ := @run_ask s₃ 1 image checks
    (fun s event => Fresh s event ∧ Guarded s event) offset 3 4 hnone hg hpos ⟨trivial, trivial⟩
    ⟨(hfresh s₃ haccepted.ids).2, guarded_connect hquiet 3 true getResult⟩
    (fun _ => ⟨trivial, trivial⟩)
  have hfresh₂ : (1 : Word) ∉ [-1] := by decide
  refine ⟨s, offset, ?_, ?_⟩
  · refine Run.append (Run.append ?_ hrun₃) hrun
    exact .cons ⟨trivial, trivial⟩ (step_connect _ rfl) <|
      .cons ⟨hfresh₂, guarded_connect (init_quiet ram) 1 true _⟩ hstep₂ (.nil _)
  · rw [hlog, haccepted.ram, haccepted.log]
    rfl

/-! ## A sample upload -/

/-- The image is the one that passes the checks. -/
def sampleChecks : Checks := ⟨fun fw => fw = sampleImage, fun _ => 0, str "RUTM"⟩

theorem imagePost_uploads : Uploads sampleChecks sampleImage imagePost where
  readable := imagePost_readable
  ends := imagePost_paramsEnd
  uri := rfl
  part := rfl
  pass := by
    have hmanifest : sampleChecks.fwtool_validate_manifest sampleImage = true := by
      simp [sampleChecks]
    rw [length_sampleImage, uploadAccepted, if_neg (by decide), if_neg (by decide)]
    simp only [hmanifest, if_true]
  length := by
    rw [length_text_post, length_body_imagePost]
    exact Nat.lt_of_lt_of_le (Nat.add_lt_add_right imagePost_readable.header_length 10303)
      (by decide)

/-- The body of the upload in segments of at most 1460 bytes. -/
def imageSegments : List (List Byte) :=
  (List.range 8).map fun i => (imagePost.body.drop (1460 * i)).take 1460

theorem flatten_pieces {α : Type} (l : List α) (k n : ℕ) :
    ((List.range n).map fun i => (l.drop (k * i)).take k).flatten = l.take (k * n) := by
  induction n with
  | zero => simp
  | succ n ih =>
    rw [range_succ, map_append, flatten_append, ih, Nat.mul_succ, take_add]
    simp

theorem flatten_imageSegments : imageSegments.flatten = imagePost.body := by
  rw [imageSegments, flatten_pieces, take_of_length_le]
  rw [length_body_imagePost]
  decide

theorem nil_not_mem_imageSegments : [] ∉ imageSegments := by
  intro hmem
  obtain ⟨i, hi, hnil⟩ := mem_map.mp hmem
  have hlength := congrArg List.length hnil
  rw [length_take, length_drop, length_body_imagePost, length_nil] at hlength
  have := mem_range.mp hi
  omega

/-- 16 MiB of RAM for uploads. -/
def sampleRam : List Byte := List.replicate 16777216 0

theorem length_sampleRam : sampleRam.length = 16777216 := length_replicate

theorem sampleRam_room : imagePost.body.length < sampleRam.length ∧
    sampleRam.length + sampleImage.length < U32 := by
  rw [length_body_imagePost, length_sampleRam, length_sampleImage]
  decide

/-! ## An upload that is overtaken -/

/-- The header of a small upload. -/
def smallHeader : List Byte :=
  str "POST / HTTP/1.1" ++ (crlf ++ (str "Content-Length: 9" ++ (crlf ++ crlf)))

/-- A small upload begins, and takes the mark of uploads too. -/
theorem step_smallHeader (checks : Checks) (hconn : s.conns c = some {}) (rand : Word)
    (calloc : Bool) : ∃ pd, step checks s (.segment c rand calloc smallHeader)
      = some (s.took c {} { s.sh with is_uploading := true } pd) ∧ pd.is_uploading = true := by
  have hblank : findSub (crlf ++ crlf) smallHeader = some 34 := by decide
  have hparse : parseHeader (smallHeader.take 34) = .ok ⟨.post, str "/", 9, none⟩ := by
    decide
  obtain ⟨pd, hbufsize, hpayload, hrx⟩ := httpdRx_header handlers rand s.sh (by decide)
    (by decide) (by decide) hblank hparse
  have hlength : smallHeader.length = 38 := by decide
  rw [if_pos rfl, placePayload, hpayload, if_pos (by decide), startPayload] at hrx
  dsimp only at hrx
  rw [hbufsize, hlength, if_neg (by decide)] at hrx
  exact ⟨_, step_wait hconn (by decide) hrx, rfl⟩

/-- Bytes that are not those of the image. -/
def junk : List Byte := List.replicate 1460 0x78

theorem length_junk : junk.length = 1460 := length_replicate

/-- They come in as the first bytes of another upload. -/
theorem step_junk (checks : Checks) (hconn : s.conns c = some conn)
    (hbegun : Begun imagePost conn.pd) (hroom : junk.length ≤ s.sh.ram.length) (rand : Word)
    (calloc : Bool) : ∃ pd, step checks s (.segment c rand calloc junk)
      = some (s.took c conn { s.sh with ram := write s.sh.ram ⟨0, junk.length⟩ junk } pd) := by
  have hmore : junk.length < imagePost.body.length := by
    rw [length_junk, length_body_imagePost]
    decide
  have hne : junk ≠ [] := by
    decide
  obtain ⟨pd, hrx⟩ := @Begun.httpdRx_eq handlers rand s.sh conn.pd junk imagePost
    imagePost_readable hbegun hmore hroom
  exact ⟨pd, step_wait hconn hne hrx⟩

/-- A small upload that is broken off lets a second one in while the first is being received. -/
def bothBegin : List Event :=
  [.connect 0, .segment 0 1 true imagePost.header, .connect 1, .segment 1 2 true smallHeader,
    .closed 1, .connect 2, .segment 2 3 true imagePost.header]

/-- Two uploads of the image at a time: the bytes of the second come in when the first was
accepted. -/
def overtaken : List Event :=
  bothBegin ++ imageSegments.map (.segment 0 4 true ·)
    ++ [.segment 2 5 true junk, .connect 3, .segment 3 6 true getResult, .sent 3 0 7]

/-- Both uploads have begun, and nothing of their bodies is there yet. -/
structure BothBegun (ram : List Byte) (pd₀ pd₂ : Pdata) (s : State) : Prop where
  first : s.conns 0 = some { pd := pd₀ }
  second : s.conns 2 = some { pd := pd₂ }
  free : s.conns 3 = none
  begun₀ : Begun imagePost pd₀
  sound₀ : pd₀.Sound
  begun₂ : Begun imagePost pd₂
  ram : s.sh.ram = ram
  upload_id : s.sh.upload_id = 3
  ids : s.ids = [3, 1, 1, -1]
  log : s.log = []

/-- The small upload that is closed takes the mark of the first one away. -/
theorem run_bothBegin (ram : List Byte) : ∃ s pd₀ pd₂,
    Run sampleChecks Fresh (init ram) bothBegin s ∧ BothBegun ram pd₀ pd₂ s := by
  let s₁ := (init ram).put 0 (some {})
  obtain ⟨pd₀, hstep₂, hbegun₀, hsound₀⟩ := @Uploads.step_header _ s₁ 0 _ _ imagePost_uploads
    (State.conns_put_self _ 0 _) rfl 1 true
  let s₂ := s₁.took 0 {} { s₁.sh with is_uploading := true, upload_id := 1 } pd₀
  -- the small upload comes and goes
  let s₃ := s₂.put 1 (some {})
  obtain ⟨pd₁, hstep₄, hmark⟩ := @step_smallHeader s₃ 1 sampleChecks
    (State.conns_put_self _ 1 _) 2 true
  let s₄ := s₃.took 1 {} { s₃.sh with is_uploading := true } pd₁
  let s₅ : State := { s₄.put 1 none with sh := { s₄.sh with is_uploading := false } }
  have hstep₅ : step sampleChecks s₄ (.closed 1) = some s₅ := by
    simp only [step, show s₄.conns 1 = some { pd := pd₁ } from rfl, hmark, if_true]
    rfl
  let s₆ := s₅.put 2 (some {})
  obtain ⟨pd₂, hstep₇, hbegun₂, -⟩ := @Uploads.step_header _ s₆ 2 _ _ imagePost_uploads
    (State.conns_put_self _ 2 _) rfl 3 true
  have hfresh₁ : (1 : Word) ∉ [-1] := by decide
  have hfresh₂ : (2 : Word) ∉ [1, -1] := by decide
  have hfresh₃ : (3 : Word) ∉ [1, 1, -1] := by decide
  refine ⟨s₆.took 2 {} { s₆.sh with is_uploading := true, upload_id := 3 } pd₂, pd₀, pd₂, ?_,
    ⟨rfl, rfl, rfl, hbegun₀, hsound₀, hbegun₂, rfl, rfl, rfl, rfl⟩⟩
  exact .cons trivial (step_connect _ rfl) <| .cons hfresh₁ hstep₂ <|
    .cons trivial (step_connect _ rfl) <| .cons hfresh₂ hstep₄ <| .cons trivial hstep₅ <|
    .cons trivial (step_connect _ rfl) <| .cons hfresh₃ hstep₇ (.nil _)

/-- The numbers of later uploads are fresh. -/
theorem not_mem_of_ids {ids : List Word} (h : ∀ id ∈ ids, id = 3 ∨ id ∈ [3, 1, 1, -1]) :
    4 ∉ ids ∧ 5 ∉ ids ∧ 6 ∉ ids :=
  ⟨fun hid => absurd (h 4 hid) (by decide), fun hid => absurd (h 5 hid) (by decide),
    fun hid => absurd (h 6 hid) (by decide)⟩

/-- The first upload is accepted. -/
theorem BothBegun.run_accepted {ram : List Byte} {pd₀ pd₂ : Pdata} (h : BothBegun ram pd₀ pd₂ s)
    (hroom : imagePost.body.length < ram.length) (hram : ram.length + sampleImage.length < U32) :
    ∃ offset s', Run sampleChecks Fresh s (imageSegments.map (.segment 0 4 true ·)) s' ∧
      Accepted sampleImage imagePost s 0 offset s' := by
  rw [← h.ram] at hroom hram
  refine @Uploads.run_body _ s 0 { pd := pd₀ } _ _ imagePost.header imagePost_uploads Fresh 4
    imageSegments h.first (h.begun₀.coming h.sound₀ hroom) nil_not_mem_imageSegments
    (by rw [flatten_imageSegments]; rfl) imagePost_uploads.header_ne_text hram ?_
  intro t _ _ _ _ hids
  rw [h.upload_id, h.ids] at hids
  exact (not_mem_of_ids hids).1

/-- The bytes of the second upload come in, and are flashed for those of the first. -/
theorem run_overtaken : ∃ s offset, offset + sampleImage.length ≤ imagePost.body.length ∧
    Run sampleChecks Fresh (init sampleRam) overtaken s ∧
    ∃ ram, HoldsAt ram 0 junk ∧
      s.log = [.flashed (imageUpdate sampleImage offset)
          (some (read ram ⟨offset, sampleImage.length⟩)),
        .accepted (imageUpdate sampleImage offset) sampleImage] := by
  obtain ⟨hroom, hram⟩ := sampleRam_room
  have hjunkRoom : junk.length ≤ sampleRam.length := by
    rw [length_junk, length_sampleRam]
    decide
  generalize sampleRam = ram at hroom hram hjunkRoom
  obtain ⟨s₇, pd₀, pd₂, hrun₇, hbegun⟩ := run_bothBegin ram
  obtain ⟨offset, s₈, hrun₈, haccepted⟩ := hbegun.run_accepted hroom hram
  obtain ⟨conn₀, hconns⟩ := haccepted.conns
  have hid₈ : s₈.sh.upload_id = 3 := haccepted.upload_id.trans hbegun.upload_id
  have hids₈ := haccepted.ids
  rw [hbegun.upload_id, hbegun.ids] at hids₈
  obtain ⟨-, hfresh₉, hfresh₁₁⟩ := not_mem_of_ids hids₈
  have hconn₂ : s₈.conns 2 = some { pd := pd₂ } := by
    rw [hconns]
    exact hbegun.second
  have hram₈ : junk.length ≤ s₈.sh.ram.length := by
    rw [haccepted.ram_length, hbegun.ram]
    exact hjunkRoom
  obtain ⟨pd₂', hstep₉⟩ :=
    @step_junk s₈ 2 { pd := pd₂ } sampleChecks hconn₂ hbegun.begun₂ hram₈ 5 true
  let s₉ := s₈.took 2 { pd := pd₂ } { s₈.sh with ram := write s₈.sh.ram ⟨0, junk.length⟩ junk } pd₂'
  have hfresh : 6 ∉ s₉.ids := by
    intro hid
    rcases mem_cons.mp hid with heq | hid
    · exact absurd (heq.trans hid₈) (by decide)
    · exact hfresh₁₁ hid
  have hnone : s₉.conns 3 = none := by
    rw [s₈.conns_took_of_ne (by decide), hconns]
    exact hbegun.free
  have hg : s₉.g = known sampleImage s₉.sh.upload_id offset := by
    rw [show s₉.sh.upload_id = s₇.sh.upload_id from haccepted.upload_id]
    exact haccepted.g
  have hjunk : HoldsAt s₉.sh.ram 0 junk := read_write_self (by simpa using hram₈) rfl
  obtain ⟨s, hrun, hlog⟩ := @run_ask s₉ 3 sampleImage sampleChecks Fresh offset 6 7 hnone hg
    (by rw [length_sampleImage]; decide) trivial hfresh (fun _ => trivial)
  refine ⟨s, offset, haccepted.place,
    (hrun₇.append hrun₈).append (.cons hfresh₉ hstep₉ hrun), s₉.sh.ram, hjunk, ?_⟩
  rw [hlog]
  show _ :: s₈.log = _
  rw [haccepted.log, hbegun.log]

/-! ## What is flashed was accepted -/

/-- In a run of safe steps, whatever is flashed is the upload that was accepted last, byte for
byte. -/
theorem flashes_accepted (checks : Checks) (ram : List Byte) {events : List Event}
    (h : AllSteps (next checks) (Safe checks) (some (init ram)) events) :
    Throughout (next checks) (Right checks) (some (init ram)) events := by
  have hstep : ∀ (s : Option State) (event : Event), (∃ t, s = some t ∧ Kept checks t) →
      Safe checks s event → ∃ t, next checks s event = some t ∧ Kept checks t := by
    rintro _ event ⟨t, rfl, hkept⟩ ⟨⟨t', heq, hfresh, hsome⟩, hguarded⟩
    cases heq
    obtain ⟨t', ht'⟩ := Option.isSome_iff_exists.mp hsome
    exact ⟨t', ht', step_kept hkept hfresh (hguarded t rfl) ht'⟩
  refine (throughout_of_allSteps hstep ⟨init ram, rfl, kept_init ram⟩ h).imp ?_
  rintro s ⟨t, rfl, hkept⟩
  exact ⟨t, rfl, hkept.flashes⟩

/-- The image is uploaded alone, and flashed as it was sent. -/
theorem flashes_accepted_alone :
    AllSteps (next sampleChecks) (Safe sampleChecks) (some (init sampleRam))
        (alone imagePost imageSegments) ∧
      Throughout (next sampleChecks) (Right sampleChecks) (some (init sampleRam))
        (alone imagePost imageSegments) ∧
      ∃ s offset, (alone imagePost imageSegments).foldl (next sampleChecks) (some (init sampleRam))
          = some s ∧
        s.log = [.flashed (imageUpdate sampleImage offset) (some sampleImage),
          .accepted (imageUpdate sampleImage offset) sampleImage] := by
  obtain ⟨s, offset, hrun, hlog⟩ := imagePost_uploads.run_alone sampleRam_room.1 sampleRam_room.2
    nil_not_mem_imageSegments flatten_imageSegments
  have hsafe : AllSteps (next sampleChecks) (Safe sampleChecks) (some (init sampleRam))
      (alone imagePost imageSegments) := by
    refine hrun.allSteps fun t event hp hsome => ⟨⟨t, rfl, hp.1, hsome⟩, fun t' ht' => ?_⟩
    cases ht'
    exact hp.2
  exact ⟨hsafe, flashes_accepted sampleChecks sampleRam hsafe, s, offset, hrun.foldl, hlog⟩

/-- When it is overtaken, the bytes that are flashed are not those that were accepted. -/
theorem flashes_overtaken :
    AllSteps (next sampleChecks) (Plain sampleChecks) (some (init sampleRam)) overtaken ∧
      ¬Throughout (next sampleChecks) (Right sampleChecks) (some (init sampleRam)) overtaken := by
  obtain ⟨s, offset, hplace, hrun, ram, hjunk, hlog⟩ := run_overtaken
  refine ⟨hrun.allSteps fun t event hfresh hsome => ⟨t, rfl, hfresh, hsome⟩, fun h => ?_⟩
  obtain ⟨t, ht, hflashes⟩ := h.last
  cases hrun.foldl.symm.trans ht
  rw [hlog] at hflashes
  obtain ⟨⟨image, hlast, -, hbytes⟩, -⟩ := hflashes
  cases hlast
  rw [length_sampleImage, length_body_imagePost] at hplace
  -- the first byte is one of the second upload
  have hfirst : (read ram ⟨offset, sampleImage.length⟩)[0]? = some 0x78 := by
    have hbyte := hjunk.getElem? (k := offset) (by rw [length_junk]; omega)
    rw [Nat.zero_add] at hbyte
    simp only [Regions.read, List.getElem?_take, List.getElem?_drop, Nat.add_zero,
      length_sampleImage]
    rw [if_pos (by decide), hbyte, junk, List.getElem?_replicate, if_pos (by omega)]
  rw [Option.some.inj hbytes, imageUpdate, take_length, sampleImage,
    List.getElem?_replicate, if_pos (by decide)] at hfirst
  cases hfirst

end RutosSdk.Uboot.Server
