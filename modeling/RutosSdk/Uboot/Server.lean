import RutosSdk.Uboot.FailsafeReport
import RutosSdk.Uboot.HttpdRx

/-! # Uploads over several connections

Reference: `failsafe/failsafe.c` and `net/httpd.c` in `package/boot/uboot-mt7621/src`.

Any number of connections to the failsafe web server are open at the same time, and their segments
come in in any order. All large uploads go to the same RAM. What is flashed is read from there when
the result is asked for, by the place and the size that `flashing_handler` noted when it accepted
the upload. Between the two it is kept by `is_uploading`, which any upload clears that came in
pieces, and by the identifier, which is drawn when the header of a large upload is complete and not
when its bytes come in.
-/

namespace RutosSdk.Uboot.Server

open List Httpd Regions Search Steps

/-! ## Connections and the state of the server -/

/-- A connection, and the session of `result_handler` with whether its answer was sent. -/
structure Conn where
  pd : Pdata := {}
  body_sent : Option Bool := none

/-- What has happened, for the record: an upload was accepted, with the bytes that were checked, or
bytes were handed to a flashing function. -/
inductive Note where
  | accepted (update : Update) (image : List Byte)
  | flashed (update : Update) (bytes : Option (List Byte))

/-- What the connections share, `g_state`, the connections, every identifier so far, and the record,
the newest note first. -/
structure State where
  sh : Shared
  g : GState
  conns : ℕ → Option Conn
  ids : List Word
  log : List Note

/-- The start of the boot loader, with what is in the RAM for uploads. -/
def init (ram : List Byte) : State := ⟨⟨ram, false, -1⟩, {}, fun _ => none, [-1], []⟩

/-- The callbacks of the TCP stack. A connection that the server resets is gone without one, as are
all of them when the stack is stopped. -/
inductive Event where
  | connect (conn : ℕ)
  | segment (conn : ℕ) (rand : Word) (calloc : Bool) (data : List Byte)
  | sent (conn : ℕ) (ret : ℤ) (rand : Word)
  | closed (conn : ℕ)
  | dropped (conn : ℕ)

/-- The handlers that `start_web_failsafe` registers. -/
def handlers : List (List Byte) :=
  [str "/", str "/index.html", str "/uboot.html", str "/cgi-bin/luci", str "/flashing",
    str "/result", str "/style.css", str "/logo.svg", []]

def State.put (s : State) (c : ℕ) (conn : Option Conn) : State :=
  { s with conns := Function.update s.conns c conn }

variable (s : State) (c : ℕ) (conn : Conn)

theorem State.conns_put_self (conn : Option Conn) : (s.put c conn).conns c = conn := by
  simp [State.put]

theorem State.conns_put_of_ne {c c' : ℕ} (h : c' ≠ c) (conn : Option Conn) :
    (s.put c conn).conns c' = s.conns c' := by
  simp [State.put, h]

/-- The server has begun to answer. -/
def Conn.answered (conn : Conn) : Conn := { conn with pd := { conn.pd with status := .responding } }

/-! ## `/flashing` -/

/-- The bytes at a pointer, for the handler of a connection with the buffer `buf`. -/
def contents (ram buf : List Byte) : Ptr → ℕ → List Byte
  | .ram offset, size => read ram ⟨offset, size⟩
  | .buf _ offset, size => read buf ⟨offset, size⟩

/-- Where a value of the form lies. -/
def payloadPtr (pd : Pdata) (offset : ℕ) : Ptr :=
  if pd.in_ram then .ram offset else .buf c offset

/-- The values as far as `flashing_handler` reads them. It looks for a firmware first, and the name
of a value that has none is a null pointer for `strcmp`. -/
def readValues (ptr : ℕ → Ptr) (mem : List Byte) : List Value → Option (List FormValue)
  | [] => some []
  | value :: values =>
    match value.name with
    | none => none
    | some offset =>
      let form : FormValue := ⟨cstr (mem.drop offset), ptr value.data, value.size⟩
      if form.name = str "firmware" then some [form]
      else (readValues ptr mem values).map (form :: ·)

/-- The number of bytes that were checked of an upload; the checksum of a boot loader is not
flashed. -/
def uploadLength (update : Update) : ℕ :=
  if update.tp = .uboot then update.size + CRC_LEN else update.size

/-- The note of an upload that is accepted. -/
def noteAccepted (mem : Ptr → ℕ → List Byte) (update : Update) : Note :=
  .accepted update ((update.data.map (mem · (uploadLength update))).getD [])

variable (checks : Checks)

/-- `flashing_handler`, for a new request. After a redirection the connection is closed without an
answer. -/
def callFlashing (s : State) (c : ℕ) (conn : Conn) : Option State :=
  match readValues (payloadPtr c conn.pd) (payloadMem s.sh conn.pd) conn.pd.values with
  | none => none
  | some values =>
    let mem := contents s.sh.ram conn.pd.buf
    let r := flashingHandler checks mem s.sh.upload_id s.g values
    some { s with
      g := r.1
      conns := Function.update s.conns c
        (some (if r.2 = .redirect then conn else conn.answered))
      log := ((acceptedBy r).map (noteAccepted mem)).toList ++ s.log }

/-! ## `/result` -/

/-- The bytes at a pointer; the buffer of a connection goes with it. -/
def State.bytesAt (s : State) : Ptr → ℕ → Option (List Byte)
  | .ram offset, size => some (read s.sh.ram ⟨offset, size⟩)
  | .buf c offset, size => (s.conns c).map fun conn => read conn.pd.buf ⟨offset, size⟩

/-- `result_handler` with an answer that was not sent yet. The flashing function returns `ret`, and
`rand` is the number that replaces the identifier. -/
def callResult (s : State) (c : ℕ) (conn : Conn) (ret : ℤ) (rand : Word) : State :=
  let r := flashUpload s.sh.upload_id ret s.g
  { s with
    g := (reportResult rand r.1).1
    conns := Function.update s.conns c (some { conn with body_sent := some true })
    log := (r.2.map fun update =>
      .flashed update (update.data.bind (s.bytesAt · update.size))).toList ++ s.log }

/-! ## Callbacks -/

/-- The call of the handler for a new request; all others answer with a page. -/
def call (s : State) (c : ℕ) (conn : Conn) (calloc : Bool) (urih : List Byte) : Option State :=
  if urih = str "/flashing" then callFlashing checks s c conn
  else if urih = str "/result" then
    some (s.put c (some (if calloc then { conn.answered with body_sent := some false } else conn)))
  else some (s.put c (some conn.answered))

/-- The state after `httpd_rx` and before the handler is called. -/
def State.took (sh : Shared) (pd : Pdata) : State :=
  { s.put c (some { conn with pd := pd }) with sh := sh, ids := sh.upload_id :: s.ids }

theorem State.conns_took_self (sh : Shared) (pd : Pdata) :
    (s.took c conn sh pd).conns c = some { conn with pd := pd } := s.conns_put_self c _

theorem State.conns_took_of_ne {c c' : ℕ} (h : c' ≠ c) (conn : Conn) (sh : Shared) (pd : Pdata) :
    (s.took c conn sh pd).conns c' = s.conns c' := s.conns_put_of_ne h _

/-- What `httpd_rx` does with a segment of a connection. -/
def rx (s : State) (c : ℕ) (conn : Conn) (rand : Word) (calloc : Bool) (data : List Byte) :
    Option State :=
  match httpdRx handlers rand s.sh conn.pd data with
  | none => none
  | some (sh, pd, next) =>
    let s := s.took c conn sh pd
    match next with
    | .wait => some s
    | .refused => some (s.put c none)
    | .error _ => some s
    | .serial => some s
    | .call urih => call checks s c { conn with pd := pd } calloc urih

/-- `httpd_tcp_callback`. The rest of a page is sent without a look at the state. -/
def step (s : State) : Event → Option State
  | .connect c =>
    match s.conns c with
    | none => some (s.put c (some {}))
    | some _ => some s
  | .segment c rand calloc data =>
    match s.conns c with
    | none => some s
    | some conn => if data = [] then some s else rx checks s c conn rand calloc data
  | .sent c ret rand =>
    match s.conns c with
    | none => some s
    | some conn =>
      match conn.body_sent with
      | none => some s
      | some false => some (callResult s c conn ret rand)
      | some true => some (s.put c (some { conn with pd := { conn.pd with status := .closing } }))
  | .closed c =>
    match s.conns c with
    | none => some s
    | some conn =>
      some { s.put c none with
        sh := if conn.pd.is_uploading then { s.sh with is_uploading := false } else s.sh }
  | .dropped c => some (s.put c none)

/-- A run goes on as long as the program does. -/
def next (s : Option State) (event : Event) : Option State := s.bind (step checks · event)

/-! ## What is flashed -/

/-- The upload that was accepted last, and the bytes that were checked. -/
def lastAccepted : List Note → Option (Update × List Byte)
  | [] => none
  | .accepted update image :: _ => some (update, image)
  | .flashed _ _ :: log => lastAccepted log

/-- Whatever was flashed is the upload that was accepted last, byte for byte, and these bytes had
passed the checks. -/
def FlashesAccepted : List Note → Prop
  | [] => True
  | .accepted _ _ :: log => FlashesAccepted log
  | .flashed update bytes :: log =>
    (∃ image, lastAccepted log = some (update, image) ∧
      uploadAccepted checks update.tp image (uploadLength update) = some update.size ∧
      bytes = some (image.take update.size)) ∧ FlashesAccepted log

/-- The program is still running, and whatever it flashed was accepted. -/
def Right (s : Option State) : Prop := ∃ t, s = some t ∧ FlashesAccepted checks t.log

/-- The payload of the connection is coming in, and goes to the RAM. -/
def Conn.Receiving : Prop := conn.pd.status = .payloadRecving ∧ conn.pd.in_ram = true

def State.Receives : Prop := ∃ conn, s.conns c = some conn ∧ conn.Receiving

/-- The random number was never an upload identifier before. -/
def Fresh (s : State) : Event → Prop
  | .segment _ rand _ _ => rand ∉ s.ids
  | _ => True

/-- The upload that is known would be flashed now. -/
def State.Armed : Prop := s.g.upl_tp ≠ .unknown ∧ s.g.upload_data_id = s.sh.upload_id

/-- A large upload is announced only while `is_uploading` is set or none is being received, and one
that was handled without an answer is handled again only while none would be flashed and none is
being received. -/
def Guarded (s : State) : Event → Prop
  | .segment c _ _ data => ∀ conn, s.conns c = some conn →
      (Announces conn.pd data → (∃ c', s.Receives c') → s.sh.is_uploading = true) ∧
      (conn.pd.status = .fullRcvd → conn.pd.in_ram = true → ¬s.Armed ∧ ∀ c', ¬s.Receives c')
  | _ => True

/-- A step with a new random number, during which no copy leaves its buffer. -/
def Plain (s : Option State) (event : Event) : Prop :=
  ∃ t, s = some t ∧ Fresh t event ∧ (step checks t event).isSome

/-- Such a step that is also guarded. -/
def Safe (s : Option State) (event : Event) : Prop :=
  Plain checks s event ∧ ∀ t, s = some t → Guarded t event

/-! ## What is kept -/

/-- What holds after every safe step. At most one upload is received at a time, and none while there
is one that would be flashed; that one is in the RAM as it was accepted. -/
structure Kept (s : State) : Prop where
  sound : ∀ c conn, s.conns c = some conn → conn.pd.Sound
  one : ∀ c c', s.Receives c → s.Receives c' → c = c'
  current : s.sh.upload_id ∈ s.ids
  known : s.g.upl_tp ≠ .unknown → s.g.upload_data_id ∈ s.ids
  quiet : s.Armed → ∀ c, ¬s.Receives c
  intact : s.Armed → ∃ offset image, s.g.upload_data = some (.ram offset) ∧
    s.g.data_size = s.g.upload_size ∧
    lastAccepted s.log = some (s.g.update, image) ∧
    uploadAccepted checks s.g.upl_tp image
      (uploadLength s.g.update) = some s.g.upload_size ∧
    read s.sh.ram ⟨offset, s.g.upload_size⟩ = image.take s.g.upload_size
  flashes : FlashesAccepted checks s.log

variable {checks} {s s' : State} {c c' : ℕ} {conn : Conn}

theorem kept_init (ram : List Byte) : Kept checks (init ram) where
  sound _ _ h := by cases h
  one _ _ h := by
    obtain ⟨conn, hconn, -⟩ := h
    cases hconn
  current := mem_singleton_self _
  known h := absurd rfl h
  quiet h := absurd rfl h.1
  intact h := absurd rfl h.1
  flashes := trivial

theorem State.Receives.of_put {new : Option Conn} (h : (s.put c new).Receives c') :
    c' = c ∧ (∃ conn, new = some conn ∧ conn.Receiving) ∨ c' ≠ c ∧ s.Receives c' := by
  obtain ⟨conn, hconn, hreceiving⟩ := h
  by_cases hc : c' = c
  · subst hc
    rw [s.conns_put_self] at hconn
    exact .inl ⟨rfl, conn, hconn, hreceiving⟩
  · rw [s.conns_put_of_ne hc] at hconn
    exact .inr ⟨hc, conn, hconn, hreceiving⟩

/-- A connection is opened, closed, or goes on without receiving anything new. -/
theorem Kept.put (h : Kept checks s) {new : Option Conn}
    (hsound : ∀ conn, new = some conn → conn.pd.Sound)
    (hnew : ∀ conn, new = some conn → conn.Receiving → s.Receives c) :
    Kept checks (s.put c new) := by
  have hreceives : ∀ c', (s.put c new).Receives c' → s.Receives c' := by
    intro c' hc'
    rcases hc'.of_put with ⟨rfl, conn, hconn, hreceiving⟩ | ⟨-, hold⟩
    · exact hnew conn hconn hreceiving
    · exact hold
  refine ⟨fun c' conn hconn => ?_, fun c₁ c₂ h₁ h₂ => ?_, h.current, h.known,
    fun harmed c' hc' => ?_, h.intact, h.flashes⟩
  · by_cases hc : c' = c
    · subst hc
      rw [s.conns_put_self] at hconn
      exact hsound conn hconn
    · rw [s.conns_put_of_ne hc] at hconn
      exact h.sound c' conn hconn
  · exact h.one c₁ c₂ (hreceives c₁ h₁) (hreceives c₂ h₂)
  · exact h.quiet harmed c' (hreceives c' hc')

theorem Kept.put_some (h : Kept checks s) {new : Conn} (hsound : new.pd.Sound)
    (hnew : new.Receiving → s.Receives c) : Kept checks (s.put c (some new)) := by
  refine h.put (fun conn hconn => ?_) fun conn hconn hreceiving => ?_
  · cases hconn
    exact hsound
  · cases hconn
    exact hnew hreceiving

theorem Kept.put_none (h : Kept checks s) (c : ℕ) : Kept checks (s.put c none) := by
  refine h.put (fun conn hconn => ?_) fun conn hconn => ?_ <;> cases hconn

theorem Conn.not_receiving_answered (conn : Conn) : ¬conn.answered.Receiving :=
  fun h => absurd h.1 (by simp [Conn.answered])

/-! ## `flashing_handler` accepts what is in the RAM -/

theorem uploadAccepted_some {tp : UploadTp} {fw : List Byte} {size n : ℕ}
    (h : uploadAccepted checks tp fw size = some n) (data : Option Ptr) :
    MIN_UPLOAD_SIZE ≤ size ∧ size ≤ MAX_UPLOAD_SIZE ∧ uploadLength ⟨tp, data, n⟩ = size ∧
      n ≤ size := by
  have hmin : CRC_LEN ≤ MIN_UPLOAD_SIZE := by decide
  cases tp <;> simp only [uploadAccepted] at h <;> split_ifs at h <;> cases h <;>
    refine ⟨by omega, by omega, ?_, by omega⟩
  · exact if_neg (by simp)
  · exact (if_pos rfl).trans (Nat.sub_add_cancel (by omega))
  · exact if_neg (by simp)

theorem readValues_mem {ptr : ℕ → Ptr} {mem : List Byte} {values : List Value}
    {forms : List FormValue} (h : readValues ptr mem values = some forms) {form : FormValue}
    (hform : form ∈ forms) : ∃ v ∈ values, form.data = ptr v.data ∧ form.size = v.size := by
  induction values generalizing forms with
  | nil =>
    cases h
    exact absurd hform not_mem_nil
  | cons value values ih =>
    rw [readValues] at h
    split at h
    · cases h
    · dsimp only at h
      split_ifs at h
      · cases h
        cases mem_singleton.mp hform
        exact ⟨value, mem_cons_self, rfl, rfl⟩
      · obtain ⟨rest, hrest, rfl⟩ := Option.map_eq_some_iff.mp h
        rcases mem_cons.mp hform with rfl | hform
        · exact ⟨value, mem_cons_self, rfl, rfl⟩
        · obtain ⟨v, hv, heq⟩ := ih hrest hform
          exact ⟨v, mem_cons_of_mem value hv, heq⟩

/-- A value in the buffer of a connection is too small, or its size went below zero. -/
theorem in_ram_of_accepted {tp : UploadTp} {image : List Byte} {size : ℕ} {values : List FormValue}
    {fw : FormValue} (hpd : conn.pd.Sound) {mem : List Byte}
    (hvalues : readValues (payloadPtr c conn.pd) mem conn.pd.values = some values)
    (hfw : fw ∈ values) (hpass : uploadAccepted checks tp image fw.size = some size) :
    conn.pd.in_ram = true ∧ ∃ offset, fw.data = .ram offset := by
  obtain ⟨v, hv, hdata, hsize⟩ := readValues_mem hvalues hfw
  obtain ⟨hmin, hmax, -⟩ := uploadAccepted_some hpass none
  cases hin : conn.pd.in_ram with
  | true =>
    refine ⟨rfl, v.data, ?_⟩
    rw [hdata, payloadPtr, if_pos hin]
  | false =>
    have hmin' : BUF_SIZE < MIN_UPLOAD_SIZE := by decide
    have hmax' : MAX_UPLOAD_SIZE + BUF_SIZE < U32 := by decide
    rcases hpd.values hin v hv with hsmall | hlarge <;> omega

/-- The handler keeps the invariant. -/
theorem callFlashing_kept (h : Kept checks s) (hconn : s.conns c = some conn)
    (hidle : conn.pd.in_ram = true → ∀ c', ¬s.Receives c')
    (hcall : callFlashing checks s c conn = some s') : Kept checks s' := by
  have hsound := h.sound c conn hconn
  unfold callFlashing at hcall
  split at hcall
  · cases hcall
  · rename_i values hvalues
    have hends := flashingHandler_ends checks (contents s.sh.ram conn.pd.buf) s.sh.upload_id s.g
      values
    cases hcall
    generalize flashingHandler checks (contents s.sh.ram conn.pd.buf) s.sh.upload_id s.g values = r
      at hends ⊢
    have hput : Kept checks
        (s.put c (some (if r.2 = .redirect then conn else conn.answered))) := by
      split_ifs
      · exact h.put_some hsound fun hreceiving => ⟨conn, hconn, hreceiving⟩
      · exact h.put_some (hsound.done (.inl rfl)) fun hreceiving =>
          absurd hreceiving conn.not_receiving_answered
    cases hends with
    | @accepted tp fw size htp hfw hpass =>
      obtain ⟨hin, offset, hoffset⟩ := in_ram_of_accepted hsound hvalues hfw hpass
      obtain ⟨-, -, hlength, hle⟩ := uploadAccepted_some hpass (some fw.data)
      refine ⟨hput.sound, hput.one, h.current, fun _ => h.current, fun _ c' hc' => ?_,
        fun _ => ⟨offset, contents s.sh.ram conn.pd.buf fw.data fw.size, ?_, rfl, ?_, ?_, ?_⟩,
        h.flashes⟩
      · rcases State.Receives.of_put hc' with ⟨rfl, conn', hnew, hreceiving⟩ | ⟨-, hold⟩
        · cases hnew
          exact absurd hreceiving conn.not_receiving_answered
        · exact hidle hin c' hold
      · exact congrArg some hoffset
      · show some (_, contents s.sh.ram conn.pd.buf fw.data (uploadLength ⟨tp, _, size⟩)) = _
        rw [hlength]
      · rwa [GState.update, hlength]
      · rw [hoffset]
        show read s.sh.ram ⟨offset, size⟩ = (read s.sh.ram ⟨offset, fw.size⟩).take size
        simp only [Regions.read, take_take, Nat.min_eq_left hle]
    | refused hpage =>
      rw [acceptedBy_of_ne hpage]
      exact ⟨hput.sound, hput.one, h.current, fun hne => absurd rfl hne,
        fun harmed => absurd rfl harmed.1, fun harmed => absurd rfl harmed.1, h.flashes⟩

/-! ## `result_handler` flashes what was accepted -/

/-- Only an upload that is known by the current identifier is flashed. -/
theorem flashUpload_update {upload_id : Word} {ret : ℤ} {g : GState} {update : Update}
    (h : (flashUpload upload_id ret g).2 = some update) (hsize : g.data_size = g.upload_size) :
    update = g.update := by
  unfold flashUpload at h
  split_ifs at h
  · cases htp : g.upl_tp with
    | unknown =>
      simp only [htp] at h
      cases h
    | uboot =>
      simp only [htp] at h
      cases h
      rw [GState.update, htp, hsize]
    | firmware =>
      simp only [htp] at h
      cases h
      rw [GState.update, htp]

theorem armed_of_flashUpload {ret : ℤ} {update : Update}
    (h : (flashUpload s.sh.upload_id ret s.g).2 = some update) : s.Armed := by
  unfold flashUpload at h
  split_ifs at h with hsize hid
  · refine ⟨fun hunknown => ?_, hid.1⟩
    simp only [hunknown] at h
    cases h

theorem callResult_kept (h : Kept checks s) (hconn : s.conns c = some conn) (ret : ℤ)
    (rand : Word) : Kept checks (callResult s c conn ret rand) := by
  have hput : Kept checks (s.put c (some { conn with body_sent := some true })) :=
    h.put_some (h.sound c conn hconn) fun hreceiving => ⟨conn, hconn, hreceiving⟩
  have hunknown : (callResult s c conn ret rand).g.upl_tp = .unknown :=
    Failsafe.reportResult_upl_tp s.sh.upload_id rand ret s.g
  refine ⟨hput.sound, hput.one, h.current, fun hne => absurd hunknown hne,
    fun harmed => absurd hunknown harmed.1, fun harmed => absurd hunknown harmed.1, ?_⟩
  unfold callResult
  dsimp only
  cases hflash : (flashUpload s.sh.upload_id ret s.g).2 with
  | none => exact h.flashes
  | some update =>
    obtain ⟨offset, image, hdata, hsize, hlast, hpass, hread⟩ :=
      h.intact (armed_of_flashUpload hflash)
    cases flashUpload_update hflash hsize
    refine ⟨⟨image, hlast, hpass, ?_⟩, h.flashes⟩
    rw [GState.update, hdata, Option.bind_some, State.bytesAt, hread]

/-! ## Segments -/

variable {pd : Pdata} {sh : Shared}

theorem State.Receives.of_took (h : (s.took c conn sh pd).Receives c') :
    c' = c ∧ pd.status = .payloadRecving ∧ pd.in_ram = true ∨ c' ≠ c ∧ s.Receives c' := by
  rcases State.Receives.of_put (s := s) h with ⟨hc, conn', hnew, hreceiving⟩ | hold
  · cases hnew
    exact .inl ⟨hc, hreceiving⟩
  · exact .inr hold

section

variable (h : Kept checks s)
include h

/-- Bytes go to the RAM while no other upload is being received, and none would be flashed. -/
theorem took_alone {n : Next}
    (hsound : ∀ c' conn', (s.took c conn sh pd).conns c' = some conn' → conn'.pd.Sound)
    (hknown : s.g.upl_tp ≠ .unknown → s.g.upload_data_id ∈ sh.upload_id :: s.ids)
    (hunarmed : ¬(s.took c conn sh pd).Armed) (hnone : ∀ c', c' ≠ c → ¬s.Receives c')
    (hnext : n = .wait ∨ pd.status ≠ .payloadRecving) :
    Kept checks (s.took c conn sh pd) ∧
      (n ≠ .wait → pd.in_ram = true → ∀ c', ¬(s.took c conn sh pd).Receives c') := by
  have honly : ∀ c', (s.took c conn sh pd).Receives c' → c' = c := by
    intro c' hc'
    rcases hc'.of_took with ⟨hc, -⟩ | ⟨hc, hold⟩
    · exact hc
    · exact absurd hold (hnone c' hc)
  refine ⟨⟨hsound, fun c₁ c₂ h₁ h₂ => ?_, mem_cons_self, hknown,
    fun harmed => absurd harmed hunarmed, fun harmed => absurd harmed hunarmed, h.flashes⟩,
    fun hne _ c' hc' => ?_⟩
  · rw [honly c₁ h₁, honly c₂ h₂]
  · rcases hc'.of_took with ⟨-, hstatus, -⟩ | ⟨hc, hold⟩
    · exact (hnext.resolve_left hne) hstatus
    · exact hnone c' hc hold

/-- A segment that is guarded keeps what is kept, and when it ends an upload no other one is being
received. -/
theorem took_kept (hconn : s.conns c = some conn) {rand : Word} {data : List Byte} {n : Next}
    (hfresh : rand ∉ s.ids)
    (hlarge : Announces conn.pd data → (∃ c', s.Receives c') → s.sh.is_uploading = true)
    (hagain : conn.pd.status = .fullRcvd → conn.pd.in_ram = true → ¬s.Armed ∧ ∀ c', ¬s.Receives c')
    (hrx : httpdRx handlers rand s.sh conn.pd data = some (sh, pd, n)) :
    Kept checks (s.took c conn sh pd) ∧
      (n ≠ .wait → pd.in_ram = true → ∀ c', ¬(s.took c conn sh pd).Receives c') := by
  obtain ⟨hends, hpd⟩ := httpdRx_ends (h.sound c conn hconn) hrx
  have hsound : ∀ c' conn', (s.took c conn sh pd).conns c' = some conn' → conn'.pd.Sound := by
    intro c' conn' hconn'
    by_cases hc : c' = c
    · subst hc
      cases (s.conns_put_self c' _).symm.trans hconn'
      exact hpd
    · exact h.sound c' conn' ((s.conns_put_of_ne hc _).symm.trans hconn')
  have hknown : s.g.upl_tp ≠ .unknown → s.g.upload_data_id ∈ sh.upload_id :: s.ids :=
    fun hne => mem_cons_of_mem _ (h.known hne)
  cases hends with
  | idle hstatus =>
    -- the connection is as it was
    have hreceives : ∀ c', (s.took c conn s.sh conn.pd).Receives c' → s.Receives c' := by
      intro c' hc'
      rcases hc'.of_took with ⟨rfl, hreceiving⟩ | ⟨-, hold⟩
      · exact ⟨conn, hconn, hreceiving⟩
      · exact hold
    refine ⟨⟨hsound, fun c₁ c₂ h₁ h₂ => ?_, mem_cons_self, hknown, fun harmed c' hc' => ?_,
      h.intact, h.flashes⟩, fun hne => absurd rfl hne⟩
    · exact h.one c₁ c₂ (hreceives c₁ h₁) (hreceives c₂ h₂)
    · exact h.quiet harmed c' (hreceives c' hc')
  | apart hram hid hin =>
    have hreceives : ∀ c', (s.took c conn sh pd).Receives c' → s.Receives c' := by
      intro c' hc'
      rcases hc'.of_took with ⟨-, -, hout⟩ | ⟨-, hold⟩
      · exact absurd (hin.symm.trans hout) (by decide)
      · exact hold
    have harmed' : (s.took c conn sh pd).Armed → s.Armed := fun harmed =>
      ⟨harmed.1, harmed.2.trans hid⟩
    refine ⟨⟨hsound, fun c₁ c₂ h₁ h₂ => ?_, mem_cons_self, hknown, fun harmed c' hc' => ?_,
      fun harmed => ?_, h.flashes⟩, fun _ hout => absurd (hin.symm.trans hout) (by decide)⟩
    · exact h.one c₁ c₂ (hreceives c₁ h₁) (hreceives c₂ h₂)
    · exact h.quiet (harmed' harmed) c' (hreceives c' hc')
    · have hintact := h.intact (harmed' harmed)
      rwa [← hram] at hintact
  | began hannounces hfree hid hnext =>
    -- no other upload is being received, and the identifier is new
    have hnone : ∀ c', ¬s.Receives c' := fun c' hc' =>
      absurd ((hlarge hannounces ⟨c', hc'⟩).symm.trans hfree) (by decide)
    have hunarmed : ¬(s.took c conn sh pd).Armed := fun harmed => by
      have hold : s.g.upload_data_id = rand := harmed.2.trans hid
      exact hfresh (hold ▸ h.known harmed.1)
    exact took_alone h hsound hknown hunarmed (fun c' _ => hnone c') hnext
  | wentOn hstatus hin hid hnext =>
    have harmed' : (s.took c conn sh pd).Armed → s.Armed := fun harmed =>
      ⟨harmed.1, harmed.2.trans hid⟩
    rcases hstatus with hstatus | hstatus
    · have hreceives : s.Receives c := ⟨conn, hconn, hstatus, hin⟩
      exact took_alone h hsound hknown (fun harmed => h.quiet (harmed' harmed) c hreceives)
        (fun c' hc hc' => hc (h.one c' c hc' hreceives)) hnext
    · obtain ⟨hunarmed, hnone⟩ := hagain hstatus hin
      exact took_alone h hsound hknown (fun harmed => hunarmed (harmed' harmed))
        (fun c' _ => hnone c') hnext

theorem call_kept (hconn : s.conns c = some conn)
    (hidle : conn.pd.in_ram = true → ∀ c', ¬s.Receives c') {calloc : Bool} {urih : List Byte}
    (hcall : call checks s c conn calloc urih = some s') : Kept checks s' := by
  have hsound := h.sound c conn hconn
  have hanswered : ∀ body_sent : Option Bool,
      Kept checks (s.put c (some { conn.answered with body_sent := body_sent })) := fun _ =>
    h.put_some (hsound.done (.inl rfl)) fun hreceiving =>
      absurd hreceiving conn.not_receiving_answered
  unfold call at hcall
  split_ifs at hcall with hflashing hresult hcalloc
  · exact callFlashing_kept h hconn hidle hcall
  · cases hcall
    exact hanswered (some false)
  · cases hcall
    exact h.put_some hsound fun hreceiving => ⟨conn, hconn, hreceiving⟩
  · cases hcall
    exact hanswered conn.body_sent

theorem rx_kept (hconn : s.conns c = some conn) {rand : Word} {calloc : Bool} {data : List Byte}
    (hfresh : rand ∉ s.ids)
    (hlarge : Announces conn.pd data → (∃ c', s.Receives c') → s.sh.is_uploading = true)
    (hagain : conn.pd.status = .fullRcvd → conn.pd.in_ram = true → ¬s.Armed ∧ ∀ c', ¬s.Receives c')
    (hrx : rx checks s c conn rand calloc data = some s') : Kept checks s' := by
  unfold rx at hrx
  split at hrx
  · cases hrx
  · rename_i sh pd n hn
    obtain ⟨hkept, hidle⟩ := took_kept h hconn hfresh hlarge hagain hn
    split at hrx
    · cases hrx
      exact hkept
    · cases hrx
      exact hkept.put_none c
    · cases hrx
      exact hkept
    · cases hrx
      exact hkept
    · exact call_kept hkept (s.conns_put_self c _) (hidle (by simp)) hrx

/-! ## Steps -/

/-- A safe step keeps what is kept. -/
theorem step_kept {event : Event} (hfresh : Fresh s event) (hguarded : Guarded s event)
    (hstep : step checks s event = some s') : Kept checks s' := by
  cases event with
  | connect c =>
    simp only [step] at hstep
    split at hstep <;> cases hstep
    · exact h.put_some sound_new fun hreceiving => absurd hreceiving.1 (by decide)
    · exact h
  | segment c rand calloc data =>
    simp only [step] at hstep
    split at hstep
    · cases hstep
      exact h
    · rename_i conn hconn
      obtain ⟨hlarge, hagain⟩ := hguarded conn hconn
      split_ifs at hstep
      · cases hstep
        exact h
      · exact rx_kept h hconn hfresh hlarge hagain hstep
  | sent c ret rand =>
    simp only [step] at hstep
    split at hstep
    · cases hstep
      exact h
    · rename_i conn hconn
      split at hstep <;> cases hstep
      · exact h
      · exact callResult_kept h hconn ret rand
      · exact h.put_some ((h.sound c conn hconn).done (.inr rfl)) fun hreceiving =>
          absurd hreceiving.1 (by simp)
  | closed c =>
    simp only [step] at hstep
    split at hstep <;> cases hstep
    · exact h
    · have hput := h.put_none c
      split_ifs
      · exact ⟨hput.sound, hput.one, hput.current, hput.known, hput.quiet, hput.intact,
          hput.flashes⟩
      · exact hput
  | dropped c =>
    cases hstep
    exact h.put_none c

end

end RutosSdk.Uboot.Server
