import RutosSdk.Uboot.Post

/-! # A POST in segments

Reference: `net/httpd.c` in `package/boot/uboot-mt7621/src`.

The segments of one connection come in one after the other. Up to the end of the header they are
collected in the buffer. A payload that does not fit there is copied into the RAM from the segment
that ends the header, as if that segment were the whole header: when the header came in several
segments the offset into the segment is wrong, and bytes of the payload are lost or the copy is as
long as the difference of two lengths that went below zero.
-/

namespace RutosSdk.Uboot.Httpd

open List Regions Search

/-! ## Runs of one connection -/

/-- The buffer that holds the payload. -/
def payloadMem (sh : Shared) (pd : Pdata) : List Byte := if pd.in_ram then sh.ram else pd.buf

/-- A call of a handler: the URI that it is registered for, and the form values. -/
structure Called where
  urih : List Byte
  values : List (Option (List Byte) × ℕ × List Byte)
deriving DecidableEq

variable (handlers : List (List Byte)) (rand : Word) (responds : Bool)

/-- The calls of handlers while the segments of a connection come in. A handler that gives no
response leaves the connection as it was. -/
def receive (sh : Shared) (pd : Pdata) : List (List Byte) → Option (List Called)
  | [] => some []
  | segment :: segments =>
    match httpdRx handlers rand sh pd segment with
    | none => none
    | some (sh, pd, .wait) => receive sh pd segments
    | some (_, _, .refused) => some []
    | some (sh, pd, .error _) => receive sh pd segments
    | some (sh, pd, .serial) => receive sh pd segments
    | some (sh, pd, .call urih) =>
      (receive sh (if responds then { pd with status := .responding } else pd) segments).map
        (⟨urih, pd.values.map (Value.contents (payloadMem sh pd))⟩ :: ·)

/-- The parameters that the server reads end where they are cut off. -/
def Post.ParamsEnd (post : Post) : Prop :=
  post.type.BoundaryEnds ∧ ∀ part ∈ post.parts, part.NameEnds

/-- The request as a whole fits into the buffer; or no other upload is received, the header is in
the first segment, and the RAM has room for the body. -/
def Post.Fits (sh : Shared) (segments : List (List Byte)) (post : Post) : Prop :=
  post.text.length < BUF_SIZE ∨
    sh.is_uploading = false ∧ (∀ segment ∈ segments.head?, post.header.length ≤ segment.length) ∧
      post.text.length < U32 ∧ post.body.length < sh.ram.length

/-! ## Where the payload is -/

/-- Where the payload begins in its buffer. -/
def payloadOffset (pd : Pdata) : ℕ := if pd.in_ram then 0 else pd.upload_offset

/-- The buffer of the payload replaced. -/
def withPayloadMem (sh : Shared) (pd : Pdata) (mem : List Byte) : Shared × Pdata :=
  if pd.in_ram then ({ sh with ram := mem }, pd) else (sh, { pd with buf := mem })

variable {post : Post} {urih received segment : List Byte} {segments : List (List Byte)} {lost : ℕ}
  {room : Prop} {sh : Shared} {pd : Pdata}

theorem payloadMem_of_ram (h : pd.in_ram = true) : payloadMem sh pd = sh.ram := if_pos h

theorem payloadMem_of_buf (h : ¬pd.in_ram = true) : payloadMem sh pd = pd.buf := if_neg h

/-- The payload is in the RAM or in the buffer of the connection. -/
theorem payload_cases (sh : Shared) (pd : Pdata) :
    (pd.in_ram = true ∧ payloadMem sh pd = sh.ram ∧ payloadOffset pd = 0 ∧
      withPayloadMem sh pd = fun mem => ({ sh with ram := mem }, pd)) ∨
    (¬pd.in_ram = true ∧ payloadMem sh pd = pd.buf ∧ payloadOffset pd = pd.upload_offset ∧
      withPayloadMem sh pd = fun mem => (sh, { pd with buf := mem })) := by
  by_cases hram : pd.in_ram = true
  · exact .inl ⟨hram, payloadMem_of_ram hram, if_pos hram, funext fun _ => if_pos hram⟩
  · exact .inr ⟨hram, payloadMem_of_buf hram, if_neg hram, funext fun _ => if_neg hram⟩

theorem payloadMem_with (sh : Shared) (pd : Pdata) (mem : List Byte) :
    payloadMem (withPayloadMem sh pd mem).1 (withPayloadMem sh pd mem).2 = mem := by
  rcases payload_cases sh pd with ⟨hram, -, -, hwith⟩ | ⟨hram, -, -, hwith⟩
  · rw [hwith]
    exact payloadMem_of_ram hram
  · rw [hwith]
    exact payloadMem_of_buf hram

theorem payloadOffset_with (sh : Shared) (pd : Pdata) (mem : List Byte) :
    payloadOffset (withPayloadMem sh pd mem).2 = payloadOffset pd := by
  rcases payload_cases sh pd with ⟨-, -, -, hwith⟩ | ⟨-, -, -, hwith⟩
  · rw [hwith]
  · rw [hwith]
    rfl

/-- A call that changes the buffer of the payload, as the source writes it for each place. -/
theorem map_withPayloadMem (f : List Byte → ℕ → Option (List Byte)) (sh : Shared) (pd : Pdata)
    (i : ℕ) :
    (if pd.in_ram then (f sh.ram i).map fun mem => ({ sh with ram := mem }, pd)
      else (f pd.buf (pd.upload_offset + i)).map fun mem => (sh, { pd with buf := mem }))
      = (f (payloadMem sh pd) (payloadOffset pd + i)).map (withPayloadMem sh pd) := by
  rcases payload_cases sh pd with ⟨hram, hmem, hoffset, hwith⟩ | ⟨hram, hmem, hoffset, hwith⟩
  · rw [if_pos hram, hmem, hoffset, hwith, Nat.zero_add]
  · rw [if_neg hram, hmem, hoffset, hwith]

theorem endPayload_eq (sh : Shared) (pd : Pdata) :
    endPayload sh pd = (poke (payloadMem sh pd) (payloadOffset pd + pd.payload_size) 0).map
      (withPayloadMem sh pd) :=
  map_withPayloadMem (fun mem i => poke mem i 0) sh pd pd.payload_size

/-! ## A complete request -/

/-- What becomes of a request that is complete: its handler is called, with the parts as they were
sent if the parameters end where they are cut off. -/
inductive Handled (post : Post) (urih : List Byte) : Option (Shared × Pdata × Next) → Prop
  | crashed (h : ¬post.ParamsEnd) : Handled post urih none
  | called {sh : Shared} {pd : Pdata}
    (h : pd.values.map (Value.contents (payloadMem sh pd)) = post.parts.map Part.contents ↔
      post.ParamsEnd) : Handled post urih (some (sh, pd, .call urih))

/-- The fields of a request, as the header gave them. -/
structure Knows (post : Post) (pd : Pdata) : Prop where
  method : pd.method = .post
  uri : pd.uri = post.uri
  boundary : pd.boundary = some (post.type.readBoundary post.boundary)
  payload_size : pd.payload_size = post.body.length
  values : pd.values = []

theorem withPayloadMem_snd (sh : Shared) (pd : Pdata) (mem : List Byte) :
    ∃ buf, (withPayloadMem sh pd mem).2 = { pd with buf := buf } := by
  rcases payload_cases sh pd with ⟨-, -, -, hwith⟩ | ⟨-, -, -, hwith⟩
  · exact ⟨pd.buf, by rw [hwith]⟩
  · exact ⟨mem, by rw [hwith]⟩

theorem Knows.with (h : Knows post pd) (sh : Shared) (mem : List Byte) :
    Knows post (withPayloadMem sh pd mem).2 := by
  obtain ⟨buf, hbuf⟩ := withPayloadMem_snd sh pd mem
  rw [hbuf]
  exact { h with }

variable (hwf : post.Readable)

include hwf in
theorem parseForm_post {mem : List Byte} {start : ℕ} (hmem : HoldsAt mem start post.body) :
    (parseForm (post.type.readBoundary post.boundary) mem start post.body.length [] = none ∧
      ¬post.ParamsEnd) ∨
    ∃ mem' values,
      parseForm (post.type.readBoundary post.boundary) mem start post.body.length []
        = some (mem', values) ∧
      (values.map (Value.contents mem') = post.parts.map Part.contents ↔ post.ParamsEnd) := by
  obtain ⟨hreturn, hfeed, -⟩ := hwf.boundary
  by_cases hends : post.type.BoundaryEnds
  · have hread : post.type.readBoundary post.boundary = post.boundary := by
      unfold TypeField.readBoundary
      split
      · rfl
      · rename_i hquoted
        rw [hends (Bool.eq_false_iff.mpr hquoted), append_nil]
    obtain ⟨mem', values, hform, hvalues⟩ :=
      parseForm_contents hwf.parts ⟨hreturn, hfeed⟩ hwf.literal.parts hwf.count hwf.body_length hmem
    rw [hread]
    exact .inr ⟨mem', values, hform, hvalues.trans ⟨fun h => ⟨hends, h⟩, fun h => h.2⟩⟩
  · obtain ⟨hquoted, hafter⟩ : post.type.quoted = false ∧ post.type.after ≠ [] := by
      rwa [TypeField.BoundaryEnds, Classical.not_imp] at hends
    obtain ⟨c, more, hcons⟩ := exists_cons_of_ne_nil hafter
    have hc : c ≠ 0x0d ∧ c ≠ 0x0a ∧ c ≠ 0x2d := by
      rcases hwf.type.end_of_boundary hquoted c (by rw [hcons]; rfl) with rfl | rfl | rfl <;> decide
    have hread : post.type.readBoundary post.boundary = post.boundary ++ c :: more := by
      rw [TypeField.readBoundary, hquoted, hcons]
      rfl
    have hnot : ¬post.ParamsEnd := fun h => hends h.1
    rw [hread]
    rcases parseForm_misread hwf.parts ⟨hreturn, hfeed⟩ hwf.epilogue hc more hmem with hnone | hsome
    · exact .inl ⟨hnone, hnot⟩
    · refine .inr ⟨mem, [], hsome, fun heq => ?_, fun h => absurd h hnot⟩
      exact absurd (map_eq_nil_iff.mp heq.symm) hwf.some_part

variable {handlers} (hurih : httpdFindUriHandler handlers post.uri = some urih)

include hwf hurih in
theorem httpdHandleRequest_post (hknows : Knows post pd)
    (hmem : HoldsAt (payloadMem sh pd) (payloadOffset pd) post.body) :
    Handled post urih (httpdHandleRequest handlers sh pd) := by
  unfold httpdHandleRequest
  simp only [hknows.method, hknows.uri, hknows.boundary, hknows.payload_size, hknows.values, hurih]
  rcases payload_cases sh pd with ⟨hram, hpayload, hoffset, -⟩ | ⟨hram, hpayload, hoffset, -⟩ <;>
    rw [hpayload, hoffset] at hmem <;>
    rcases parseForm_post hwf hmem with ⟨hnone, hnot⟩ | ⟨mem', values, hform, hvalues⟩
  · rw [if_pos hram, hnone]
    exact .crashed hnot
  · rw [if_pos hram, hform]
    exact .called (by rwa [payloadMem_of_ram (by exact hram)])
  · rw [if_neg hram, hnone]
    exact .crashed hnot
  · rw [if_neg hram, hform]
    exact .called (by rwa [payloadMem_of_buf (by exact hram)])

/-! ## A payload that comes in -/

/-- The payload of a request of which `received` has come in. Of its bytes `lost` were passed over,
and `room` says whether the buffer has room for the body and the zero behind it. -/
structure Loads (post : Post) (lost : ℕ) (room : Prop) (received : List Byte) (sh : Shared)
    (pd : Pdata) : Prop where
  knows : Knows post pd
  upload_size : post.header.length + pd.upload_size + lost = received.length
  holds : lost = 0 →
    HoldsAt (payloadMem sh pd) (payloadOffset pd) (received.drop post.header.length)
  room : room ↔ payloadOffset pd + post.body.length < (payloadMem sh pd).length

/-- What becomes of a payload with the next segment. -/
inductive Loaded (post : Post) (urih : List Byte) (lost : ℕ) (room : Prop) (received : List Byte) :
    Option (Shared × Pdata × Next) → Prop
  | crashed (h : ¬room) : Loaded post urih lost room received none
  | waits {sh : Shared} {pd : Pdata} (hstatus : pd.status = .payloadRecving)
    (h : Loads post lost room received sh pd) (hmore : lost ≠ 0 ∨ received ≠ post.text) :
    Loaded post urih lost room received (some (sh, pd, .wait))
  | handled {r : Option (Shared × Pdata × Next)} (hlost : lost = 0) (hall : received = post.text)
    (hroom : room) (h : Handled post urih r) : Loaded post urih lost room received r

theorem length_text_post (post : Post) :
    post.text.length = post.header.length + post.body.length := length_append

/-- The payload is complete when nothing is missing and nothing was lost. -/
theorem Loads.complete_iff (h : Loads post lost room received sh pd)
    (hpre : received <+: post.text) :
    pd.upload_size = pd.payload_size ↔ lost = 0 ∧ received = post.text := by
  have hsize := h.upload_size
  have hlen := length_text_post post
  have hle := hpre.length_le
  rw [h.knows.payload_size]
  constructor
  · intro heq
    exact ⟨by omega, hpre.eq_of_length (by omega)⟩
  · rintro ⟨rfl, rfl⟩
    omega

theorem drop_header (post : Post) : post.text.drop post.header.length = post.body := drop_left

include hwf hurih in
/-- The request is handled when its payload is complete. Which connection is uploading plays no
part. -/
theorem Loads.handled (h : Loads post 0 room post.text sh pd) (hroom : room) :
    ∃ sh' pd', endPayload sh pd = some (sh', pd') ∧ ∀ uploading flag,
      Handled post urih (httpdHandleRequest handlers { sh' with is_uploading := uploading }
        { pd' with status := .fullRcvd, is_uploading := flag }) := by
  have hfits := h.room.mp hroom
  have hbody := h.holds rfl
  rw [drop_header] at hbody
  have hend : payloadOffset pd + post.body.length + 1 ≤ (payloadMem sh pd).length := hfits
  have hmem : HoldsAt (write (payloadMem sh pd) ⟨payloadOffset pd + post.body.length, 1⟩ [0])
      (payloadOffset pd) post.body :=
    (changesOnly_write hend rfl).holds hbody (.inl (Nat.le_refl _))
  have hpoke : poke (payloadMem sh pd) (payloadOffset pd + post.body.length) 0
      = some (write (payloadMem sh pd) ⟨payloadOffset pd + post.body.length, 1⟩ [0]) :=
    memcpy_eq hend
  rw [endPayload_eq, h.knows.payload_size, hpoke, Option.map_some]
  generalize write (payloadMem sh pd) ⟨payloadOffset pd + post.body.length, 1⟩ [0] = mem at hmem
  have hknows := h.knows.with sh mem
  rw [← payloadMem_with sh pd mem, ← payloadOffset_with sh pd mem] at hmem
  generalize withPayloadMem sh pd mem = r at hknows hmem
  exact ⟨r.1, r.2, rfl, fun _ _ => httpdHandleRequest_post hwf hurih { hknows with } hmem⟩

theorem Loads.endPayload_eq_none (h : Loads post lost room received sh pd) (hroom : ¬room) :
    endPayload sh pd = none := by
  rw [h.room] at hroom
  have hpoke : poke (payloadMem sh pd) (payloadOffset pd + post.body.length) 0 = none :=
    if_neg hroom
  rw [endPayload_eq, h.knows.payload_size, hpoke, Option.map_none]

include hwf hurih in
/-- The end of `httpd_recv_hdr` for a payload, as far as it has come with the header. -/
theorem startPayload_loaded (h : Loads post lost room received sh pd)
    (hpre : received <+: post.text) :
    Loaded post urih lost room received (startPayload handlers sh pd) := by
  have hcomplete := h.complete_iff hpre
  unfold startPayload
  split_ifs with hsize
  · obtain ⟨rfl, rfl⟩ := hcomplete.mp hsize
    by_cases hroom : room
    · obtain ⟨sh', pd', hend, hhandled⟩ := h.handled hwf hurih hroom
      rw [hend]
      exact .handled rfl rfl hroom (hhandled sh'.is_uploading pd'.is_uploading)
    · rw [h.endPayload_eq_none hroom]
      exact .crashed hroom
  · refine .waits rfl ⟨{ h.knows with }, h.upload_size, h.holds, h.room⟩ ?_
    by_contra hnot
    exact hsize (hcomplete.mpr (by tauto))

theorem httpdRecvPayload_eq (sh : Shared) (pd : Pdata) {data : List Byte}
    (hdata : data.length ≤ (pd.payload_size + U32 - pd.upload_size) % U32) :
    httpdRecvPayload handlers sh pd data
      = match (memcpy (payloadMem sh pd) (payloadOffset pd + pd.upload_size) data).map
          (withPayloadMem sh pd) with
        | none => none
        | some (sh, pd) =>
          if pd.upload_size + data.length = pd.payload_size then
            match endPayload sh { pd with upload_size := pd.upload_size + data.length } with
            | none => none
            | some (sh, pd) => httpdHandleRequest handlers { sh with is_uploading := false }
                { pd with status := .fullRcvd, is_uploading := false }
          else some (sh, { pd with upload_size := pd.upload_size + data.length }, .wait) := by
  have hall : data.take (min ((pd.payload_size + U32 - pd.upload_size) % U32) data.length) = data :=
    take_of_length_le (Nat.le_min.mpr ⟨hdata, Nat.le_refl _⟩)
  rw [← map_withPayloadMem (fun mem i => memcpy mem i data)]
  dsimp only [httpdRecvPayload]
  rw [hall]
  generalize hsize : min ((pd.payload_size + U32 - pd.upload_size) % U32) data.length = size
  obtain rfl : data.length = size := by rw [← hsize, Nat.min_eq_right hdata]
  rfl

/-- The buffer of the payload with one more segment in it. -/
def appended (sh : Shared) (pd : Pdata) (segment : List Byte) : List Byte :=
  write (payloadMem sh pd) ⟨payloadOffset pd + pd.upload_size, segment.length⟩ segment

/-- The segment is copied behind what was there. -/
theorem Loads.copied (h : Loads post lost room received sh pd)
    (hfits : payloadOffset pd + pd.upload_size + segment.length ≤ (payloadMem sh pd).length) :
    Loads post lost room (received ++ segment) (withPayloadMem sh pd (appended sh pd segment)).1
      { (withPayloadMem sh pd (appended sh pd segment)).2 with
        upload_size := (withPayloadMem sh pd (appended sh pd segment)).2.upload_size
          + segment.length } := by
  have hchanges : ChangesOnly ⟨payloadOffset pd + pd.upload_size, segment.length⟩ (payloadMem sh pd)
      (appended sh pd segment) := changesOnly_write hfits rfl
  have hwritten : HoldsAt (appended sh pd segment) (payloadOffset pd + pd.upload_size) segment :=
    read_write_self hfits rfl
  generalize appended sh pd segment = mem at hchanges hwritten
  have hknows := h.knows.with sh mem
  have hmem := payloadMem_with sh pd mem
  have hoffset := payloadOffset_with sh pd mem
  have hsize : (withPayloadMem sh pd mem).2.upload_size = pd.upload_size := by
    obtain ⟨buf, hbuf⟩ := withPayloadMem_snd sh pd mem
    rw [hbuf]
  generalize withPayloadMem sh pd mem = r at hknows hmem hoffset hsize
  have hreceived := h.upload_size
  refine ⟨{ hknows with }, ?_, ?_, ?_⟩
  · rw [length_append]
    dsimp only
    omega
  · rintro rfl
    show HoldsAt (payloadMem r.1 r.2) (payloadOffset r.2) _
    have hdrop : (received.drop post.header.length).length = pd.upload_size := by
      rw [length_drop]
      omega
    rw [hmem, hoffset, drop_append_of_le_length (by omega)]
    refine holdsAt_append.mpr ⟨hchanges.holds (h.holds rfl) (.inl ?_), ?_⟩
    · rw [hdrop]
    · rwa [hdrop]
  · show room ↔ payloadOffset r.2 + _ < (payloadMem r.1 r.2).length
    rw [hmem, hoffset, hchanges.length]
    exact h.room

include hwf hurih in
/-- A segment of the payload. -/
theorem httpdRecvPayload_loaded (h : Loads post lost room received sh pd)
    (hstatus : pd.status = .payloadRecving) (hpre : received ++ segment <+: post.text) :
    Loaded post urih lost room (received ++ segment) (httpdRecvPayload handlers sh pd segment) := by
  have hlen := hpre.length_le
  rw [length_append, length_text_post] at hlen
  have hsize := h.upload_size
  have hbody := hwf.body_length
  have hdata : segment.length ≤ (pd.payload_size + U32 - pd.upload_size) % U32 := by
    rw [h.knows.payload_size, show post.body.length + U32 - pd.upload_size
      = post.body.length - pd.upload_size + U32 by omega, Nat.add_mod_right,
      Nat.mod_eq_of_lt (by omega)]
    omega
  rw [httpdRecvPayload_eq sh pd hdata]
  by_cases hfits : payloadOffset pd + pd.upload_size + segment.length ≤ (payloadMem sh pd).length
  · have hnext := h.copied hfits
    have hcomplete := hnext.complete_iff hpre
    obtain ⟨buf, hbuf⟩ := withPayloadMem_snd sh pd (appended sh pd segment)
    rw [memcpy_eq hfits, Option.map_some, ← appended]
    generalize withPayloadMem sh pd (appended sh pd segment) = r at hnext hcomplete hbuf
    dsimp only
    split_ifs with hsize
    · obtain ⟨rfl, hall⟩ := hcomplete.mp hsize
      rw [hall] at hnext ⊢
      by_cases hroom : room
      · obtain ⟨sh', pd', hend, hhandled⟩ := hnext.handled hwf hurih hroom
        rw [hend]
        exact .handled rfl rfl hroom (hhandled false false)
      · rw [hnext.endPayload_eq_none hroom]
        exact .crashed hroom
    · refine .waits ?_ hnext ?_
      · rw [hbuf]
        exact hstatus
      · by_contra hnot
        exact hsize (hcomplete.mpr (by tauto))
  · have hcopy : memcpy (payloadMem sh pd) (payloadOffset pd + pd.upload_size) segment = none :=
      if_neg hfits
    rw [hcopy, Option.map_none]
    refine .crashed fun hroom => hfits ?_
    have := h.room.mp hroom
    omega

/-- The one call that delivers a request. -/
def Post.delivery (post : Post) (urih : List Byte) : List Called :=
  [⟨urih, post.parts.map Part.contents⟩]

theorem eq_nil_of_flatten_eq_nil (hne : [] ∉ segments)
    (h : segments.flatten = []) : segments = [] := by
  cases segments with
  | nil => rfl
  | cons segment segments =>
    rw [flatten_eq_nil_iff] at h
    exact absurd (h segment mem_cons_self ▸ mem_cons_self) hne

variable {rand responds}

/-- What a segment makes of a payload, and the rest of the run. -/
theorem Loaded.receive_iff {r : Option (Shared × Pdata × Next)}
    (hloaded : Loaded post urih lost room received r)
    (hrx : httpdRx handlers rand sh pd segment = r) (hne : [] ∉ segments)
    (hsplit : received ++ segments.flatten = post.text)
    (hrest : ∀ sh pd, pd.status = .payloadRecving → Loads post lost room received sh pd →
      lost ≠ 0 ∨ received ≠ post.text →
      (receive handlers rand responds sh pd segments = some (post.delivery urih) ↔
        lost = 0 ∧ room ∧ post.ParamsEnd)) :
    receive handlers rand responds sh pd (segment :: segments) = some (post.delivery urih) ↔
      lost = 0 ∧ room ∧ post.ParamsEnd := by
  rw [receive, hrx]
  cases hloaded with
  | crashed hroom => exact ⟨fun h => absurd h (by simp), fun h => absurd h.2.1 hroom⟩
  | waits hstatus hloads hmore => exact hrest _ _ hstatus hloads hmore
  | handled hlost hall hroom hhandled =>
    have hdone : segments = [] := by
      refine eq_nil_of_flatten_eq_nil hne ?_
      rwa [hall, append_right_eq_self] at hsplit
    rw [hdone]
    cases hhandled with
    | crashed hnot => exact ⟨fun h => absurd h (by simp), fun h => absurd h.2.2 hnot⟩
    | called hvalues =>
      simp only [receive, Option.map_some, Option.some.injEq, Post.delivery, List.cons.injEq,
        Called.mk.injEq, true_and, and_true, hvalues]
      exact ⟨fun h => ⟨hlost, hroom, h⟩, fun h => h.2.2⟩

include hwf hurih in
/-- The payload of a request comes in: the request is delivered when no byte was lost, there is
room, and the parameters end where they are cut off. -/
theorem receive_loads (hne : [] ∉ segments) (hsplit : received ++ segments.flatten = post.text)
    (hstatus : pd.status = .payloadRecving) (h : Loads post lost room received sh pd)
    (hmore : lost ≠ 0 ∨ received ≠ post.text) :
    receive handlers rand responds sh pd segments = some (post.delivery urih) ↔
      lost = 0 ∧ room ∧ post.ParamsEnd := by
  induction segments generalizing received sh pd with
  | nil =>
    have hlost : lost ≠ 0 := by
      rcases hmore with hlost | hmore
      · exact hlost
      · exact absurd (by rwa [flatten_nil, append_nil] at hsplit) hmore
    exact ⟨fun h => absurd h (by simp [receive, Post.delivery]), fun h => absurd h.1 hlost⟩
  | cons segment segments ih =>
    rw [flatten_cons, ← append_assoc] at hsplit
    have hne' : [] ∉ segments := fun hmem => hne (mem_cons_of_mem segment hmem)
    have hrx : httpdRx handlers rand sh pd segment = httpdRecvPayload handlers sh pd segment := by
      rw [httpdRx, hstatus]
    exact (httpdRecvPayload_loaded hwf hurih h hstatus ⟨_, hsplit⟩).receive_iff hrx hne' hsplit
      fun sh pd hstatus hloads hmore => ih hne' hsplit hstatus hloads hmore

/-! ## The header -/

/-- The part of a header that has come in so far. -/
structure Collects (received : List Byte) (pd : Pdata) : Prop where
  status : pd.status = .new ∨ pd.status = .headerRecving
  buf_length : pd.buf.length = BUF_SIZE
  bufsize : pd.bufsize = received.length
  holds : HoldsAt pd.buf 0 received
  values : pd.values = []

theorem collects_new : Collects [] {} where
  status := .inl rfl
  buf_length := length_replicate
  bufsize := rfl
  holds := rfl
  values := rfl

/-- A chunk is put behind what was there, with a zero behind it. -/
theorem collect_holds {buf : List Byte} (chunk : List Byte) (hbuf : buf.length = BUF_SIZE)
    (hmem : HoldsAt buf 0 received) (hlen : received.length + chunk.length < BUF_SIZE) :
    ∃ buf', (memcpy buf received.length chunk).bind (poke · (received.length + chunk.length) 0)
        = some buf' ∧
      buf'.length = BUF_SIZE ∧ HoldsAt buf' 0 (received ++ chunk ++ [0]) := by
  have hcopy : received.length + chunk.length ≤ buf.length := by omega
  have hchanges : ChangesOnly ⟨received.length, chunk.length⟩ buf
      (write buf ⟨received.length, chunk.length⟩ chunk) := changesOnly_write hcopy rfl
  have hwritten : HoldsAt (write buf ⟨received.length, chunk.length⟩ chunk) received.length chunk :=
    read_write_self hcopy rfl
  have hfirst := hchanges.holds hmem (.inl (by omega))
  rw [memcpy_eq hcopy, Option.bind_some]
  generalize write buf ⟨received.length, chunk.length⟩ chunk = mem at hchanges hwritten hfirst
  have hmemlen := hchanges.length
  have hpoke : received.length + chunk.length + 1 ≤ mem.length := by omega
  have hzero : ChangesOnly ⟨received.length + chunk.length, 1⟩ mem
      (write mem ⟨received.length + chunk.length, 1⟩ [0]) := changesOnly_write hpoke rfl
  have hlast : HoldsAt (write mem ⟨received.length + chunk.length, 1⟩ [0])
      (received.length + chunk.length) [0] := read_write_self hpoke rfl
  refine ⟨write mem ⟨received.length + chunk.length, 1⟩ [0], memcpy_eq hpoke, ?_, ?_⟩
  · rw [hzero.length, hchanges.length, hbuf]
  · refine holdsAt_append.mpr ⟨hzero.holds (holdsAt_append.mpr ⟨hfirst, ?_⟩) (.inl ?_), ?_⟩
    · rwa [Nat.zero_add]
    · rw [length_append, Nat.zero_add]
    · rwa [length_append, Nat.zero_add]

theorem ne_serial {l : List Byte} (h : l.head? = some 0x50) : l ≠ str "REQUEST SERIAL" := by
  rintro rfl
  exact absurd h (by decide)

theorem Post.header_pos (post : Post) : ([] : List Byte).length < post.header.length := by
  rw [Post.header, length_append]
  exact Nat.lt_of_lt_of_le (by decide) (Nat.le_add_left _ _)

theorem head?_header (post : Post) : post.header.head? = some 0x50 := rfl

include hwf in
theorem Post.Readable.zero_not_mem_header : 0 ∉ post.header :=
  not_mem_append hwf.no_zero (by decide)

include hwf in
/-- Before its end the header has no blank line. -/
theorem Post.Readable.findSub_eq_none {l : List Byte} (hpre : l <+: post.header)
    (hlen : l.length < post.header.length) : findSub (crlf ++ crlf) l = none := by
  cases hfind : findSub (crlf ++ crlf) l with
  | none => rfl
  | some i =>
    obtain ⟨rest, hrest⟩ := hpre
    have hle := length_le_of_findSub hfind
    have hfirst : findSub (crlf ++ crlf) (l ++ rest) = some i := findSub_append hfind
    rw [hrest, hwf.blank_line] at hfirst
    have hheader : post.header.length = post.head.length + (crlf ++ crlf).length :=
      length_append
    have := Option.some.inj hfirst
    omega

variable (handlers rand sh) in
/-- A segment that does not end the header. -/
theorem httpdRecvHdr_waits (hwf : post.Readable) (h : Collects received pd)
    (hne : segment ≠ []) (hpre : received ++ segment <+: post.header)
    (hlen : (received ++ segment).length < post.header.length) :
    ∃ pd', httpdRecvHdr handlers rand sh pd segment = some (sh, pd', .wait) ∧
      Collects (received ++ segment) pd' := by
  have hheader := hwf.header_length
  have hsize : min segment.length (BUF_SIZE - pd.bufsize - 1) = segment.length := by
    rw [h.bufsize]
    rw [length_append] at hlen
    omega
  obtain ⟨buf, hcollect, hbuf, hholds⟩ := collect_holds segment h.buf_length h.holds
    (by rw [length_append] at hlen; omega)
  have hcstr : cstr buf = received ++ segment := by
    rw [← drop_zero (l := buf)]
    exact cstr_of_holds hholds fun hzero => hwf.zero_not_mem_header (hpre.subset hzero)
  have hhead : (received ++ segment).head? = some 0x50 := by
    obtain ⟨rest, hrest⟩ := hpre
    have hpost := head?_header post
    rw [← hrest, List.head?_append_of_ne_nil _ (by simp [hne])] at hpost
    exact hpost
  have hblank : strstr (cstr buf) (crlf ++ crlf) = none := by
    rw [hcstr]
    exact hwf.findSub_eq_none hpre hlen
  rw [← h.bufsize] at hcollect
  refine ⟨{ pd with status := .headerRecving, buf := buf, bufsize := pd.bufsize + segment.length },
    ?_, .inr rfl, hbuf, by rw [length_append, ← h.bufsize], ?_, h.values⟩
  · unfold httpdRecvHdr
    dsimp only
    rw [hsize, take_length, hcollect]
    dsimp only
    rw [hblank, hcstr, if_neg (ne_serial hhead)]
    rw [if_pos rfl]
  · exact (holdsAt_append.mp hholds).1

variable (handlers rand sh) in
/-- A segment that ends the header. -/
theorem httpdRecvHdr_places (hwf : post.Readable) (h : Collects received pd)
    (hstill : received.length < post.header.length) (hpre : post.header <+: received ++ segment) :
    ∃ pd', httpdRecvHdr handlers rand sh pd segment
        = placePayload handlers rand sh pd' post.header.length segment ∧
      Knows post pd' ∧ pd'.buf.length = BUF_SIZE ∧
      pd'.bufsize = min (received ++ segment).length (BUF_SIZE - 1) ∧
      HoldsAt pd'.buf 0 ((received ++ segment).take (BUF_SIZE - 1)) := by
  have hheader := hwf.header_length
  generalize hchunk : segment.take (min segment.length (BUF_SIZE - pd.bufsize - 1)) = chunk
  have hlen : chunk.length = min segment.length (BUF_SIZE - pd.bufsize - 1) := by
    rw [← hchunk, length_take]
    omega
  have htake : received ++ chunk = (received ++ segment).take (BUF_SIZE - 1) := by
    rw [take_append, take_of_length_le (l := received) (by omega), ← hchunk, h.bufsize,
      append_cancel_left_eq, take_eq_take_iff]
    omega
  obtain ⟨buf, hcollect, hbuf, hholds⟩ := collect_holds chunk h.buf_length h.holds
    (by rw [hlen, h.bufsize]; omega)
  obtain ⟨payload, hpayload⟩ : post.header <+: received ++ chunk := by
    rw [htake]
    exact prefix_take_iff.mpr ⟨hpre, by omega⟩
  have hstart : HoldsAt buf 0 post.header := by
    rw [← hpayload, append_assoc, holdsAt_append] at hholds
    exact hholds.1
  have hbytes : buf = post.header ++ buf.drop post.header.length := by
    simpa using hstart.drop_eq
  have hcstr : cstr buf = post.header ++ cstr (buf.drop post.header.length) := by
    rw [hbytes, cstr_append hwf.zero_not_mem_header, drop_left]
  have hblank : strstr (cstr buf) (crlf ++ crlf) = some post.head.length := by
    rw [hcstr]
    exact findSub_append hwf.blank_line
  have hhead : buf.take post.head.length = post.head := by
    rw [hbytes, Post.header, append_assoc]
    exact take_left
  have hserial : cstr buf ≠ str "REQUEST SERIAL" := by
    refine ne_serial ?_
    rw [hcstr]
    rfl
  rw [← h.bufsize, hlen] at hcollect
  refine ⟨{ pd with
    status := .headerRecving, buf := buf, bufsize := pd.bufsize + chunk.length, uri := post.uri
    boundary := some (post.type.readBoundary post.boundary), payload_size := post.body.length
    method := .post }, ?_, ⟨rfl, rfl, rfl, rfl, h.values⟩, hbuf, ?_, ?_⟩
  · unfold httpdRecvHdr
    dsimp only
    rw [hchunk, hcollect]
    dsimp only
    rw [if_neg hserial, hblank]
    dsimp only
    rw [hhead, hwf.parseHeader_eq]
    dsimp only
    rw [if_pos rfl, hlen, show post.header.length = post.head.length + 4 from length_append]
  · dsimp only
    rw [hlen, h.bufsize, length_append]
    omega
  · rw [← htake]
    exact (holdsAt_append.mp hholds).1

/-- The request fits, with the header in the segment that comes after `received`. -/
def Post.FitsBehind (sh : Shared) (received : List Byte) (post : Post) : Prop :=
  post.text.length < BUF_SIZE ∨
    sh.is_uploading = false ∧ received = [] ∧ post.text.length < U32 ∧
      post.body.length < sh.ram.length

/-- What becomes of the payload that came with the end of the header. -/
inductive Placed (post : Post) (urih : List Byte) (fits : Prop) (received : List Byte) :
    Option (Shared × Pdata × Next) → Prop
  | crashed (h : ¬fits) : Placed post urih fits received none
  | refused {sh : Shared} {pd : Pdata} (h : ¬fits) :
    Placed post urih fits received (some (sh, pd, .refused))
  | loaded {lost : ℕ} {room : Prop} {r : Option (Shared × Pdata × Next)}
    (h : Loaded post urih lost room received r) (hfits : lost = 0 ∧ room ↔ fits) :
    Placed post urih fits received r

/-- A payload for the buffer of the connection. -/
theorem loads_buf (hwf : post.Readable) (hknows : Knows post pd) (hbuf : pd.buf.length = BUF_SIZE)
    (hbufsize : pd.bufsize = min received.length (BUF_SIZE - 1))
    (hholds : HoldsAt pd.buf 0 (received.take (BUF_SIZE - 1)))
    (hend : post.header.length ≤ received.length) :
    Loads post (received.length - pd.bufsize) (post.text.length < BUF_SIZE) received sh
      { pd with
        in_ram := false, upload_offset := post.header.length
        upload_size := pd.bufsize - post.header.length } := by
  have hheader := hwf.header_length
  have hlen := length_text_post post
  refine ⟨{ hknows with }, ?_, ?_, ?_⟩
  · dsimp only
    omega
  · intro hlost
    have hall : received.take (BUF_SIZE - 1) = received := take_of_length_le (by omega)
    rw [hall, ← take_append_drop post.header.length received, holdsAt_append] at hholds
    have hplace := hholds.2
    rwa [length_take_of_le hend, Nat.zero_add] at hplace
  · show _ ↔ post.header.length + post.body.length < pd.buf.length
    rw [hbuf, hlen]

/-- A payload for the RAM, of which the segment that ends the header has the bytes. -/
theorem loads_ram {ram : List Byte} (hknows : Knows post pd)
    (hend : post.header.length ≤ segment.length)
    (hram : HoldsAt ram 0 (segment.drop post.header.length)) :
    Loads post received.length (post.body.length < ram.length) (received ++ segment)
      { sh with ram := ram, upload_id := rand }
      { pd with in_ram := true, upload_size := segment.length - post.header.length } := by
  refine ⟨{ hknows with }, ?_, ?_, ?_⟩
  · rw [length_append]
    dsimp only
    omega
  · intro hlost
    rw [eq_nil_of_length_eq_zero hlost, nil_append]
    exact hram
  · show _ ↔ 0 + post.body.length < ram.length
    rw [Nat.zero_add]

/-- A request that is not taken for a small one fits behind what was received if that is nothing, no
other upload is being received, and the RAM has room. -/
theorem Post.Readable.fitsBehind_iff (hwf : post.Readable)
    (hlarge : ¬post.text.length % U32 < BUF_SIZE) :
    post.FitsBehind sh received
      ↔ sh.is_uploading = false ∧ received = [] ∧ post.body.length < sh.ram.length := by
  have hheader := hwf.header_length
  have hbody := hwf.body_length
  have hlen := length_text_post post
  have hsizes : BUF_SIZE < U32 := by decide
  constructor
  · rintro (hfits | ⟨hidle, hnil, -, hroom⟩)
    · rw [Nat.mod_eq_of_lt (by omega)] at hlarge
      exact absurd hfits hlarge
    · exact ⟨hidle, hnil, hroom⟩
  · rintro ⟨hidle, hnil, hroom⟩
    refine .inr ⟨hidle, hnil, ?_, hroom⟩
    by_contra hlong
    rw [Nat.mod_eq_sub_mod (by omega), Nat.mod_eq_of_lt (by omega)] at hlarge
    omega

variable (rand sh) in
/-- The payload is placed right exactly if the request fits behind what was received. -/
theorem placePayload_placed (hwf : post.Readable)
    (hurih : httpdFindUriHandler handlers post.uri = some urih)
    (hknows : Knows post pd) (hbuf : pd.buf.length = BUF_SIZE)
    (hbufsize : pd.bufsize = min (received ++ segment).length (BUF_SIZE - 1))
    (hholds : HoldsAt pd.buf 0 ((received ++ segment).take (BUF_SIZE - 1)))
    (hend : post.header.length ≤ (received ++ segment).length)
    (hpre : received ++ segment <+: post.text) :
    Placed post urih (post.FitsBehind sh received) (received ++ segment)
      (placePayload handlers rand sh pd post.header.length segment) := by
  have hlen := length_text_post post
  have hle := hpre.length_le
  have hsum : post.header.length + pd.payload_size = post.text.length := by
    rw [hknows.payload_size, hlen]
  unfold placePayload
  split_ifs with hsmall huploading hshort
  · refine .loaded (startPayload_loaded hwf hurih
      (loads_buf hwf hknows hbuf hbufsize hholds hend) hpre) ?_
    rw [hsum] at hsmall
    constructor
    · exact fun h => .inl h.2
    · rintro (hfits | ⟨-, -, hfits, -⟩)
      · exact ⟨by omega, hfits⟩
      · rw [Nat.mod_eq_of_lt hfits] at hsmall
        exact ⟨by omega, hsmall⟩
  · rw [hsum] at hsmall
    rw [hwf.fitsBehind_iff hsmall]
    exact .refused fun h => absurd (huploading.symm.trans h.1) (by decide)
  · rw [hsum] at hsmall
    rw [hwf.fitsBehind_iff hsmall]
    refine .crashed ?_
    rintro ⟨-, rfl, -⟩
    exact absurd hend (by rw [nil_append]; omega)
  · rw [hsum] at hsmall
    rw [hwf.fitsBehind_iff hsmall]
    have hdrop : (segment.drop post.header.length).length = segment.length - post.header.length :=
      length_drop
    by_cases hcopy : 0 + (segment.drop post.header.length).length ≤ sh.ram.length
    · rw [memcpy_eq hcopy]
      refine .loaded (startPayload_loaded hwf hurih
        (loads_ram hknows (by omega) (read_write_self hcopy rfl)) hpre) ?_
      rw [length_write hcopy rfl]
      constructor
      · rintro ⟨hlost, hroom⟩
        exact ⟨Bool.eq_false_iff.mpr huploading, eq_nil_of_length_eq_zero hlost, hroom⟩
      · rintro ⟨-, rfl, hroom⟩
        exact ⟨rfl, hroom⟩
    · have hnone : memcpy sh.ram 0 (segment.drop post.header.length) = none := if_neg hcopy
      rw [hnone]
      refine .crashed ?_
      rintro ⟨-, rfl, hroom⟩
      rw [nil_append] at hle
      omega

theorem httpdRx_collects (h : Collects received pd) (segment : List Byte) :
    httpdRx handlers rand sh pd segment = httpdRecvHdr handlers rand sh pd segment := by
  rcases h.status with hstatus | hstatus <;> rw [httpdRx, hstatus]

include hwf hurih in
/-- After the segment that ends the header, the request is delivered exactly if its payload was
placed right. -/
theorem Placed.receive_iff {fits : Prop} {r : Option (Shared × Pdata × Next)}
    (h : Placed post urih fits (received ++ segment) r)
    (hr : httpdRx handlers rand sh pd segment = r) (hne : [] ∉ segments)
    (hsplit : received ++ segment ++ segments.flatten = post.text) :
    receive handlers rand responds sh pd (segment :: segments) = some (post.delivery urih) ↔
      post.ParamsEnd ∧ fits := by
  cases h with
  | crashed hnot =>
    rw [receive, hr]
    exact ⟨fun h => absurd h (by simp), fun h => absurd h.2 hnot⟩
  | refused hnot =>
    rw [receive, hr]
    exact ⟨fun h => absurd h (by simp [Post.delivery]), fun h => absurd h.2 hnot⟩
  | loaded hloaded hfits =>
    rw [hloaded.receive_iff hr hne hsplit fun sh pd hstatus hloads hmore =>
      receive_loads hwf hurih hne hsplit hstatus hloads hmore]
    constructor
    · rintro ⟨hlost, hroom, hends⟩
      exact ⟨hends, hfits.mp ⟨hlost, hroom⟩⟩
    · rintro ⟨hends, hplace⟩
      obtain ⟨hlost, hroom⟩ := hfits.mpr hplace
      exact ⟨hlost, hroom, hends⟩

include hwf hurih in
/-- The header comes in, and the payload behind it. -/
theorem receive_collects (hne : [] ∉ segments) (hsplit : received ++ segments.flatten = post.text)
    (h : Collects received pd) (hstill : received.length < post.header.length) :
    receive handlers rand responds sh pd segments = some (post.delivery urih) ↔
      post.ParamsEnd ∧ (post.FitsBehind sh received ∧
        (post.text.length < BUF_SIZE ∨
          ∀ segment ∈ segments.head?, post.header.length ≤ segment.length)) := by
  induction segments generalizing received pd with
  | nil =>
    have hlen := congrArg List.length hsplit
    rw [flatten_nil, append_nil, length_text_post] at hlen
    omega
  | cons segment segments ih =>
    have hsegment : segment ≠ [] := fun hnil => hne (hnil ▸ mem_cons_self)
    have hne' : [] ∉ segments := fun hmem => hne (mem_cons_of_mem segment hmem)
    rw [flatten_cons, ← append_assoc] at hsplit
    have hpre : received ++ segment <+: post.text := ⟨_, hsplit⟩
    have hheader : post.header <+: post.text := prefix_append _ _
    rcases Nat.lt_or_ge (received ++ segment).length post.header.length with hshort | hend
    · -- the header goes on in the next segment
      obtain ⟨pd', hrx, hcollects⟩ := httpdRecvHdr_waits handlers rand sh hwf h hsegment
        (prefix_of_prefix_length_le hpre hheader (Nat.le_of_lt hshort)) hshort
      have hrun : receive handlers rand responds sh pd (segment :: segments)
          = receive handlers rand responds sh pd' segments := by
        rw [receive, httpdRx_collects h, hrx]
      rw [hrun, ih hne' hsplit hcollects hshort]
      rw [length_append] at hshort
      refine and_congr_right fun _ => ⟨?_, ?_⟩
      · rintro ⟨hfits | ⟨-, hnil, -⟩, -⟩
        · exact ⟨.inl hfits, .inl hfits⟩
        · exact absurd (append_eq_nil_iff.mp hnil).2 hsegment
      · rintro ⟨-, hfits | hfirst⟩
        · exact ⟨.inl hfits, .inl hfits⟩
        · exact absurd (hfirst segment rfl) (by omega)
    · obtain ⟨pd', hrx, hknows, hbuf, hbufsize, hholds⟩ := httpdRecvHdr_places handlers rand sh
        hwf h hstill (prefix_of_prefix_length_le hheader hpre hend)
      rw [← httpdRx_collects h] at hrx
      have hplaced :=
        placePayload_placed rand sh hwf hurih hknows hbuf hbufsize hholds hend hpre
      rw [← hrx] at hplaced
      rw [hplaced.receive_iff hwf hurih rfl hne' hsplit]
      refine and_congr_right fun _ => ⟨fun hplace => ⟨hplace, ?_⟩, And.left⟩
      rcases hplace with hfits | ⟨-, rfl, -⟩
      · exact .inl hfits
      · refine .inr fun s hs => ?_
        cases hs
        exact hend

/-- An image of the least size that is accepted. -/
def sampleImage : List Byte := List.replicate 10240 0

/-- The image as an upload. -/
def imagePost : Post where
  uri := str "/flashing"
  query := []
  version := str "HTTP/1.1"
  length := ⟨[], str "Content-Length:", [0x20], str "10303",
    crlf ++ str "Content-Type: multipart/form-data; boundary=b"⟩
  type := ⟨str "Content-Length: 10303" ++ crlf, str "Content-Type:", str " multipart/form-data; ",
    str "boundary=", false, [], []⟩
  boundary := str "b"
  parts := [⟨str "Content-Disposition: form-data; ", str "name=", str "firmware", true, [],
    sampleImage⟩]
  epilogue := []

theorem length_sampleImage : sampleImage.length = 10240 := length_replicate

theorem length_body_imagePost : imagePost.body.length = 10303 := by
  simp only [imagePost, Post.body, bodyOf, bodyRest, length_append, length_text, length_sampleImage]
  decide

theorem imagePost_readable : imagePost.Readable where
  uri := by decide
  query := by decide
  line := by decide
  no_zero := by decide
  blank_line := by decide
  header_length := by decide
  fields := by decide
  length := by
    rw [length_body_imagePost]
    exact ⟨by decide, by decide, by decide, by decide, by decide, by decide⟩
  type := ⟨by decide, by decide, by decide, by decide, by decide, .inl rfl⟩
  boundary := by decide
  parts := by
    intro part hpart
    cases mem_singleton.mp hpart
    refine ⟨by decide, by decide, by decide, by decide,
      by decide, by decide, ?_, fun hinside => ?_⟩
    · decide
    · have hmem : (0x62 : Byte) ∈ List.replicate 10240 0 := hinside.subset mem_cons_self
      exact absurd (eq_of_mem_replicate hmem) (by decide)
  some_part := cons_ne_nil _ _
  count := by decide
  epilogue := .inl rfl
  body_length := by
    rw [length_body_imagePost]
    decide
  literal := by
    refine ⟨⟨rfl, by decide, by decide⟩, ⟨rfl, rfl, by decide, by decide⟩, fun part hpart => ?_⟩
    cases mem_singleton.mp hpart
    exact ⟨rfl, by decide⟩

theorem imagePost_paramsEnd : imagePost.ParamsEnd := by
  refine ⟨fun _ => rfl, fun part hpart hquoted => ?_⟩
  cases mem_singleton.mp hpart
  cases hquoted

/-- A POST that spells what the parser looks for is delivered, in whatever segments it comes, when
its parameters end where they are cut off and it fits, and otherwise it is not. -/
theorem receive_delivers (hwf : post.WellFormed)
    (hurih : httpdFindUriHandler handlers post.uri = some urih) (rand : Word) (responds : Bool)
    (sh : Shared) {segments : List (List Byte)} (hne : [] ∉ segments)
    (hsplit : segments.flatten = post.text) :
    (post.Literal ∧ post.ParamsEnd ∧ post.Fits sh segments →
        receive handlers rand responds sh {} segments = some (post.delivery urih))
      ∧ (post.Literal →
        receive handlers rand responds sh {} segments = some (post.delivery urih) →
        post.ParamsEnd ∧ post.Fits sh segments) := by
  refine ⟨fun ⟨hlit, hends, hfits⟩ => ?_, fun hlit hdelivered => ?_⟩
  · rw [receive_collects ⟨hwf, hlit⟩ hurih hne hsplit collects_new post.header_pos]
    refine ⟨hends, ?_⟩
    rcases hfits with hfits | ⟨hidle, hfirst, hwhole, hroom⟩
    · exact ⟨.inl hfits, .inl hfits⟩
    · exact ⟨.inr ⟨hidle, rfl, hwhole, hroom⟩, .inr hfirst⟩
  · rw [receive_collects ⟨hwf, hlit⟩ hurih hne hsplit collects_new post.header_pos] at hdelivered
    obtain ⟨hends, hfits | ⟨hidle, -, hwhole, hroom⟩, hfirst⟩ := hdelivered
    · exact ⟨hends, .inl hfits⟩
    · rcases hfirst with hfits | hfirst
      · exact ⟨hends, .inl hfits⟩
      · exact ⟨hends, .inr ⟨hidle, hfirst, hwhole, hroom⟩⟩

/-- In one segment the upload is delivered. -/
theorem receive_delivers_whole :
    receive [str "/flashing"] 1 true ⟨List.replicate 16384 0, false, 0⟩ {} [imagePost.text]
      = some (imagePost.delivery (str "/flashing")) := by
  have hbody := length_body_imagePost
  have hlen := length_text_post imagePost
  have hheader : imagePost.header.length < BUF_SIZE := imagePost_readable.header_length
  have hbuf : BUF_SIZE = 4096 := rfl
  have hu : U32 = 4294967296 := rfl
  refine (receive_delivers imagePost_readable.toWellFormed (by decide) 1 true _ ?_
    (append_nil _)).1
      ⟨imagePost_readable.literal, imagePost_paramsEnd, .inr ⟨rfl, ?_, by omega, ?_⟩⟩
  · intro hnil
    have := congrArg List.length (mem_singleton.mp hnil)
    rw [length_nil] at this
    omega
  · intro segment hsegment
    cases hsegment
    omega
  · rw [hbody, length_replicate]
    decide

/-- With the header in two segments it is not. -/
theorem receive_not_delivers :
    imagePost.WellFormed ∧
    [imagePost.header.take 10, imagePost.header.drop 10 ++ imagePost.body].flatten
      = imagePost.text ∧
    receive [str "/flashing"] 1 true ⟨List.replicate 16384 0, false, 0⟩ {}
        [imagePost.header.take 10, imagePost.header.drop 10 ++ imagePost.body]
      ≠ some (imagePost.delivery (str "/flashing")) := by
  have hflatten : [imagePost.header.take 10, imagePost.header.drop 10 ++ imagePost.body].flatten
      = imagePost.text := by
    simp only [flatten_cons, flatten_nil, append_nil, ← append_assoc, take_append_drop]
    rfl
  refine ⟨imagePost_readable.toWellFormed, hflatten, fun hdelivered => ?_⟩
  have hlen := length_text_post imagePost
  rw [length_body_imagePost] at hlen
  have hbuf : BUF_SIZE = 4096 := rfl
  have hheader : 10 < imagePost.header.length := by decide
  have hne : [] ∉ [imagePost.header.take 10, imagePost.header.drop 10 ++ imagePost.body] := by
    rw [mem_cons, mem_singleton, not_or]
    refine ⟨by decide, fun hnil => ?_⟩
    have := congrArg List.length hnil
    rw [length_append, length_body_imagePost, length_nil] at this
    omega
  obtain ⟨-, -, hsmall | hfirst⟩ := (receive_collects imagePost_readable (by decide) hne
    ((nil_append _).trans hflatten) collects_new (by decide)).mp hdelivered
  · omega
  · have := hfirst _ rfl
    rw [length_take] at this
    omega

end RutosSdk.Uboot.Httpd
