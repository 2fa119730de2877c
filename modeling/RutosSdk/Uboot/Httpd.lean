import RutosSdk.Lib.Regions
import RutosSdk.Uboot.Text

/-! # The HTTP server of the boot loader

Reference: `net/httpd.c` in `package/boot/uboot-mt7621/src`.

A connection collects the header of its request in its own buffer. A short payload stays there, a
longer one is put into the free RAM from the upload address on, which all connections share. When
the payload is complete the form values are cut out of it in place, and the handler of the URI is
called.

A buffer is the list of its bytes. `none` stands for a copy that leaves its buffer, or for the use
of a pointer that was never set: nothing is known about the program from there on. Of the header the
strings are kept that the parser cuts out of it, and not the zeros that it puts behind them.
-/

namespace RutosSdk.Uboot.Httpd

open Regions

/-- `enum httpd_session_status` -/
inductive Status where
  | new
  | headerRecving
  | payloadRecving
  | fullRcvd
  | responding
  | closing
deriving DecidableEq, Repr

/-- `enum httpd_request_method` -/
inductive Method where
  | get
  | post
  | serial
deriving DecidableEq, Repr

/-- `struct httpd_form_value`: offsets into the buffer that holds the payload. -/
structure Value where
  name : Option ℕ
  data : ℕ
  filename : Option ℕ
  size : ℕ
deriving DecidableEq, Repr

def MAX_HTTP_FORM_VALUE_ITEMS : ℕ := 5

/-- `sizeof(pdata->buf)` -/
def BUF_SIZE : ℕ := 4096

/-- The range of a `u32`. -/
def U32 : ℕ := 4294967296

/-- `struct httpd_tcp_pdata`. The payload begins at `upload_offset` of the buffer, or at the start
of the RAM for uploads. -/
structure Pdata where
  status : Status := .new
  buf : List Byte := List.replicate BUF_SIZE 0
  bufsize : ℕ := 0
  uri : List Byte := []
  boundary : Option (List Byte) := none
  is_uploading : Bool := false
  in_ram : Bool := false
  upload_offset : ℕ := 0
  payload_size : ℕ := 0
  upload_size : ℕ := 0
  method : Method := .get
  values : List Value := []
deriving DecidableEq

/-- What the connections share: the RAM for uploads, `is_uploading` and `upload_id`. -/
structure Shared where
  ram : List Byte
  is_uploading : Bool
  upload_id : Word

variable (mem : List Byte)

/-- `memcpy` to an offset of a buffer. -/
def memcpy (offset : ℕ) (data : List Byte) : Option (List Byte) :=
  if offset + data.length ≤ mem.length then some (write mem ⟨offset, data.length⟩ data) else none

/-- One byte of a buffer set. -/
def poke (offset : ℕ) (b : Byte) : Option (List Byte) := memcpy mem offset [b]

/-! ## The header -/

/-- What `httpd_recv_hdr` reads from a header. -/
structure Header where
  method : Method
  uri : List Byte
  payload_size : ℕ
  boundary : Option (List Byte)
deriving DecidableEq, Repr

/-- A string up to a character. -/
def cutAt (c : Byte) (s : List Byte) : List Byte := s.takeWhile (· ≠ c)

/-- The value of a parameter: in quotes, or up to the end of the line. -/
def unquote (s : List Byte) : List Byte :=
  match s with
  | 0x22 :: s => cutAt 0x22 s
  | s => cutAt 0x0d s

/-- The number behind `Content-Length:`. -/
def contentLength (fields : List Byte) : ℕ :=
  match strstr fields (str "Content-Length:") with
  | none => 0
  | some i =>
    (simpleStrtoul ((fields.drop (i + (str "Content-Length:").length)).dropWhile (· = 0x20))).toNat

/-- The boundary in the line of `Content-Type:`; a type without one is an error. -/
def boundaryOf (fields : List Byte) : Except ℕ (Option (List Byte)) :=
  match strstr fields (str "Content-Type:") with
  | none => .ok none
  | some i =>
    let line :=
      match strstr (fields.drop i) crlf with
      | none => fields.drop i
      | some stop => (fields.drop i).take stop
    match strstr line (str "boundary=") with
    | none => .error 400
    | some j => .ok (some (unquote (line.drop (j + (str "boundary=").length))))

/-- The part of `httpd_recv_hdr` that parses the header, or the code of the error. -/
def parseHeader (text : List Byte) : Except ℕ Header :=
  match strstr text crlf with
  | none => .error 400
  | some line =>
    let request := text.take line
    let fields := text.drop (line + 2)
    match strchr request 0x20 with
    | none => .error 400
    | some space =>
      let rest := request.drop (space + 1)
      if request.take space = str "GET" then
        match strchr rest 0x20 with
        | none => .error 400
        | some stop => .ok ⟨.get, cutAt 0x3f (rest.take stop), 0, none⟩
      else if request.take space = str "POST" then
        match strchr rest 0x20 with
        | none => .error 400
        | some stop =>
          match boundaryOf fields with
          | .error code => .error code
          | .ok boundary =>
            .ok ⟨.post, cutAt 0x3f (rest.take stop), contentLength fields, boundary⟩
      else .error 405

/-! ## The form values -/

/-- `memstr` -/
def memstr (limit : ℕ) (s : List Byte) : Option ℕ := strstr (mem.take limit) s

/-- The first loop of `httpd_handle_request`: the start and the end of each part. From `p` on, with
`n` parts to go; the payload ends at `payload_end`, and a part that begins behind it is searched
without a limit. -/
def splitForm (boundary : List Byte) (payload_end : ℕ) :
    ℕ → List Byte → ℕ → Option (List Byte × List (ℕ × ℕ))
  | 0, mem, _ => some (mem, [])
  | n + 1, mem, p =>
    let p := p + boundary.length
    if (mem.drop p).take 2 ≠ crlf then some (mem, [])
    else
      let start := p + 2
      if payload_end < start then none
      else
        match memstr (mem.drop start) (payload_end - start) boundary with
        | none => some (mem, [])
        | some q =>
          let p := start + q
          let mem := if (mem.drop (p - 2)).take 2 = crlf then mem.set (p - 2) 0 else mem.set p 0
          match splitForm boundary payload_end n mem p with
          | none => none
          | some (mem, rest) => some (mem, (start, p - 2) :: rest)

/-- `name_extract`: the start of the string, which is cut off in place. -/
def nameExtract (s : ℕ) : List Byte × ℕ :=
  if mem[s]? = some 0x22 then
    match strchr (cstr (mem.drop (s + 1))) 0x22 with
    | some q => (mem.set (s + 1 + q) 0, s + 1)
    | none => (mem, s + 1)
  else
    match strchr (cstr (mem.drop s)) 0x0d with
    | some q => (mem.set (s + q) 0, s)
    | none => (mem, s)

/-- `name_extract` behind the name of a parameter, if it was found. -/
def extractParam (s : Option ℕ) : List Byte × Option ℕ :=
  match s with
  | none => (mem, none)
  | some s => ((nameExtract mem s).1, some (nameExtract mem s).2)

/-- The data of a part moved to a multiple of four; both buffers begin at one. -/
def alignData (p size : ℕ) : Option (List Byte × ℕ) :=
  let data := p / 4 * 4
  if p = data then some (mem, data)
  else if p + size ≤ mem.length then
    match memcpy mem data (read mem ⟨p, size⟩) with
    | none => none
    | some mem => (poke mem (data + size) 0).map (·, data)
  else none

/-- The second loop of `httpd_handle_request`, for one part: its value, unless it has no header. -/
def processPart (start stop : ℕ) : Option (List Byte × Option Value) :=
  match strstr (cstr (mem.drop start)) (crlf ++ crlf) with
  | none => some (mem, none)
  | some i =>
    let mem := mem.set (start + i) 0
    let p := start + i + 4
    let header := cstr (mem.drop start)
    let name_ptr := (strstr header (str "name=")).map (start + · + (str "name=").length)
    let filename_ptr := (strstr header (str "filename=")).map (start + · + (str "filename=").length)
    let (mem, name) := extractParam mem name_ptr
    let (mem, filename) := extractParam mem filename_ptr
    let size := (stop + U32 - p) % U32
    match alignData mem p size with
    | none => none
    | some (mem, data) => some (mem, some ⟨name, data, filename, size⟩)

/-- The second loop of `httpd_handle_request`; there is room for five values. -/
def processForm : List (ℕ × ℕ) → List Byte → List Value → Option (List Byte × List Value)
  | [], mem, values => some (mem, values)
  | (start, stop) :: rest, mem, values =>
    match processPart mem start stop with
    | none => none
    | some (mem, none) => processForm rest mem values
    | some (mem, some value) =>
      if values.length < MAX_HTTP_FORM_VALUE_ITEMS then processForm rest mem (values ++ [value])
      else none

/-- The form values of a payload of `payload_size` bytes at `start`. -/
def parseForm (boundary mem : List Byte) (start payload_size : ℕ) (values : List Value) :
    Option (List Byte × List Value) :=
  let delimiter := str "--" ++ boundary
  match splitForm delimiter (start + payload_size) MAX_HTTP_FORM_VALUE_ITEMS mem start with
  | none => none
  | some (mem, parts) => processForm parts mem values

/-! ## Requests -/

/-- What follows when a segment was taken: the connection waits for more, it is reset, an error page
or the serial number is sent, or the handler that is registered for `urih` is called. -/
inductive Next where
  | wait
  | refused
  | error (code : ℕ)
  | serial
  | call (urih : List Byte)
deriving DecidableEq, Repr

/-- `httpd_find_uri_handler` -/
def httpdFindUriHandler (handlers : List (List Byte)) (uri : List Byte) : Option (List Byte) :=
  if uri ∈ handlers then some uri else if [] ∈ handlers then some [] else none

variable (handlers : List (List Byte))

/-- The part of `httpd_handle_request` before the call of the handler. -/
def httpdHandleRequest (sh : Shared) (pd : Pdata) : Option (Shared × Pdata × Next) :=
  match pd.method with
  | .serial => some (sh, { pd with status := .responding }, .serial)
  | .get =>
    match httpdFindUriHandler handlers pd.uri with
    | none => some (sh, pd, .refused)
    | some urih => some (sh, pd, .call urih)
  | .post =>
    match httpdFindUriHandler handlers pd.uri with
    | none => some (sh, pd, .refused)
    | some urih =>
      match pd.boundary with
      | none => none
      | some boundary =>
        if pd.in_ram then
          match parseForm boundary sh.ram 0 pd.payload_size pd.values with
          | none => none
          | some (ram, values) =>
            some ({ sh with ram := ram }, { pd with values := values }, .call urih)
        else
          match parseForm boundary pd.buf pd.upload_offset pd.payload_size pd.values with
          | none => none
          | some (buf, values) => some (sh, { pd with buf := buf, values := values }, .call urih)

/-- The zero behind a payload that is complete. -/
def endPayload (sh : Shared) (pd : Pdata) : Option (Shared × Pdata) :=
  if pd.in_ram then (poke sh.ram pd.payload_size 0).map ({ sh with ram := · }, pd)
  else (poke pd.buf (pd.upload_offset + pd.payload_size) 0).map (sh, { pd with buf := · })

/-- The end of `httpd_recv_hdr` for a payload of which `upload_size` bytes are there. -/
def startPayload (sh : Shared) (pd : Pdata) : Option (Shared × Pdata × Next) :=
  if pd.upload_size = pd.payload_size then
    match endPayload sh pd with
    | none => none
    | some (sh, pd) => httpdHandleRequest handlers sh { pd with status := .fullRcvd }
  else
    some ({ sh with is_uploading := true },
      { pd with status := .payloadRecving, is_uploading := true }, .wait)

/-- The part of `httpd_recv_hdr` behind the header: where the payload goes. -/
def placePayload (rand : Word) (sh : Shared) (pd : Pdata) (hdr_size : ℕ) (data : List Byte) :
    Option (Shared × Pdata × Next) :=
  if (hdr_size + pd.payload_size) % U32 < BUF_SIZE then
    startPayload handlers sh
      { pd with in_ram := false, upload_offset := hdr_size, upload_size := pd.bufsize - hdr_size }
  else if sh.is_uploading then some (sh, pd, .refused)
  else if data.length < hdr_size then none
  else
    match memcpy sh.ram 0 (data.drop hdr_size) with
    | none => none
    | some ram =>
      startPayload handlers { sh with ram := ram, upload_id := rand }
        { pd with in_ram := true, upload_size := data.length - hdr_size }

/-- `httpd_recv_hdr`, and `httpd_handle_request` when the request is complete with it. -/
def httpdRecvHdr (rand : Word) (sh : Shared) (pd : Pdata) (data : List Byte) :
    Option (Shared × Pdata × Next) :=
  let size_rcvd := min data.length (BUF_SIZE - pd.bufsize - 1)
  match (memcpy pd.buf pd.bufsize (data.take size_rcvd)).bind
      (poke · (pd.bufsize + size_rcvd) 0) with
  | none => none
  | some buf =>
    let pd := { pd with status := .headerRecving, buf := buf, bufsize := pd.bufsize + size_rcvd }
    if cstr buf = str "REQUEST SERIAL" then
      httpdHandleRequest handlers sh { pd with status := .fullRcvd, method := .serial }
    else
      match strstr (cstr buf) (crlf ++ crlf) with
      | none =>
        if size_rcvd = data.length then some (sh, pd, .wait)
        else some (sh, { pd with status := .responding }, .error 413)
      | some i =>
        match parseHeader (buf.take i) with
        | .error code => some (sh, { pd with status := .responding }, .error code)
        | .ok header =>
          let pd := { pd with
            uri := header.uri, boundary := header.boundary, payload_size := header.payload_size
            method := header.method }
          if header.method = .post then placePayload handlers rand sh pd (i + 4) data
          else httpdHandleRequest handlers sh { pd with status := .fullRcvd }

/-- `httpd_recv_payload`, and `httpd_handle_request` when the request is complete with it. -/
def httpdRecvPayload (sh : Shared) (pd : Pdata) (data : List Byte) :
    Option (Shared × Pdata × Next) :=
  let size_recv := min ((pd.payload_size + U32 - pd.upload_size) % U32) data.length
  let copied : Option (Shared × Pdata) :=
    if pd.in_ram then
      (memcpy sh.ram pd.upload_size (data.take size_recv)).map ({ sh with ram := · }, pd)
    else
      (memcpy pd.buf (pd.upload_offset + pd.upload_size) (data.take size_recv)).map
        (sh, { pd with buf := · })
  match copied with
  | none => none
  | some (sh, pd) =>
    let pd := { pd with upload_size := pd.upload_size + size_recv }
    if pd.upload_size = pd.payload_size then
      match endPayload sh pd with
      | none => none
      | some (sh, pd) =>
        httpdHandleRequest handlers { sh with is_uploading := false }
          { pd with status := .fullRcvd, is_uploading := false }
    else some (sh, pd, .wait)

/-- `httpd_rx` -/
def httpdRx (rand : Word) (sh : Shared) (pd : Pdata) (data : List Byte) :
    Option (Shared × Pdata × Next) :=
  match pd.status with
  | .new => httpdRecvHdr handlers rand sh pd data
  | .headerRecving => httpdRecvHdr handlers rand sh pd data
  | .payloadRecving => httpdRecvPayload handlers sh pd data
  | .fullRcvd => httpdHandleRequest handlers sh pd
  | .responding => some (sh, pd, .wait)
  | .closing => some (sh, pd, .wait)

end RutosSdk.Uboot.Httpd
