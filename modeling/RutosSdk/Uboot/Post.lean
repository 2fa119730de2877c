import RutosSdk.Uboot.Multipart

/-! # A POST and how its header is read

Reference: `httpd_recv_hdr` in `net/httpd.c`.

A POST has a request line, header fields with the length of the body and the boundary of its parts,
and the body itself. The parser finds what it needs by the first place of a text, so the fields are
described by what stands before, in and behind them.
-/

namespace RutosSdk.Uboot.Httpd

open List Regions Search

/-! ## Header fields -/

/-- The field `Content-Length` among the header fields. -/
structure LengthField where
  before : List Byte
  name : List Byte
  blanks : List Byte
  digits : List Byte
  behind : List Byte

def LengthField.text (f : LengthField) : List Byte :=
  f.before ++ f.name ++ (f.blanks ++ (f.digits ++ f.behind))

/-- The number that digits stand for. -/
def decimal (digits : List Byte) : ℕ := digits.foldl (fun n c => n * 10 + (c.toNat - 0x30)) 0

/-- The field gives the number `n`; its name is in upper or lower case. -/
structure LengthField.WellFormed (n : ℕ) (f : LengthField) : Prop where
  name : f.name.map toUpper = str "CONTENT-LENGTH:"
  blanks : ∀ c ∈ f.blanks, c = 0x20 ∨ c = 0x09
  ne_nil : f.digits ≠ []
  digits : ∀ c ∈ f.digits, isDigit c = true
  number : decimal f.digits = n
  behind : ∀ c ∈ f.behind.head?, c = 0x0d ∨ c = 0x20 ∨ c = 0x09

/-- The first text `Content-Length:` is the name of the field, and only spaces follow it. -/
structure LengthField.Literal (f : LengthField) : Prop where
  name : f.name = str "Content-Length:"
  first : findSub (str "Content-Length:") (f.before ++ str "Content-Length:") = some f.before.length
  blanks : ∀ c ∈ f.blanks, c = 0x20

/-- The field `Content-Type` with the boundary, in quotes or without them. -/
structure TypeField where
  before : List Byte
  name : List Byte
  media : List Byte
  key : List Byte
  quoted : Bool
  after : List Byte
  behind : List Byte

variable (boundary : List Byte)

def TypeField.line (f : TypeField) : List Byte :=
  f.name ++ f.media ++ f.key ++
    if f.quoted then 0x22 :: (boundary ++ 0x22 :: f.after) else boundary ++ f.after

def TypeField.text (f : TypeField) : List Byte := f.before ++ (f.line boundary ++ f.behind)

/-- The name and the key are in upper or lower case. Without quotes the boundary ends with its line
or before the next parameter. -/
structure TypeField.WellFormed (f : TypeField) : Prop where
  name : f.name.map toUpper = str "CONTENT-TYPE:"
  key : f.key.map toUpper = str "BOUNDARY="
  media : 0x0d ∉ f.media
  after : 0x0d ∉ f.after
  end_of_boundary : f.quoted = false → ∀ c ∈ f.after.head?, c = 0x3b ∨ c = 0x20 ∨ c = 0x09
  behind : f.behind = [] ∨ ∃ rest, f.behind = crlf ++ rest

/-- The first `boundary=` of the first `Content-Type:` is the one of the boundary. -/
structure TypeField.Literal (f : TypeField) : Prop where
  name : f.name = str "Content-Type:"
  key : f.key = str "boundary="
  first : findSub (str "Content-Type:") (f.before ++ str "Content-Type:") = some f.before.length
  first_boundary : findSub (str "boundary=") (str "Content-Type:" ++ f.media ++ str "boundary=")
    = some (str "Content-Type:" ++ f.media).length

/-- The boundary stands in quotes, or its line ends behind it. -/
def TypeField.BoundaryEnds (f : TypeField) : Prop := f.quoted = false → f.after = []

/-- The boundary as it is read: without quotes up to the end of its line. -/
def TypeField.readBoundary (f : TypeField) : List Byte :=
  if f.quoted then boundary else boundary ++ f.after

/-! ## Requests -/

/-- A POST with a form. -/
structure Post where
  uri : List Byte
  query : List Byte
  version : List Byte
  length : LengthField
  type : TypeField
  boundary : List Byte
  parts : List Part
  epilogue : List Byte

variable (post : Post)

def Post.requestLine : List Byte :=
  str "POST" ++ 0x20 :: (post.uri ++ post.query ++ 0x20 :: post.version)

/-- The header up to the blank line. -/
def Post.head : List Byte := post.requestLine ++ (crlf ++ post.type.text post.boundary)

def Post.header : List Byte := post.head ++ (crlf ++ crlf)

def Post.body : List Byte := bodyOf post.boundary post.epilogue post.parts

/-- All bytes of the request. -/
def Post.text : List Byte := post.header ++ post.body

/-- A well-formed POST: the header fits into the buffer, the length is the one of the body, and the
body has up to five parts. -/
structure Post.WellFormed (post : Post) : Prop where
  uri : 0x20 ∉ post.uri ∧ 0x3f ∉ post.uri
  query : 0x20 ∉ post.query ∧ ∀ c ∈ post.query.head?, c = 0x3f
  line : 0x0d ∉ post.requestLine
  no_zero : 0 ∉ post.head
  blank_line : findSub (crlf ++ crlf) post.header = some post.head.length
  header_length : post.header.length < BUF_SIZE
  fields : post.length.text = post.type.text post.boundary
  length : post.length.WellFormed post.body.length
  type : post.type.WellFormed
  boundary : 0x0d ∉ post.boundary ∧ 0x0a ∉ post.boundary ∧ 0x22 ∉ post.boundary
  parts : ∀ part ∈ post.parts, part.WellFormed post.boundary
  some_part : post.parts ≠ []
  count : post.parts.length ≤ MAX_HTTP_FORM_VALUE_ITEMS
  epilogue : post.epilogue = [] ∨
    ∃ rest, post.epilogue = crlf ++ rest ∧ ¬delimiterOf post.boundary <:+: rest
  body_length : post.body.length < U32

/-- What the parser looks for is found at its place: the names of the fields and parameters are
spelled as in the source, and none of them stands anywhere before. -/
structure Post.Literal (post : Post) : Prop where
  length : post.length.Literal
  type : post.type.Literal
  parts : ∀ part ∈ post.parts, part.Literal

/-- A well-formed POST that is read as it is meant, apart from the ends of its parameters. -/
structure Post.Readable (post : Post) : Prop extends post.WellFormed where
  literal : post.Literal

/-! ## The length -/

theorem decodeDigit_of_isDigit {c : Byte} (h : isDigit c = true) :
    decodeDigit c = c.toNat - 0x30 ∧ decodeDigit c < 10 := by
  rw [decodeDigit, if_pos h]
  refine ⟨rfl, ?_⟩
  simp only [isDigit, Bool.and_eq_true, decide_eq_true_eq, BitVec.le_def] at h
  have hhigh : c.toNat ≤ 0x39 := h.2
  omega

theorem parseDigits_append {digits : List Byte} (hdigits : ∀ c ∈ digits, isDigit c = true)
    {behind : List Byte} (hbehind : ∀ c ∈ behind.head?, ¬decodeDigit c < 10) (n : ℕ) :
    (parseDigits 10 n (digits ++ behind)).1
      = digits.foldl (fun n c => n * 10 + (c.toNat - 0x30)) n := by
  induction digits generalizing n with
  | nil =>
    cases behind with
    | nil => rfl
    | cons c rest =>
      rw [nil_append, parseDigits, if_neg (hbehind c rfl)]
      rfl
  | cons c digits ih =>
    obtain ⟨hvalue, hlt⟩ := decodeDigit_of_isDigit (hdigits c mem_cons_self)
    rw [cons_append, parseDigits, if_pos hlt, hvalue,
      ih fun d hd => hdigits d (mem_cons_of_mem c hd)]
    rfl

/-- Without an `x` in the second place the number is a decimal one. -/
theorem fixupRadix_eq {cp : List Byte} (h : ∀ c ∈ cp[1]?, c ≠ 0x78 ∧ c ≠ 0x58) :
    fixupRadix cp = (10, cp) := by
  unfold fixupRadix
  split
  · exact absurd rfl (h 0x78 rfl).1
  · exact absurd rfl (h 0x58 rfl).2
  · rfl

/-- The number is read as a `u32`. -/
theorem LengthField.WellFormed.contentLength_eq {n : ℕ} {f : LengthField} (hwf : f.WellFormed n)
    (hlit : f.Literal) : contentLength f.text = n % U32 := by
  have hfind : strstr f.text (str "Content-Length:") = some f.before.length := by
    rw [strstr, LengthField.text, hlit.name]
    exact findSub_append hlit.first
  have hrest : (f.text.drop (f.before.length + (str "Content-Length:").length))
      = f.blanks ++ (f.digits ++ f.behind) := by
    rw [← hlit.name, ← length_append]
    exact drop_left
  obtain ⟨c, digits, hdigits⟩ := exists_cons_of_ne_nil hwf.ne_nil
  have hc : isDigit c = true := hwf.digits c (by rw [hdigits]; exact mem_cons_self)
  have hblanks : (f.blanks ++ (f.digits ++ f.behind)).dropWhile (· = 0x20)
      = f.digits ++ f.behind := by
    rw [dropWhile_append_of_pos fun b hb => decide_eq_true (hlit.blanks b hb),
      hdigits, cons_append, dropWhile_cons_of_neg]
    intro heq
    rw [of_decide_eq_true heq] at hc
    exact absurd hc (by decide)
  have hradix : fixupRadix (f.digits ++ f.behind) = (10, f.digits ++ f.behind) := by
    refine fixupRadix_eq fun d hd => ?_
    rw [hdigits] at hd
    cases digits with
    | nil =>
      have hbehind := hwf.behind d (by rwa [List.head?_eq_getElem?])
      rcases hbehind with rfl | rfl | rfl <;> decide
    | cons e digits =>
      cases hd
      have hdigit := hwf.digits d (by rw [hdigits]; simp)
      constructor
      · rintro rfl
        exact absurd hdigit (by decide)
      · rintro rfl
        exact absurd hdigit (by decide)
  have hvalue : (parseDigits 10 0 (f.digits ++ f.behind)).1 = n := by
    rw [parseDigits_append hwf.digits fun d hd => ?_]
    · exact hwf.number
    · rcases hwf.behind d hd with rfl | rfl | rfl <;> decide
  rw [contentLength, hfind]
  dsimp only
  rw [hrest, hblanks, simpleStrtoul, simpleStrtoull, hradix]
  rw [hvalue, BitVec.toNat_ofNat]
  rfl

/-! ## The boundary -/

theorem cutAt_append {s rest : List Byte} {c : Byte} (hs : c ∉ s)
    (hrest : ∀ b ∈ rest.head?, b = c) : cutAt c (s ++ rest) = s := by
  have hpos : ∀ b ∈ s, decide (b ≠ c) = true :=
    fun b hb => decide_eq_true fun heq => hs (heq ▸ hb)
  rw [cutAt, takeWhile_append_of_pos hpos]
  cases rest with
  | nil => exact append_nil s
  | cons b rest =>
    rw [hrest b rfl, takeWhile_cons_of_neg (by simp), append_nil]

theorem unquote_quoted {s : List Byte} (hs : 0x22 ∉ s) (rest : List Byte) :
    unquote (0x22 :: (s ++ 0x22 :: rest)) = s := by
  refine cutAt_append hs fun b hb => ?_
  cases hb
  rfl

theorem unquote_bare {s : List Byte} (hquote : s.head? ≠ some 0x22) (hreturn : 0x0d ∉ s) :
    unquote s = s := by
  have hcut : cutAt 0x0d (s ++ []) = s := cutAt_append hreturn (by simp)
  rw [append_nil] at hcut
  unfold unquote
  split
  · exact absurd rfl hquote
  · exact hcut

/-- The boundary is looked for in the line of the type. -/
theorem boundaryOf_line {fields line : List Byte} {i j : ℕ}
    (htype : strstr fields (str "Content-Type:") = some i)
    (hline : strstr (fields.drop i) crlf = none ∧ fields.drop i = line ∨
      ∃ stop, strstr (fields.drop i) crlf = some stop ∧ (fields.drop i).take stop = line)
    (hboundary : strstr line (str "boundary=") = some j) :
    boundaryOf fields = .ok (some (unquote (line.drop (j + (str "boundary=").length)))) := by
  rw [boundaryOf, htype]
  dsimp only
  rcases hline with ⟨hnone, hline⟩ | ⟨stop, hsome, hline⟩
  · rw [hnone]
    rw [hline, hboundary]
  · rw [hsome]
    dsimp only
    rw [hline, hboundary]

theorem TypeField.WellFormed.return_not_mem_line {f : TypeField} (hwf : f.WellFormed)
    (hlit : f.Literal) {boundary : List Byte} (hreturn : 0x0d ∉ boundary) :
    0x0d ∉ f.line boundary := by
  rw [TypeField.line, hlit.name, hlit.key]
  refine not_mem_append (not_mem_append (not_mem_append (by decide) hwf.media)
    (by decide)) ?_
  split
  · refine not_mem_cons_of_ne_of_not_mem (by decide) (not_mem_append hreturn ?_)
    exact not_mem_cons_of_ne_of_not_mem (by decide) hwf.after
  · exact not_mem_append hreturn hwf.after

/-- What is read as the boundary. -/
theorem TypeField.WellFormed.boundaryOf_eq {f : TypeField} (hwf : f.WellFormed) (hlit : f.Literal)
    {boundary : List Byte} (hreturn : 0x0d ∉ boundary) (hquote : 0x22 ∉ boundary) :
    boundaryOf (f.text boundary) = .ok (some (f.readBoundary boundary)) := by
  have hfind : strstr (f.text boundary) (str "Content-Type:") = some f.before.length := by
    rw [strstr, TypeField.text, TypeField.line, hlit.name, append_assoc, append_assoc,
      append_assoc, ← append_assoc]
    exact findSub_append hlit.first
  have hdrop : (f.text boundary).drop f.before.length = f.line boundary ++ f.behind :=
    drop_left
  have hline := hwf.return_not_mem_line hlit hreturn
  have hcut : strstr ((f.text boundary).drop f.before.length) crlf = none ∧
        (f.text boundary).drop f.before.length = f.line boundary ∨
      ∃ stop, strstr ((f.text boundary).drop f.before.length) crlf = some stop ∧
        ((f.text boundary).drop f.before.length).take stop = f.line boundary := by
    rw [hdrop]
    rcases hwf.behind with hbehind | ⟨rest, hbehind⟩
    · rw [hbehind, append_nil]
      refine .inl ⟨findSub_eq_none_iff.mpr fun hinside => ?_, rfl⟩
      exact hline (hinside.subset mem_cons_self)
    · rw [hbehind]
      exact .inr ⟨_, findSub_cons_append hline rest, take_left⟩
  have hparam : strstr (f.line boundary) (str "boundary=")
      = some (str "Content-Type:" ++ f.media).length := by
    rw [strstr, TypeField.line, hlit.name, hlit.key]
    exact findSub_append hlit.first_boundary
  rw [boundaryOf_line hfind hcut hparam, ← length_append, TypeField.line, hlit.name, hlit.key,
    drop_left, TypeField.readBoundary]
  congr 2
  cases hquoted : f.quoted with
  | true => exact unquote_quoted hquote f.after
  | false =>
    refine unquote_bare ?_ (not_mem_append hreturn hwf.after)
    cases boundary with
    | nil =>
      intro hhead
      rcases hwf.end_of_boundary hquoted 0x22 hhead with h | h | h <;> exact absurd h (by decide)
    | cons b boundary =>
      intro hhead
      have hb : b = 0x22 := Option.some.inj hhead
      exact hquote (by rw [hb]; exact mem_cons_self)

/-! ## The header -/

/-- The header is read as it is meant, apart from the boundary. -/
theorem Post.Readable.parseHeader_eq {post : Post} (hwf : post.Readable) :
    parseHeader post.head
      = .ok ⟨.post, post.uri, post.body.length, some (post.type.readBoundary post.boundary)⟩ := by
  have hline : strstr post.head crlf = some post.requestLine.length :=
    findSub_cons_append hwf.line (post.type.text post.boundary)
  have hrequest : post.head.take post.requestLine.length = post.requestLine := take_left
  have hfields : post.head.drop (post.requestLine.length + 2) = post.type.text post.boundary := by
    have hlen : (post.requestLine ++ crlf).length = post.requestLine.length + 2 :=
      length_append
    rw [← hlen, Post.head, ← append_assoc, drop_left]
  have hspace : strchr post.requestLine 0x20 = some (str "POST").length :=
    strchr_append (by decide) _
  have hmethod : post.requestLine.take (str "POST").length = str "POST" := take_left
  have hrest : post.requestLine.drop ((str "POST").length + 1)
      = post.uri ++ post.query ++ 0x20 :: post.version := rfl
  have huri : strchr (post.uri ++ post.query ++ 0x20 :: post.version) 0x20
      = some (post.uri ++ post.query).length :=
    strchr_append (not_mem_append hwf.uri.1 hwf.query.1) _
  have hlength : contentLength (post.type.text post.boundary) = post.body.length := by
    rw [← hwf.fields, hwf.length.contentLength_eq hwf.literal.length,
      Nat.mod_eq_of_lt hwf.body_length]
  rw [parseHeader, hline]
  dsimp only
  rw [hrequest, hfields, hspace]
  dsimp only
  rw [hmethod, if_neg (by decide), if_pos rfl, hrest, huri]
  rw [hwf.type.boundaryOf_eq hwf.literal.type hwf.boundary.1 hwf.boundary.2.2]
  dsimp only
  rw [take_left, cutAt_append hwf.uri.2 hwf.query.2, hlength]

end RutosSdk.Uboot.Httpd
