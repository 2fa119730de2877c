import Mathlib.Data.List.TakeWhile
import RutosSdk.Uboot.Httpd

/-! # Form values of a multipart body

Reference: `memstr`, `name_extract` and `httpd_handle_request` in `net/httpd.c`.

The body of a form is a sequence of parts between delimiters. The first loop of the parser finds the
parts and puts a zero behind each; the second one cuts the name out of the header of a part and
moves its data down to a multiple of four, over the blank line. A part is changed within its own
bounds only, so the values of the parts before it stay as they are.
-/

namespace RutosSdk.Uboot.Httpd

open List Regions Search

/-! ## Forms -/

/-- A part of a form: its header with the name of the value in it, and its data. The name stands in
quotes, or without them at the end of its line. -/
structure Part where
  before : List Byte
  key : List Byte
  name : List Byte
  quoted : Bool
  after : List Byte
  data : List Byte

/-- What stands behind the key, `name=`. -/
def Part.param (part : Part) : List Byte :=
  if part.quoted then 0x22 :: part.name ++ 0x22 :: part.after else part.name ++ part.after

/-- The header of a part. -/
def Part.header (part : Part) : List Byte := part.before ++ part.key ++ part.param

/-- The text of a part. -/
def Part.text (part : Part) : List Byte := part.header ++ (crlf ++ crlf) ++ part.data

/-- The delimiter of a boundary. -/
def delimiterOf (boundary : List Byte) : List Byte := str "--" ++ boundary

/-- A part of a well-formed form. The key is in upper or lower case, a name without quotes ends with
its line or before the next parameter, the first blank line ends the header, and the boundary is not
in the data. -/
structure Part.WellFormed (boundary : List Byte) (part : Part) : Prop where
  key : part.key.map toUpper = str "NAME="
  no_zero : 0 ∉ part.header
  blank_line : findSub (crlf ++ crlf) (part.header ++ (crlf ++ crlf)) = some part.header.length
  no_quote : 0x22 ∉ part.name
  no_return : 0x0d ∉ part.name
  end_of_name : part.quoted = false →
    ∀ c ∈ part.after.head?, c = 0x0d ∨ c = 0x3b ∨ c = 0x20 ∨ c = 0x09
  header_boundary : ¬delimiterOf boundary <:+: part.header
  data_boundary : ¬boundary <:+: part.data

/-- The first `name=` of the header, in lower case, is the one of the name. -/
structure Part.Literal (part : Part) : Prop where
  key : part.key = str "name="
  first : findSub (str "name=") (part.before ++ str "name=") = some part.before.length

/-- The name stands in quotes, or its line ends behind it. -/
def Part.NameEnds (part : Part) : Prop := part.quoted = false → ∀ c ∈ part.after.head?, c = 0x0d

/-- The byte behind the name when `name_extract` has cut it off: a name without quotes goes on to
the end of its line. -/
def Part.terminator (part : Part) : Byte :=
  match part.quoted, part.after with
  | true, _ => 0
  | false, [] => 0
  | false, c :: _ => if c = 0x0d then 0 else c

/-- The body of a form behind its first delimiter. -/
def bodyRest (boundary epilogue : List Byte) : List Part → List Byte
  | [] => str "--" ++ epilogue
  | part :: parts =>
    crlf ++ part.text ++ crlf ++ delimiterOf boundary ++ bodyRest boundary epilogue parts

/-- The body of a form. -/
def bodyOf (boundary epilogue : List Byte) (parts : List Part) : List Byte :=
  delimiterOf boundary ++ bodyRest boundary epilogue parts

variable {boundary epilogue mem name cells data : List Byte} {c : Byte} {s start stop p offset : ℕ}
  {part : Part} {parts : List Part}

/-! ## Strings in memory -/

theorem not_mem_concat {l : List Byte} {b : Byte} (hl : c ∉ l) (hne : b ≠ c) : c ∉ l ++ [b] :=
  not_mem_append hl fun h => hne (mem_singleton.mp h).symm

theorem cstr_append {s : List Byte} (hs : 0 ∉ s) (rest : List Byte) :
    cstr (s ++ rest) = s ++ cstr rest := by
  refine takeWhile_append_of_pos fun b hb => decide_eq_true fun heq => hs ?_
  rwa [← heq]

theorem cstr_append_zero {s : List Byte} (hs : 0 ∉ s) (rest : List Byte) :
    cstr (s ++ 0 :: rest) = s := by
  rw [cstr_append hs]
  exact append_nil s

/-- The string that stands in the memory with its zero. -/
theorem cstr_of_holds {s : List Byte} (h : HoldsAt mem offset (s ++ [0])) (hs : 0 ∉ s) :
    cstr (mem.drop offset) = s := by
  rw [h.drop_eq, append_assoc]
  exact cstr_append_zero hs _

theorem strchr_append {s : List Byte} (hs : c ∉ s) (rest : List Byte) :
    strchr (s ++ c :: rest) c = some s.length := by
  rw [strchr, List.findIdx?_append, List.findIdx?_eq_none_iff.mpr fun b hb => ?_]
  · simp [List.findIdx?_cons]
  · exact decide_eq_false fun heq => hs (heq ▸ hb)

/-- A character that is found in a string stands in the memory, before the zero. -/
theorem getElem?_of_strchr_cstr {t q : ℕ} (h : strchr (cstr (mem.drop t)) c = some q)
    (hstop : mem[stop]? = some 0) (ht : t ≤ stop) : mem[t + q]? = some c ∧ t + q < stop := by
  obtain ⟨hq, hc, -⟩ := List.findIdx?_eq_some_iff_getElem.mp h
  have hmem : HoldsAt mem t (cstr (mem.drop t)) :=
    holdsAt_iff_starts.mpr (List.takeWhile_prefix _)
  refine ⟨?_, ?_⟩
  · rw [hmem.getElem? hq, List.getElem?_eq_getElem hq]
    exact congrArg some (of_decide_eq_true hc)
  · by_contra hlate
    have hi : stop - t < (cstr (mem.drop t)).length := by omega
    have hzero := hmem.getElem? hi
    rw [Nat.add_sub_cancel' ht, hstop] at hzero
    have hne := mem_takeWhile_imp (mem_of_getElem? hzero.symm)
    exact absurd hne (by decide)

/-! ## Names -/

section

variable (hstop : mem[stop]? = some 0) (hs : s ≤ stop)
include hstop hs

/-- `name_extract` sets at most one byte, a quote or the end of a line, within the string. -/
theorem nameExtract_changes :
    (nameExtract mem s).1 = mem ∨ ∃ q, s ≤ q ∧ q < stop ∧ (nameExtract mem s).1 = mem.set q 0 ∧
      (mem[q]? = some 0x22 ∨ mem[q]? = some 0x0d) := by
  unfold nameExtract
  split
  · rename_i hquote
    have hlt : s ≠ stop := by
      rintro rfl
      exact absurd (hquote.symm.trans hstop) (by decide)
    split
    · rename_i q hq
      obtain ⟨hchar, hbefore⟩ := getElem?_of_strchr_cstr hq hstop (by omega)
      exact .inr ⟨s + 1 + q, by omega, hbefore, rfl, .inl hchar⟩
    · exact .inl rfl
  · split
    · rename_i q hq
      obtain ⟨hchar, hbefore⟩ := getElem?_of_strchr_cstr hq hstop hs
      exact .inr ⟨s + q, by omega, hbefore, rfl, .inr hchar⟩
    · exact .inl rfl

/-- What has neither a quote nor the end of a line in it stays. -/
theorem nameExtract_holds (hcells : HoldsAt mem offset cells) (hquote : 0x22 ∉ cells)
    (hreturn : 0x0d ∉ cells) : HoldsAt (nameExtract mem s).1 offset cells := by
  rcases nameExtract_changes hstop hs with hsame | ⟨q, -, -, hset, hchar⟩
  · rwa [hsame]
  · rw [hset]
    refine hcells.congr fun k hlow hhigh => List.getElem?_set_ne ?_
    rintro rfl
    have hmem := hcells.getElem? (k := q - offset) (by omega)
    rw [Nat.add_sub_cancel' hlow] at hmem
    rcases hchar with hchar | hchar
    · exact hquote (mem_of_getElem? (hmem.symm.trans hchar))
    · exact hreturn (mem_of_getElem? (hmem.symm.trans hchar))

theorem nameExtract_changesOnly : ChangesOnly ⟨s, stop - s⟩ mem (nameExtract mem s).1 := by
  rcases nameExtract_changes hstop hs with hsame | ⟨q, hq, hqstop, hset, -⟩
  · rw [hsame]
    exact .refl _ mem
  · rw [hset]
    exact (changesOnly_set q mem 0).mono hq (by omega)

end

/-- The zero behind a string, with the string unchanged. -/
theorem holdsAt_set_end (hname : HoldsAt mem s name) (hlen : s + name.length < mem.length) :
    HoldsAt (mem.set (s + name.length) 0) s (name ++ [0]) := by
  refine holdsAt_append.mpr ⟨?_, holdsAt_set hlen 0⟩
  exact (changesOnly_set _ mem 0).holds hname (.inl (Nat.le_refl _))

theorem nameExtract_quoted (hquote : 0x22 ∉ name) (hzero : 0 ∉ name)
    (hmem : HoldsAt mem s (0x22 :: (name ++ [0x22]))) :
    nameExtract mem s = (mem.set (s + 1 + name.length) 0, s + 1) := by
  obtain ⟨hfirst, hrest⟩ := holdsAt_cons.mp hmem
  have hmem : mem[s]? = some 0x22 := hfirst.getElem? (k := 0) Nat.one_pos
  have hstr : strchr (cstr (mem.drop (s + 1))) 0x22 = some name.length := by
    rw [hrest.drop_eq, append_assoc, cstr_append hzero]
    exact strchr_append hquote _
  rw [nameExtract, if_pos hmem, hstr]

/-- A text that does not begin with a quote is a name without quotes. -/
theorem nameExtract_bare (hmem : HoldsAt mem s cells) (hne : cells ≠ []) (hquote : 0x22 ∉ cells) :
    nameExtract mem s = match strchr (cstr (mem.drop s)) 0x0d with
      | some q => (mem.set (s + q) 0, s)
      | none => (mem, s) := by
  refine if_neg fun hfirst => hquote (mem_of_getElem? (i := 0) ?_)
  rw [← hfirst, ← Nat.add_zero s, hmem.getElem? (length_pos_iff.mpr hne)]

theorem nameExtract_bare_snd (hmem : HoldsAt mem s cells) (hne : cells ≠ [])
    (hquote : 0x22 ∉ cells) : (nameExtract mem s).2 = s := by
  rw [nameExtract_bare hmem hne hquote]
  split <;> rfl

theorem nameExtract_line (hquote : 0x22 ∉ name) (hreturn : 0x0d ∉ name) (hzero : 0 ∉ name)
    (hmem : HoldsAt mem s (name ++ [0x0d])) :
    nameExtract mem s = (mem.set (s + name.length) 0, s) := by
  have hstr : strchr (cstr (mem.drop s)) 0x0d = some name.length := by
    rw [hmem.drop_eq, append_assoc, cstr_append hzero]
    exact strchr_append hreturn _
  rw [nameExtract_bare hmem (by simp) (by simpa using hquote), hstr]

/-- What `name_extract` does to the name of a part. -/
structure Extracts (part : Part) (mem : List Byte) (s : ℕ) (r : List Byte × ℕ) : Prop where
  low : s ≤ r.2
  high : r.2 + part.name.length ≤ s + part.param.length
  name : HoldsAt r.1 r.2 (part.name ++ [part.terminator])
  changes : ChangesOnly ⟨s, part.param.length⟩ mem r.1

/-- The name of a part is found, and cut off where it ends or its line does. -/
theorem nameExtract_param (hwf : part.WellFormed boundary)
    (hmem : HoldsAt mem s (part.param ++ [0])) : Extracts part mem s (nameExtract mem s) := by
  have hstop := hmem.getElem?_concat
  have hchanges := nameExtract_changesOnly hstop (Nat.le_add_right s _)
  rw [Nat.add_sub_cancel_left] at hchanges
  have hlen := hmem.length_le (by simp)
  rw [length_append, length_singleton] at hlen
  have hzero : 0 ∉ part.param := fun hmem => hwf.no_zero (mem_append_right _ hmem)
  cases hquoted : part.quoted with
  | true =>
    have hparam : part.param = 0x22 :: (part.name ++ [0x22] ++ part.after) := by
      simp [Part.param, hquoted]
    have hlength := congrArg List.length hparam
    simp only [length_append, length_cons, length_nil] at hlength
    rw [hparam, cons_append, holdsAt_cons, append_assoc, holdsAt_append] at hmem
    have hextract := nameExtract_quoted hwf.no_quote
      (fun h => hzero (by
        rw [hparam, append_assoc]
        exact mem_cons_of_mem _ (mem_append_left _ h)))
      (holdsAt_cons.mpr ⟨hmem.1, hmem.2.1⟩)
    rw [hextract] at hchanges ⊢
    refine ⟨Nat.le_succ s, by dsimp only; omega, ?_, hchanges⟩
    rw [Part.terminator, hquoted]
    exact holdsAt_set_end (holdsAt_append.mp hmem.2.1).1 (by omega)
  | false =>
    have hparam : part.param = part.name ++ part.after := by
      rw [Part.param, hquoted]
      rfl
    have hlength : part.param.length = part.name.length + part.after.length := by
      rw [hparam, length_append]
    -- without the end of the line behind it, the name and the next byte stay as they are
    have hstays : ∀ c, HoldsAt mem s (part.name ++ [c]) → c ≠ 0x22 → c ≠ 0x0d →
        part.terminator = c → Extracts part mem s (nameExtract mem s) := by
      intro c hcells hquote hreturn hterm
      have hq := not_mem_concat hwf.no_quote hquote
      have hsnd := nameExtract_bare_snd hcells (by simp) hq
      refine ⟨Nat.le_of_eq hsnd.symm, by omega, ?_, hchanges⟩
      rw [hsnd, hterm]
      exact nameExtract_holds hstop (Nat.le_add_right s _) hcells hq
        (not_mem_concat hwf.no_return hreturn)
    cases hafter : part.after with
    | nil =>
      rw [hparam, hafter, append_nil] at hmem
      exact hstays 0 hmem (by decide) (by decide) (by rw [Part.terminator, hquoted, hafter])
    | cons c rest =>
      have hcells : HoldsAt mem s (part.name ++ [c]) := by
        rw [hparam, hafter, append_assoc, cons_append, holdsAt_append, holdsAt_cons]
          at hmem
        exact holdsAt_append.mpr ⟨hmem.1, hmem.2.1⟩
      have hterm : part.terminator = if c = 0x0d then 0 else c := by
        rw [Part.terminator, hquoted, hafter]
      by_cases hreturn : c = 0x0d
      · subst hreturn
        have hextract := nameExtract_line hwf.no_quote hwf.no_return
          (fun h => hzero (by rw [hparam]; exact mem_append_left _ h)) hcells
        rw [hextract] at hchanges ⊢
        rw [hafter, length_cons] at hlength
        refine ⟨Nat.le_refl s, by dsimp only; omega, ?_, hchanges⟩
        rw [hterm]
        exact holdsAt_set_end (holdsAt_append.mp hcells).1 (by omega)
      · refine hstays c hcells ?_ hreturn (hterm.trans (if_neg hreturn))
        rintro rfl
        exact absurd (hwf.end_of_name hquoted _ (by rw [hafter]; rfl)) (by decide)

theorem extractParam_holds {s : Option ℕ} (hstop : mem[stop]? = some 0) (hs : ∀ t ∈ s, t ≤ stop)
    (hcells : HoldsAt mem offset cells) (hquote : 0x22 ∉ cells) (hreturn : 0x0d ∉ cells) :
    HoldsAt (extractParam mem s).1 offset cells := by
  cases s with
  | none => exact hcells
  | some s => exact nameExtract_holds hstop (hs s rfl) hcells hquote hreturn

theorem extractParam_changesOnly {s : Option ℕ} (hstop : mem[stop]? = some 0)
    (hs : ∀ t ∈ s, start ≤ t ∧ t ≤ stop) :
    ChangesOnly ⟨start, stop - start⟩ mem (extractParam mem s).1 := by
  cases s with
  | none => exact .refl _ mem
  | some s =>
    obtain ⟨hlow, hhigh⟩ := hs s rfl
    exact (nameExtract_changesOnly hstop hhigh).mono hlow (by omega)

/-! ## Data -/

theorem memcpy_eq (h : offset + data.length ≤ mem.length) :
    memcpy mem offset data = some (write mem ⟨offset, data.length⟩ data) := if_pos h

/-- The data of a part at a multiple of four, at most three bytes before its place. -/
theorem alignData_holds (hdata : HoldsAt mem p (data ++ [0])) (hp : 3 ≤ p) :
    ∃ mem' offset, alignData mem p data.length = some (mem', offset) ∧ p - 3 ≤ offset ∧
      offset ≤ p ∧ HoldsAt mem' offset data ∧ ChangesOnly ⟨p - 3, data.length + 3⟩ mem mem' := by
  have hlen := hdata.length_le (by simp)
  rw [length_append] at hlen
  rw [holdsAt_append] at hdata
  unfold alignData
  dsimp only
  split_ifs with hsame hbounds
  · exact ⟨mem, p / 4 * 4, rfl, by omega, by omega, hsame ▸ hdata.1, .refl _ mem⟩
  · have hread : read mem ⟨p, data.length⟩ = data := hdata.1
    have hwritten : p / 4 * 4 + data.length ≤ mem.length := by omega
    have hchanges : ChangesOnly ⟨p / 4 * 4, data.length⟩ mem
        (write mem ⟨p / 4 * 4, data.length⟩ data) := changesOnly_write hwritten rfl
    have hpoke : p / 4 * 4 + data.length + 1
        ≤ (write mem ⟨p / 4 * 4, data.length⟩ data).length := by
      rw [hchanges.length]
      omega
    rw [hread, memcpy_eq hwritten]
    dsimp only
    rw [poke, memcpy_eq hpoke]
    have hzero : ChangesOnly ⟨p / 4 * 4 + data.length, 1⟩ _ (write _ _ [(0 : Byte)]) :=
      changesOnly_write hpoke rfl
    refine ⟨_, p / 4 * 4, rfl, by omega, by omega, ?_, ?_⟩
    · exact hzero.holds (read_write_self hwritten rfl) (.inl (Nat.le_refl _))
    · exact (hchanges.mono (by omega) (by omega)).trans (hzero.mono (by omega) (by omega))
  · omega

/-! ## Parts -/

/-- A form value that has the name, the size and the data of a part, before `stop`. -/
structure Delivers (mem : List Byte) (stop : ℕ) (part : Part) (value : Value) : Prop where
  name : ∃ offset ∈ value.name, offset + part.name.length < stop ∧
    HoldsAt mem offset (part.name ++ [part.terminator])
  size : value.size = part.data.length
  data_le : value.data + part.data.length ≤ stop
  data : HoldsAt mem value.data part.data

theorem Delivers.congr {mem' : List Byte} {n : ℕ} {value : Value} (h : Delivers mem stop part value)
    (hmem : ChangesOnly ⟨stop, n⟩ mem mem') : Delivers mem' stop part value := by
  obtain ⟨offset, hname, hstop, hholds⟩ := h.name
  refine ⟨⟨offset, hname, hstop, hmem.holds hholds (.inl ?_)⟩, h.size, h.data_le,
    hmem.holds h.data (.inl h.data_le)⟩
  rw [length_append]
  exact hstop

theorem Part.WellFormed.terminator_ne (hwf : part.WellFormed boundary) :
    part.terminator ≠ 0x22 ∧ part.terminator ≠ 0x0d := by
  unfold Part.terminator
  split
  · decide
  · decide
  · rename_i c rest hquoted hafter
    rcases hwf.end_of_name hquoted c (by rw [hafter]; rfl) with rfl | rfl | rfl | rfl <;> decide

theorem length_text (part : Part) :
    part.text.length = part.header.length + 4 + part.data.length := by
  simp only [Part.text, crlf, length_append, length_cons, length_nil]

/-- The name of a part and the file name are cut out of the header; the second cut leaves the name
alone. -/
theorem extractParams_holds (hwf : part.WellFormed boundary) {file : Option ℕ}
    (hheader : HoldsAt mem start (part.header ++ [0]))
    (hfile : ∀ t ∈ file, start ≤ t ∧ t ≤ start + part.header.length) :
    ∃ mem' offset,
      extractParam mem (some (start + part.before.length + part.key.length)) = (mem', some offset) ∧
      offset + part.name.length ≤ start + part.header.length ∧
      HoldsAt (extractParam mem' file).1 offset (part.name ++ [part.terminator]) ∧
      ChangesOnly ⟨start, part.header.length⟩ mem (extractParam mem' file).1 := by
  have hlength : part.header.length = part.before.length + part.key.length + part.param.length := by
    rw [Part.header, length_append, length_append]
  have hstop := hheader.getElem?_concat
  have hparam : HoldsAt mem (start + part.before.length + part.key.length)
      (part.param ++ [0]) := by
    rw [Part.header, append_assoc, holdsAt_append, length_append, ← Nat.add_assoc]
      at hheader
    exact hheader.2
  obtain ⟨hlow, hhigh, hname, hchanges⟩ := nameExtract_param hwf hparam
  generalize hr : nameExtract mem (start + part.before.length + part.key.length) = r
    at hlow hhigh hname hchanges
  have hstop' : r.1[start + part.header.length]? = some 0 := by
    rw [hchanges.outside _ fun hk => ?_]
    · exact hstop
    · simp only [Region.Covers] at hk
      omega
  obtain ⟨hquote, hreturn⟩ := hwf.terminator_ne
  refine ⟨r.1, r.2, by rw [extractParam, hr], by omega, ?_, ?_⟩
  · refine extractParam_holds hstop' (fun t ht => (hfile t ht).2) hname ?_ ?_
    · exact not_mem_concat hwf.no_quote hquote
    · exact not_mem_concat hwf.no_return hreturn
  · exact (hchanges.mono (by omega) (by omega)).trans
      ((extractParam_changesOnly hstop' hfile).mono (Nat.le_refl _) (by omega))

/-- The value of a part is cut out of it. -/
theorem processPart_delivers (hwf : part.WellFormed boundary) (hlit : part.Literal)
    (hmem : HoldsAt mem start (part.text ++ [0])) (hsize : part.data.length < U32) :
    ∃ mem' value, processPart mem start (start + part.text.length) = some (mem', some value) ∧
      Delivers mem' (start + part.text.length) part value ∧
      ChangesOnly ⟨start, part.text.length⟩ mem mem' := by
  have hlen := hmem.length_le (by simp)
  have htext := length_text part
  rw [length_append, length_singleton] at hlen
  have hblank : strstr (cstr (mem.drop start)) (crlf ++ crlf) = some part.header.length := by
    have hzero : 0 ∉ part.header ++ (crlf ++ crlf) :=
      not_mem_append hwf.no_zero (by decide)
    rw [hmem.drop_eq, Part.text, append_assoc, append_assoc, cstr_append hzero]
    exact findSub_append hwf.blank_line
  rw [Part.text, append_assoc, append_assoc, holdsAt_append] at hmem
  obtain ⟨hheader, hrest⟩ := hmem
  have hset := changesOnly_set (start + part.header.length) mem 0
  have hstring : HoldsAt (mem.set (start + part.header.length) 0) start (part.header ++ [0]) :=
    holdsAt_set_end hheader (by omega)
  have hname : strstr part.header (str "name=") = some part.before.length := by
    rw [Part.header, hlit.key, strstr]
    exact findSub_append hlit.first
  have hfile : ∀ t ∈ (strstr part.header (str "filename=")).map
      (start + · + (str "filename=").length), start ≤ t ∧ t ≤ start + part.header.length := by
    intro t ht
    obtain ⟨f, hf, rfl⟩ := Option.map_eq_some_iff.mp ht
    have := length_le_of_findSub hf
    omega
  generalize hfiles : (strstr part.header (str "filename=")).map
    (start + · + (str "filename=").length) = file at hfile
  obtain ⟨mem', offset, hextract, hhigh, hoffset, hparams⟩ :=
    extractParams_holds hwf hstring hfile
  rw [hlit.key] at hextract
  have hdata : HoldsAt mem (start + part.header.length + 4) (part.data ++ [0]) :=
    (holdsAt_append.mp hrest).2
  replace hdata := hparams.holds (hset.holds hdata (.inr (by omega))) (.inr (by omega))
  obtain ⟨mem'', data, halign, hlow, hhigh', hmoved, hmove⟩ := alignData_holds hdata (by omega)
  have hval : (start + part.text.length + U32 - (start + part.header.length + 4)) % U32
      = part.data.length := by
    rw [htext, show start + (part.header.length + 4 + part.data.length) + U32
      - (start + part.header.length + 4) = part.data.length + U32 by omega,
      Nat.add_mod_right, Nat.mod_eq_of_lt hsize]
  have hprocess : processPart mem start (start + part.text.length)
      = some (mem'', some ⟨some offset, data, (extractParam mem' file).2, part.data.length⟩) := by
    simp only [processPart, hblank, cstr_of_holds hstring hwf.no_zero, hname, Option.map_some,
      hfiles, hextract, hval, halign]
  refine ⟨_, _, hprocess, ⟨⟨offset, rfl, by omega, ?_⟩, rfl, ?_, hmoved⟩, ?_⟩
  · refine hmove.holds hoffset (.inl ?_)
    rw [length_append, length_singleton]
    omega
  · dsimp only
    omega
  · exact ((hset.mono (by omega) (by omega)).trans (hparams.mono (by omega) (by omega))).trans
      (hmove.mono (by omega) (by omega))

/-! ## Forms -/

/-- Where the parts of a form lie, each with a zero behind it. -/
inductive Lies (mem : List Byte) : ℕ → List (ℕ × ℕ) → List Part → Prop
  | nil (low : ℕ) : Lies mem low [] []
  | cons {low start : ℕ} {places : List (ℕ × ℕ)} {part : Part} {parts : List Part}
    (hlow : low ≤ start) (htext : HoldsAt mem start (part.text ++ [0]))
    (hrest : Lies mem (start + part.text.length) places parts) :
    Lies mem low ((start, start + part.text.length) :: places) (part :: parts)

variable {low : ℕ} {places : List (ℕ × ℕ)}

theorem Lies.congr {mem' : List Byte} (h : Lies mem low places parts) {o n : ℕ} (hr : o + n ≤ low)
    (hmem : ChangesOnly ⟨o, n⟩ mem mem') : Lies mem' low places parts := by
  induction h with
  | nil low => exact .nil low
  | cons hlow htext _ ih =>
    exact .cons hlow (hmem.holds htext (.inr (by omega))) (ih (by omega))

theorem Lies.mono {low' : ℕ} (h : Lies mem low places parts) (hle : low' ≤ low) :
    Lies mem low' places parts := by
  cases h with
  | nil => exact .nil low'
  | cons hlow htext hrest => exact .cons (Nat.le_trans hle hlow) htext hrest

/-- The values of all parts, each in its own place. -/
theorem processForm_delivers (h : Lies mem low places parts)
    (hwf : ∀ part ∈ parts, part.WellFormed boundary) (hlit : ∀ part ∈ parts, part.Literal)
    (hsize : ∀ part ∈ parts, part.data.length < U32) (values : List Value)
    (hvalues : values.length + parts.length ≤ MAX_HTTP_FORM_VALUE_ITEMS) :
    ∃ mem' values', processForm places mem values = some (mem', values ++ values') ∧
      List.Forall₂ (fun part value => ∃ stop, Delivers mem' stop part value) parts values' ∧
      ChangesOnly ⟨low, mem.length - low⟩ mem mem' := by
  induction places generalizing mem low parts values with
  | nil =>
    cases h
    exact ⟨mem, [], by rw [processForm, append_nil], .nil, .refl _ mem⟩
  | cons place places ih =>
    cases h with
    | @cons _ start _ part parts hlow htext hrest =>
      have hlen := htext.length_le (by simp)
      rw [length_append] at hlen
      rw [length_cons] at hvalues
      obtain ⟨mem', value, hpart, hdelivers, hchanges⟩ :=
        processPart_delivers (hwf part mem_cons_self) (hlit part mem_cons_self) htext
          (hsize part mem_cons_self)
      obtain ⟨mem'', values', hform, hall, hchanges'⟩ :=
        ih (hrest.congr (Nat.le_refl _) hchanges)
          (fun p hp => hwf p (mem_cons_of_mem part hp))
          (fun p hp => hlit p (mem_cons_of_mem part hp))
          (fun p hp => hsize p (mem_cons_of_mem part hp)) (values ++ [value])
          (by rw [length_append, length_singleton]; omega)
      rw [hchanges.length] at hchanges'
      refine ⟨mem'', value :: values', ?_, .cons ⟨_, hdelivers.congr hchanges'⟩ hall, ?_⟩
      · simp only [processForm, hpart]
        rw [if_pos (by omega), hform, append_assoc]
        rfl
      · exact (hchanges.mono (by omega) (by omega)).trans (hchanges'.mono (by omega) (by omega))

/-! ## Delimiters -/

theorem not_mem_delimiterOf (hdash : c ≠ 0x2d) (hc : c ∉ boundary) : c ∉ delimiterOf boundary := by
  refine not_mem_append (fun h => hdash ?_) hc
  simpa [str] using h

theorem delimiterOf_ne_nil : delimiterOf boundary ≠ [] := by
  simp [delimiterOf, str]

/-- The text has no end of a line in it. -/
structure OneLine (l : List Byte) : Prop where
  no_return : 0x0d ∉ l
  no_feed : 0x0a ∉ l

theorem OneLine.delimiterOf (h : OneLine boundary) : OneLine (delimiterOf boundary) :=
  ⟨not_mem_delimiterOf (by decide) h.no_return, not_mem_delimiterOf (by decide) h.no_feed⟩

/-- A line end that the pattern has nothing of cuts the text in two. -/
theorem not_infix_append_crlf {pat l l' : List Byte} (hline : OneLine pat) (hne : pat ≠ [])
    (h : ¬pat <:+: l) (h' : ¬pat <:+: l') : ¬pat <:+: l ++ (crlf ++ l') :=
  not_infix_append_cons hline.no_return hne h (not_infix_append_cons (l := []) hline.no_feed hne
    (fun hnil => hne (infix_nil.mp hnil)) h')

section

variable (hwf : part.WellFormed boundary) (hline : OneLine boundary)
include hwf hline

/-- The delimiter is not in the text of a part. -/
theorem Part.WellFormed.not_infix_text : ¬delimiterOf boundary <:+: part.text := by
  have hdata : ¬delimiterOf boundary <:+: part.data :=
    fun h => hwf.data_boundary ((suffix_append _ _).isInfix.trans h)
  rw [Part.text, append_assoc, append_assoc]
  refine not_infix_append_crlf hline.delimiterOf delimiterOf_ne_nil hwf.header_boundary ?_
  exact not_infix_append_crlf (l := []) hline.delimiterOf delimiterOf_ne_nil
    (fun h => delimiterOf_ne_nil (infix_nil.mp h)) hdata

/-- Behind the text of a part the next delimiter is found. -/
theorem findSub_delimiter (rest : List Byte) :
    findSub (delimiterOf boundary) (part.text ++ crlf ++ delimiterOf boundary ++ rest)
      = some (part.text.length + 2) := by
  have hnil : findSub (delimiterOf boundary) [] = none := if_neg delimiterOf_ne_nil
  have htext : part.text ++ crlf ++ delimiterOf boundary ++ rest
      = part.text ++ 0x0d :: ([] ++ 0x0a :: (delimiterOf boundary ++ rest)) := by
    simp [crlf]
  rw [htext, findSub_append_cons hline.delimiterOf.no_return delimiterOf_ne_nil
      (findSub_eq_none_iff.mpr (hwf.not_infix_text hline)),
    findSub_append_cons hline.delimiterOf.no_feed delimiterOf_ne_nil hnil,
    findSub_of_starts (prefix_append _ _)]
  simp only [Option.map_some, length_nil]
  congr 1
  omega

omit hwf hline in
theorem bodyRest_cons (epilogue : List Byte) (part : Part) (parts : List Part) :
    delimiterOf boundary ++ bodyRest boundary epilogue (part :: parts)
      = delimiterOf boundary ++ (crlf ++ (part.text ++ (crlf ++
        (delimiterOf boundary ++ bodyRest boundary epilogue parts)))) := by
  simp only [bodyRest, append_assoc]

/-- One round of the first loop: a part, with a zero behind its text. -/
theorem splitForm_part {rest : List Byte} {payload_end : ℕ}
    (hstart : start = p + (delimiterOf boundary).length + 2)
    (hcrlf : HoldsAt mem (p + (delimiterOf boundary).length) crlf)
    (hpart : HoldsAt mem start (part.text ++ (crlf ++ (delimiterOf boundary ++ rest))))
    (hend : payload_end = start + (part.text ++ (crlf ++ (delimiterOf boundary ++ rest))).length)
    (n : ℕ) :
    splitForm (delimiterOf boundary) payload_end (n + 1) mem p
      = (splitForm (delimiterOf boundary) payload_end n (mem.set (start + part.text.length) 0)
          (start + part.text.length + 2)).map
        fun r => (r.1, (start, start + part.text.length) :: r.2) := by
  have hbegin : (mem.drop (p + (delimiterOf boundary).length)).take 2 = crlf := hcrlf
  have hfind : memstr (mem.drop start) (payload_end - start) (delimiterOf boundary)
      = some (part.text.length + 2) := by
    rw [hend, Nat.add_sub_cancel_left, memstr]
    have hread : (mem.drop start).take
        (part.text ++ (crlf ++ (delimiterOf boundary ++ rest))).length
          = part.text ++ (crlf ++ (delimiterOf boundary ++ rest)) := hpart
    rw [hread, strstr, ← append_assoc, ← append_assoc]
    exact findSub_delimiter hwf hline rest
  have hline : (mem.drop (start + part.text.length)).take 2 = crlf :=
    (holdsAt_append.mp (holdsAt_append.mp hpart).2).1
  have hback : start + (part.text.length + 2) - 2 = start + part.text.length := by omega
  rw [splitForm]
  rw [hbegin, if_neg (not_not_intro rfl), ← hstart, if_neg (by omega), hfind]
  dsimp only
  rw [hback, if_pos hline, ← Nat.add_assoc]
  cases splitForm (delimiterOf boundary) payload_end n (mem.set (start + part.text.length) 0)
    (start + part.text.length + 2) <;> rfl

end

section

variable (hwf : ∀ part ∈ parts, part.WellFormed boundary) (hline : OneLine boundary)
include hwf hline

/-- The first loop finds the parts, and puts a zero behind each of them. -/
theorem splitForm_parts {n : ℕ} (hn : parts.length ≤ n) {payload_end : ℕ}
    (hmem : HoldsAt mem p (delimiterOf boundary ++ bodyRest boundary epilogue parts))
    (hend : payload_end = p + (delimiterOf boundary ++ bodyRest boundary epilogue parts).length) :
    ∃ mem' places, splitForm (delimiterOf boundary) payload_end n mem p = some (mem', places) ∧
      Lies mem' p places parts ∧ ChangesOnly ⟨p, mem.length - p⟩ mem mem' := by
  induction parts generalizing n mem p with
  | nil =>
    refine ⟨mem, [], ?_, .nil p, .refl _ mem⟩
    cases n with
    | zero => rfl
    | succ n =>
      have hdashes : (mem.drop (p + (delimiterOf boundary).length)).take 2 = str "--" := by
        rw [bodyRest, ← append_assoc, holdsAt_append, holdsAt_append] at hmem
        exact hmem.1.2
      rw [splitForm]
      rw [hdashes, if_pos (by decide)]
  | cons part parts ih =>
    cases n with
    | zero => exact absurd hn (Nat.not_succ_le_zero _)
    | succ n =>
      have htwo : crlf.length = 2 := rfl
      rw [bodyRest_cons] at hmem hend
      have hlen := hmem.length_le (append_ne_nil_of_left_ne_nil delimiterOf_ne_nil _)
      obtain ⟨-, hmem⟩ := holdsAt_append.mp hmem
      obtain ⟨hcrlf, hpart⟩ := holdsAt_append.mp hmem
      generalize hstart : p + (delimiterOf boundary).length + crlf.length = start at hpart
      simp only [length_append, htwo] at hlen hend hstart
      obtain ⟨htext, hbehind⟩ := holdsAt_append.mp hpart
      have hset := changesOnly_set (start + part.text.length) mem 0
      -- the rest of the form is behind the zero
      obtain ⟨mem', places, hsplit, hlies, hchanges⟩ :=
        ih (fun q hq => hwf q (mem_cons_of_mem part hq)) (Nat.le_of_succ_le_succ hn)
          (hset.holds (holdsAt_append.mp hbehind).2 (.inr (by omega)))
          (by rw [length_append]; omega)
      rw [hset.length] at hchanges
      rw [htwo] at hsplit hlies hchanges
      have hcut : HoldsAt mem' start (part.text ++ [0]) :=
        hchanges.holds (holdsAt_set_end htext (by omega))
          (.inl (by rw [length_append, length_singleton]; omega))
      refine ⟨mem', (start, start + part.text.length) :: places, ?_,
        .cons (by omega) hcut (hlies.mono (Nat.le_add_right _ _)), ?_⟩
      · rw [splitForm_part (hwf part mem_cons_self) hline hstart.symm hcrlf hpart
          (by simp only [length_append, htwo]; omega), hsplit]
        rfl
      · exact (hset.mono (by omega) (by omega)).trans (hchanges.mono (by omega) (by omega))

omit hwf hline in
theorem length_data_le (h : part ∈ parts) :
    part.data.length ≤ (bodyRest boundary epilogue parts).length := by
  induction parts with
  | nil => exact absurd h not_mem_nil
  | cons first parts ih =>
    have htext := length_text part
    simp only [bodyRest, length_append]
    rcases mem_cons.mp h with rfl | h
    · omega
    · have := ih h
      omega

/-- The form values of a body are those of its parts. -/
theorem parseForm_body (hlit : ∀ part ∈ parts, part.Literal)
    (hn : parts.length ≤ MAX_HTTP_FORM_VALUE_ITEMS)
    (hsize : (bodyOf boundary epilogue parts).length < U32)
    (hmem : HoldsAt mem start (bodyOf boundary epilogue parts)) :
    ∃ mem' values,
      parseForm boundary mem start (bodyOf boundary epilogue parts).length []
        = some (mem', values) ∧
      List.Forall₂ (fun part value => ∃ stop, Delivers mem' stop part value) parts values := by
  obtain ⟨mem', places, hsplit, hlies, -⟩ := splitForm_parts hwf hline hn hmem rfl
  have hdata : ∀ part ∈ parts, part.data.length < U32 := fun part hpart => by
    have hle := @length_data_le boundary epilogue part parts hpart
    rw [bodyOf, length_append] at hsize
    omega
  obtain ⟨mem'', values, hform, hall, -⟩ :=
    processForm_delivers hlies hwf hlit hdata [] (by simpa using hn)
  refine ⟨mem'', values, ?_, hall⟩
  rw [parseForm, show str "--" ++ boundary = delimiterOf boundary from rfl, bodyOf, hsplit]
  exact hform

omit hwf hline

/-! ## What the handler reads -/

/-- The name, the size and the data of a form value. -/
def Value.contents (mem : List Byte) (value : Value) : Option (List Byte) × ℕ × List Byte :=
  (value.name.map fun offset => cstr (mem.drop offset), value.size,
    read mem ⟨value.data, value.size⟩)

/-- The name, the size and the data of a part. -/
def Part.contents (part : Part) : Option (List Byte) × ℕ × List Byte :=
  (some part.name, part.data.length, part.data)

theorem Part.WellFormed.terminator_eq_zero_iff (hwf : part.WellFormed boundary) :
    part.terminator = 0 ↔ part.NameEnds := by
  unfold Part.terminator Part.NameEnds
  split
  · rename_i hquoted
    simp [hquoted]
  · rename_i hquoted hafter
    simp [hafter]
  · rename_i c rest hquoted hafter
    have hc := hwf.end_of_name hquoted c (by rw [hafter]; rfl)
    rw [hafter]
    constructor
    · intro hzero _ b hb
      cases hb
      by_contra hne
      rw [if_neg hne] at hzero
      rcases hc with rfl | rfl | rfl | rfl <;> exact absurd hzero (by decide)
    · intro hends
      exact if_pos (hends hquoted c rfl)

theorem Part.WellFormed.zero_not_mem_name (hwf : part.WellFormed boundary) : 0 ∉ part.name := by
  refine fun h => hwf.no_zero (mem_append_right _ ?_)
  unfold Part.param
  split
  · exact mem_append_left _ (mem_cons_of_mem _ h)
  · exact mem_append_left _ h

/-- The value has the name of the part when the name ends where it is cut off. -/
theorem Delivers.contents_eq_iff {value : Value} (h : Delivers mem stop part value)
    (hwf : part.WellFormed boundary) : value.contents mem = part.contents ↔ part.NameEnds := by
  obtain ⟨offset, hname, -, hholds⟩ := h.name
  have hdata : read mem ⟨value.data, value.size⟩ = part.data := by
    rw [h.size]
    exact h.data
  rw [← hwf.terminator_eq_zero_iff, Value.contents, Part.contents, hdata, h.size,
    Option.mem_def.mp hname, Option.map_some, hholds.drop_eq, append_assoc,
    cstr_append hwf.zero_not_mem_name]
  simp only [Prod.mk.injEq, Option.some.injEq, and_true, append_right_eq_self]
  rw [cstr, cons_append, nil_append, takeWhile_cons]
  by_cases hzero : part.terminator = 0 <;> simp [hzero]

include hwf hline

/-- The values of a body are those of its parts when all names end where they are cut off. -/
theorem parseForm_contents (hlit : ∀ part ∈ parts, part.Literal)
    (hn : parts.length ≤ MAX_HTTP_FORM_VALUE_ITEMS)
    (hsize : (bodyOf boundary epilogue parts).length < U32)
    (hmem : HoldsAt mem start (bodyOf boundary epilogue parts)) :
    ∃ mem' values,
      parseForm boundary mem start (bodyOf boundary epilogue parts).length []
        = some (mem', values) ∧
      (values.map (Value.contents mem') = parts.map Part.contents ↔
        ∀ part ∈ parts, part.NameEnds) := by
  obtain ⟨mem', values, hform, hall⟩ := parseForm_body hwf hline hlit hn hsize hmem
  refine ⟨mem', values, hform, ?_⟩
  clear hform hmem hsize hn hlit
  induction hall with
  | nil => simp
  | @cons part value parts values hfirst _ ih =>
    obtain ⟨stop, hdelivers⟩ := hfirst
    rw [map_cons, map_cons, List.cons.injEq, forall_mem_cons,
      hdelivers.contents_eq_iff (hwf part mem_cons_self),
      ih fun p hp => hwf p (mem_cons_of_mem part hp)]

/-! ## A boundary that is read too long -/

variable
  (hepilogue : epilogue = [] ∨ ∃ rest, epilogue = crlf ++ rest ∧ ¬delimiterOf boundary <:+: rest)
  (hc : c ≠ 0x0d ∧ c ≠ 0x0a ∧ c ≠ 0x2d)
include hepilogue hc

/-- The delimiter with a byte that never follows it is not in a body. -/
theorem not_infix_body : ¬delimiterOf boundary ++ [c] <:+: bodyOf boundary epilogue parts := by
  obtain ⟨hcreturn, hcfeed, hcdash⟩ := hc
  have hline' : OneLine (delimiterOf boundary ++ [c]) :=
    ⟨not_mem_concat hline.delimiterOf.no_return hcreturn,
      not_mem_concat hline.delimiterOf.no_feed hcfeed⟩
  have hne : delimiterOf boundary ++ [c] ≠ [] := by simp
  have hshorter : ∀ l, ¬delimiterOf boundary <:+: l → ¬delimiterOf boundary ++ [c] <:+: l :=
    fun l h hinside => h ((prefix_append _ _).isInfix.trans hinside)
  induction parts with
  | nil =>
    have hclose : ¬delimiterOf boundary ++ [c] <:+: delimiterOf boundary ++ str "--" := by
      rintro ⟨front, back, heq⟩
      have hlen := congrArg List.length heq
      -- the byte behind the delimiter is one of the two dashes
      have hleft : (front ++ (delimiterOf boundary ++ [c]) ++ back)[front.length
          + (delimiterOf boundary).length]? = some c := by
        rw [append_assoc, append_assoc, List.getElem?_append_right (by omega),
          Nat.add_sub_cancel_left, List.getElem?_append_right (Nat.le_refl _), Nat.sub_self]
        rfl
      rw [heq, List.getElem?_append_right (by omega), Nat.add_sub_cancel] at hleft
      have hdash := mem_of_getElem? hleft
      exact hcdash (by simpa [str] using hdash)
    rw [bodyOf, bodyRest, ← append_assoc]
    rcases hepilogue with rfl | ⟨rest, rfl, hrest⟩
    · rwa [append_nil]
    · exact not_infix_append_crlf hline' hne hclose (hshorter _ hrest)
  | cons part parts ih =>
    have hpart := hshorter _ ((hwf part mem_cons_self).not_infix_text hline)
    have hdelimiter : ¬delimiterOf boundary ++ [c] <:+: delimiterOf boundary := by
      intro h
      have := h.length_le
      rw [length_append, length_singleton] at this
      omega
    rw [bodyOf, bodyRest_cons]
    refine not_infix_append_crlf hline' hne hdelimiter ?_
    refine not_infix_append_crlf hline' hne hpart ?_
    exact ih fun p hp => hwf p (mem_cons_of_mem part hp)

/-- With more than the boundary behind the dashes no part is found. -/
theorem parseForm_misread (more : List Byte)
    (hmem : HoldsAt mem start (bodyOf boundary epilogue parts)) :
    parseForm (boundary ++ c :: more) mem start (bodyOf boundary epilogue parts).length [] = none ∨
      parseForm (boundary ++ c :: more) mem start (bodyOf boundary epilogue parts).length []
        = some (mem, []) := by
  have hsearch : ∀ k, memstr (mem.drop (start + k)) ((bodyOf boundary epilogue parts).length - k)
      (str "--" ++ (boundary ++ c :: more)) = none := by
    intro k
    have hread : (mem.drop (start + k)).take ((bodyOf boundary epilogue parts).length - k)
        = (bodyOf boundary epilogue parts).drop k := by
      rw [← drop_drop, ← drop_take]
      exact congrArg (List.drop k) hmem
    rw [memstr, strstr, hread, findSub_eq_none_iff]
    intro hinside
    refine not_infix_body hwf hline hepilogue hc (List.IsInfix.trans ?_
      (hinside.trans (drop_suffix _ _).isInfix))
    refine ⟨[], more, ?_⟩
    simp [delimiterOf]
  rw [parseForm, MAX_HTTP_FORM_VALUE_ITEMS, splitForm]
  dsimp only
  split_ifs with hcrlf hend
  · exact .inr rfl
  · exact .inl rfl
  · right
    have hplace := hsearch ((str "--" ++ (boundary ++ c :: more)).length + 2)
    rw [← Nat.add_assoc] at hplace
    rw [show start + (bodyOf boundary epilogue parts).length
      - (start + (str "--" ++ (boundary ++ c :: more)).length + 2)
      = (bodyOf boundary epilogue parts).length - ((str "--" ++ (boundary ++ c :: more)).length + 2)
      by omega, hplace]
    rfl

end

end RutosSdk.Uboot.Httpd
