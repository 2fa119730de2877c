import Mathlib.Data.List.DropRight
import RutosSdk.Drivers.MnfInfo

/-! # The types of manufacturer fields

Reference: `fix_types` with `fix_rs_allign`, `fix_ascii_type`, `fix_alnum_type`, `fix_digit_type`
and `strip_whitespaces` in `target/linux/generic/files/drivers/sysfs-mnfinfo/sysfs-mnfinfo.c`.

The bytes of a field are read into a buffer of zeros that is longer than the field, and are made a
C string there in up to three passes: a field that is alligned to the right is moved to the start,
the bytes that are not of the class of the field become zeros, or the default replaces them, and
white space is taken off the end. The last pass goes from the end of the buffer and not from the
end of the string.
-/

namespace RutosSdk.Drivers.FixTypes

open List MnfInfo

/-! ## Characters -/

/-- `isascii` -/
def isAscii (c : Byte) : Bool := c < 0x80

/-- `isalnum`, with the letters of Latin-1. -/
def isAlnum (c : Byte) : Bool :=
  isDigit c || (0x41 ≤ c && c ≤ 0x5a) || (0x61 ≤ c && c ≤ 0x7a)
    || (0xc0 ≤ c && c ≠ 0xd7 && c ≠ 0xf7)

/-- `isspace`, with the no-break space of Latin-1. -/
def isSpace (c : Byte) : Bool := (0x09 ≤ c && c ≤ 0x0d) || c == 0x20 || c == 0xa0

/-- A byte that was never written. -/
def unset (c : Byte) : Bool := c == 0 || c == 0xff

/-- What `strip_whitespaces` takes off. -/
def strippable (c : Byte) : Bool := unset c || isSpace c

/-! ## The passes over a buffer -/

/-- `fix_rs_allign` -/
def fixRsAllign (data : List Byte) : List Byte :=
  let off := (data.takeWhile unset).length
  data.drop off ++ List.replicate off 0

/-- `snprintf(e->data, e->dt_len, "%s", def)` -/
def snprintf (data default : List Byte) : List Byte :=
  let written := default.take (data.length - 1)
  written ++ 0 :: data.drop (written.length + 1)

/-- The test of a character: it is not the zero, and of the class. -/
def valid (isClass : Byte → Bool) (c : Byte) : Bool := c ≠ 0 && isClass c

/-- A byte that does not pass becomes a zero. -/
def blank (isClass : Byte → Bool) (c : Byte) : Byte := if valid isClass c then c else 0

/-- `fix_ascii_type`, `fix_alnum_type` and `fix_digit_type`, with the class of characters: the
status and the buffer. -/
def fixClassType (isClass : Byte → Bool) (data : List Byte) (len : ℕ)
    (default : Option (List Byte)) : ℤ × List Byte :=
  match data with
  | [] => (0, [])
  | buf :: rest =>
    if valid isClass buf = false then
      match default with
      | none => (1, 0 :: rest)
      | some default => (0, snprintf (buf :: rest) default)
    else (0, buf :: ((rest.take (len - 1)).map (blank isClass) ++ rest.drop (len - 1)))

/-- `fix_ascii_type` -/
def fixAsciiType := fixClassType isAscii

/-- `fix_alnum_type` -/
def fixAlnumType := fixClassType isAlnum

/-- `fix_digit_type` -/
def fixDigitType := fixClassType isDigit

/-- `strip_whitespaces` -/
def stripWhitespaces (data : List Byte) : List Byte :=
  let kept := data.rdropWhile strippable
  kept ++ List.replicate (data.length - kept.length) 0

/-- The types whose value is the text in the flash. -/
inductive FieldType where
  | ascii
  | alnum
  | digit
deriving DecidableEq, Repr

/-- The class of characters of a type. -/
def FieldType.isClass : FieldType → Byte → Bool
  | .ascii => isAscii
  | .alnum => isAlnum
  | .digit => isDigit

/-- A field as `parse_prop` hands it to `fix_types`: the bytes that were read, the length of the
buffer they were read to, and the properties of its node. The buffer is longer than the field, and
a default is a C string. -/
structure Field where
  flash : List Byte
  dt_len : ℕ
  type : FieldType
  default : Option (List Byte)
  strip : Bool
  rs_alligned : Bool
  shorter : flash.length < dt_len
  default_text : ∀ d, default = some d → 0 ∉ d

/-- The buffer of the entry, allocated with `kzalloc`, when the bytes are read. -/
def Field.data (f : Field) : List Byte := f.flash ++ List.replicate (f.dt_len - f.flash.length) 0

/-- `fix_types`, for the three types: the status and the buffer. -/
def fixTypes (f : Field) : ℤ × List Byte :=
  let data := if f.rs_alligned then fixRsAllign f.data else f.data
  let (rc, data) :=
    match f.type with
    | .ascii => fixAsciiType data f.flash.length f.default
    | .alnum => fixAlnumType data f.flash.length f.default
    | .digit => fixDigitType data f.flash.length f.default
  if rc = 0 ∧ f.strip then (rc, stripWhitespaces data) else (rc, data)

/-! ## What is expected of the text -/

/-- The default, as far as it fits. -/
def Field.cut (f : Field) (default : List Byte) : List Byte := default.take (f.dt_len - 1)

/-- The default, or without the white space at its end if that is to be stripped. -/
def IsDefault (f : Field) (t : List Byte) : Prop :=
  ∃ d, f.default = some d ∧ (t = f.cut d ∨ f.strip = true ∧ t = (f.cut d).rdropWhile strippable)

/-- A piece of the stored bytes with characters of the class only. -/
def IsPiece (f : Field) (t : List Byte) : Prop :=
  (∀ c ∈ t, f.type.isClass c = true) ∧ t <:+: f.flash

def EndsInSpace (t : List Byte) : Prop := ∃ c ∈ t.getLast?, isSpace c = true

/-- What the buffer is expected to hold. -/
structure Fixed (f : Field) (data : List Byte) : Prop where
  length : data.length = f.dt_len
  ends : 0 ∈ data
  value : IsDefault f (cstr data) ∨ IsPiece f (cstr data)
  stripped : f.strip = true → ¬EndsInSpace (cstr data)

/-- If `fix_types` succeeds, the buffer holds what is expected. -/
def FixesType (f : Field) : Prop := (fixTypes f).1 = 0 → Fixed f (fixTypes f).2

/-! ## The end of the buffer and the end of the string -/

theorem rdropWhile_append_of_forall {α : Type} {p : α → Bool} (l : List α) {r : List α}
    (h : ∀ a ∈ r, p a = true) : (l ++ r).rdropWhile p = l.rdropWhile p := by
  rw [List.rdropWhile, reverse_append, dropWhile_append_of_pos, List.rdropWhile]
  exact fun a ha => h a (mem_reverse.mp ha)

theorem rdropWhile_append_of_exists {α : Type} {p : α → Bool} (l : List α) {r : List α}
    (h : ∃ a ∈ r, p a = false) : (l ++ r).rdropWhile p = l ++ r.rdropWhile p := by
  obtain ⟨a, ha, hpa⟩ := h
  have hrest : (r.reverse.dropWhile p).isEmpty = false := by
    rw [isEmpty_eq_false_iff, ne_eq, dropWhile_eq_nil_iff]
    exact fun hall => absurd (hall a (mem_reverse.mpr ha)) (by simp [hpa])
  rw [List.rdropWhile, reverse_append, dropWhile_append, hrest, if_neg (by simp),
    reverse_append, reverse_reverse, List.rdropWhile]

theorem text_append_zero {t : List Byte} (ht : 0 ∉ t) (rest : List Byte) :
    cstr (t ++ 0 :: rest) = t := by
  have hpass : ∀ c ∈ t, decide (c ≠ 0) = true := by
    intro c hc
    have hne : c ≠ 0 := fun h => ht (h ▸ hc)
    exact decide_eq_true hne
  rw [cstr, takeWhile_append_of_pos hpass, takeWhile_cons_of_neg (by simp), append_nil]

theorem length_stripWhitespaces (data : List Byte) :
    (stripWhitespaces data).length = data.length := by
  have hle := (List.rdropWhile_prefix strippable data).length_le
  rw [stripWhitespaces, length_append, length_replicate]
  omega

variable {rest : List Byte} {f : Field} {c : Byte} {n : ℕ}

/-- With another byte behind the string, the string stays as it is. -/
theorem stripWhitespaces_of_exists (t : List Byte) (h : ∃ c ∈ rest, strippable c = false) :
    ∃ rest', stripWhitespaces (t ++ 0 :: rest) = t ++ 0 :: rest' := by
  have hkept : (t ++ 0 :: rest).rdropWhile strippable = t ++ 0 :: rest.rdropWhile strippable := by
    have hmem : ∃ c ∈ [0] ++ rest, strippable c = false :=
      h.imp fun c hc => ⟨mem_append_right _ hc.1, hc.2⟩
    rw [show (0 : Byte) :: rest = [0] ++ rest from rfl, rdropWhile_append_of_exists t hmem,
      rdropWhile_append_of_exists [0] h]
    rfl
  rw [stripWhitespaces, hkept, append_assoc]
  exact ⟨_, rfl⟩

/-- With nothing behind the string, white space is taken off its end. -/
theorem stripWhitespaces_of_forall (t : List Byte) (h : ∀ c ∈ rest, strippable c = true) :
    ∃ rest', stripWhitespaces (t ++ 0 :: rest) = t.rdropWhile strippable ++ 0 :: rest' := by
  have hkept : (t ++ 0 :: rest).rdropWhile strippable = t.rdropWhile strippable :=
    rdropWhile_append_of_forall t (forall_mem_cons.mpr ⟨rfl, h⟩)
  have hle := (List.rdropWhile_prefix strippable t).length_le
  refine ⟨List.replicate (t.length + rest.length - (t.rdropWhile strippable).length) 0, ?_⟩
  rw [stripWhitespaces, hkept, length_append, length_cons, ← replicate_succ]
  congr 2
  omega

theorem not_endsInSpace_rdropWhile (t : List Byte) : ¬EndsInSpace (t.rdropWhile strippable) := by
  rintro ⟨c, hc, hspace⟩
  obtain ⟨hne, hlast⟩ := mem_getLast?_eq_getLast hc
  refine rdropWhile_last_not strippable t hne ?_
  rw [← hlast, strippable, hspace, Bool.or_true]

/-- The text before the last pass decides: what is expected fails only if white space at its end is
not seen, as another byte stands behind it. -/
theorem fixed_iff {t : List Byte} (hlength : (t ++ 0 :: rest).length = f.dt_len) (ht : 0 ∉ t)
    (hvalue : IsDefault f t ∨ IsPiece f t) (hstripped : f.strip = true →
      IsDefault f (t.rdropWhile strippable) ∨ IsPiece f (t.rdropWhile strippable)) :
    Fixed f (if f.strip then stripWhitespaces (t ++ 0 :: rest) else t ++ 0 :: rest)
      ↔ (f.strip = true → ¬(EndsInSpace t ∧ ∃ c ∈ rest, strippable c = false)) := by
  have ht' : 0 ∉ t.rdropWhile strippable :=
    fun h => ht ((List.rdropWhile_prefix strippable t).subset h)
  have hlength' := length_stripWhitespaces (t ++ 0 :: rest)
  by_cases hstrip : f.strip = true
  swap
  · rw [if_neg hstrip]
    refine iff_of_true ⟨hlength, by simp, ?_, fun h => absurd h hstrip⟩ fun h => absurd h hstrip
    rwa [text_append_zero ht]
  rw [if_pos hstrip, forall_prop_of_true hstrip]
  by_cases hrest : ∃ c ∈ rest, strippable c = false
  · obtain ⟨rest', hsame⟩ := stripWhitespaces_of_exists t hrest
    rw [hsame] at hlength' ⊢
    have htext := text_append_zero ht rest'
    constructor
    · rintro hfixed ⟨hspace, -⟩
      exact hfixed.stripped hstrip (by rwa [htext])
    · intro hcond
      refine ⟨hlength'.trans hlength, by simp, by rwa [htext], fun _ hspace => ?_⟩
      rw [htext] at hspace
      exact hcond ⟨hspace, hrest⟩
  · have hall : ∀ c ∈ rest, strippable c = true := fun c hc =>
      (Bool.eq_false_or_eq_true _).resolve_right fun h => hrest ⟨c, hc, h⟩
    obtain ⟨rest', hoff⟩ := stripWhitespaces_of_forall t hall
    rw [hoff] at hlength' ⊢
    have htext := text_append_zero ht' rest'
    refine iff_of_true ⟨hlength'.trans hlength, by simp, ?_, fun _ => ?_⟩ fun h => hrest h.2
    · rw [htext]
      exact hstripped hstrip
    · rw [htext]
      exact not_endsInSpace_rdropWhile t

/-! ## The passes before it -/

/-- The stored bytes, from the first one that is set if the field is alligned to the right. -/
def Field.stored (f : Field) : List Byte :=
  if f.rs_alligned then f.flash.dropWhile unset else f.flash

theorem Field.stored_suffix (f : Field) : f.stored <:+ f.flash := by
  rw [Field.stored]
  split_ifs
  · exact dropWhile_suffix unset
  · exact suffix_rfl

/-- The value moves to the front. -/
theorem fixRsAllign_append_zeros (l : List Byte) (n : ℕ) :
    fixRsAllign (l ++ List.replicate n 0)
      = l.dropWhile unset ++ List.replicate (n + l.length - (l.dropWhile unset).length) 0 := by
  have hzeros : ∀ c ∈ List.replicate n (0 : Byte), unset c = true := by
    intro c hc
    rw [eq_of_mem_replicate hc]
    rfl
  have hsplit : l.takeWhile unset ++ l.dropWhile unset = l := takeWhile_append_dropWhile
  have hlength := congrArg List.length hsplit
  rw [length_append] at hlength
  rw [fixRsAllign]
  cases hset : l.dropWhile unset with
  | nil =>
    have hall : ∀ c ∈ l ++ List.replicate n 0, unset c = true :=
      forall_mem_append.mpr ⟨dropWhile_eq_nil_iff.mp hset, hzeros⟩
    rw [takeWhile_eq_self_iff.mpr hall, drop_length, length_append,
      length_replicate, length_nil, Nat.sub_zero, Nat.add_comm]
  | cons c cs =>
    have htake : (l ++ List.replicate n 0).takeWhile unset = l.takeWhile unset := by
      have hc : ¬unset c = true := by
        have := head_dropWhile_not unset
          (show l.dropWhile unset ≠ [] by rw [hset]; exact cons_ne_nil c cs)
        simpa [hset] using this
      conv_lhs => rw [← hsplit, hset, append_assoc]
      rw [takeWhile_append_of_pos fun a ha => mem_takeWhile_imp ha, cons_append,
        takeWhile_cons_of_neg hc, append_nil]
    have hdrop : (l ++ List.replicate n 0).drop (l.takeWhile unset).length
        = l.dropWhile unset ++ List.replicate n 0 := by
      conv_lhs => rw [show l ++ List.replicate n 0
        = l.takeWhile unset ++ (l.dropWhile unset ++ List.replicate n 0) by
          rw [← append_assoc, hsplit]]
      exact drop_left
    rw [hset] at hlength
    rw [htake, hdrop, hset, append_assoc, ← replicate_add]
    congr 2
    omega

/-- The buffer when its characters are tested: the stored bytes and at least one zero. -/
theorem Field.exists_alligned (f : Field) : ∃ n,
    (if f.rs_alligned then fixRsAllign f.data else f.data)
      = f.stored ++ List.replicate (n + 1) 0
    ∧ f.stored.length + (n + 1) = f.dt_len := by
  have hshort := f.shorter
  have hle := f.stored_suffix.length_le
  refine ⟨f.dt_len - f.stored.length - 1, ?_, by omega⟩
  rw [show f.dt_len - f.stored.length - 1 + 1 = f.dt_len - f.stored.length by omega, Field.data,
    fixRsAllign_append_zeros, Field.stored]
  split_ifs with hrs
  · congr 2
    omega
  · rfl

theorem fixTypes_eq {alligned data : List Byte} {rc : ℤ}
    (halligned : (if f.rs_alligned then fixRsAllign f.data else f.data) = alligned)
    (h : fixClassType f.type.isClass alligned f.flash.length f.default = (rc, data)) :
    fixTypes f = (rc, if rc = 0 ∧ f.strip = true then stripWhitespaces data else data) := by
  have hclass : (match f.type with
      | .ascii => fixAsciiType alligned f.flash.length f.default
      | .alnum => fixAlnumType alligned f.flash.length f.default
      | .digit => fixDigitType alligned f.flash.length f.default) = (rc, data) := by
    rw [← h]
    cases f.type <;> rfl
  rw [fixTypes, halligned]
  rw [hclass]
  dsimp only
  split_ifs <;> rfl

section

variable {isClass : Byte → Bool}

theorem blank_of_valid (h : valid isClass c = true) : blank isClass c = c := if_pos h

theorem blank_of_not_valid (h : ¬valid isClass c = true) : blank isClass c = 0 := if_neg h

theorem ne_zero_of_valid (h : valid isClass c = true) : c ≠ 0 := by
  rw [valid, Bool.and_eq_true] at h
  exact of_decide_eq_true h.1

theorem isClass_of_valid (h : valid isClass c = true) : isClass c = true := by
  rw [valid, Bool.and_eq_true] at h
  exact h.2

variable {buf : Byte}

theorem fixClassType_cons (rest : List Byte) (len : ℕ) (default : Option (List Byte))
    (hbuf : valid isClass buf = true) :
    fixClassType isClass (buf :: rest) len default
      = (0, buf :: ((rest.take (len - 1)).map (blank isClass) ++ rest.drop (len - 1))) :=
  if_neg (by simp [hbuf])

theorem fixClassType_cons_default (rest : List Byte) (len : ℕ) (default : List Byte)
    (hbuf : ¬valid isClass buf = true) :
    fixClassType isClass (buf :: rest) len (some default) = (0, snprintf (buf :: rest) default) :=
  if_pos (Bool.eq_false_iff.mpr hbuf)

theorem fixClassType_cons_none (rest : List Byte) (len : ℕ) (hbuf : ¬valid isClass buf = true) :
    fixClassType isClass (buf :: rest) len none = (1, 0 :: rest) :=
  if_pos (Bool.eq_false_iff.mpr hbuf)

/-- The bytes of the class up to the first other one are left, and some of those behind it. -/
theorem exists_map_blank (isClass : Byte → Bool) (l : List Byte) (n : ℕ) : ∃ rest,
    l.map (blank isClass) ++ List.replicate (n + 1) 0 = l.takeWhile (valid isClass) ++ 0 :: rest
    ∧ ((∃ c ∈ rest, strippable c = false)
      ↔ ∃ c ∈ l.dropWhile (valid isClass), valid isClass c = true ∧ strippable c = false) := by
  have hzeros : ∀ m, ¬∃ c ∈ List.replicate m (0 : Byte), strippable c = false := by
    rintro m ⟨c, hc, hsolid⟩
    rw [eq_of_mem_replicate hc] at hsolid
    exact absurd hsolid (by decide)
  have htake : (l.takeWhile (valid isClass)).map (blank isClass) = l.takeWhile (valid isClass) :=
    (map_congr_left fun c hc => blank_of_valid (mem_takeWhile_imp hc)).trans
      (map_id _)
  have hmap : l.map (blank isClass) = l.takeWhile (valid isClass)
      ++ (l.dropWhile (valid isClass)).map (blank isClass) := by
    conv_lhs => rw [← takeWhile_append_dropWhile (p := valid isClass) (l := l)]
    rw [map_append, htake]
  rw [hmap, append_assoc]
  cases hdrop : l.dropWhile (valid isClass) with
  | nil =>
    refine ⟨List.replicate n 0, by rw [replicate_succ]; rfl, ?_⟩
    exact iff_of_false (hzeros n) (by simp)
  | cons c cs =>
    have hc : ¬valid isClass c = true := by
      have := head_dropWhile_not (valid isClass)
        (show l.dropWhile (valid isClass) ≠ [] by rw [hdrop]; exact cons_ne_nil c cs)
      simpa [hdrop] using this
    refine ⟨cs.map (blank isClass) ++ List.replicate (n + 1) 0, ?_, ?_⟩
    · rw [map_cons, blank_of_not_valid hc, cons_append]
    · constructor
      · rintro ⟨d, hd, hsolid⟩
        rcases mem_append.mp hd with hd | hd
        · obtain ⟨e, he, rfl⟩ := mem_map.mp hd
          by_cases hvalid : valid isClass e = true
          · rw [blank_of_valid hvalid] at hsolid
            exact ⟨e, mem_cons_of_mem c he, hvalid, hsolid⟩
          · rw [blank_of_not_valid hvalid] at hsolid
            exact absurd hsolid (by decide)
        · exact absurd ⟨d, hd, hsolid⟩ (hzeros _)
      · rintro ⟨d, hd, hvalid, hsolid⟩
        rcases mem_cons.mp hd with rfl | hd
        · exact absurd hvalid hc
        · refine ⟨d, mem_append_left _ (mem_map.mpr ⟨d, hd, ?_⟩), hsolid⟩
          exact blank_of_valid hvalid

/-- A text that begins with a character of the class: every other byte becomes a zero. -/
theorem fixClassType_of_valid {cs : List Byte} {len : ℕ} (default : Option (List Byte))
    (hc : valid isClass c = true) (hlen : (c :: cs).length ≤ len) :
    fixClassType isClass (c :: cs ++ List.replicate n 0) len default
      = (0, (c :: cs).map (blank isClass) ++ List.replicate n 0) := by
  have htail : (cs ++ List.replicate n 0).take (len - 1)
      = cs ++ List.replicate (min (len - 1 - cs.length) n) 0 := by
    rw [length_cons] at hlen
    rw [take_append, take_of_length_le (by omega), take_replicate]
  have hdrop : (cs ++ List.replicate n 0).drop (len - 1)
      = List.replicate (n - (len - 1 - cs.length)) (0 : Byte) := by
    rw [length_cons] at hlen
    rw [drop_append, drop_of_length_le (by omega), nil_append, drop_replicate]
  rw [cons_append, fixClassType_cons _ _ _ hc, htail, hdrop, map_append,
    map_replicate, blank_of_not_valid (by simp [valid]), append_assoc,
    ← replicate_add, map_cons, blank_of_valid hc, cons_append]
  congr 4
  omega

end

/-- A field all of whose bytes are of its class is taken as it is. -/
theorem text_fixTypes_of_valid (hne : f.stored ≠ [])
    (hvalid : ∀ c ∈ f.stored, valid f.type.isClass c = true) (hstrip : f.strip = false) :
    cstr (fixTypes f).2 = f.stored := by
  obtain ⟨n, hdata, -⟩ := f.exists_alligned
  obtain ⟨c, cs, hstored⟩ := exists_cons_of_ne_nil hne
  have hclass := fixClassType_of_valid (n := n + 1) f.default
    (hvalid c (hstored ▸ mem_cons_self)) (hstored ▸ f.stored_suffix.length_le)
  have hsame : f.stored.map (blank f.type.isClass) = f.stored :=
    (map_congr_left fun d hd => blank_of_valid (hvalid d hd)).trans (map_id _)
  rw [← hstored, hsame] at hclass
  rw [fixTypes_eq hdata hclass, hstrip, replicate_succ]
  exact text_append_zero (fun h => ne_zero_of_valid (hvalid 0 h) rfl) _

/-- The default in the buffer, with what was there behind it. -/
theorem snprintf_append_zeros (f : Field) (d : List Byte)
    (h : f.stored.length + (n + 1) = f.dt_len) :
    snprintf (f.stored ++ List.replicate (n + 1) 0) d
      = f.cut d ++ 0 :: (f.stored ++ List.replicate (n + 1) 0).drop ((f.cut d).length + 1) := by
  rw [snprintf, length_append, length_replicate, h, Field.cut]

theorem length_snprintf_append_zeros (f : Field) (d : List Byte)
    (h : f.stored.length + (n + 1) = f.dt_len) :
    (snprintf (f.stored ++ List.replicate (n + 1) 0) d).length = f.dt_len := by
  have hcut : (f.cut d).length ≤ f.dt_len - 1 := length_take_le _ _
  rw [snprintf_append_zeros f d h, length_append, length_cons, length_drop,
    length_append, length_replicate, h]
  omega

/-- The zeros behind the field hold no white space back. -/
theorem solid_drop_append_zeros (l : List Byte) (m k : ℕ) :
    (∃ c ∈ (l ++ List.replicate m 0).drop k, strippable c = false)
      ↔ ∃ c ∈ l.drop k, strippable c = false := by
  rw [drop_append, drop_replicate]
  constructor
  · rintro ⟨c, hc, hsolid⟩
    rcases mem_append.mp hc with hc | hc
    · exact ⟨c, hc, hsolid⟩
    · rw [eq_of_mem_replicate hc] at hsolid
      exact absurd hsolid (by decide)
  · rintro ⟨c, hc, hsolid⟩
    exact ⟨c, mem_append_left _ hc, hsolid⟩

/-! ## When a field is fixed as expected -/

/-- White space ends the text, and behind it in the buffer stands another byte that is left: one of
the class behind the piece that is taken, or any behind the default. -/
def Field.HidesSpace (f : Field) : Prop :=
  let piece := f.stored.takeWhile (valid f.type.isClass)
  if piece ≠ [] then
    EndsInSpace piece
      ∧ ∃ c ∈ f.stored.dropWhile (valid f.type.isClass),
        valid f.type.isClass c = true ∧ strippable c = false
  else
    ∃ d, f.default = some d ∧ EndsInSpace (f.cut d)
      ∧ ∃ c ∈ f.stored.drop ((f.cut d).length + 1), strippable c = false

theorem takeWhile_valid_ne_nil_iff {isClass : Byte → Bool} (l : List Byte) :
    l.takeWhile (valid isClass) ≠ [] ↔ ∃ c cs, l = c :: cs ∧ valid isClass c = true := by
  cases l with
  | nil => simp
  | cons c cs =>
    rw [takeWhile_cons]
    split_ifs with hc <;> simp [hc]

/-- The text of a field that begins with a character of its class. -/
theorem fixesType_iff_of_piece {cs : List Byte} (hstored : f.stored = c :: cs)
    (hc : valid f.type.isClass c = true) : FixesType f ↔ (f.strip = true → ¬f.HidesSpace) := by
  obtain ⟨n, hdata, hlength⟩ := f.exists_alligned
  obtain ⟨rest, hblank, hrest⟩ := exists_map_blank f.type.isClass f.stored n
  have hclass := fixClassType_of_valid (n := n + 1) f.default hc
    (hstored ▸ f.stored_suffix.length_le)
  rw [← hstored, hblank] at hclass
  have hpiece : ∀ t, t <+: f.stored.takeWhile (valid f.type.isClass) → IsPiece f t := by
    intro t ht
    refine ⟨fun d hd => isClass_of_valid (mem_takeWhile_imp (ht.subset hd)), ?_⟩
    exact (ht.trans (List.takeWhile_prefix _)).isInfix.trans f.stored_suffix.isInfix
  have hnonempty : f.stored.takeWhile (valid f.type.isClass) ≠ [] :=
    (takeWhile_valid_ne_nil_iff f.stored).mpr ⟨c, cs, hstored, hc⟩
  have hfits : (f.stored.takeWhile (valid f.type.isClass) ++ 0 :: rest).length = f.dt_len := by
    rw [← hblank, length_append, length_map, length_replicate, hlength]
  have hfixed := fixed_iff hfits (fun h => ne_zero_of_valid (mem_takeWhile_imp h) rfl)
    (.inr (hpiece _ prefix_rfl)) fun _ => .inr (hpiece _ (List.rdropWhile_prefix _ _))
  rw [FixesType, fixTypes_eq hdata hclass, Field.HidesSpace]
  rw [forall_prop_of_true rfl, if_pos hnonempty, ← hrest]
  simpa only [true_and] using hfixed

/-- The text of a field that begins with another byte. -/
theorem fixesType_iff_of_default
    (hstored : ∀ c cs, f.stored = c :: cs → ¬valid f.type.isClass c = true) :
    FixesType f ↔ (f.strip = true → ¬f.HidesSpace) := by
  obtain ⟨n, hdata, hlength⟩ := f.exists_alligned
  obtain ⟨c, cs, hcons, hc⟩ : ∃ c cs, f.stored ++ List.replicate (n + 1) 0 = c :: cs
      ∧ ¬valid f.type.isClass c = true := by
    cases hs : f.stored with
    | nil => exact ⟨0, List.replicate n 0, rfl, by simp [valid]⟩
    | cons c cs => exact ⟨c, _, rfl, hstored c cs hs⟩
  have hempty : ¬f.stored.takeWhile (valid f.type.isClass) ≠ [] := by
    rw [takeWhile_valid_ne_nil_iff]
    rintro ⟨c, cs, hs, hc⟩
    exact hstored c cs hs hc
  rw [Field.HidesSpace, if_neg hempty]
  cases hdefault : f.default with
  | none =>
    have hclass : fixClassType f.type.isClass (c :: cs) f.flash.length f.default
        = (1, 0 :: cs) := by
      rw [hdefault]
      exact fixClassType_cons_none cs f.flash.length hc
    rw [← hcons] at hclass
    refine iff_of_true (fun h => ?_) fun _ ⟨d, hd, _⟩ => absurd hd (by simp)
    rw [fixTypes_eq hdata hclass] at h
    exact absurd h (show ¬(1 : ℤ) = 0 by decide)
  | some d =>
    have hclass : fixClassType f.type.isClass (c :: cs) f.flash.length f.default
        = (0, snprintf (c :: cs) d) := by
      rw [hdefault]
      exact fixClassType_cons_default cs f.flash.length d hc
    rw [← hcons, snprintf_append_zeros f d hlength] at hclass
    have hcut : 0 ∉ f.cut d := fun h => f.default_text d hdefault (mem_of_mem_take h)
    have hfits := length_snprintf_append_zeros f d hlength
    rw [snprintf_append_zeros f d hlength] at hfits
    have hfixed := fixed_iff hfits hcut (.inl ⟨d, hdefault, .inl rfl⟩)
      fun hstrip => .inl ⟨d, hdefault, .inr ⟨hstrip, rfl⟩⟩
    rw [solid_drop_append_zeros] at hfixed
    rw [FixesType, fixTypes_eq hdata hclass]
    rw [forall_prop_of_true rfl]
    simpa only [true_and, Option.some.injEq, exists_eq_left'] using hfixed

/-- A field is fixed as expected if and only if, when white space is to be stripped, none is hidden
by a byte behind it. -/
theorem fixesType_iff (f : Field) : FixesType f ↔ (f.strip = true → ¬f.HidesSpace) := by
  by_cases hstored : ∃ c cs, f.stored = c :: cs ∧ valid f.type.isClass c = true
  · obtain ⟨c, cs, hstored, hc⟩ := hstored
    exact fixesType_iff_of_piece hstored hc
  · exact fixesType_iff_of_default fun c cs hs hc => hstored ⟨c, cs, hs, hc⟩

/-- The bytes `AB`, a blank, an erased byte, and `CD`. -/
def hiddenBlank : Field where
  flash := [0x41, 0x42, 0x20, 0xff, 0x43, 0x44]
  dt_len := 7
  type := .ascii
  default := none
  strip := true
  rs_alligned := false
  shorter := by decide
  default_text := by simp

/-- The blank stays. -/
theorem hiddenBlank_not_fixesType :
    (fixTypes hiddenBlank).1 = 0
      ∧ cstr (fixTypes hiddenBlank).2 = [0x41, 0x42, 0x20]
      ∧ ¬FixesType hiddenBlank := by
  have hstatus : (fixTypes hiddenBlank).1 = 0 := by decide
  have htext : cstr (fixTypes hiddenBlank).2 = [0x41, 0x42, 0x20] := by decide
  refine ⟨hstatus, htext, fun h => (h hstatus).stripped rfl ?_⟩
  rw [htext]
  exact ⟨0x20, rfl, rfl⟩

end RutosSdk.Drivers.FixTypes
