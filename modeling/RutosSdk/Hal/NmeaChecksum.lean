import Mathlib.Data.List.GetD
import RutosSdk.Hal.GpsParse
import RutosSdk.Lib.Search

/-! # The checksum of NMEA sentences

Reference: `nmea_checksum` and `validate_nmea_checksum` in `libloragw/src/loragw_gps.c`.

The two functions once more, with every character that they read recorded; their result is that of
the functions on the sentence as a list. `nmea_checksum` hands over the place behind the `*`, and
`validate_nmea_checksum` compares the two characters there, as long as a third one follows them.
-/

namespace RutosSdk.Hal.NmeaReads

open List Traced

/-! ## The functions with their reads -/

variable (nmea_string : ℕ → Byte)

/-- The loop of `nmea_checksum` from index `i` on, with `n` characters to go. -/
def xorLoop (i : ℕ) : ℕ → Byte → Traced ℕ (Option (ℕ × Byte))
  | 0, _ => pure none
  | n + 1, check_num => do
      let c ← readAt nmea_string id i
      if c = 0x2A then return some (i, check_num) else xorLoop (i + 1) n (check_num ^^^ c)

variable (buff_size : ℤ) (s : List Byte)

/-- `nmea_checksum`: the position of the checksum, and its two characters; `none` is -1. -/
def nmeaChecksum : Traced ℕ (Option (ℕ × Byte × Byte)) :=
  if buff_size ≤ 1 then return none
  else do
    let first ← readAt nmea_string id 0
    let start := if first = 0x24 then 1 else 0
    let star ← xorLoop nmea_string start (buff_size.toNat - start) 0
    return star.map fun (i, check_num) =>
      (i + 1, nibbleToHexchar (check_num / 16), nibbleToHexchar (check_num % 16))

/-- `validate_nmea_checksum` -/
def validateNmeaChecksum : Traced ℕ Bool := do
  match ← nmeaChecksum nmea_string buff_size with
  | none => return false
  | some (checksum_index, c0, c1) =>
    if buff_size - 2 ≤ checksum_index then return false
    else do
      let d0 ← readAt nmea_string id checksum_index
      if d0 = c0 then
        let d1 ← readAt nmea_string id (checksum_index + 1)
        return d1 == c1
      else return false

/-- The characters of the buffer. -/
def sentence : List Byte := (List.range buff_size.toNat).map nmea_string

/-! ## What is expected of them -/

/-- The sentence without a `$` at its start. -/
def undollared : List Byte :=
  if s.head? = some 0x24 then s.tail else s

/-- The characters up to the first `*`. -/
def body : List Byte := (undollared s).takeWhile (· ≠ 0x2A)

/-- The characters behind the first `*`. -/
def behindStar : List Byte := ((undollared s).dropWhile (· ≠ 0x2A)).drop 1

/-- A number as two upper-case hexadecimal digits. -/
def hexDigits (x : Byte) : List Byte :=
  let digit k := ([0x30, 0x31, 0x32, 0x33, 0x34, 0x35, 0x36, 0x37, 0x38, 0x39, 0x41, 0x42, 0x43,
    0x44, 0x45, 0x46] : List Byte).getD k 0
  [digit (x.toNat / 16), digit (x.toNat % 16)]

/-- There is a `*`, and behind it two digits that are the XOR of what precedes it. -/
def ChecksumCorrect : Prop :=
  0x2A ∈ undollared s ∧ (behindStar s).take 2 = hexDigits ((body s).foldl (· ^^^ ·) 0)

/-- The buffer is accepted if its checksum is correct, and nothing is read beyond its end. -/
structure Validates (buff_size : ℤ) : Prop where
  accepts : (validateNmeaChecksum nmea_string buff_size).val = true
    ↔ ChecksumCorrect (sentence nmea_string buff_size)
  reads : (validateNmeaChecksum nmea_string buff_size).All (· < buff_size.toNat)

/-! ## The checksum of a list -/

theorem xorUntilStar_eq (l : List Byte) (i : ℕ) (check_num : Byte) :
    xorUntilStar l i check_num
      = if 0x2A ∈ l then some (i + (l.takeWhile (· ≠ 0x2A)).length,
          (l.takeWhile (· ≠ 0x2A)).foldl (· ^^^ ·) check_num)
        else none := by
  induction l generalizing i check_num with
  | nil => rfl
  | cons c cs ih =>
    rw [xorUntilStar]
    by_cases hc : c = 0x2A
    · rw [if_pos hc, if_pos (by simp [hc]), takeWhile_cons_of_neg (by simp [hc])]
      rfl
    · have hmem : 0x2A ∈ c :: cs ↔ 0x2A ∈ cs := by
        rw [mem_cons, or_iff_right (Ne.symm hc)]
      rw [if_neg hc, ih, takeWhile_cons_of_pos (by simpa using hc)]
      simp only [hmem, length_cons, foldl_cons, Nat.add_assoc, Nat.add_comm 1]

theorem nibbleToHexchar_eq (x : Byte) :
    [nibbleToHexchar (x / 16), nibbleToHexchar (x % 16)] = hexDigits x := by
  revert x
  decide

/-- A sentence is a `$` perhaps, its body, a `*`, and what is behind it. -/
theorem undollared_eq {s : List Byte} (hstar : 0x2A ∈ undollared s) :
    undollared s = body s ++ 0x2A :: behindStar s :=
  Search.eq_takeWhile_append_cons hstar

/-- What is skipped at the start of the sentence. -/
theorem exists_dollar_append :
    ∃ dollar, s = dollar ++ undollared s
      ∧ dollar.length = if s.head? = some 0x24 then 1 else 0 := by
  rw [undollared]
  split_ifs with hdollar
  · cases s with
    | nil => cases hdollar
    | cons c cs => exact ⟨[c], rfl, rfl⟩
  · exact ⟨[], rfl, rfl⟩

theorem getD_behind {s before behind : List Byte} {c : Byte}
    (h : s = before ++ c :: behind) (k : ℕ) :
    s.getD (before.length + 1 + k) 0 = behind.getD k 0 := by
  rw [h, getD_append_right _ _ _ _ (by omega),
    show before.length + 1 + k - before.length = k + 1 by omega]
  rfl

theorem take_two_eq_iff {behind : List Byte} (h : 2 < behind.length) (c d : Byte) :
    behind.take 2 = [c, d] ↔ behind.getD 0 0 = c ∧ behind.getD 1 0 = d := by
  rcases behind with _ | ⟨c', _ | ⟨d', rest⟩⟩
  · simp at h
  · simp at h
  · simp

/-- The checksum is compared only if a third character follows the two digits. -/
theorem validateNmeaChecksum_iff :
    Hal.validateNmeaChecksum s = true ↔ ChecksumCorrect s ∧ 2 < (behindStar s).length := by
  obtain ⟨dollar, hs, hdollar⟩ := exists_dollar_append s
  have hdrop : s.drop dollar.length = undollared s := by
    conv_lhs => rw [hs]
    exact drop_left
  rw [Hal.validateNmeaChecksum, Hal.nmeaChecksum, ← hdollar]
  dsimp only
  rw [hdrop, xorUntilStar_eq]
  by_cases hstar : 0x2A ∈ undollared s
  swap
  · refine iff_of_false ?_ fun h => hstar h.1.1
    split_ifs <;> simp
  have hwhole : s = dollar ++ body s ++ 0x2A :: behindStar s := by
    rw [append_assoc, ← undollared_eq hstar, ← hs]
  have hlength : s.length = (dollar ++ body s).length + 1 + (behindStar s).length := by
    conv_lhs => rw [hwhole]
    rw [length_append, length_cons]
    omega
  rw [if_pos hstar, ← body, ← length_append]
  by_cases hend : 2 < (behindStar s).length
  · rw [if_neg (by omega)]
    dsimp only
    rw [if_neg (by omega), Bool.and_eq_true, beq_iff_eq, beq_iff_eq]
    have hfirst := getD_behind hwhole 0
    rw [Nat.add_zero] at hfirst
    rw [hfirst, getD_behind hwhole 1, ← take_two_eq_iff hend, nibbleToHexchar_eq]
    exact ⟨fun h => ⟨⟨hstar, h⟩, hend⟩, fun h => h.1.2⟩
  · refine iff_of_false ?_ fun h => hend h.2
    split_ifs
    · simp
    · dsimp only
      rw [if_pos (by omega)]
      simp

/-! ## The reads -/

theorem xorLoop_val (i n : ℕ) (check_num : Byte) :
    (xorLoop nmea_string i n check_num).val
      = xorUntilStar ((List.range' i n).map nmea_string) i check_num := by
  induction n generalizing i check_num with
  | zero => rfl
  | succ n ih =>
    rw [xorLoop, List.range'_succ, map_cons, xorUntilStar]
    simp only [readAt, bind_val, ite_val, pure_val, ih]

/-- The loop reads up to its end at most, and what it finds lies before it. -/
theorem xorLoop_reads (i n : ℕ) (check_num : Byte) :
    (xorLoop nmea_string i n check_num).All (· < i + n) := by
  induction n generalizing i check_num with
  | zero => exact all_pure _
  | succ n ih =>
    rw [xorLoop, all_bind_iff, all_readAt_iff, all_ite_iff]
    refine ⟨show i < i + (n + 1) by omega, fun _ => all_pure _, fun _ => ?_⟩
    rw [show i + (n + 1) = i + 1 + n by omega]
    exact ih (i + 1) _

theorem head?_sentence {buff_size : ℤ} (h : 1 < buff_size) :
    (sentence nmea_string buff_size).head? = some (nmea_string 0) := by
  obtain ⟨n, hn⟩ := Nat.exists_eq_add_of_lt (show 0 < buff_size.toNat by omega)
  rw [sentence, hn, Nat.zero_add, range_succ_eq_map]
  rfl

theorem drop_sentence (start : ℕ) :
    (sentence nmea_string buff_size).drop start
      = (List.range' start (buff_size.toNat - start)).map nmea_string := by
  rw [sentence, ← map_drop, range_eq_range', drop_range']
  simp

theorem nmeaChecksum_val :
    (nmeaChecksum nmea_string buff_size).val
      = Hal.nmeaChecksum (sentence nmea_string buff_size) := by
  have hlength : (sentence nmea_string buff_size).length = buff_size.toNat := by simp [sentence]
  rw [nmeaChecksum, Hal.nmeaChecksum, hlength]
  by_cases hsize : buff_size ≤ 1
  · rw [if_pos hsize, if_pos (by omega), pure_val]
  · rw [if_neg hsize, if_neg (by omega), head?_sentence nmea_string (by omega)]
    simp only [readAt, bind_val, pure_val, xorLoop_val, drop_sentence, Option.some.injEq]
    generalize xorUntilStar _ _ _ = star
    rcases star with _ | ⟨i, check_num⟩ <;> rfl

theorem getD_sentence {buff_size : ℤ} {i : ℕ} (h : i < buff_size.toNat) :
    (sentence nmea_string buff_size).getD i 0 = nmea_string i := by
  rw [getD_eq_getElem _ _ (by simpa [sentence] using h)]
  simp [sentence]

/-- The result is that of the function on the sentence. -/
theorem validateNmeaChecksum_val :
    (validateNmeaChecksum nmea_string buff_size).val
      = Hal.validateNmeaChecksum (sentence nmea_string buff_size) := by
  have hlength : (sentence nmea_string buff_size).length = buff_size.toNat := by simp [sentence]
  rw [validateNmeaChecksum, bind_val, nmeaChecksum_val, Hal.validateNmeaChecksum, hlength]
  rcases Hal.nmeaChecksum (sentence nmea_string buff_size) with _ | ⟨checksum_index, c0, c1⟩
  · rfl
  dsimp only
  by_cases hend : buff_size - 2 ≤ checksum_index
  · rw [if_pos hend, if_pos (by omega), pure_val]
  · rw [if_neg hend, if_neg (by omega), getD_sentence nmea_string (by omega),
      getD_sentence nmea_string (by omega)]
    simp only [readAt, bind_val, ite_val, pure_val]
    split_ifs with hfirst <;> simp [hfirst]

theorem validateNmeaChecksum_reads :
    (validateNmeaChecksum nmea_string buff_size).All (· < buff_size.toNat) := by
  have hchecksum : (nmeaChecksum nmea_string buff_size).All (· < buff_size.toNat) := by
    rw [nmeaChecksum, all_ite_iff]
    refine ⟨fun _ => all_pure _, fun hsize => ?_⟩
    rw [all_bind_iff, all_readAt_iff, all_bind_iff]
    refine ⟨show 0 < buff_size.toNat by omega, ?_, all_pure _⟩
    intro i hi
    have := xorLoop_reads nmea_string _ _ 0 i hi
    split_ifs at this <;> omega
  rw [validateNmeaChecksum, all_bind_iff]
  refine ⟨hchecksum, ?_⟩
  rcases (nmeaChecksum nmea_string buff_size).val with _ | ⟨checksum_index, c0, c1⟩
  · exact all_pure _
  rw [all_ite_iff, all_bind_iff, all_readAt_iff, all_ite_iff, all_bind_iff, all_readAt_iff]
  refine ⟨fun _ => all_pure _, fun hend => ⟨?_, fun _ => ⟨?_, all_pure _⟩, fun _ => all_pure _⟩⟩
  · show checksum_index < buff_size.toNat
    omega
  · show checksum_index + 1 < buff_size.toNat
    omega

/-! ## When a buffer is validated as expected -/

/-- A buffer is validated as expected if and only if it does not end right behind the digits of a
correct checksum. -/
theorem validates_iff (buff_size : ℤ) :
    Validates nmea_string buff_size ↔ ¬(ChecksumCorrect (sentence nmea_string buff_size)
      ∧ (behindStar (sentence nmea_string buff_size)).length = 2) := by
  have hval := validateNmeaChecksum_val nmea_string buff_size
  constructor
  · rintro hvalidates ⟨hcorrect, hend⟩
    have haccepted := hvalidates.accepts.mpr hcorrect
    rw [hval, validateNmeaChecksum_iff] at haccepted
    omega
  · intro hcond
    refine ⟨?_, validateNmeaChecksum_reads nmea_string buff_size⟩
    rw [hval, validateNmeaChecksum_iff]
    refine ⟨fun h => h.1, fun hcorrect => ⟨hcorrect, ?_⟩⟩
    -- the two digits stand behind the star
    have hdigits : 2 ≤ (behindStar (sentence nmea_string buff_size)).length := by
      have := congrArg List.length hcorrect.2
      rw [length_take] at this
      simp only [hexDigits, length_cons, length_nil] at this
      omega
    exact Nat.lt_of_le_of_ne hdigits fun h => hcond ⟨hcorrect, h.symm⟩

/-- The sentence of the source without its end of line. -/
def bareSentence : List Byte := rmcNoFix.take 23

/-- It has a correct checksum, and is refused. -/
theorem bareSentence_refused :
    ChecksumCorrect (sentence (fun i => bareSentence.getD i 0) 23)
      ∧ (validateNmeaChecksum (fun i => bareSentence.getD i 0) 23).val = false
      ∧ ¬Validates (fun i => bareSentence.getD i 0) 23 := by
  have hcorrect : ChecksumCorrect (sentence (fun i => bareSentence.getD i 0) 23) := by
    unfold ChecksumCorrect
    decide
  have hrefused : (validateNmeaChecksum (fun i => bareSentence.getD i 0) 23).val = false := by
    decide
  refine ⟨hcorrect, hrefused, fun h => ?_⟩
  exact absurd (hrefused.symm.trans (h.accepts.mpr hcorrect)) (by decide)

end RutosSdk.Hal.NmeaReads
