import RutosSdk.Lib.Bytes
import RutosSdk.Lib.FirstHits

/-! # Writing an image to a flash device

Reference: `mtd_block_is_bad`, `mtd_erase_block` and `mtd_write` in `package/system/mtd/src/mtd.c`.

The write of an image to one device, with erasing and without a jffs2 file. The program exits on
every failure; `none` stands for that. Offsets are in bytes, and the device is a list of blocks of
the erase size, with a log of what was erased and written.
-/

namespace RutosSdk.Mtd

open List

/-- A flash device. The failures of the kernel are given by the block. -/
structure Device where
  erasesize : ℕ
  erasesize_pos : 0 < erasesize
  /-- `mtdtype == MTD_NANDFLASH` -/
  nand : Bool
  bad : ℕ → Bool
  eraseFails : ℕ → Bool
  writeFails : ℕ → Bool

/-- What was done to a block. -/
inductive Op where
  | erase (block : ℕ)
  | write (block : ℕ)
deriving DecidableEq, Repr

/-- The block an operation is on. -/
def Op.block : Op → ℕ
  | .erase i => i
  | .write i => i

/-- The blocks of a device, and what was done to them so far. -/
structure Contents where
  blocks : List (List Byte)
  log : List Op
deriving DecidableEq, Repr

variable (dev : Device)

/-- The block is one to skip; only NAND flash has such blocks. -/
def Device.Bad (i : ℕ) : Prop := dev.nand ∧ dev.bad i

instance (i : ℕ) : Decidable (dev.Bad i) := by
  unfold Device.Bad
  infer_instance

/-- `mtd_block_is_bad`; the kernel refuses an offset behind the device. -/
def mtdBlockIsBad (c : Contents) (offset : ℕ) : Option Bool :=
  if dev.nand then
    if offset / dev.erasesize < c.blocks.length then some (dev.bad (offset / dev.erasesize))
    else none
  else some false

/-- `mtd_erase_block` -/
def mtdEraseBlock (c : Contents) (offset : ℕ) : Option Contents :=
  let i := offset / dev.erasesize
  if i < c.blocks.length ∧ ¬dev.eraseFails i then
    some
      { blocks := c.blocks.set i (List.replicate dev.erasesize 0xff), log := c.log ++ [.erase i] }
  else none

/-- `write` of a whole block at the file position. Flash is programmed: bits are cleared, never
set. -/
def writeBlock (c : Contents) (position : ℕ) (data : List Byte) : Option Contents :=
  let i := position / dev.erasesize
  if i < c.blocks.length ∧ ¬dev.writeFails i then
    some { blocks := c.blocks.modify i fun old => List.zipWith (· &&& ·) old data
           log := c.log ++ [.write i] }
  else none

/-! ## `mtd_write` -/

/-- The image file: what `read` finds in turn, `none` where it fails. An empty piece is a read that
was interrupted. -/
abbrev Source := List (Option (List Byte))

/-- The bytes of the file. -/
def Source.data (source : Source) : List Byte := source.flatMap (·.getD [])

/-- The buffer is filled up to the erase size. A read that fails ends this as the end of the file
does, and is not reported. -/
def fill (erasesize : ℕ) (buf : List Byte) : Source → List Byte × Source
  | [] => (buf, [])
  | none :: source => if buf.length < erasesize then (buf, source) else (buf, none :: source)
  | some piece :: source =>
    if buf.length < erasesize then
      let room := erasesize - buf.length
      if piece.length ≤ room then fill erasesize (buf ++ piece) source
      else (buf ++ piece.take room, some (piece.drop room) :: source)
    else (buf, some piece :: source)

/-- The counters of the write, and the position of the file. -/
structure Counters where
  w : ℕ
  e : ℕ
  skip_bad_blocks : ℕ
  position : ℕ
deriving DecidableEq, Repr

/-- The loop that erases until the next block of data has room. There are no more rounds than
blocks. -/
def eraseLoop (part_offset : ℕ) : ℕ → Contents → Counters → Option (Contents × Counters)
  | 0, _, _ => none
  | rounds + 1, c, k =>
    if k.e - k.skip_bad_blocks < k.w + dev.erasesize then
      match mtdBlockIsBad dev c k.e with
      | none => none
      | some true =>
        eraseLoop part_offset rounds c
          { k with skip_bad_blocks := k.skip_bad_blocks + dev.erasesize, e := k.e + dev.erasesize,
                   position := k.position + dev.erasesize }
      | some false =>
        match mtdEraseBlock dev c (k.e + part_offset) with
        | none => none
        | some c => eraseLoop part_offset rounds c { k with e := k.e + dev.erasesize }
    else some (c, k)

/-- The loop over the image; every round takes a byte at least. -/
def writeLoop (part_offset : ℕ) : ℕ → Contents → Counters → List Byte → Source → Option Contents
  | 0, _, _, _, _ => none
  | rounds + 1, c, k, buf, source =>
    let filled := fill dev.erasesize buf source
    if filled.1.length = 0 then some c
    else
      let data := filled.1 ++ List.replicate (dev.erasesize - filled.1.length) 0xff
      match eraseLoop dev part_offset (c.blocks.length + 2) c k with
      | none => none
      | some (c, k) =>
        match writeBlock dev c k.position data with
        | none => none
        | some c =>
          writeLoop part_offset rounds c
            { k with w := k.w + dev.erasesize, position := k.position + dev.erasesize } [] filled.2

/-- `mtd_write`; `buf` holds what was read of the image before. -/
def mtdWrite (part_offset : ℕ) (c : Contents) (buf : List Byte) (source : Source) :
    Option Contents :=
  writeLoop dev part_offset ((buf ++ source.data).length + 1) c
    { w := 0, e := 0, skip_bad_blocks := 0, position := part_offset } buf source

/-! ## The pieces of an image -/

variable (erasesize : ℕ) (g : Byte → Byte)

/-- Filled up with `0xff` to a block. -/
def padded (data : List Byte) : List Byte := data ++ List.replicate (erasesize - data.length) 0xff

/-- The image in blocks, the last one padded. -/
def parts (image : List Byte) : List (List Byte) :=
  (List.range ((image.length + erasesize - 1) / erasesize)).map fun k =>
    padded erasesize ((image.drop (k * erasesize)).take erasesize)

variable {es j s b rounds : ℕ} {data buf : List Byte} {c c' : Contents} {source : Source}

theorem parts_nil (hes : 0 < es) : parts es [] = [] := by
  rw [parts, length_nil, Nat.div_eq_of_lt (by omega)]
  rfl

theorem parts_eq_cons (hes : 0 < es) {image : List Byte} (h : image ≠ []) :
    parts es image = padded es (image.take es) :: parts es (image.drop es) := by
  have hpos : 0 < image.length := length_pos_iff.mpr h
  have hcount : (image.length + es - 1) / es = ((image.drop es).length + es - 1) / es + 1 := by
    rw [length_drop]
    by_cases hle : es ≤ image.length
    · rw [show image.length + es - 1 = image.length - es + es - 1 + es by omega,
        Nat.add_div_right _ hes]
    · rw [show image.length + es - 1 = image.length - 1 + es by omega, Nat.add_div_right _ hes,
        show image.length - es + es - 1 = es - 1 by omega, Nat.div_eq_of_lt (by omega),
        Nat.div_eq_of_lt (by omega)]
  rw [parts, hcount, range_succ_eq_map, map_cons, Nat.zero_mul, drop_zero, map_map, parts]
  congr 1
  refine map_congr_left fun k _ => ?_
  rw [Function.comp_apply, drop_drop, Nat.succ_mul, Nat.add_comm]

/-- Behind the image there is only padding. -/
theorem flatten_parts (hes : 0 < es) (image : List Byte) :
    ∃ n, (parts es image).flatten = image ++ List.replicate n 0xff := by
  induction hn : image.length using Nat.strong_induction_on generalizing image with
  | _ n ih =>
    by_cases hempty : image = []
    · exact ⟨0, by rw [hempty, parts_nil hes]; rfl⟩
    have hpos := length_pos_iff.mpr hempty
    obtain ⟨m, hm⟩ := ih _ (by rw [length_drop]; omega) (image.drop es) rfl
    rw [parts_eq_cons hes hempty, flatten_cons, hm, padded]
    rcases Nat.lt_or_ge image.length es with hlt | hge
    · exact ⟨es - image.length + m, by
        rw [take_of_length_le hlt.le, drop_of_length_le hlt.le, nil_append,
          append_assoc, replicate_append_replicate]⟩
    · exact ⟨m, by
        rw [length_take, Nat.min_eq_left hge, Nat.sub_self, replicate_zero,
          append_nil, ← append_assoc, take_append_drop]⟩

theorem length_padded (h : data.length ≤ es) : (padded es data).length = es := by
  rw [padded, length_append, length_replicate]
  omega

theorem length_of_mem_parts {image part : List Byte} (h : part ∈ parts es image) :
    part.length = es := by
  obtain ⟨k, -, rfl⟩ := mem_map.mp h
  exact length_padded (length_take_le _ _)

/-! ## Filling the buffer -/

/-- When a read fails, nothing is left of the file. -/
def Unbroken : Source → Prop
  | [] => True
  | none :: source => Source.data source = []
  | some _ :: source => Unbroken source

theorem data_cons (read : Option (List Byte)) (source : Source) :
    Source.data (read :: source) = read.getD [] ++ source.data := flatMap_cons

/-- The buffer takes the next bytes of the image, however they are read, unless a read fails. -/
theorem fill_spec (es : ℕ) (buf : List Byte) (source : Source) (h : buf.length ≤ es) :
    ((fill es buf source).1 = (buf ++ source.data).take es
        ∧ (fill es buf source).2.data = (buf ++ source.data).drop es
        ∧ (Unbroken (fill es buf source).2 ↔ Unbroken source))
      ∨ ((fill es buf source).1.length < es
        ∧ (fill es buf source).1 ++ (fill es buf source).2.data = buf ++ source.data
        ∧ (Unbroken source ↔ (fill es buf source).2.data = [])) := by
  induction source generalizing buf with
  | nil =>
    left
    rw [fill, Source.data, flatMap_nil, append_nil, take_of_length_le h, drop_of_length_le h]
    exact ⟨rfl, rfl, Iff.rfl⟩
  | cons read source ih =>
    by_cases hroom : buf.length < es
    · cases read with
      | none =>
        rw [fill, if_pos hroom]
        exact .inr ⟨hroom, rfl, Iff.rfl⟩
      | some piece =>
        rw [fill, if_pos hroom, data_cons]
        dsimp only [Option.getD_some]
        split_ifs with hpiece
        · rw [← append_assoc]
          exact ih (buf ++ piece) (by rw [length_append]; omega)
        · left
          rw [take_append, take_of_length_le h, drop_append, drop_of_length_le h, nil_append,
            take_append_of_le_length (by omega), drop_append_of_le_length (by omega), data_cons]
          exact ⟨rfl, rfl, Iff.rfl⟩
    · have hfull : buf.length = es := by omega
      have hfill : fill es buf (read :: source) = (buf, read :: source) := by
        cases read <;> exact if_neg hroom
      rw [hfill, take_left' hfull, drop_left' hfull]
      exact .inl ⟨rfl, rfl, Iff.rfl⟩

theorem length_fill_le (h : buf.length ≤ es) : (fill es buf source).1.length ≤ es := by
  rcases fill_spec es buf source h with ⟨htake, -⟩ | ⟨hlt, -⟩
  · rw [htake]
    exact length_take_le _ _
  · exact hlt.le

/-- The contents of the buffer, one after the other. -/
def fills (erasesize : ℕ) : ℕ → List Byte → Source → List (List Byte)
  | 0, _, _ => []
  | rounds + 1, buf, source =>
    let filled := fill erasesize buf source
    if filled.1.length = 0 then [] else filled.1 :: fills erasesize rounds [] filled.2

theorem fills_of_data_eq_nil (h : buf ++ source.data = []) (rounds : ℕ) :
    fills es rounds buf source = [] := by
  cases rounds with
  | zero => rfl
  | succ rounds =>
    obtain ⟨rfl, hdata⟩ := append_eq_nil_iff.mp h
    have hnil : (fill es [] source).1 = [] := by
      rcases fill_spec es [] source (Nat.zero_le _) with ⟨htake, -⟩ | ⟨-, happend, -⟩
      · rw [htake, hdata]
        exact take_nil
      · rw [hdata] at happend
        exact (append_eq_nil_iff.mp happend).1
    rw [fills, hnil]
    rfl

/-- Where no read fails too early, the padded contents are the pieces of the image. -/
theorem map_padded_fills (hes : 0 < es) (hbuf : buf.length ≤ es) (hunbroken : Unbroken source)
    (hrounds : (buf ++ source.data).length < rounds) :
    (fills es rounds buf source).map (padded es) = parts es (buf ++ source.data) := by
  induction rounds generalizing buf source with
  | zero => omega
  | succ rounds ih =>
    by_cases hempty : buf ++ source.data = []
    · rw [fills_of_data_eq_nil hempty, hempty, parts_nil hes]
      rfl
    have hpos : 0 < (buf ++ source.data).length := length_pos_iff.mpr hempty
    rw [parts_eq_cons hes hempty, fills]
    rcases fill_spec es buf source hbuf with ⟨htake, hdrop, hrest⟩ | ⟨hlt, happend, hrest⟩
    · have hlen : ((buf ++ source.data).drop es).length < rounds := by
        rw [length_drop]
        omega
      rw [if_neg (by rw [htake, length_take]; omega), map_cons, htake]
      have hnext := @ih [] _ (Nat.zero_le _) (hrest.mpr hunbroken) (by rwa [hdrop])
      rw [hnext, nil_append, hdrop]
    · -- the read that failed found nothing
      have hnil := hrest.mp hunbroken
      rw [hnil, append_nil] at happend
      rw [happend] at hlt
      rw [if_neg (by rw [happend]; omega), map_cons, happend,
        fills_of_data_eq_nil (by rw [hnil]; rfl), take_of_length_le hlt.le,
        drop_of_length_le hlt.le, parts_nil hes]
      rfl

/-! ## One block -/

/-- The counters when the blocks before `j` were passed, `s` of them bad ones, for a start at block
`b`. -/
def Counters.at (es b j s : ℕ) : Counters where
  w := (j - s) * es
  e := j * es
  skip_bad_blocks := s * es
  position := (b + j) * es

/-- A block is erased and written. -/
def writeTo (c : Contents) (i : ℕ) (data : List Byte) : Contents where
  blocks := c.blocks.set i data
  log := c.log ++ [.erase i, .write i]

variable {dev}

theorem bad_of_mtdBlockIsBad {b : Bool} (h : mtdBlockIsBad dev c (j * dev.erasesize) = some b) :
    b = true ↔ dev.Bad j := by
  rw [mtdBlockIsBad, Nat.mul_div_cancel j dev.erasesize_pos] at h
  split_ifs at h with hnand hrange
  · rw [← Option.some.inj h]
    exact (and_iff_right hnand).symm
  · rw [← Option.some.inj h]
    exact iff_of_false (by simp) fun hbad => hnand hbad.1

/-- The counters after the block was erased. -/
def Counters.erased (es b j s : ℕ) : Counters := { Counters.at es b j s with e := (j + 1) * es }

theorem eraseLoop_at (b rounds j s : ℕ) (c : Contents) :
    eraseLoop dev (b * dev.erasesize) (rounds + 1) c (.at dev.erasesize b j s)
      = match mtdBlockIsBad dev c (j * dev.erasesize) with
        | none => none
        | some true =>
          eraseLoop dev (b * dev.erasesize) rounds c (.at dev.erasesize b (j + 1) (s + 1))
        | some false =>
          match mtdEraseBlock dev c ((b + j) * dev.erasesize) with
          | none => none
          | some c =>
            eraseLoop dev (b * dev.erasesize) rounds c (.erased dev.erasesize b j s) := by
  have hneed : j * dev.erasesize - s * dev.erasesize < (j - s) * dev.erasesize + dev.erasesize := by
    have hpos := dev.erasesize_pos
    rw [Nat.sub_mul]
    omega
  have hskip : Counters.at dev.erasesize b (j + 1) (s + 1)
      = ⟨(j - s) * dev.erasesize, j * dev.erasesize + dev.erasesize,
        s * dev.erasesize + dev.erasesize, (b + j) * dev.erasesize + dev.erasesize⟩ := by
    rw [Counters.at, Nat.add_sub_add_right, Nat.succ_mul, Nat.succ_mul, ← Nat.add_assoc,
      Nat.succ_mul]
  have herased : Counters.erased dev.erasesize b j s
      = ⟨(j - s) * dev.erasesize, j * dev.erasesize + dev.erasesize, s * dev.erasesize,
        (b + j) * dev.erasesize⟩ := by
    rw [Counters.erased, Counters.at, Nat.succ_mul]
  have hoffset : (b + j) * dev.erasesize = j * dev.erasesize + b * dev.erasesize := by
    rw [Nat.add_mul, Nat.add_comm]
  rw [eraseLoop]
  refine (if_pos hneed).trans ?_
  rw [hskip, herased]
  dsimp only [Counters.at]
  rw [← hoffset]

theorem eraseLoop_erased (b rounds : ℕ) (c : Contents) (hs : s ≤ j) :
    eraseLoop dev (b * dev.erasesize) (rounds + 1) c (.erased dev.erasesize b j s)
      = some (c, .erased dev.erasesize b j s) := by
  have hdone : ¬(j + 1) * dev.erasesize - s * dev.erasesize
      < (j - s) * dev.erasesize + dev.erasesize := by
    have hle := Nat.mul_le_mul_right dev.erasesize hs
    rw [Nat.sub_mul, Nat.succ_mul]
    omega
  rw [eraseLoop]
  exact if_neg hdone

/-- The erase loop passes over the bad blocks and erases the one after them. -/
theorem eraseLoop_spec {k' : Counters} (hs : s ≤ j)
    (h : eraseLoop dev (b * dev.erasesize) rounds c (.at dev.erasesize b j s) = some (c', k')) :
    ∃ i, FirstHits (fun i => ¬dev.Bad i) j [i]
      ∧ mtdEraseBlock dev c ((b + i) * dev.erasesize) = some c'
      ∧ k' = .erased dev.erasesize b i (s + (i - j)) := by
  induction rounds generalizing j s with
  | zero => exact absurd h (by simp [eraseLoop])
  | succ rounds ih =>
    rw [eraseLoop_at] at h
    split at h
    · exact absurd h (by simp)
    · rename_i hbad
      obtain ⟨i, ⟨hle, hbetween, hgood, -⟩, herase, hk⟩ := ih (by omega) h
      refine ⟨i, ⟨by omega, fun m hm hmi => ?_, hgood, trivial⟩, herase, ?_⟩
      · rcases Nat.lt_or_eq_of_le hm with hlt | rfl
        · exact hbetween m hlt hmi
        · exact not_not_intro ((bad_of_mtdBlockIsBad hbad).mp rfl)
      · rw [hk]
        congr 1
        omega
    · rename_i hgood
      split at h
      · exact absurd h (by simp)
      · rename_i c₁ herase
        cases rounds with
        | zero => exact absurd h (by simp [eraseLoop])
        | succ rounds =>
          rw [eraseLoop_erased b rounds c₁ hs, Option.some.injEq, Prod.mk.injEq] at h
          refine ⟨j,
            ⟨le_refl j, fun m hm hmj => absurd hmj (by omega), fun hbad => ?_, trivial⟩,
            h.1 ▸ herase, ?_⟩
          · exact absurd ((bad_of_mtdBlockIsBad hgood).mpr hbad) (by simp)
          · rw [Nat.sub_self, Nat.add_zero, h.2]

theorem mtdEraseBlock_eq {i : ℕ} (h : mtdEraseBlock dev c (i * dev.erasesize) = some c') :
    i < c.blocks.length
      ∧ c' = ⟨c.blocks.set i (List.replicate dev.erasesize 0xff), c.log ++ [.erase i]⟩ := by
  rw [mtdEraseBlock, Nat.mul_div_cancel i dev.erasesize_pos] at h
  split_ifs at h with hi
  exact ⟨hi.1, (Option.some.inj h).symm⟩

theorem zipWith_and_replicate {n : ℕ} (h : data.length = n) :
    List.zipWith (· &&& ·) (List.replicate n 0xff) data = data := by
  subst h
  induction data with
  | nil => rfl
  | cons byte data ih =>
    rw [length_cons, replicate_succ, zipWith_cons_cons, ih]
    congr 1
    exact BitVec.allOnes_and

theorem modify_set_self {α : Type} (l : List α) (i : ℕ) (a : α) (f : α → α) :
    (l.set i a).modify i f = l.set i (f a) := by
  refine ext_getElem? fun j => ?_
  by_cases hij : i = j
  · subst hij
    by_cases hi : i < l.length <;> simp [hi]
  · simp [hij]

/-- A block that was erased holds what is written to it. -/
theorem writeBlock_after_erase {c₁ : Contents} {i : ℕ} (hdata : data.length = dev.erasesize)
    (herase : mtdEraseBlock dev c (i * dev.erasesize) = some c₁)
    (hwrite : writeBlock dev c₁ (i * dev.erasesize) data = some c') :
    i < c.blocks.length ∧ c' = writeTo c i data := by
  obtain ⟨hi, rfl⟩ := mtdEraseBlock_eq herase
  rw [writeBlock, Nat.mul_div_cancel i dev.erasesize_pos] at hwrite
  split_ifs at hwrite with hok
  refine ⟨hi, (Option.some.inj hwrite).symm.trans ?_⟩
  rw [writeTo, modify_set_self, zipWith_and_replicate hdata, append_assoc]
  rfl

/-! ## The whole image -/

/-- Blocks are erased and written one after the other. -/
def writeAll (c : Contents) : List ℕ → List (List Byte) → Contents
  | [], _ => c
  | _ :: _, [] => c
  | i :: is, data :: datas => writeAll (writeTo c i data) is datas

/-- One round writes the contents of the buffer to the next good block. -/
theorem writeLoop_round (hs : s ≤ j) (hbuf : buf.length ≤ dev.erasesize)
    (hne : (fill dev.erasesize buf source).1.length ≠ 0)
    (h : writeLoop dev (b * dev.erasesize) (rounds + 1) c (.at dev.erasesize b j s) buf source
      = some c') :
    ∃ i, FirstHits (fun i => ¬dev.Bad i) j [i] ∧ b + i < c.blocks.length
      ∧ writeLoop dev (b * dev.erasesize) rounds
        (writeTo c (b + i) (padded dev.erasesize (fill dev.erasesize buf source).1))
        (.at dev.erasesize b (i + 1) (s + (i - j))) [] (fill dev.erasesize buf source).2
        = some c' := by
  have hdata : (padded dev.erasesize (fill dev.erasesize buf source).1).length = dev.erasesize :=
    length_padded (length_fill_le hbuf)
  rw [writeLoop] at h
  dsimp only at h
  rw [if_neg hne] at h
  split at h
  · exact absurd h (by simp)
  rename_i c₁ k₁ hloop
  obtain ⟨i, hfirst, herase, rfl⟩ := eraseLoop_spec hs hloop
  have hle : j ≤ i := hfirst.1
  split at h
  · exact absurd h (by simp)
  rename_i c₂ hwrite
  obtain ⟨hi, rfl⟩ := writeBlock_after_erase hdata herase hwrite
  refine ⟨i, hfirst, hi, ?_⟩
  rw [← h]
  congr 1
  have hw : (i + 1 - (s + (i - j))) * dev.erasesize
      = (i - (s + (i - j))) * dev.erasesize + dev.erasesize := by
    rw [← Nat.succ_mul]
    congr 1
    omega
  have hposition : (b + (i + 1)) * dev.erasesize = (b + i) * dev.erasesize + dev.erasesize := by
    rw [← Nat.succ_mul]
    rfl
  rw [Counters.at, hw, hposition]
  rfl

/-- The contents of the buffer go to the first good blocks that the erase loop finds. -/
theorem writeLoop_spec (hs : s ≤ j) (hbuf : buf.length ≤ dev.erasesize)
    (h : writeLoop dev (b * dev.erasesize) rounds c (.at dev.erasesize b j s) buf source
      = some c') :
    ∃ is, FirstHits (fun i => ¬dev.Bad i) j is
      ∧ is.length = (fills dev.erasesize rounds buf source).length
      ∧ (∀ i ∈ is, b + i < c.blocks.length)
      ∧ c' = writeAll c (is.map (b + ·))
        ((fills dev.erasesize rounds buf source).map (padded dev.erasesize)) := by
  induction rounds generalizing j s c buf source with
  | zero => exact absurd h (by simp [writeLoop])
  | succ rounds ih =>
    rw [fills]
    split_ifs with hempty
    · rw [writeLoop, if_pos hempty, Option.some.injEq] at h
      exact ⟨[], trivial, rfl, by simp, h.symm⟩
    · obtain ⟨i, ⟨hle, hbad, hgood, -⟩, hi, hrest⟩ := writeLoop_round hs hbuf hempty h
      obtain ⟨is, hfirst, hlength, hrange, hc'⟩ := ih (by omega) (Nat.zero_le _) hrest
      refine ⟨i :: is, ⟨hle, hbad, hgood, hfirst⟩, ?_, ?_, ?_⟩
      · rw [length_cons, length_cons, hlength]
      · refine forall_mem_cons.mpr ⟨hi, fun i' hi' => ?_⟩
        have hlt := hrange i' hi'
        rwa [writeTo, length_set] at hlt
      · rw [hc', map_cons, map_cons, writeAll]

/-- What `mtd_write` puts into its buffer. -/
def pieces (buf : List Byte) (source : Source) : List (List Byte) :=
  fills erasesize ((buf ++ source.data).length + 1) buf source

/-- `mtd_write` writes the contents of its buffer to the blocks that follow the start as the good
ones follow the first block of the device. -/
theorem mtdWrite_spec (hbuf : buf.length ≤ dev.erasesize)
    (h : mtdWrite dev (b * dev.erasesize) c buf source = some c') :
    ∃ is, FirstHits (fun i => ¬dev.Bad i) 0 is
      ∧ is.length = (pieces dev.erasesize buf source).length
      ∧ (∀ i ∈ is, b + i < c.blocks.length)
      ∧ c' = writeAll c (is.map (b + ·))
        ((pieces dev.erasesize buf source).map (padded dev.erasesize)) := by
  have hstart : Counters.mk 0 0 0 (b * dev.erasesize) = .at dev.erasesize b 0 0 := by
    rw [Counters.at, Nat.zero_mul, Nat.add_zero]
  rw [mtdWrite, hstart] at h
  exact writeLoop_spec (le_refl 0) hbuf h

/-! ## When a write returns

It depends neither on the bytes of the image nor on those of the flash. -/

/-- The reads with every byte replaced. -/
def Source.map (source : Source) : Source := List.map (Option.map (List.map g)) source

theorem data_map (source : Source) : (source.map g).data = source.data.map g := by
  induction source with
  | nil => rfl
  | cons read source ih =>
    rw [data_cons, map_append, ← ih]
    cases read <;> rfl

theorem fill_map (es : ℕ) (buf : List Byte) (source : Source) :
    fill es (buf.map g) (source.map g)
      = ((fill es buf source).1.map g, (fill es buf source).2.map g) := by
  induction source generalizing buf with
  | nil => rfl
  | cons read source ih =>
    rw [Source.map, map_cons]
    cases read with
    | none =>
      rw [Option.map_none, fill, fill, length_map]
      split_ifs <;> rfl
    | some piece =>
      rw [Option.map_some, fill, fill, length_map]
      dsimp only
      rw [length_map]
      split_ifs
      · rw [← map_append]
        exact ih (buf ++ piece)
      · rw [← map_take, ← map_append, ← map_drop]
        rfl
      · rfl

/-- The outcomes of two runs of a loop that differ in the bytes of the flash only. -/
def SameCourse : Option (Contents × Counters) → Option (Contents × Counters) → Prop
  | some (c, k), some (c', k') => c.blocks.length = c'.blocks.length ∧ k = k'
  | none, none => True
  | _, _ => False

theorem eraseLoop_sameCourse (part_offset rounds : ℕ) (k : Counters)
    (h : c.blocks.length = c'.blocks.length) :
    SameCourse (eraseLoop dev part_offset rounds c k) (eraseLoop dev part_offset rounds c' k) := by
  induction rounds generalizing c c' k with
  | zero => trivial
  | succ rounds ih =>
    have hbad : mtdBlockIsBad dev c' k.e = mtdBlockIsBad dev c k.e := by
      rw [mtdBlockIsBad, mtdBlockIsBad, h]
    rw [eraseLoop, eraseLoop, hbad]
    split_ifs with hneed
    · rcases mtdBlockIsBad dev c k.e with _ | bad
      · trivial
      cases bad with
      | true => exact ih _ h
      | false =>
        dsimp only [mtdEraseBlock]
        rw [h]
        split_ifs
        · exact ih _ (by simpa using h)
        · trivial
    · exact ⟨h, rfl⟩

theorem isSome_writeLoop (part_offset rounds : ℕ) (k : Counters)
    (h : c.blocks.length = c'.blocks.length) :
    (writeLoop dev part_offset rounds c' k (buf.map g) (source.map g)).isSome
      = (writeLoop dev part_offset rounds c k buf source).isSome := by
  induction rounds generalizing c c' k buf source with
  | zero => rfl
  | succ rounds ih =>
    have hcourse := @eraseLoop_sameCourse dev c c' part_offset (c.blocks.length + 2) k h
    rw [writeLoop, writeLoop, fill_map, length_map, ← h]
    dsimp only
    split_ifs
    · rfl
    generalize eraseLoop dev part_offset (c.blocks.length + 2) c k = r at hcourse ⊢
    generalize eraseLoop dev part_offset (c.blocks.length + 2) c' k = r' at hcourse ⊢
    rcases r with _ | ⟨c₁, k₁⟩ <;> rcases r' with _ | ⟨c₂, k₂⟩
    · rfl
    · exact hcourse.elim
    · exact hcourse.elim
    · obtain ⟨hblocks, rfl⟩ := hcourse
      dsimp only [writeBlock]
      rw [hblocks]
      split_ifs
      · exact @ih [] _ _ _ _ (by simpa using hblocks)
      · rfl

theorem isSome_mtdWrite (g : Byte → Byte) (part_offset : ℕ)
    (h : c.blocks.length = c'.blocks.length) :
    (mtdWrite dev part_offset c' (buf.map g) (source.map g)).isSome
      = (mtdWrite dev part_offset c buf source).isSome := by
  rw [mtdWrite, mtdWrite, data_map, ← map_append, length_map]
  exact isSome_writeLoop g part_offset _ _ h

end RutosSdk.Mtd
