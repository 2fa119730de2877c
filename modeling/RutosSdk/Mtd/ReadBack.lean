import RutosSdk.Mtd.Placement

/-! # Reading an image back

Reference: `mtd_dump` and `mtd_verify` in `package/system/mtd/src/mtd.c`.

The dump reads block by block and leaves the bad blocks out, but the rest of an image that is
shorter than a block is searched in steps of its own length, which need not meet the start of the
good block behind a bad one. The verification reads the flash as it is, bad blocks included. So an
image is read back when it spans no bad block.
-/

namespace RutosSdk.Mtd

open List

variable (dev : Device)

/-! ## `mtd_dump` and `mtd_verify` -/

variable (c : Contents) (position len : ℕ)

/-- `read` at a position of the device. -/
def readAt : List Byte := (c.blocks.flatten.drop position).take len

/-- How much a round of the dump reads. -/
def dumpLen (erasesize size : ℕ) : ℕ := if erasesize < size then erasesize else size

/-- The loop of `mtd_dump`: what is written to the standard output. Every round reads a byte at
least. -/
def dumpLoop (c : Contents) : ℕ → ℕ → ℕ → ℕ → Option (List Byte)
  | 0, _, _, _ => none
  | rounds + 1, position, offset, size =>
    let len := dumpLen dev.erasesize size
    let data := readAt c position len
    if data.length = 0 ∨ data.length ≠ len then some []
    else
      match mtdBlockIsBad dev c offset with
      | none => none
      | some true =>
        if 0 < size then dumpLoop c rounds (position + len) (offset + len) size else some []
      | some false =>
        if 0 < size - data.length then
          (dumpLoop c rounds (position + len) (offset + len) (size - data.length)).map (data ++ ·)
        else some data

/-- `mtd_dump`; no size is the size of the device. -/
def mtdDump (part_offset size : ℕ) : Option (List Byte) :=
  let mtdsize := c.blocks.length * dev.erasesize
  dumpLoop dev c (mtdsize + 1) part_offset 0 (if size = 0 then mtdsize else size)

/-- The loop of `mtd_verify`: what is hashed, in steps of the buffer. -/
def verifyLoop (c : Contents) : ℕ → ℕ → ℕ → List Byte
  | 0, _, _ => []
  | rounds + 1, position, st_size =>
    let len := if 256 < st_size then 256 else st_size
    let data := readAt c position len
    if data.length = 0 then []
    else
      data ++ if 0 < st_size - data.length then
        verifyLoop c rounds (position + data.length) (st_size - data.length)
      else []

/-- `mtd_verify`: the sum of the flash is that of the file. -/
def mtdVerify {δ : Type} [DecidableEq δ] (md5 : List Byte → δ) (c : Contents) (file : List Byte) :
    Bool :=
  md5 (verifyLoop c (file.length + 1) 0 file.length) = md5 file

variable {dev}

theorem readAt_append (len' : ℕ) :
    readAt c position (len + len') = readAt c position len ++ readAt c (position + len) len' := by
  rw [readAt, readAt, readAt, take_add, drop_drop]

theorem length_readAt :
    (readAt c position len).length = min len (c.blocks.flatten.length - position) := by
  rw [readAt, length_take, length_drop]

/-- A read returns what a read of just that length returns. -/
theorem readAt_length :
    readAt c position (readAt c position len).length = readAt c position len := by
  rw [length_readAt, readAt, readAt, take_eq_take_iff, length_drop]
  omega

/-- The hash is over the first bytes of the flash. -/
theorem verifyLoop_eq {c : Contents} {rounds position st_size : ℕ} (h : st_size < rounds) :
    verifyLoop c rounds position st_size = readAt c position st_size := by
  induction rounds generalizing position st_size with
  | zero => omega
  | succ rounds ih =>
    rw [verifyLoop]
    generalize hlen : (if 256 < st_size then 256 else st_size) = len
    have hle : len ≤ st_size := by
      rw [← hlen]
      split_ifs <;> omega
    have hread := length_readAt c position len
    split_ifs with hzero hmore
    · -- at the end of the device, or of the file
      have hempty : (readAt c position st_size).length = 0 := by
        rw [length_readAt]
        rw [hzero] at hread
        rcases Nat.eq_zero_or_pos st_size with hst | hst
        · omega
        · have hlen' : 0 < len := by
            rw [← hlen]
            split_ifs <;> omega
          omega
      exact (length_eq_zero_iff.mp hempty).symm
    · have hself := readAt_length c position len
      rw [ih (by omega)]
      generalize (readAt c position len).length = n at hread hmore hself ⊢
      rw [← hself, ← readAt_append, Nat.add_sub_cancel' (by omega)]
    · have hall : (readAt c position len).length = st_size := by omega
      rw [append_nil, ← readAt_length c position len, hall]

/-! ## Blocks of the erase size -/

/-- Every block has the erase size. -/
def Sized (dev : Device) (c : Contents) : Prop := ∀ block ∈ c.blocks, block.length = dev.erasesize

variable {blocks : List (List Byte)} {es r : ℕ}

theorem length_flatten_of_sized (h : ∀ block ∈ blocks, block.length = es) :
    blocks.flatten.length = blocks.length * es := by
  induction blocks with
  | nil => simp
  | cons block blocks ih =>
    obtain ⟨hblock, hrest⟩ := forall_mem_cons.mp h
    rw [flatten_cons, length_append, hblock, ih hrest, length_cons, Nat.succ_mul,
      Nat.add_comm]

theorem drop_flatten_of_sized (h : ∀ block ∈ blocks, block.length = es) (j : ℕ) :
    blocks.flatten.drop (j * es) = (blocks.drop j).flatten := by
  induction j generalizing blocks with
  | zero => simp
  | succ j ih =>
    cases blocks with
    | nil => simp
    | cons block blocks =>
      obtain ⟨hblock, hrest⟩ := forall_mem_cons.mp h
      rw [flatten_cons, drop_succ_cons, ← ih hrest, Nat.succ_mul, Nat.add_comm,
        ← drop_drop, drop_left' hblock]

theorem readAt_block {c : Contents} (hsized : Sized dev c) {j : ℕ} {block : List Byte}
    (h : c.blocks[j]? = some block) : readAt c (j * dev.erasesize) dev.erasesize = block := by
  obtain ⟨hj, rfl⟩ := List.getElem?_eq_some_iff.mp h
  rw [readAt, drop_flatten_of_sized hsized, drop_eq_getElem_cons hj, flatten_cons]
  exact take_left' (hsized _ (getElem_mem hj))

theorem mtdBlockIsBad_eq {c : Contents} {p : ℕ} (h : p < c.blocks.length * dev.erasesize) :
    mtdBlockIsBad dev c p = some (decide (dev.Bad (p / dev.erasesize))) := by
  have hblock : p / dev.erasesize < c.blocks.length := Nat.div_lt_of_lt_mul (by rwa [Nat.mul_comm])
  unfold mtdBlockIsBad Device.Bad
  split_ifs with hnand <;> simp [hnand]

/-! ## One round of the dump -/

theorem dumpLen_pos {size : ℕ} (h : 0 < size) : 0 < dumpLen dev.erasesize size := by
  have hpos := dev.erasesize_pos
  unfold dumpLen
  split_ifs <;> omega

section

variable {c : Contents} {p size : ℕ} (rounds : ℕ) (hsized : Sized dev c)

include hsized

theorem dumpLoop_short (h : c.blocks.length * dev.erasesize < p + dumpLen dev.erasesize size) :
    dumpLoop dev c (rounds + 1) p p size = some [] := by
  have hlength := length_readAt c p (dumpLen dev.erasesize size)
  rw [length_flatten_of_sized hsized] at hlength
  rw [dumpLoop]
  exact if_pos (by omega)

theorem length_readAt_of_le (h : p + dumpLen dev.erasesize size ≤ c.blocks.length * dev.erasesize) :
    (readAt c p (dumpLen dev.erasesize size)).length = dumpLen dev.erasesize size := by
  rw [length_readAt, length_flatten_of_sized hsized]
  omega

/-- In a bad block nothing is put out. -/
theorem dumpLoop_bad (hsize : 0 < size)
    (h : p + dumpLen dev.erasesize size ≤ c.blocks.length * dev.erasesize)
    (hbad : dev.Bad (p / dev.erasesize)) :
    dumpLoop dev c (rounds + 1) p p size
      = dumpLoop dev c rounds (p + dumpLen dev.erasesize size) (p + dumpLen dev.erasesize size)
        size := by
  have hpos : 0 < dumpLen dev.erasesize size := dumpLen_pos hsize
  have hlength := length_readAt_of_le hsized h
  rw [dumpLoop, if_neg (by omega), mtdBlockIsBad_eq (by omega), decide_eq_true hbad]
  exact if_pos hsize

/-- In a good block what is read is put out, and the dump ends when it was all. -/
theorem dumpLoop_good (hsize : 0 < size)
    (h : p + dumpLen dev.erasesize size ≤ c.blocks.length * dev.erasesize)
    (hgood : ¬dev.Bad (p / dev.erasesize)) :
    dumpLoop dev c (rounds + 1) p p size
      = if 0 < size - dumpLen dev.erasesize size then
          (dumpLoop dev c rounds (p + dumpLen dev.erasesize size)
            (p + dumpLen dev.erasesize size) (size - dumpLen dev.erasesize size)).map
              (readAt c p (dumpLen dev.erasesize size) ++ ·)
        else some (readAt c p (dumpLen dev.erasesize size)) := by
  have hpos : 0 < dumpLen dev.erasesize size := dumpLen_pos hsize
  have hlength := length_readAt_of_le hsized h
  rw [dumpLoop, if_neg (by omega), mtdBlockIsBad_eq (by omega), decide_eq_false hgood]
  rw [hlength]

end

/-! ## The whole dump -/

theorem dumpLen_of_le {size : ℕ} (h : es ≤ size) : dumpLen es size = es := by
  unfold dumpLen
  split_ifs <;> omega

/-- Over good blocks the dump puts out what it reads. -/
theorem dumpLoop_of_good {c : Contents} (hsized : Sized dev c) {rounds j size : ℕ}
    (hsize : 0 < size) (hfits : j * dev.erasesize + size ≤ c.blocks.length * dev.erasesize)
    (hgood : ∀ i, j ≤ i → i * dev.erasesize < j * dev.erasesize + size → ¬dev.Bad i)
    (hrounds : size ≤ rounds) :
    dumpLoop dev c rounds (j * dev.erasesize) (j * dev.erasesize) size
      = some (readAt c (j * dev.erasesize) size) := by
  have hpos := dev.erasesize_pos
  induction rounds generalizing j size with
  | zero => omega
  | succ rounds ih =>
    have hfirst : ¬dev.Bad (j * dev.erasesize / dev.erasesize) := by
      rw [Nat.mul_div_cancel j hpos]
      exact hgood j (le_refl j) (by omega)
    rcases Nat.lt_or_ge dev.erasesize size with hlt | hge
    · have hlen : dumpLen dev.erasesize size = dev.erasesize := dumpLen_of_le hlt.le
      have hsucc : (j + 1) * dev.erasesize = j * dev.erasesize + dev.erasesize := Nat.succ_mul ..
      rw [dumpLoop_good rounds hsized hsize (by omega) hfirst, hlen, if_pos (by omega), ← hsucc,
        ih (by omega) (by omega) (fun i hi hlt => hgood i (by omega) (by omega)) (by omega),
        hsucc, Option.map_some, ← readAt_append, Nat.add_sub_cancel' hlt.le]
    · have hlen : dumpLen dev.erasesize size = size := by
        unfold dumpLen
        split_ifs <;> omega
      rw [dumpLoop_good rounds hsized hsize (by omega) hfirst, hlen, if_neg (by omega)]

/-- A dump of the whole device is empty when all blocks are bad. -/
theorem dumpLoop_eq_nil_iff {c : Contents} (hsized : Sized dev c) {rounds j size : ℕ}
    (hsize : dev.erasesize ≤ size) (hj : j ≤ c.blocks.length)
    (hrounds : c.blocks.length * dev.erasesize < rounds + j * dev.erasesize) :
    dumpLoop dev c rounds (j * dev.erasesize) (j * dev.erasesize) size = some []
      ↔ ∀ i, j ≤ i → i < c.blocks.length → dev.Bad i := by
  have hpos := dev.erasesize_pos
  have hlen : dumpLen dev.erasesize size = dev.erasesize := dumpLen_of_le hsize
  have hjtotal : j * dev.erasesize ≤ c.blocks.length * dev.erasesize := Nat.mul_le_mul_right _ hj
  induction rounds generalizing j with
  | zero => omega
  | succ rounds ih =>
    rcases Nat.lt_or_eq_of_le hj with hlt | rfl
    · have htotal : (j + 1) * dev.erasesize ≤ c.blocks.length * dev.erasesize :=
        Nat.mul_le_mul_right _ hlt
      have hsucc : (j + 1) * dev.erasesize = j * dev.erasesize + dev.erasesize := Nat.succ_mul ..
      by_cases hbad : dev.Bad j
      · rw [dumpLoop_bad rounds hsized (by omega) (by omega)
          (by rwa [Nat.mul_div_cancel j hpos]), hlen, ← hsucc]
        have hnext := ih (j := j + 1) hlt (by omega) (by omega)
        refine hnext.trans ⟨fun h i hi => ?_, fun h i hi => h i (by omega)⟩
        rcases Nat.lt_or_eq_of_le hi with hji | rfl
        · exact h i hji
        · exact fun _ => hbad
      · -- a good block is put out
        refine iff_of_false (fun h => ?_) fun h => hbad (h j (le_refl j) hlt)
        have hread : (readAt c (j * dev.erasesize) (dumpLen dev.erasesize size)).length
            = dumpLen dev.erasesize size := length_readAt_of_le hsized (by omega)
        rw [dumpLoop_good rounds hsized (by omega) (by omega)
          (by rwa [Nat.mul_div_cancel j hpos])] at h
        split_ifs at h
        · obtain ⟨out, -, hout⟩ := Option.map_eq_some_iff.mp h
          rw [(append_eq_nil_iff.mp hout).1, length_nil] at hread
          omega
        · rw [Option.some.inj h, length_nil] at hread
          omega
    · exact iff_of_true (dumpLoop_short rounds hsized (by omega)) fun i hi hlt => by omega

variable {c : Contents}

theorem mtdDump_nil_iff (hsized : Sized dev c) :
    mtdDump dev c 0 0 = some [] ↔ ∀ i < c.blocks.length, dev.Bad i := by
  rw [mtdDump, if_pos rfl]
  rcases Nat.eq_zero_or_pos c.blocks.length with hzero | hblocks
  · rw [hzero, Nat.zero_mul, dumpLoop, dumpLen]
    refine iff_of_true (if_pos (.inl ?_)) fun i hi => absurd hi (Nat.not_lt_zero i)
    simp [readAt]
  · have hsize : dev.erasesize ≤ c.blocks.length * dev.erasesize :=
      Nat.le_mul_of_pos_left _ hblocks
    have hall := @dumpLoop_eq_nil_iff dev c hsized (c.blocks.length * dev.erasesize + 1) 0 _ hsize
      (Nat.zero_le _) (by omega)
    rw [Nat.zero_mul] at hall
    rw [hall]
    exact ⟨fun h i => h i (Nat.zero_le i), fun h i _ => h i⟩

theorem mtdDump_of_good (hsized : Sized dev c) {size : ℕ} (hsize : 0 < size)
    (hfits : size ≤ c.blocks.length * dev.erasesize)
    (hgood : ∀ i, i * dev.erasesize < size → ¬dev.Bad i) :
    mtdDump dev c 0 size = some (readAt c 0 size) := by
  have hdump := @dumpLoop_of_good dev c hsized (c.blocks.length * dev.erasesize + 1) 0 size hsize
    (by omega) (fun i _ hi => hgood i (by omega)) (by omega)
  rw [Nat.zero_mul] at hdump
  rw [mtdDump, if_neg (by omega)]
  exact hdump

/-! ## Write, dump and verify -/

theorem sized_writeAll (hsized : Sized dev c) (is : List ℕ) {datas : List (List Byte)}
    (h : ∀ data ∈ datas, data.length = dev.erasesize) : Sized dev (writeAll c is datas) := by
  induction is generalizing c datas with
  | nil => exact hsized
  | cons i is ih =>
    cases datas with
    | nil => exact hsized
    | cons data datas =>
      obtain ⟨hdata, hrest⟩ := forall_mem_cons.mp h
      refine ih (fun block hblock => ?_) hrest
      rcases mem_or_eq_of_mem_set hblock with hmem | rfl
      · exact hsized block hmem
      · exact hdata

theorem lt_length_parts_iff {image : List Byte} {i : ℕ} :
    i < (parts dev.erasesize image).length ↔ i * dev.erasesize < image.length := by
  have hpos := dev.erasesize_pos
  rw [parts, length_map, length_range, ← Nat.succ_le_iff, Nat.le_div_iff_mul_le hpos,
    Nat.succ_mul]
  omega

theorem firstHits_range' {p : ℕ → Prop} {s n : ℕ} (h : ∀ i, s ≤ i → i < s + n → p i) :
    FirstHits p s (List.range' s n) := by
  induction n generalizing s with
  | zero => trivial
  | succ n ih =>
    refine ⟨le_refl s, fun j hj hlt => by omega, h s (le_refl s) (by omega), ?_⟩
    exact ih fun i hi hlt => h i (by omega) (by omega)

/-- An image in the first blocks is what the flash begins with. -/
theorem readAt_writeAll_range {image : List Byte}
    (hfits : (parts dev.erasesize image).length ≤ c.blocks.length) :
    readAt (writeAll c (List.range' 0 (parts dev.erasesize image).length)
      (parts dev.erasesize image)) 0 image.length = image := by
  set datas := parts dev.erasesize image with hdatas
  have htake : (writeAll c (List.range' 0 datas.length) datas).blocks.take datas.length
      = datas := by
    refine ext_getElem? fun k => ?_
    rcases Nat.lt_or_ge k datas.length with hk | hk
    · have hplace : (List.range' 0 datas.length)[k]? = some k := by simp [hk]
      rw [List.getElem?_take_of_lt hk,
        writeAll_of_mem nodup_range' hplace (by omega) (length_range' ..)]
    · rw [List.getElem?_eq_none (by rw [length_take]; omega), List.getElem?_eq_none hk]
  obtain ⟨n, hn⟩ := flatten_parts dev.erasesize_pos image
  rw [readAt, drop_zero, ← take_append_drop datas.length (writeAll ..).blocks, htake,
    flatten_append, hn, append_assoc, take_left]

/-- After a write of the image that returns, whatever the flash held before and whatever the sum
is, the dump puts out the image and the verification succeeds. -/
def ReadsBack (dev : Device) (blocks : ℕ) (buf : List Byte) (source : Source) : Prop :=
  ∀ (δ : Type) [DecidableEq δ] (md5 : List Byte → δ) (c c' : Contents),
    c.blocks.length = blocks → Sized dev c → mtdWrite dev 0 c buf source = some c' →
      mtdDump dev c' 0 (buf ++ source.data).length = some (buf ++ source.data)
        ∧ mtdVerify md5 c' (buf ++ source.data) = true

/-- An empty image is dumped as the whole device, which has to have no good block; and no block that
the image would span without the bad ones is bad. -/
structure SpansGood (dev : Device) (blocks size : ℕ) : Prop where
  empty : size = 0 → ∀ i < blocks, dev.Bad i
  good : ∀ i, i * dev.erasesize < size → ¬dev.Bad i

variable {buf : List Byte} {source : Source} {c c' : Contents}

theorem unbroken_of_not_mem (h : none ∉ source) : Unbroken source := by
  induction source with
  | nil => trivial
  | cons read source ih =>
    obtain ⟨hread, hsource⟩ := not_or.mp (mt mem_cons.mpr h)
    cases read with
    | none => exact absurd rfl hread
    | some piece => exact ih hsource

/-- A write without an offset puts the pieces of the image into the first good blocks. -/
theorem mtdWrite_zero (hbuf : buf.length ≤ dev.erasesize) (hread : none ∉ source)
    (h : mtdWrite dev 0 c buf source = some c') :
    ∃ is, FirstHits (fun i => ¬dev.Bad i) 0 is
      ∧ is.length = (parts dev.erasesize (buf ++ source.data)).length
      ∧ (∀ i ∈ is, i < c.blocks.length)
      ∧ c' = writeAll c is (parts dev.erasesize (buf ++ source.data)) := by
  rw [← Nat.zero_mul dev.erasesize] at h
  obtain ⟨is, hfirst, hlength, hinside, rfl⟩ := mtdWrite_spec hbuf h
  have hpieces := map_padded_fills dev.erasesize_pos hbuf (unbroken_of_not_mem hread)
    (Nat.lt_succ_self _)
  rw [← length_map (padded dev.erasesize)] at hlength
  rw [pieces, hpieces] at hlength ⊢
  simp only [Nat.zero_add, map_id'] at hinside ⊢
  exact ⟨is, hfirst, hlength, hinside, rfl⟩

/-- The pieces fit the device. -/
theorem length_le_of_inside {is : List ℕ} {n : ℕ} (hfirst : FirstHits (fun i => ¬dev.Bad i) 0 is)
    (hinside : ∀ i ∈ is, i < n) : is.length ≤ n := by
  have hsubperm := subperm_of_subset hfirst.nodup
    (fun i hi => mem_range.mpr (hinside i hi))
  simpa using hsubperm.length_le

/-- Good blocks are read as they were written. -/
theorem readsBack_of_spansGood (hbuf : buf.length ≤ dev.erasesize) (hread : none ∉ source)
    (h : SpansGood dev c.blocks.length (buf ++ source.data).length) :
    ReadsBack dev c.blocks.length buf source := by
  intro δ _ md5 c₁ c' hblocks hsized hwrite
  obtain ⟨is, hfirst, hlength, hinside, rfl⟩ := mtdWrite_zero hbuf hread hwrite
  generalize buf ++ source.data = image at h hlength ⊢
  have hfits := length_le_of_inside hfirst hinside
  have hrange : is = List.range' 0 (parts dev.erasesize image).length := by
    refine hfirst.unique (firstHits_range' fun i _ hi => ?_) (by rw [hlength, length_range'])
    exact h.good i (lt_length_parts_iff.mp (by omega))
  have hflash : readAt (writeAll c₁ is (parts dev.erasesize image)) 0 image.length = image := by
    rw [hrange]
    exact readAt_writeAll_range (by omega)
  have hsized' : Sized dev (writeAll c₁ is (parts dev.erasesize image)) :=
    sized_writeAll hsized is fun data hdata => length_of_mem_parts hdata
  have hblocks' := length_writeAll c₁ is (parts dev.erasesize image)
  constructor
  · rcases Nat.eq_zero_or_pos image.length with hzero | hpos
    · rw [length_eq_zero_iff.mp hzero, length_nil, mtdDump_nil_iff (by
        rwa [length_eq_zero_iff.mp hzero] at hsized'), length_writeAll, hblocks]
      exact h.empty hzero
    · rw [mtdDump_of_good hsized' hpos ?_ h.good, hflash]
      have hlen := congrArg List.length hflash
      rw [length_readAt, length_flatten_of_sized hsized'] at hlen
      omega
  · rw [mtdVerify, verifyLoop_eq (Nat.lt_succ_self _), hflash, decide_eq_true rfl]

/-- A device full of one byte. -/
def filled (dev : Device) (blocks : ℕ) (byte : Byte) : Contents :=
  ⟨List.replicate blocks (List.replicate dev.erasesize byte), []⟩

/-- The image in the blocks `is` of a device that was full of one byte. -/
def overFilled (dev : Device) (blocks : ℕ) (byte : Byte) (image : List Byte) (is : List ℕ) :
    Contents :=
  writeAll (filled dev blocks byte) is (parts dev.erasesize image)

section

variable {blocks : ℕ} (byte : Byte) {image : List Byte} {is : List ℕ} {i : ℕ}

theorem sized_filled (blocks : ℕ) : Sized dev (filled dev blocks byte) := by
  intro block hblock
  rw [eq_of_mem_replicate hblock, length_replicate]

theorem sized_overFilled (blocks : ℕ) (is : List ℕ) :
    Sized dev (overFilled dev blocks byte image is) :=
  sized_writeAll (sized_filled byte blocks) is fun _ hdata => length_of_mem_parts hdata

/-- In a block that is not written the byte is still read. -/
theorem getElem?_readAt_overFilled (hi : i ∉ is) (hblocks : i < blocks)
    (hsize : i * dev.erasesize < image.length) :
    (readAt (overFilled dev blocks byte image is) 0 image.length)[i * dev.erasesize]?
      = some byte := by
  have hpos := dev.erasesize_pos
  have hblock := readAt_block (@sized_overFilled dev byte image blocks is)
    ((writeAll_of_not_mem hi _ _).trans (List.getElem?_replicate_of_lt hblocks))
  have hfirst := congrArg (·[0]?) hblock
  simp only [readAt, List.getElem?_take_of_lt hpos, List.getElem?_drop, Nat.add_zero,
    List.getElem?_replicate_of_lt hpos] at hfirst
  rw [readAt, List.getElem?_take_of_lt hsize, drop_zero]
  exact hfirst

end

/-- The flash may have been full of any byte. -/
theorem ReadsBack.overFilled (hbuf : buf.length ≤ dev.erasesize) (hread : none ∉ source)
    (hreturns : (mtdWrite dev 0 c buf source).isSome = true)
    (h : ReadsBack dev c.blocks.length buf source) (byte : Byte) :
    ∃ is, FirstHits (fun i => ¬dev.Bad i) 0 is
      ∧ is.length = (parts dev.erasesize (buf ++ source.data)).length
      ∧ (∀ i ∈ is, i < c.blocks.length)
      ∧ mtdDump dev (overFilled dev c.blocks.length byte (buf ++ source.data) is) 0
          (buf ++ source.data).length = some (buf ++ source.data)
      ∧ readAt (overFilled dev c.blocks.length byte (buf ++ source.data) is) 0
          (buf ++ source.data).length = buf ++ source.data := by
  have hblocks : c.blocks.length = (filled dev c.blocks.length byte).blocks.length :=
    length_replicate.symm
  have hsome := @isSome_mtdWrite dev buf c _ source id 0 hblocks
  rw [hreturns, Source.map, map_id, map_id_fun, Option.map_id_fun, map_id,
    Option.isSome_iff_exists] at hsome
  obtain ⟨c', hc'⟩ := hsome
  obtain ⟨hdump, hverify⟩ := h _ id _ c' hblocks.symm (sized_filled byte _) hc'
  rw [mtdVerify, verifyLoop_eq (Nat.lt_succ_self _), decide_eq_true_eq] at hverify
  obtain ⟨is, hfirst, hlength, hinside, rfl⟩ := mtdWrite_zero hbuf hread hc'
  exact ⟨is, hfirst, hlength, hblocks ▸ hinside, hdump, hverify⟩

theorem ReadsBack.spansGood (hbuf : buf.length ≤ dev.erasesize) (hread : none ∉ source)
    (hreturns : (mtdWrite dev 0 c buf source).isSome = true)
    (h : ReadsBack dev c.blocks.length buf source) :
    SpansGood dev c.blocks.length (buf ++ source.data).length := by
  have hover := h.overFilled hbuf hread hreturns
  generalize buf ++ source.data = image at hover ⊢
  constructor
  · intro hzero
    obtain ⟨is, -, -, -, hdump, -⟩ := hover 0
    rw [length_eq_zero_iff.mp hzero, length_nil,
      mtdDump_nil_iff (sized_overFilled _ _ _), Mtd.overFilled, length_writeAll, filled,
      length_replicate] at hdump
    exact hdump
  · intro i hi hbad
    obtain ⟨is, hfirst, hlength, hinside, -, hflash⟩ :=
      hover (image.getD (i * dev.erasesize) 0 + 1)
    -- a bad block is not written, and so holds what it held before
    have hnot : i ∉ is := fun hmem => hfirst.of_mem hmem hbad
    have hblocks : i < c.blocks.length := by
      have hle := length_le_of_inside hfirst hinside
      have hlt := lt_length_parts_iff.mpr hi
      omega
    have hbyte := getElem?_readAt_overFilled (image.getD (i * dev.erasesize) 0 + 1) hnot hblocks hi
    have hsome : image[i * dev.erasesize]? = some (image.getD (i * dev.erasesize) 0) := by
      simp [hi]
    rw [hflash, hsome] at hbyte
    exact absurd (Option.some.inj hbyte) (by bv_omega)

/-- A write from the start of the device that returns, and whose reads do not fail, is read back
whatever the flash held before exactly when the image spans no bad block and is not empty. -/
theorem mtdWrite_readsBack_iff (hbuf : buf.length ≤ dev.erasesize) (hread : none ∉ source)
    (hreturns : (mtdWrite dev 0 c buf source).isSome = true) :
    ReadsBack dev c.blocks.length buf source
      ↔ SpansGood dev c.blocks.length (buf ++ source.data).length :=
  ⟨ReadsBack.spansGood hbuf hread hreturns, readsBack_of_spansGood hbuf hread⟩

/-- NAND flash with blocks of three bytes. -/
def nandOfThree (bad : ℕ → Bool) : Device where
  erasesize := 3
  erasesize_pos := by decide
  nand := true
  bad := bad
  eraseFails _ := false
  writeFails _ := false

/-- A device without bad blocks. -/
theorem mtdWrite_readsBack_iff_good :
    ReadsBack (nandOfThree fun _ => false) 2 [] [some [1, 2]]
      ↔ SpansGood (nandOfThree fun _ => false) 2 2 :=
  @mtdWrite_readsBack_iff (nandOfThree fun _ => false) [] [some [1, 2]]
    ⟨[[0, 0, 0], [0, 0, 0]], []⟩ (by decide) (by decide) (by decide)

/-- The rest of an image after a bad block: of the two bytes the dump misses the first one, and the
verification reads the bad block. -/
theorem mtdWrite_not_readsBack :
    mtdWrite (nandOfThree fun i => i = 0) 0 ⟨[[0, 0, 0], [0, 0, 0], [0, 0, 0]], []⟩ []
        [some [1, 2]]
        = some ⟨[[0, 0, 0], [1, 2, 0xff], [0, 0, 0]], [.erase 1, .write 1]⟩
      ∧ mtdDump (nandOfThree fun i => i = 0)
          ⟨[[0, 0, 0], [1, 2, 0xff], [0, 0, 0]], [.erase 1, .write 1]⟩ 0 2
        = some [2, 0xff]
      ∧ mtdVerify (fun bytes => bytes)
        ⟨[[0, 0, 0], [1, 2, 0xff], [0, 0, 0]], [.erase 1, .write 1]⟩ [1, 2] = false := by
  decide

end RutosSdk.Mtd
