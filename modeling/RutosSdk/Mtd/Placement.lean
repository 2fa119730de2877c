import Mathlib.Data.List.Sort
import RutosSdk.Mtd.Write

/-! # Where an image ends up

Reference: `mtd_write` in `package/system/mtd/src/mtd.c`.

A write is to put an image into the first good blocks at or after its start. The bad blocks are
asked for at the erase position, and erased is at that position and the start together, so with a
start behind the first block the pattern of bad blocks is read from the wrong place. A read of the
image that fails is taken for its end, or for that of a piece.
-/

namespace RutosSdk.Mtd

open List

variable {dev : Device}

/-! ## What a sequence of block writes leaves -/

variable {datas : List (List Byte)} {is : List ℕ} {i : ℕ}

theorem writeAll_log (c : Contents) (h : is.length = datas.length) :
    (writeAll c is datas).log = c.log ++ is.flatMap fun i => [.erase i, .write i] := by
  induction is generalizing c datas with
  | nil => rw [writeAll, flatMap_nil, append_nil]
  | cons i is ih =>
    cases datas with
    | nil => exact absurd h (by simp)
    | cons data datas =>
      rw [writeAll, ih _ (Nat.succ.inj h), writeTo, flatMap_cons, append_assoc]

theorem length_writeAll (c : Contents) (is : List ℕ) (datas : List (List Byte)) :
    (writeAll c is datas).blocks.length = c.blocks.length := by
  induction is generalizing c datas with
  | nil => rfl
  | cons i is ih =>
    cases datas with
    | nil => rfl
    | cons data datas => rw [writeAll, ih, writeTo, length_set]

theorem writeAll_of_not_mem (hi : i ∉ is) (c : Contents) (datas : List (List Byte)) :
    (writeAll c is datas).blocks[i]? = c.blocks[i]? := by
  induction is generalizing c datas with
  | nil => rfl
  | cons k is ih =>
    cases datas with
    | nil => rfl
    | cons data datas =>
      obtain ⟨hne, hnot⟩ := not_or.mp (mt mem_cons.mpr hi)
      rw [writeAll, ih hnot, writeTo, List.getElem?_set_ne (Ne.symm hne)]

variable {b : ℕ} {image : List Byte} {c : Contents}

theorem writeAll_of_mem {k : ℕ} (hnodup : is.Nodup) (hk : is[k]? = some i)
    (hi : i < c.blocks.length) (hlength : is.length = datas.length) :
    (writeAll c is datas).blocks[i]? = datas[k]? := by
  induction is generalizing c datas k with
  | nil => exact absurd hk (by simp)
  | cons j is ih =>
    cases datas with
    | nil => exact absurd hlength (by simp)
    | cons data datas =>
      obtain ⟨hj, hnodup⟩ := nodup_cons.mp hnodup
      rw [writeAll]
      cases k with
      | zero =>
        rw [List.getElem?_cons_zero, Option.some.injEq] at hk
        subst hk
        rw [writeAll_of_not_mem hj, writeTo, List.getElem?_set_self hi, List.getElem?_cons_zero]
      | succ k =>
        rw [List.getElem?_cons_succ] at hk ⊢
        exact ih hnodup hk (by rwa [writeTo, length_set]) (Nat.succ.inj hlength)

/-! ## The purpose of a write -/

/-- The block is written, and erased before. -/
def ErasedFirst (ops : List Op) (i : ℕ) : Prop :=
  .write i ∈ ops ∧ ∀ before after, ops = before ++ .write i :: after → .erase i ∈ before

/-- What was done between two states of a device. -/
def done (c c' : Contents) : List Op := c'.log.drop c.log.length

/-- The image lies in the blocks `is`: the first good ones at or after block `b`. They were erased
before they were written, no bad block was touched, and no other block differs. -/
structure Placed (dev : Device) (b : ℕ) (image : List Byte) (c c' : Contents) (is : List ℕ) :
    Prop where
  first : FirstHits (fun i => ¬dev.Bad i) b is
  length : is.length = (parts dev.erasesize image).length
  inside : ∀ i ∈ is, i < c.blocks.length
  holds : ∀ (k i : ℕ), is[k]? = some i → c'.blocks[i]? = (parts dev.erasesize image)[k]?
  erased : ∀ i ∈ is, ErasedFirst (done c c') i
  spared : ∀ op ∈ done c c', ¬dev.Bad op.block
  others : ∀ i ∉ is, c'.blocks[i]? = c.blocks[i]?

theorem write_mem_flatMap : .write i ∈ (is.flatMap fun i => [Op.erase i, .write i]) ↔ i ∈ is := by
  simp [mem_flatMap]

theorem erasedFirst_flatMap (hi : i ∈ is) :
    ErasedFirst (is.flatMap fun i => [.erase i, .write i]) i := by
  refine ⟨write_mem_flatMap.mpr hi, fun before after heq => ?_⟩
  clear hi
  induction is generalizing before with
  | nil => exact absurd heq (by simp)
  | cons k is ih =>
    -- the write is not the first operation; it is that of the first block, or comes later
    match before with
    | [] => exact absurd (List.cons.inj heq).1 (by simp)
    | [op] =>
      obtain ⟨hop, hrest⟩ := List.cons.inj heq
      rw [← hop, Op.write.inj (List.cons.inj hrest).1]
      exact mem_singleton_self _
    | op :: op' :: before =>
      have hrest := (List.cons.inj (List.cons.inj heq).2).2
      exact mem_cons_of_mem _ (mem_cons_of_mem _ (ih before hrest))

/-- The blocks that were written are the good ones, when the pattern of the bad blocks is the same
at the start. -/
theorem placed_of_writeAll (hfirst : FirstHits (fun i => ¬dev.Bad i) b is)
    (hlength : is.length = (parts dev.erasesize image).length)
    (hinside : ∀ i ∈ is, i < c.blocks.length) :
    Placed dev b image c (writeAll c is (parts dev.erasesize image)) is := by
  have hdone : done c (writeAll c is (parts dev.erasesize image))
      = is.flatMap fun i => [.erase i, .write i] := by
    rw [done, writeAll_log c hlength, drop_left]
  refine ⟨hfirst, hlength, hinside, fun k i hk => ?_, fun i hi => ?_, fun op hop => ?_,
    fun i hi => writeAll_of_not_mem hi c _⟩
  · exact writeAll_of_mem hfirst.nodup hk (hinside i (mem_of_getElem? hk)) hlength
  · rw [hdone]
    exact erasedFirst_flatMap hi
  · rw [hdone] at hop
    obtain ⟨i, hi, hop⟩ := mem_flatMap.mp hop
    have hblock : op.block = i := by
      rcases mem_pair.mp hop with rfl | rfl <;> rfl
    rw [hblock]
    exact hfirst.of_mem hi

/-! ## Which pieces are written -/

/-- The blocks of a placed image are among those that were written. -/
theorem Placed.sublist {js : List ℕ} (h : Placed dev b image c (writeAll c js datas) is)
    (hjs : js.Pairwise (· < ·)) (hlength : js.length = datas.length) : is.Sublist js := by
  have hsubset : is ⊆ js := by
    intro i hi
    have hwrite := (h.erased i hi).1
    rw [done, writeAll_log c hlength, drop_left] at hwrite
    exact write_mem_flatMap.mp hwrite
  have hsorted := h.first.pairwise_lt
  exact sublist_of_subperm_of_pairwise
    (subperm_of_subset (hsorted.imp Nat.ne_of_lt) hsubset) (hsorted.imp Nat.le_of_lt)
    (hjs.imp Nat.le_of_lt)

/-- And so are its pieces. -/
theorem Placed.parts_sublist {js : List ℕ} (h : Placed dev b image c (writeAll c js datas) is)
    (hjs : js.Pairwise (· < ·)) (hlength : js.length = datas.length)
    (hinside : ∀ j ∈ js, j < c.blocks.length) : (parts dev.erasesize image).Sublist datas := by
  let held (i : ℕ) : List Byte := ((writeAll c js datas).blocks[i]?).getD []
  have hmap : ∀ {ks : List ℕ} {pieces : List (List Byte)}, ks.length = pieces.length →
      (∀ (k i : ℕ), ks[k]? = some i → (writeAll c js datas).blocks[i]? = pieces[k]?) →
      ks.map held = pieces := by
    intro ks pieces hlen hholds
    refine ext_getElem (by rw [length_map, hlen]) fun k hk hk' => ?_
    rw [length_map] at hk
    have hheld := hholds k _ (List.getElem?_eq_getElem hk)
    rw [List.getElem?_eq_getElem hk'] at hheld
    simp [held, hheld]
  have his := hmap h.length h.holds
  have hjs' := hmap hlength fun k i hk =>
    writeAll_of_mem (hjs.imp Nat.ne_of_lt) hk (hinside i (mem_of_getElem? hk)) hlength
  rw [← his, ← hjs']
  exact (h.sublist hjs hlength).map held

/-- A part of a list has no more zeros, and with as many it is all of it if there is a zero in every
element. -/
theorem eq_of_sublist_of_count_le {l l' : List (List Byte)} (h : l.Sublist l')
    (hzero : ∀ x ∈ l', 0 < x.count 0) :
    l.flatten.count 0 ≤ l'.flatten.count 0 ∧ (l'.flatten.count 0 ≤ l.flatten.count 0 → l = l') := by
  induction h with
  | slnil => exact ⟨le_refl _, fun _ => rfl⟩
  | cons x h ih =>
    obtain ⟨hx, hrest⟩ := forall_mem_cons.mp hzero
    have hcount := (ih hrest).1
    rw [flatten_cons, count_append]
    exact ⟨by omega, fun hle => by omega⟩
  | cons_cons x h ih =>
    obtain ⟨hcount, heq⟩ := ih (forall_mem_cons.mp hzero).2
    rw [flatten_cons, flatten_cons, count_append, count_append]
    exact ⟨by omega, fun hle => by rw [heq (by omega)]⟩

variable {es rounds : ℕ} {buf : List Byte} {source : Source}

theorem count_padded (data : List Byte) : (padded es data).count 0 = data.count 0 := by
  have hff : (List.replicate (es - data.length) (0xff : Byte)).count 0 = 0 := by
    rw [count_replicate, if_neg (by decide)]
  rw [padded, count_append, hff, Nat.add_zero]

theorem count_parts (hes : 0 < es) (image : List Byte) :
    (parts es image).flatten.count 0 = image.count 0 := by
  obtain ⟨n, hn⟩ := flatten_parts hes image
  rw [hn, count_append, count_replicate, if_neg (by decide), Nat.add_zero]

/-- The contents of the buffer are a beginning of the image. -/
theorem fills_prefix (hbuf : buf.length ≤ es) :
    (fills es rounds buf source).flatten <+: buf ++ source.data := by
  induction rounds generalizing buf source with
  | zero => exact nil_prefix
  | succ rounds ih =>
    have hall : (fill es buf source).1 ++ (fill es buf source).2.data = buf ++ source.data := by
      rcases fill_spec es buf source hbuf with ⟨htake, hdrop, -⟩ | ⟨-, happend, -⟩
      · rw [htake, hdrop, take_append_drop]
      · exact happend
    rw [fills]
    split_ifs
    · exact nil_prefix
    · rw [flatten_cons, ← hall]
      exact prefix_append_right_inj _ |>.mpr (ih (Nat.zero_le _))

theorem ne_nil_of_mem_fills {data : List Byte} (h : data ∈ fills es rounds buf source) :
    data ≠ [] := by
  induction rounds generalizing buf source with
  | zero => exact absurd h not_mem_nil
  | succ rounds ih =>
    rw [fills] at h
    split_ifs at h with hempty
    · exact absurd h not_mem_nil
    · rcases mem_cons.mp h with rfl | h
      · exact fun hnil => hempty (by rw [hnil]; rfl)
      · exact ih h

theorem unbroken_of_data_eq_nil (h : source.data = []) : Unbroken source := by
  induction source with
  | nil => trivial
  | cons read source ih =>
    rw [data_cons, append_eq_nil_iff] at h
    cases read with
    | none => exact h.2
    | some piece => exact ih h.2

/-- If an image of zeros is written in its pieces, no read has failed too early. -/
theorem unbroken_of_map_padded_fills (hes : 0 < es) (hbuf : buf.length ≤ es)
    (hzero : ∀ byte ∈ buf ++ source.data, byte = 0) (hrounds : (buf ++ source.data).length < rounds)
    (h : (fills es rounds buf source).map (padded es) = parts es (buf ++ source.data)) :
    Unbroken source := by
  induction rounds generalizing buf source with
  | zero => omega
  | succ rounds ih =>
    by_cases hempty : buf ++ source.data = []
    · exact unbroken_of_data_eq_nil (append_eq_nil_iff.mp hempty).2
    have hpos : 0 < (buf ++ source.data).length := length_pos_iff.mpr hempty
    rw [parts_eq_cons hes hempty, fills] at h
    split_ifs at h with hfill
    · exact absurd h (by simp)
    obtain ⟨hhead, htail⟩ := List.cons.inj h
    rcases fill_spec es buf source hbuf with ⟨-, hdrop, hrest⟩ | ⟨hlt, happend, hrest⟩
    · rw [← hdrop] at htail
      refine hrest.mp (@ih [] _ (Nat.zero_le _) ?_ ?_ htail)
      · rw [nil_append, hdrop]
        exact fun byte hbyte => hzero byte (mem_of_mem_drop hbyte)
      · rw [nil_append, hdrop, length_drop]
        omega
    · -- the piece would have fewer zeros than the image has there
      rw [hrest]
      have hcount := congrArg (List.count 0) hhead
      rw [count_padded, count_padded] at hcount
      rw [← happend] at hzero hcount
      have hall : ∀ l : List Byte, (∀ byte ∈ l, byte = 0) → l.count 0 = l.length :=
        fun l hl => count_eq_length.mpr fun byte hbyte => (hl byte hbyte).symm
      rw [hall _ fun byte hbyte => hzero byte (mem_append_left _ hbyte),
        hall _ fun byte hbyte => hzero byte (mem_of_mem_take hbyte), length_take,
        length_append] at hcount
      exact length_eq_zero_iff.mp (by omega)

theorem unbroken_map (g : Byte → Byte) : Unbroken (source.map g) ↔ Unbroken source := by
  induction source with
  | nil => exact Iff.rfl
  | cons read source ih =>
    cases read with
    | none =>
      change (Source.map g source).data = [] ↔ Source.data source = []
      rw [data_map, map_eq_nil_iff]
    | some piece => exact ih

/-! ## Every image -/

/-- Reads of the same lengths, and the same failures. -/
def SameReads (buf buf' : List Byte) (source source' : Source) : Prop :=
  buf'.length = buf.length
    ∧ List.map (Option.map List.length) source' = List.map (Option.map List.length) source

theorem SameReads.map (g : Byte → Byte) : SameReads buf (buf.map g) source (source.map g) := by
  refine ⟨length_map .., ?_⟩
  rw [Source.map, map_map]
  refine map_congr_left fun read _ => ?_
  cases read <;> simp

theorem SameReads.length_data {buf' : List Byte} {source' : Source}
    (h : SameReads buf buf' source source') :
    (buf' ++ source'.data).length = (buf ++ source.data).length := by
  have hdata : ∀ {s : Source}, s.data.length
      = ((List.map (Option.map List.length) s).map (·.getD 0)).sum := by
    intro s
    induction s with
    | nil => rfl
    | cons read s ih =>
      rw [data_cons, length_append, ih]
      cases read <;> simp
  rw [length_append, length_append, h.1, hdata, hdata, h.2]

theorem SameReads.unbroken_iff {buf' : List Byte} {source' : Source}
    (h : SameReads buf buf' source source') : Unbroken source' ↔ Unbroken source := by
  have hzero := @unbroken_map source fun _ => 0
  have hzero' := @unbroken_map source' fun _ => 0
  have hsame : Source.map (fun _ => 0) source' = Source.map (fun _ => 0) source := by
    have hlen : ∀ s : Source, Source.map (fun _ => 0) s = List.map
        (Option.map fun n => List.replicate n 0) (List.map (Option.map List.length) s) := by
      intro s
      rw [Source.map, map_map]
      refine map_congr_left fun read _ => ?_
      cases read with
      | none => rfl
      | some piece => simp [map_const']
    rw [hlen, hlen, h.2]
  rw [← hzero, ← hzero', hsame]

/-- Whatever the bytes that the reads find, a write that returns places the image. -/
def PlacesAll (dev : Device) (b : ℕ) (c : Contents) (buf : List Byte) (source : Source) : Prop :=
  ∀ buf' source' c', SameReads buf buf' source source' →
    mtdWrite dev (b * dev.erasesize) c buf' source' = some c' →
    ∃ is, Placed dev b (buf' ++ source'.data) c c' is

/-- Where no read fails too early, the image is placed exactly when, as far as the write gets, the
blocks from the start are bad where the first blocks of the device are. -/
theorem placed_iff_of_unbroken {c' : Contents} (hbuf : buf.length ≤ dev.erasesize)
    (hunbroken : Unbroken source) (h : mtdWrite dev (b * dev.erasesize) c buf source = some c') :
    (∃ is, Placed dev b (buf ++ source.data) c c' is)
      ↔ ∀ j, Nat.count (fun i => ¬dev.Bad i) j < (parts dev.erasesize (buf ++ source.data)).length →
        (dev.Bad j ↔ dev.Bad (b + j)) := by
  obtain ⟨js, hfirst, hlength, hinside, rfl⟩ := mtdWrite_spec hbuf h
  have hpieces := map_padded_fills dev.erasesize_pos hbuf hunbroken (Nat.lt_succ_self _)
  rw [← length_map (padded dev.erasesize)] at hlength
  rw [pieces, hpieces] at hlength ⊢
  have hmap : (js.map (b + ·)).length = (parts dev.erasesize (buf ++ source.data)).length := by
    rw [length_map, hlength]
  have hagree : FirstHits (fun i => ¬dev.Bad i) b (js.map (b + ·))
      ↔ ∀ j, Nat.count (fun i => ¬dev.Bad i) j < (parts dev.erasesize (buf ++ source.data)).length →
        (dev.Bad j ↔ dev.Bad (b + j)) := by
    have hshift : FirstHits (fun i => ¬dev.Bad i) (b + 0) (js.map (b + ·))
        ↔ FirstHits (fun i => ¬dev.Bad (b + i)) 0 js := FirstHits.map_add_iff b
    have hcongr := hshift.trans hfirst.congr_iff
    simpa only [Nat.add_zero, Nat.zero_add, hlength, not_iff_not] using hcongr
  rw [← hagree]
  constructor
  · rintro ⟨is, hplaced⟩
    have hsorted : (js.map (b + ·)).Pairwise (· < ·) :=
      pairwise_map.mpr (hfirst.pairwise_lt.imp fun hlt => Nat.add_lt_add_left hlt b)
    have heq := (hplaced.sublist hsorted hmap).eq_of_length (by rw [hmap, hplaced.length])
    rw [← heq]
    exact hplaced.first
  · intro hgood
    refine ⟨_, placed_of_writeAll hgood hmap ?_⟩
    intro i hi
    obtain ⟨j, hj, rfl⟩ := mem_map.mp hi
    exact hinside j hj

/-- If all images are placed, no read fails too early: an image of zeros would show it. -/
theorem PlacesAll.unbroken (hbuf : buf.length ≤ dev.erasesize)
    (hreturns : (mtdWrite dev (b * dev.erasesize) c buf source).isSome = true)
    (h : PlacesAll dev b c buf source) : Unbroken source := by
  rw [← @isSome_mtdWrite dev buf c c source (fun _ => 0) _ rfl] at hreturns
  obtain ⟨c', hc'⟩ := Option.isSome_iff_exists.mp hreturns
  obtain ⟨is, hplaced⟩ := h _ _ c' (SameReads.map fun _ => 0) hc'
  rw [← unbroken_map fun _ => 0]
  generalize hbuf₀ : buf.map (fun _ => (0 : Byte)) = buf₀ at *
  generalize hsource₀ : source.map (fun _ => (0 : Byte)) = source₀ at *
  have hle : buf₀.length ≤ dev.erasesize := by rwa [← hbuf₀, length_map]
  have hzero : ∀ byte ∈ buf₀ ++ source₀.data, byte = 0 := by
    rw [← hbuf₀, ← hsource₀, data_map, ← map_append]
    intro byte hbyte
    obtain ⟨_, -, rfl⟩ := mem_map.mp hbyte
    rfl
  obtain ⟨js, hfirst, hlength, hinside, rfl⟩ := mtdWrite_spec hle hc'
  have hflat : (pieces dev.erasesize buf₀ source₀).flatten <+: buf₀ ++ source₀.data :=
    fills_prefix hle
  have hsorted : (js.map (b + ·)).Pairwise (· < ·) :=
    pairwise_map.mpr (hfirst.pairwise_lt.imp fun hlt => Nat.add_lt_add_left hlt b)
  have hsub := hplaced.parts_sublist hsorted (by rw [length_map, length_map, hlength])
    (fun i hi => by obtain ⟨j, hj, rfl⟩ := mem_map.mp hi; exact hinside j hj)
  refine unbroken_of_map_padded_fills dev.erasesize_pos hle hzero (Nat.lt_succ_self _)
    ((eq_of_sublist_of_count_le hsub ?_).2 ?_).symm
  · intro x hx
    obtain ⟨piece, hpiece, rfl⟩ := mem_map.mp hx
    rw [count_padded, count_pos_iff]
    obtain ⟨byte, hbyte⟩ := exists_mem_of_ne_nil _ (ne_nil_of_mem_fills hpiece)
    have hmem := hflat.subset (mem_flatten_of_mem hpiece hbyte)
    rwa [hzero byte hmem] at hbyte
  · have hpadded : ((pieces dev.erasesize buf₀ source₀).map (padded dev.erasesize)).flatten.count 0
        = (pieces dev.erasesize buf₀ source₀).flatten.count 0 := by
      generalize pieces dev.erasesize buf₀ source₀ = l
      induction l with
      | nil => rfl
      | cons piece l ih =>
        rw [map_cons, flatten_cons, flatten_cons, count_append, count_append, count_padded, ih]
    rw [hpadded, count_parts dev.erasesize_pos]
    exact hflat.sublist.count_le 0

/-- A write that returns puts every image that the reads can find into the first good blocks from
its start exactly when no read fails before the last byte, and, as far as the write gets, the blocks
from the start are bad where the first blocks of the device are. -/
theorem mtdWrite_placed_iff {b : ℕ} {c : Contents} (hbuf : buf.length ≤ dev.erasesize)
    (hreturns : (mtdWrite dev (b * dev.erasesize) c buf source).isSome = true) :
    PlacesAll dev b c buf source
      ↔ Unbroken source
        ∧ ∀ j, Nat.count (fun i => ¬dev.Bad i) j
            < (parts dev.erasesize (buf ++ source.data)).length →
          (dev.Bad j ↔ dev.Bad (b + j)) := by
  constructor
  · intro h
    have hunbroken := h.unbroken hbuf hreturns
    obtain ⟨c', hc'⟩ := Option.isSome_iff_exists.mp hreturns
    exact ⟨hunbroken, (placed_iff_of_unbroken hbuf hunbroken hc').mp (h _ _ c' ⟨rfl, rfl⟩ hc')⟩
  · rintro ⟨hunbroken, hpattern⟩ buf' source' c' hsame hc'
    refine (placed_iff_of_unbroken (hsame.1 ▸ hbuf) (hsame.unbroken_iff.mpr hunbroken) hc').mpr ?_
    have hlength : (parts dev.erasesize (buf' ++ source'.data)).length
        = (parts dev.erasesize (buf ++ source.data)).length := by
      rw [parts, parts, length_map, length_map, hsame.length_data]
    rwa [hlength]

/-- NAND flash of four blocks of two bytes, the first of them bad. -/
def firstBad : Device where
  erasesize := 2
  erasesize_pos := by decide
  nand := true
  bad i := i = 0
  eraseFails _ := false
  writeFails _ := false

/-- Four blocks of zeros. -/
def zeros : Contents := ⟨[[0, 0], [0, 0], [0, 0], [0, 0]], []⟩

/-- A start at the first block: every image of two bytes goes to the second one. -/
theorem mtdWrite_placed_iff_first :
    PlacesAll firstBad 0 zeros [] [some [1, 2]]
      ↔ Unbroken [some [1, 2]]
        ∧ ∀ j, Nat.count (fun i => ¬firstBad.Bad i) j < (parts 2 [1, 2]).length →
          (firstBad.Bad j ↔ firstBad.Bad (0 + j)) :=
  @mtdWrite_placed_iff firstBad [] [some [1, 2]] 0 zeros (by decide) (by decide)

/-- A start at the third block: it is good, and it is skipped since the first block is bad. And a
start at the first block, with a first read that fails: nothing is written. -/
theorem mtdWrite_not_placed :
    mtdWrite firstBad 4 zeros [] [some [1, 2]]
        = some ⟨[[0, 0], [0, 0], [0, 0], [1, 2]], [.erase 3, .write 3]⟩
      ∧ mtdWrite firstBad 0 zeros [] [none, some [1, 2]] = some zeros
      ∧ ¬PlacesAll firstBad 2 zeros [] [some [1, 2]]
      ∧ ¬PlacesAll firstBad 0 zeros [] [none, some [1, 2]] := by
  have hthird : mtdWrite firstBad 4 zeros [] [some [1, 2]]
      = some ⟨[[0, 0], [0, 0], [0, 0], [1, 2]], [.erase 3, .write 3]⟩ := by decide
  have hfails : mtdWrite firstBad 0 zeros [] [none, some [1, 2]] = some zeros := by decide
  refine ⟨hthird, hfails, fun h => ?_, fun h => ?_⟩
  · obtain ⟨is, hplaced⟩ := h _ _ _ ⟨rfl, rfl⟩ hthird
    obtain ⟨i, rfl⟩ := length_eq_one_iff.mp hplaced.length
    have hwrite := (hplaced.erased i (mem_singleton_self i)).1
    have hthree : i = 3 := by
      simpa [done, zeros] using hwrite
    obtain ⟨-, hbetween, -⟩ := hplaced.first
    exact hbetween 2 (le_refl 2) (by omega) (by decide)
  · obtain ⟨is, hplaced⟩ := h _ _ _ ⟨rfl, rfl⟩ hfails
    obtain ⟨i, rfl⟩ := length_eq_one_iff.mp hplaced.length
    exact absurd (hplaced.erased i (mem_singleton_self i)).1 (by simp [done])

end RutosSdk.Mtd
