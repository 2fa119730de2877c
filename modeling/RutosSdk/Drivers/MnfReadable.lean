import Mathlib.Algebra.Ring.Nat
import RutosSdk.Drivers.MnfInfo

/-! # Reading manufacturer information

Reference: `blockdev_read`, `mnf_readable_read`, `find_last_non_null_byte_idx` and
`find_trailling_data` in `target/linux/generic/files/drivers/sysfs-mnfinfo/sysfs-mnfinfo.c`.

A field is read from an MTD partition, or through one page from a block device. The version of the
boot loader lies at the end of what a partition holds, and is found by a scan from its end. A bio
that reads `n` bytes from a sector to an offset of a page stores the bytes of the device from that
sector on there, and leaves the rest of the page undefined.
-/

namespace RutosSdk.Drivers.MnfReadable

open MnfInfo

/-! ## Block devices -/

def SECTOR_SIZE : ℕ := 512
def PAGE_SIZE : ℕ := 4096

variable (content : ℕ → Byte) (start len : ℕ)

/-- The bytes of a device or a partition from `start` on. -/
def bytes : List Byte := (List.range len).map fun i => content (start + i)

/-- What the calls of `blockdev_read` answer: the page that is allocated with what is in it, whether
there is a bio and the page can be added to it, and the status of the read. -/
structure BioAnswers where
  alloc_page : Option (ℕ → Byte)
  bio_alloc : Bool
  bio_add_page : Bool
  status : ℤ

/-- The page after a bio has read `n` bytes from a sector to an offset of it. -/
def bioRead (dev page : ℕ → Byte) (bi_sector offset n : ℕ) : ℕ → Byte := fun p =>
  if offset ≤ p ∧ p < offset + n then dev (SECTOR_SIZE * bi_sector + (p - offset)) else page p

/-- `len_alligned`: the length in whole sectors. -/
def lenAlligned : ℕ := SECTOR_SIZE * ((len + (SECTOR_SIZE - 1)) / SECTOR_SIZE)

/-- `blockdev_read`: the status and the buffer. The bio starts at sector 0, and the number of the
first sector is taken for the offset in the page. -/
def blockdevRead (dev : ℕ → Byte) (k : BioAnswers) (start len : ℕ) (buffer : List Byte) :
    ℤ × List Byte :=
  let start_alligned := start / SECTOR_SIZE
  if PAGE_SIZE < len then (-EINVAL, buffer)
  else
    match k.alloc_page with
    | none => (-ENOMEM, buffer)
    | some page =>
      if k.bio_alloc = false then (-ENOMEM, buffer)
      else if k.bio_add_page = false then (- EIO, buffer)
      else if k.status = 0 then
        (0, bytes (bioRead dev page 0 start_alligned (lenAlligned len)) start len)
      else (k.status, buffer)

/-- `struct mnf_readable`: a partition that is read as a whole, or a block device. -/
inductive Readable where
  | mtd (content : ℕ → Byte)
  | bdev (dev : ℕ → Byte) (k : BioAnswers)

/-- `mnf_readable_read`, with a buffer: the status and the buffer. The MTD layer does not fail. -/
def mnfReadableRead (rd : Readable) (start len : ℕ) (buffer : List Byte) : ℤ × List Byte :=
  match rd with
  | .mtd content => (0, bytes content start len)
  | .bdev dev k => blockdevRead dev k start len buffer

/-- No call fails. -/
def BioAnswers.Succeeds (k : BioAnswers) : Prop :=
  k.alloc_page ≠ none ∧ k.bio_alloc = true ∧ k.bio_add_page = true ∧ k.status = 0

/-- Whatever the device holds, it is read as an MTD partition with the same content would be. -/
def ReadsAsMtd : Prop :=
  ∀ (dev : ℕ → Byte) (k : BioAnswers) (buffer : List Byte), k.Succeeds →
    mnfReadableRead (.bdev dev k) start len buffer = mnfReadableRead (.mtd dev) start len buffer

theorem bytes_inj {content content' : ℕ → Byte} {start len : ℕ} :
    bytes content start len = bytes content' start len
      ↔ ∀ i < len, content (start + i) = content' (start + i) := by
  simp [bytes, List.map_inj_left]

theorem mnfReadableRead_bdev {dev page : ℕ → Byte} {k : BioAnswers} {start len : ℕ}
    {buffer : List Byte} (hlen : len ≤ PAGE_SIZE) (hk : k.Succeeds)
    (hpage : k.alloc_page = some page) :
    mnfReadableRead (.bdev dev k) start len buffer
      = (0, bytes (bioRead dev page 0 (start / SECTOR_SIZE) (lenAlligned len)) start len) := by
  obtain ⟨-, hbio, hadd, hstatus⟩ := hk
  rw [mnfReadableRead, blockdevRead, if_neg (Nat.not_lt.mpr hlen), hpage]
  simp only [hbio, hadd, hstatus, Bool.true_eq_false, if_false, if_true]

/-- Every byte that is wanted is the one that the bio has put at its place in the page. -/
theorem readsAsMtd_iff_bioRead {start len : ℕ} (hlen : len ≤ PAGE_SIZE) :
    ReadsAsMtd start len ↔ ∀ dev page : ℕ → Byte, ∀ i < len,
      bioRead dev page 0 (start / SECTOR_SIZE) (lenAlligned len) (start + i) = dev (start + i) := by
  constructor
  · intro h dev page
    have hk : (⟨some page, true, true, 0⟩ : BioAnswers).Succeeds := ⟨by simp, rfl, rfl, rfl⟩
    have hsame := h dev ⟨some page, true, true, 0⟩ [] hk
    rw [mnfReadableRead_bdev hlen hk rfl] at hsame
    exact bytes_inj.mp (congrArg Prod.snd hsame)
  · intro h dev k buffer hk
    obtain ⟨page, hpage⟩ := Option.ne_none_iff_exists'.mp hk.1
    rw [mnfReadableRead_bdev hlen hk hpage]
    exact congrArg (Prod.mk 0) (bytes_inj.mpr (h dev page))

/-- A device is read right if and only if nothing is read, or the bytes lie in the sectors that the
bio reads and begin in the first one. -/
theorem readsAsMtd_iff {start len : ℕ} (hpage : start + len ≤ PAGE_SIZE) :
    ReadsAsMtd start len ↔ len = 0 ∨ start < SECTOR_SIZE ∧ start + len ≤ lenAlligned len := by
  rw [readsAsMtd_iff_bioRead (by omega)]
  unfold bioRead lenAlligned SECTOR_SIZE
  constructor
  · intro h
    by_contra! hnot
    obtain ⟨hpos, hcond⟩ := hnot
    by_cases hstart : start < 512
    · -- the last byte is left undefined
      have hlast := h (fun _ => 1) (fun _ => 0) (len - 1) (by omega)
      rw [if_neg (by omega)] at hlast
      exact absurd hlast (by decide)
    · -- the first byte is another one of the device, or undefined
      have hfirst := h (fun i => if i = start then 1 else 0) (fun _ => 0) 0 (by omega)
      rw [Nat.add_zero, if_pos rfl, if_neg (by omega : ¬512 * 0 + (start - start / 512) = start),
        ite_self] at hfirst
      exact absurd hfirst (by decide)
  · intro hcond dev page i hi
    rw [if_pos (by omega)]
    exact congrArg dev (by omega)

/-- The MAC address at the start of the partition, and the name behind it. -/
theorem readsAsMtd_mac : ReadsAsMtd 0 6 ∧ ReadsAsMtd 0x10 12 :=
  ⟨(readsAsMtd_iff (by decide)).mpr (by decide), (readsAsMtd_iff (by decide)).mpr (by decide)⟩

/-- 16 bytes at offset 1024 of a device: they are not read, and the page holds something else. -/
theorem not_readsAsMtd_third_sector :
    ¬ReadsAsMtd 1024 16
      ∧ mnfReadableRead (.mtd fun _ => 2) 1024 16 [] = (0, List.replicate 16 2)
      ∧ mnfReadableRead (.bdev (fun _ => 2) ⟨some fun _ => 0, true, true, 0⟩) 1024 16 []
        = (0, List.replicate 16 0) := by
  have hmtd : mnfReadableRead (.mtd fun _ => 2) 1024 16 [] = (0, List.replicate 16 2) := by decide
  have hbdev : mnfReadableRead (.bdev (fun _ => 2) ⟨some fun _ => 0, true, true, 0⟩) 1024 16 []
      = (0, List.replicate 16 0) := by decide
  refine ⟨fun h => ?_, hmtd, hbdev⟩
  have hsame := h (fun _ => 2) ⟨some fun _ => 0, true, true, 0⟩ [] ⟨by simp, rfl, rfl, rfl⟩
  rw [hmtd, hbdev] at hsame
  exact absurd hsame (by decide)

/-! ## The end of what a partition holds -/

def SCAN_BLK_SIZE : ℕ := SECTOR_SIZE
def BLVER_SCAN : ℕ := 2

/-- The value of a `long`, which has 32 bits. -/
def toLong (x : ℤ) : ℤ := (x + 2147483648) % 4294967296 - 2147483648

/-- A byte that was written: neither zero nor erased. -/
def written (c : Byte) : Bool := c ≠ 0 && c ≠ 0xff

/-- The last of the `n` bytes from `start` on that was written. -/
def lastWritten (content : ℕ → Byte) (start : ℕ) : ℕ → Option ℕ
  | 0 => none
  | i + 1 => if written (content (start + i)) then some i else lastWritten content start i

/-- The loop of `find_last_non_null_byte_idx`; each round takes a block off. -/
def scanBlocks (content : ℕ → Byte) : (rounds : ℕ) → (blk_off : ℤ) → ℤ
  | 0, _ => -1
  | rounds + 1, blk_off =>
    if 0 < blk_off then
      match lastWritten content blk_off.toNat SCAN_BLK_SIZE with
      | some i => blk_off + i
      | none => scanBlocks content rounds (blk_off - SCAN_BLK_SIZE)
    else -1

/-- `find_last_non_null_byte_idx`, as long as no read fails. There are less rounds than bytes. -/
def findLastNonNullByteIdx : ℤ := toLong (scanBlocks content start (toLong (start - SCAN_BLK_SIZE)))

/-- `strchr(buf, '.')`, in a buffer with a zero behind the record. -/
def hasDot (buf : List Byte) : Bool := 0x2e ∈ buf.takeWhile (· ≠ 0)

/-- The loop of `find_trailling_data`: the place of the record that is left in the buffer. `off` is
the end of the next record, and `n` the number of rounds to go. -/
def scanRecords (content : ℕ → Byte) (len : ℕ) : (n : ℕ) → (off : ℤ) → Option ℕ
  | 0, off => some off.toNat
  | n + 1, off =>
    let off := toLong (off - len)
    if off < 0 then none
    else if hasDot (bytes content off.toNat len) then some off.toNat
    else scanRecords content len n off

/-- `find_trailling_data`, as long as no read fails: the place of the record in the buffer when it
returns 0, and `none` for -1. -/
def findTraillingData : Option ℕ :=
  let off := findLastNonNullByteIdx content start
  if off < 0 then none else scanRecords content len BLVER_SCAN (toLong (off + 1))

/-! ## What is expected of the two functions -/

/-- The last of the bytes from `low` to `high` that was written, and -1 if there is none. -/
def IsLastWritten (content : ℕ → Byte) (low high : ℕ) (idx : ℤ) : Prop :=
  (∃ i : ℕ, idx = i ∧ low ≤ i ∧ i < high ∧ written (content i) = true
      ∧ ∀ j, i < j → j < high → written (content j) = false)
    ∨ idx = -1 ∧ ∀ j, low ≤ j → j < high → written (content j) = false

/-- The nearest of the next `n` records before `stop` that contains a `.`. -/
def nearestRecord (content : ℕ → Byte) (len : ℕ) : (n stop : ℕ) → Option ℕ
  | 0, _ => none
  | n + 1, stop =>
    if stop < len then none
    else if 0x2e ∈ bytes content (stop - len) len then some (stop - len)
    else nearestRecord content len n (stop - len)

/-- The last written byte is found, and with it the record. -/
structure FindsTrailling (content : ℕ → Byte) (start len : ℕ) : Prop where
  last : IsLastWritten content 0 start (findLastNonNullByteIdx content start)
  record : ∀ idx, IsLastWritten content 0 start idx → findTraillingData content start len
    = if idx < 0 then none else nearestRecord content len BLVER_SCAN (idx + 1).toNat

/-! ## The scan -/

section

variable {content : ℕ → Byte} {low high start len : ℕ} {idx idx' : ℤ}

theorem lastWritten_spec (content : ℕ → Byte) (start n : ℕ) : match lastWritten content start n with
    | some i => i < n ∧ written (content (start + i)) = true
        ∧ ∀ j, i < j → j < n → written (content (start + j)) = false
    | none => ∀ j < n, written (content (start + j)) = false := by
  induction n with
  | zero => exact fun j hj => absurd hj (Nat.not_lt_zero j)
  | succ n ih =>
    rw [lastWritten]
    split_ifs with hlast
    · exact ⟨Nat.lt_succ_self n, hlast, fun j hj hj' => by omega⟩
    · have hstep : ∀ j, j < n + 1 → (j < n → written (content (start + j)) = false) →
          written (content (start + j)) = false := by
        intro j hj hbelow
        rcases Nat.lt_succ_iff_lt_or_eq.mp hj with hlt | rfl
        · exact hbelow hlt
        · exact Bool.eq_false_iff.mpr hlast
      cases hfound : lastWritten content start n with
      | none =>
        rw [hfound] at ih
        exact fun j hj => hstep j hj (ih j)
      | some i =>
        rw [hfound] at ih
        exact ⟨Nat.lt_succ_of_lt ih.1, ih.2.1, fun j hj hj' => hstep j hj' (ih.2.2 j hj)⟩

/-- The first index that the scan comes to; below it there is less than a block, or just one. -/
def firstScanned (start : ℕ) : ℕ := (start - 1) % SCAN_BLK_SIZE + 1

theorem IsLastWritten.unique (h : IsLastWritten content low high idx)
    (h' : IsLastWritten content low high idx') : idx = idx' := by
  rcases h with ⟨i, rfl, hlow, hhigh, hwritten, hlast⟩ | ⟨rfl, hnone⟩ <;>
    rcases h' with ⟨i', rfl, hlow', hhigh', hwritten', hlast'⟩ | ⟨rfl, hnone'⟩
  · rcases Nat.lt_trichotomy i i' with hlt | heq | hgt
    · exact absurd hwritten' (by rw [hlast i' hlt hhigh']; decide)
    · rw [heq]
    · exact absurd hwritten (by rw [hlast' i hgt hhigh]; decide)
  · exact absurd hwritten (by rw [hnone' i hlow hhigh]; decide)
  · exact absurd hwritten' (by rw [hnone i' hlow' hhigh']; decide)
  · rfl

/-- A block without a written byte is left out. -/
theorem IsLastWritten.extend (h : IsLastWritten content low high idx) {high' : ℕ}
    (hnone : ∀ j, high ≤ j → j < high' → written (content j) = false) (hle : high ≤ high') :
    IsLastWritten content low high' idx := by
  have hstep : ∀ j, j < high' → (j < high → written (content j) = false) →
      written (content j) = false := by
    intro j hj hbelow
    rcases Nat.lt_or_ge j high with hlt | hge
    · exact hbelow hlt
    · exact hnone j hge hj
  rcases h with ⟨i, rfl, hlow, hhigh, hwritten, hlast⟩ | ⟨rfl, hbelow⟩
  · exact .inl ⟨i, rfl, hlow, Nat.lt_of_lt_of_le hhigh hle, hwritten,
      fun j hj hj' => hstep j hj' (hlast j hj)⟩
  · exact .inr ⟨rfl, fun j hj hj' => hstep j hj' (hbelow j hj)⟩

/-- By induction on the rounds: the scan finds the last written byte from its first index on. -/
theorem scanBlocks_spec (content : ℕ → Byte) (rounds : ℕ) {high : ℕ} (hrounds : high ≤ rounds) :
    IsLastWritten content (firstScanned high) high
      (scanBlocks content rounds (high - SCAN_BLK_SIZE)) := by
  induction rounds generalizing high with
  | zero => exact .inr ⟨rfl, fun j _ hj => by omega⟩
  | succ rounds ih =>
    have hblock : SCAN_BLK_SIZE = 512 := rfl
    rw [scanBlocks, hblock]
    split_ifs with hoff
    · have htoNat : ((high : ℤ) - (512 : ℕ)).toNat = high - 512 := by omega
      have hfirst : firstScanned high = firstScanned (high - 512) := by
        unfold firstScanned
        rw [hblock]
        omega
      have hscan := lastWritten_spec content (high - 512) 512
      rw [htoNat]
      cases hfound : lastWritten content (high - 512) 512 with
      | none =>
        rw [hfound] at hscan
        have hrest := ih (show high - 512 ≤ rounds by omega)
        rw [← hfirst, hblock, show ((high - 512 : ℕ) : ℤ) = (high : ℤ) - (512 : ℕ) by omega]
          at hrest
        refine hrest.extend (fun j hj hj' => ?_) (Nat.sub_le _ _)
        have := hscan (j - (high - 512)) (by omega)
        rwa [show high - 512 + (j - (high - 512)) = j by omega] at this
      | some i =>
        rw [hfound] at hscan
        obtain ⟨hi, hwritten, hlast⟩ := hscan
        refine .inl ⟨high - 512 + i, ?_, ?_, by omega, hwritten, fun j hj hj' => ?_⟩
        · show (high : ℤ) - (512 : ℕ) + i = (high - 512 + i : ℕ)
          omega
        · unfold firstScanned
          rw [hblock]
          omega
        · have := hlast (j - (high - 512)) (by omega) (by omega)
          rwa [show high - 512 + (j - (high - 512)) = j by omega] at this
    · refine .inr ⟨rfl, fun j hj hj' => ?_⟩
      unfold firstScanned at hj
      rw [hblock] at hj
      omega

variable (content : ℕ → Byte) (start : ℕ)

/-- Where the scan begins: at `start`, as far as a `long` holds that, or nowhere. -/
def scanEnd : ℕ :=
  if 0 < toLong (start - SCAN_BLK_SIZE) then (toLong (start - SCAN_BLK_SIZE) + SCAN_BLK_SIZE).toNat
  else 0

/-- The last written byte, if there is one, is among those that are scanned, and its index is the
value of a `long`. -/
def Scanned : Prop :=
  ∀ i : ℕ, IsLastWritten content 0 start i →
    firstScanned (scanEnd start) ≤ i ∧ i < scanEnd start ∧ i < 2 ^ 31

/-- The scan finds the last written byte of the blocks that it comes to. -/
theorem scanBlocks_scanEnd :
    IsLastWritten content (firstScanned (scanEnd start)) (scanEnd start)
      (scanBlocks content start (toLong (start - SCAN_BLK_SIZE))) := by
  have hblock : SCAN_BLK_SIZE = 512 := rfl
  by_cases hpos : 0 < toLong (start - SCAN_BLK_SIZE)
  · have hscan := @scanBlocks_spec content start (scanEnd start) (by
      rw [scanEnd, if_pos hpos]
      unfold toLong at hpos ⊢
      omega)
    rwa [show (scanEnd start - SCAN_BLK_SIZE : ℤ) = toLong (start - SCAN_BLK_SIZE) by
      rw [scanEnd, if_pos hpos]; omega] at hscan
  · rw [scanEnd, if_neg hpos]
    cases start with
    | zero => exact .inr ⟨rfl, fun j _ hj => absurd hj (Nat.not_lt_zero j)⟩
    | succ n =>
      rw [scanBlocks, if_neg hpos]
      exact .inr ⟨rfl, fun j _ hj => absurd hj (Nat.not_lt_zero j)⟩

/-- Below `start` there is a last written byte, or none at all. -/
theorem exists_isLastWritten : ∃ idx, IsLastWritten content 0 start idx := by
  have hspec := lastWritten_spec content 0 start
  simp only [Nat.zero_add] at hspec
  cases hlast : lastWritten content 0 start with
  | none =>
    rw [hlast] at hspec
    exact ⟨-1, .inr ⟨rfl, fun j _ => hspec j⟩⟩
  | some i =>
    rw [hlast] at hspec
    exact ⟨i, .inl ⟨i, rfl, Nat.zero_le i, hspec⟩⟩

theorem scanEnd_le : scanEnd start ≤ start ∧ scanEnd start < 2 ^ 31 + 512 := by
  have hblock : SCAN_BLK_SIZE = 512 := rfl
  unfold scanEnd toLong
  split_ifs <;> omega

/-- The last written byte is returned if and only if it is among those that are scanned. -/
theorem isLastWritten_iff_scanned :
    IsLastWritten content 0 start (findLastNonNullByteIdx content start)
      ↔ Scanned content start := by
  have hscan := scanBlocks_scanEnd content start
  have hend := scanEnd_le start
  obtain ⟨idx, hidx⟩ := exists_isLastWritten content start
  rw [findLastNonNullByteIdx]
  generalize scanBlocks content start (toLong (start - SCAN_BLK_SIZE)) = r at hscan ⊢
  constructor
  · intro h k hk
    have hrk : toLong r = k := h.unique hk
    rcases hscan with ⟨i, rfl, hlow, hhigh, -⟩ | ⟨rfl, -⟩ <;> unfold toLong at hrk <;> omega
  · intro h
    suffices toLong r = idx by rwa [this]
    rcases hidx with ⟨k, rfl, hk⟩ | ⟨rfl, hall⟩
    · -- the last written byte is the last one of the scanned blocks
      obtain ⟨hlow, hhigh, hlong⟩ := h k (.inl ⟨k, rfl, hk⟩)
      rw [hscan.unique (.inl ⟨k, rfl, hlow, hhigh, hk.2.2.1,
        fun j hj hj' => hk.2.2.2 j hj (Nat.lt_of_lt_of_le hj' hend.1)⟩)]
      unfold toLong
      omega
    · rw [hscan.unique (.inr ⟨rfl,
        fun j _ hj => hall j (Nat.zero_le j) (Nat.lt_of_lt_of_le hj hend.1)⟩)]
      rfl

/-! ## The records -/

/-- There is no room for a record before `stop`, or the first one shows its `.` before any zero, or
it has none and the second one, if there is room for it, has one. -/
def ShowsDot (len stop : ℕ) : Prop :=
  stop < len ∨ hasDot (bytes content (stop - len) len) = true
    ∨ 0x2e ∉ bytes content (stop - len) len
      ∧ (stop - len < len ∨ 0x2e ∈ bytes content (stop - len - len) len)

theorem mem_of_hasDot {buf : List Byte} (h : hasDot buf = true) : 0x2e ∈ buf :=
  (List.takeWhile_sublist _).subset (of_decide_eq_true h)

/-- The second record is left in the buffer whatever it contains. -/
theorem scanRecords_two {stop : ℕ} (hlen : 0 < len ∧ len < 2 ^ 31) (hstop : stop ≤ 2 ^ 31) :
    scanRecords content len BLVER_SCAN (toLong stop)
      = if stop < len then none
        else if hasDot (bytes content (stop - len) len) then some (stop - len)
        else if stop - len < len then none else some (stop - len - len) := by
  have hfirst : toLong (toLong stop - len) = stop - len := by
    unfold toLong
    omega
  simp only [BLVER_SCAN, scanRecords, hfirst]
  by_cases hroom : stop < len
  · rw [if_pos hroom, if_pos (by omega)]
  have hsecond : toLong (stop - len - len) = stop - len - len := by
    unfold toLong
    omega
  rw [if_neg hroom, if_neg (by omega), hsecond, show ((stop : ℤ) - len).toNat = stop - len by omega,
    show ((stop : ℤ) - len - len).toNat = stop - len - len by omega, ite_self]
  by_cases hroom' : stop - len < len
  · rw [if_pos hroom', if_pos (show (stop : ℤ) - len - len < 0 by omega)]
  · rw [if_neg hroom', if_neg (show ¬(stop : ℤ) - len - len < 0 by omega)]

/-- The nearest record with a `.` is the one in the buffer if and only if it shows its `.`. -/
theorem scanRecords_eq_iff {stop : ℕ} (hlen : 0 < len ∧ len < 2 ^ 31) (hstop : stop ≤ 2 ^ 31) :
    scanRecords content len BLVER_SCAN (toLong stop) = nearestRecord content len BLVER_SCAN stop
      ↔ ShowsDot content len stop := by
  rw [scanRecords_two content hlen hstop, BLVER_SCAN, nearestRecord, nearestRecord, nearestRecord,
    ShowsDot]
  by_cases hroom : stop < len
  · rw [if_pos hroom, if_pos hroom]
    exact iff_of_true rfl (.inl hroom)
  rw [if_neg hroom, if_neg hroom, or_iff_right hroom]
  by_cases hdot : hasDot (bytes content (stop - len) len) = true
  · rw [if_pos hdot, if_pos (mem_of_hasDot hdot)]
    exact iff_of_true rfl (.inl hdot)
  rw [if_neg hdot, or_iff_right hdot]
  by_cases hmem : 0x2e ∈ bytes content (stop - len) len
  · -- the `.` of the first record is not seen
    rw [if_pos hmem]
    refine iff_of_false (fun h => ?_) fun h => h.1 hmem
    split_ifs at h
    have := Option.some.inj h
    omega
  rw [if_neg hmem, and_iff_right hmem]
  by_cases hroom' : stop - len < len
  · rw [if_pos hroom', if_pos hroom']
    exact iff_of_true rfl (.inl hroom')
  rw [if_neg hroom', if_neg hroom', or_iff_right hroom']
  split_ifs with hmem'
  · exact iff_of_true rfl hmem'
  · exact iff_of_false (by simp) hmem'

/-- The last written byte and the record, which lies in a buffer of the memory, are found if and
only if the byte is among those that are scanned and the records show their dots. -/
theorem findsTrailling_iff (content : ℕ → Byte) (start : ℕ) {len : ℕ}
    (hlen : 0 < len ∧ len < 2 ^ 31) :
    FindsTrailling content start len ↔ Scanned content start
      ∧ ∀ i : ℕ, IsLastWritten content 0 start i → ShowsDot content len (i + 1) := by
  have hrecords : Scanned content start → ∀ i : ℕ, IsLastWritten content 0 start i →
      (scanRecords content len BLVER_SCAN (toLong (i + 1))
        = nearestRecord content len BLVER_SCAN (i + 1) ↔ ShowsDot content len (i + 1)) :=
    fun hscanned i hi => scanRecords_eq_iff content hlen (hscanned i hi).2.2
  constructor
  · intro h
    have hscanned := (isLastWritten_iff_scanned content start).mp h.last
    refine ⟨hscanned, fun i hi => ?_⟩
    have hrecord := h.record i hi
    rw [findTraillingData, h.last.unique hi] at hrecord
    rw [if_neg (by omega), if_neg (by omega)] at hrecord
    exact (hrecords hscanned i hi).mp hrecord
  · rintro ⟨hscanned, hdot⟩
    have hlast := (isLastWritten_iff_scanned content start).mpr hscanned
    refine ⟨hlast, fun idx hidx => ?_⟩
    rw [findTraillingData, hlast.unique hidx]
    rcases hidx with ⟨i, rfl, hi⟩ | ⟨rfl, -⟩
    · rw [if_neg (by omega), if_neg (by omega)]
      have hi : IsLastWritten content 0 start i := .inl ⟨i, rfl, hi⟩
      exact (hrecords hscanned i hi).mpr (hdot i hi)
    · rfl

/-- Both are found in a partition that is full of dots. -/
theorem findsTrailling_dots : (0 < 10 ∧ 10 < 2 ^ 31) ∧ FindsTrailling (fun _ => 0x2e) 1024 10 := by
  have hlast : ∀ i : ℕ, IsLastWritten (fun _ => 0x2e) 0 1024 i → i = 1023 := fun i hi =>
    Int.ofNat.inj (hi.unique (.inl ⟨1023, rfl, by decide, by decide, by decide,
      fun j hj hj' => by omega⟩))
  refine ⟨by decide, (findsTrailling_iff _ 1024 (by decide)).mpr ⟨fun i hi => ?_, fun i hi => ?_⟩⟩
  · rw [hlast i hi]
    decide
  · rw [hlast i hi]
    exact .inr (.inl (by decide))

/-- A byte in the first block of two is not found, and a record is returned although no record has a
`.`. -/
theorem not_findsTrailling :
    findLastNonNullByteIdx (fun i => if i = 100 then 0x31 else 0xff) 1024 = -1
      ∧ ¬FindsTrailling (fun i => if i = 100 then 0x31 else 0xff) 1024 10
      ∧ findTraillingData (fun _ => 0x41) 1024 10 = some 1004
      ∧ ¬FindsTrailling (fun _ => 0x41) 1024 10 := by
  have hmissed : findLastNonNullByteIdx (fun i => if i = 100 then 0x31 else 0xff) 1024 = -1 := by
    decide +kernel
  have hrecord : findTraillingData (fun _ => 0x41) 1024 10 = some 1004 := by decide +kernel
  refine ⟨hmissed, fun h => ?_, hrecord, fun h => ?_⟩
  · rcases h.last with ⟨i, hi, -⟩ | ⟨-, hnone⟩
    · omega
    · exact absurd (hnone 100 (by decide) (by decide)) (by decide)
  · have hlast : IsLastWritten (fun _ => 0x41) 0 1024 1023 :=
      .inl ⟨1023, rfl, by decide, by decide, by decide, fun j hj hj' => by omega⟩
    have hnone := h.record 1023 hlast
    rw [hrecord] at hnone
    exact absurd hnone (by decide)

end

end RutosSdk.Drivers.MnfReadable
