import RutosSdk.Lib.Bytes
import RutosSdk.Lib.FirstHits

/-! # Loading the kernel from NOR flash

Reference: `mtd_check_rootfs_magic`, `mtd_find_rootfs_from` and `boot_nor` in
`package/boot/uboot-mt7621/src/cmd/tlt/mt7628/tltboot.c`.

One loop over the blocks of the firmware partition copies them to the load address and looks for the
root file system behind the kernel. A block that cannot be read counts as one without a magic: the
loop goes on with the next block, and what is booted has a gap.
-/

namespace RutosSdk.Uboot.BootNor

def SQUASHFS_MAGIC : Word := 0x73717368

def JFFS2_MAGIC : Word := 0x19852003

def UBI_EC_MAGIC : Word := 0x55424923

def EB_SIZE : ℕ := 65536

/-- The memory from `CONFIG_SYS_LOAD_ADDR` on. -/
abbrev Ram : Type := ℕ → Byte

/-- A partition of whole blocks. -/
structure MtdInfo where
  blocks : ℕ
  contents : ℕ → Byte

def MtdInfo.size (mtd : MtdInfo) : ℕ := mtd.blocks * EB_SIZE

/-- What `mtd_read` says about the read of a block. -/
structure Outcome where
  ret : ℤ
  retlen : ℕ
deriving DecidableEq, Repr

/-- The block was read. -/
def Outcome.complete (o : Outcome) : Bool := o.ret == 0 && o.retlen == EB_SIZE

/-- The four bytes of a `u32` of the memory. -/
def word (ram : Ram) (p : ℕ) : List Byte := (List.range 4).map fun i => ram (p + i)

/-- The magic of squashfs or of jffs2, on a little-endian processor, or of ubifs. -/
def hasMagic (ram : Ram) (p : ℕ) : Bool :=
  be32 (word ram p).reverse == SQUASHFS_MAGIC || be32 (word ram p).reverse == JFFS2_MAGIC
    || be32 (word ram p) == UBI_EC_MAGIC

/-! The outcome of a read comes with its offset. `left` is what the reads that are not complete
leave in the memory that they were to fill. -/

variable (mtd : MtdInfo) (outcome : ℕ → Outcome) (left : Ram)

/-- `mtd_read` of one block, into the memory at the same offset. -/
def mtdRead (offset : ℕ) (ram : Ram) : Ram := fun k =>
  if offset ≤ k ∧ k < offset + EB_SIZE then
    if (outcome offset).complete then mtd.contents k else left k
  else ram k

/-- `mtd_check_rootfs_magic` -/
def mtdCheckRootfsMagic (offset : ℕ) (ram : Ram) : Ram × ℤ :=
  let ram := mtdRead mtd outcome left offset ram
  (ram,
    if (outcome offset).ret ≠ 0 then (outcome offset).ret
    else if (outcome offset).retlen ≠ EB_SIZE then - EIO
    else if hasMagic ram offset then 0
    else -EINVAL)

/-- The loop of `mtd_find_rootfs_from`, with the number of blocks to the limit. -/
def mtdFindRootfsFrom : ℕ → ℕ → Ram → Ram × Except ℤ ℕ
  | 0, _, ram => (ram, .error (-ENODEV))
  | n + 1, offset, ram =>
    let (ram, err) := mtdCheckRootfsMagic mtd outcome left offset ram
    if err ≠ 0 then mtdFindRootfsFrom n (offset + EB_SIZE) ram
    else (ram, .ok offset)

/-- `boot_nor` up to its call of `boot_multidtb`, with the memory and the offset of the root file
system then. The limit is a `size_t` of 32 bits. -/
def bootNor (firmware : Option MtdInfo) (outcome : ℕ → Outcome) (left ram : Ram) :
    Ram × Except ℤ ℕ :=
  match firmware with
  | none => (ram, .error (-ENODEV))
  | some mtd => mtdFindRootfsFrom mtd outcome left (mtd.size % 4294967296 / EB_SIZE) 0 ram

/-- If the kernel is booted, the bytes before the root file system are in the memory, whatever was
there before and whatever the failed reads leave there. -/
def LoadsKernel : Prop :=
  ∀ left ram ram' rootfs_off, bootNor (some mtd) outcome left ram = (ram', .ok rootfs_off) →
    ∀ k < rootfs_off, ram' k = mtd.contents k

/-- The block can be read and begins with a magic. -/
def HasRootfs (b : ℕ) : Prop :=
  (outcome (b * EB_SIZE)).complete ∧ hasMagic mtd.contents (b * EB_SIZE)

/-! ## The loop -/

/-- What the read of its block leaves at an address. -/
def loaded (k : ℕ) : Byte :=
  if (outcome (k / EB_SIZE * EB_SIZE)).complete then mtd.contents k else left k

variable {mtd outcome left} {ram : Ram}

theorem mtdRead_block (b k : ℕ) (ram : Ram) :
    mtdRead mtd outcome left (b * EB_SIZE) ram k
      = if k / EB_SIZE = b then loaded mtd outcome left k else ram k := by
  have hblock : b * EB_SIZE ≤ k ∧ k < b * EB_SIZE + EB_SIZE ↔ k / EB_SIZE = b := by
    rw [EB_SIZE]
    omega
  unfold mtdRead loaded
  by_cases hk : k / EB_SIZE = b
  · rw [if_pos (hblock.mpr hk), if_pos hk, hk]
  · rw [if_neg fun h => hk (hblock.mp h), if_neg hk]

theorem hasMagic_mtdRead {offset : ℕ} (h : (outcome offset).complete) :
    hasMagic (mtdRead mtd outcome left offset ram) offset = hasMagic mtd.contents offset := by
  have hread : word (mtdRead mtd outcome left offset ram) offset = word mtd.contents offset := by
    refine List.map_congr_left fun i hi => ?_
    rw [List.mem_range] at hi
    rw [mtdRead, if_pos (by rw [EB_SIZE]; omega), if_pos h]
  rw [hasMagic, hread, hasMagic]

theorem mtdCheckRootfsMagic_eq_zero_iff (b : ℕ) :
    (mtdCheckRootfsMagic mtd outcome left (b * EB_SIZE) ram).2 = 0 ↔ HasRootfs mtd outcome b := by
  unfold mtdCheckRootfsMagic HasRootfs
  by_cases hret : (outcome (b * EB_SIZE)).ret = 0
  · by_cases hlen : (outcome (b * EB_SIZE)).retlen = EB_SIZE
    · have hcomplete : (outcome (b * EB_SIZE)).complete := by simp [Outcome.complete, hret, hlen]
      simp [hret, hlen, hcomplete, hasMagic_mtdRead hcomplete, EINVAL]
    · simp [Outcome.complete, hret, hlen, EIO]
  · simp [Outcome.complete, hret]

theorem mtdFindRootfsFrom_succ (n b : ℕ) (ram : Ram) :
    mtdFindRootfsFrom mtd outcome left (n + 1) (b * EB_SIZE) ram
      = if (mtdCheckRootfsMagic mtd outcome left (b * EB_SIZE) ram).2 ≠ 0 then
          mtdFindRootfsFrom mtd outcome left n ((b + 1) * EB_SIZE)
            (mtdRead mtd outcome left (b * EB_SIZE) ram)
        else (mtdRead mtd outcome left (b * EB_SIZE) ram, .ok (b * EB_SIZE)) := by
  rw [Nat.succ_mul]
  rfl

/-- The loop ends at the first block with a root file system, and has read all blocks up to it. -/
theorem mtdFindRootfsFrom_ok_iff {n b : ℕ} {ram' : Ram} {rootfs_off : ℕ} :
    mtdFindRootfsFrom mtd outcome left n (b * EB_SIZE) ram = (ram', .ok rootfs_off) ↔
      ∃ r, rootfs_off = r * EB_SIZE ∧ r < b + n ∧ FirstHits (HasRootfs mtd outcome) b [r] ∧
        ram' = fun k => if b ≤ k / EB_SIZE ∧ k / EB_SIZE ≤ r then loaded mtd outcome left k
          else ram k := by
  induction n generalizing b ram with
  | zero =>
    constructor
    · intro h
      cases (Prod.ext_iff.mp h).2
    · rintro ⟨r, -, hr, hfirst, -⟩
      have := hfirst.1
      omega
  | succ n ih =>
    rw [mtdFindRootfsFrom_succ]
    by_cases hroot : HasRootfs mtd outcome b
    · rw [if_neg (not_not_intro ((mtdCheckRootfsMagic_eq_zero_iff b).mpr hroot)), Prod.mk.injEq,
        Except.ok.injEq]
      have hram : mtdRead mtd outcome left (b * EB_SIZE) ram = fun k =>
          if b ≤ k / EB_SIZE ∧ k / EB_SIZE ≤ b then loaded mtd outcome left k else ram k := by
        funext k
        rw [mtdRead_block]
        exact if_congr (by omega) rfl rfl
      constructor
      · rintro ⟨rfl, rfl⟩
        exact ⟨b, rfl, by omega, (FirstHits.singleton_iff_of_pos hroot).mpr rfl, hram⟩
      · rintro ⟨r, rfl, -, hfirst, rfl⟩
        obtain rfl := (FirstHits.singleton_iff_of_pos hroot).mp hfirst
        exact ⟨hram, rfl⟩
    · rw [if_pos (mt (mtdCheckRootfsMagic_eq_zero_iff b).mp hroot), ih]
      refine exists_congr fun r => and_congr_right fun _ => and_congr (by omega) ?_
      rw [FirstHits.succ_iff_of_neg hroot]
      refine and_congr_right fun hfirst => ?_
      -- the block that was just read lies before the first one with a root file system
      have hbr := hfirst.1
      have hram : (fun k => if b + 1 ≤ k / EB_SIZE ∧ k / EB_SIZE ≤ r then
            loaded mtd outcome left k else mtdRead mtd outcome left (b * EB_SIZE) ram k)
          = fun k => if b ≤ k / EB_SIZE ∧ k / EB_SIZE ≤ r then loaded mtd outcome left k
            else ram k := by
        funext k
        rw [mtdRead_block]
        by_cases hk : k / EB_SIZE = b
        · rw [if_neg (by omega), if_pos hk, if_pos (by omega)]
        · rw [if_neg hk]
          exact if_congr (by omega) rfl rfl
      rw [hram]

theorem bootNor_ok_iff {ram' : Ram} {rootfs_off : ℕ} :
    bootNor (some mtd) outcome left ram = (ram', .ok rootfs_off) ↔
      ∃ r, rootfs_off = r * EB_SIZE ∧ r < mtd.size % 4294967296 / EB_SIZE ∧
        FirstHits (HasRootfs mtd outcome) 0 [r] ∧
        ram' = fun k => if k / EB_SIZE ≤ r then loaded mtd outcome left k else ram k := by
  have h := @mtdFindRootfsFrom_ok_iff mtd outcome left ram
    (mtd.size % 4294967296 / EB_SIZE) 0 ram' rootfs_off
  simp only [Nat.zero_mul, Nat.zero_add, Nat.zero_le, true_and] at h
  exact h

/-! ## The kernel -/

variable (mtd outcome)

/-- What is booted is the kernel of the partition exactly if every block before the first one with a
root file system that can be read can be read as well. -/
theorem loadsKernel_iff :
    LoadsKernel mtd outcome ↔
      ∀ r < mtd.size % 4294967296 / EB_SIZE, FirstHits (HasRootfs mtd outcome) 0 [r] →
        ∀ b < r, (outcome (b * EB_SIZE)).complete := by
  constructor
  · intro h r hr hfirst b hb
    -- a failed read may leave another byte than the first one of its block
    by_contra hfailed
    have hloads := h (fun k => mtd.contents k + 1) (fun _ => 0) _ (r * EB_SIZE)
      (bootNor_ok_iff.mpr ⟨r, rfl, hr, hfirst, rfl⟩) (b * EB_SIZE)
      (Nat.mul_lt_mul_of_pos_right hb (by decide))
    have hblock : b * EB_SIZE / EB_SIZE = b := Nat.mul_div_cancel b (by decide)
    simp [hblock, hb.le, loaded, hfailed] at hloads
  · intro h left ram ram' rootfs_off hboot k hk
    obtain ⟨r, rfl, hr, hfirst, rfl⟩ := bootNor_ok_iff.mp hboot
    have hblock : k / EB_SIZE < r := Nat.div_lt_of_lt_mul (by rwa [Nat.mul_comm])
    simp only [hblock.le, if_true]
    rw [loaded, if_pos (h r hr hfirst _ hblock)]

/-- A partition with a kernel in its first block and squashfs in the second. -/
def twoBlocks : MtdInfo where
  blocks := 2
  contents k := if k < EB_SIZE then 0x27 else
    [0x68, 0x73, 0x71, 0x73].getD (k - EB_SIZE) 0

/-- The first block cannot be read, and the memory that it was to fill is booted. -/
theorem not_loadsKernel :
    ¬LoadsKernel twoBlocks fun offset => if offset = 0 then ⟨- EIO, 0⟩ else ⟨0, EB_SIZE⟩ := by
  intro h
  have hboot := h (fun _ => 0) (fun _ => 0) _ EB_SIZE (Prod.ext rfl rfl) 0 (by decide)
  revert hboot
  decide

end RutosSdk.Uboot.BootNor
