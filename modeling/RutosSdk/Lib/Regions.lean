import Mathlib.Data.List.Basic

/-! # Regions of a memory

A memory as a list of cells, with regions that are read and written as a whole. A write leaves every
cell outside its region as it was; writes to regions that do not overlap are all found again.
-/

namespace RutosSdk.Regions

open List

/-- The cells from `offset` on, `length` of them. -/
structure Region where
  offset : ℕ
  length : ℕ
deriving DecidableEq, Repr

/-- Cell `k` lies in the region. -/
def Region.Covers (r : Region) (k : ℕ) : Prop := r.offset ≤ k ∧ k < r.offset + r.length

instance (r : Region) (k : ℕ) : Decidable (r.Covers k) := inferInstanceAs (Decidable (_ ∧ _))

/-- The two regions have no cell in common. -/
def Region.Apart (r r' : Region) : Prop :=
  r.offset + r.length ≤ r'.offset ∨ r'.offset + r'.length ≤ r.offset

instance (r r' : Region) : Decidable (r.Apart r') := inferInstanceAs (Decidable (_ ∨ _))

theorem Region.Apart.symm {r r' : Region} (h : r.Apart r') : r'.Apart r := Or.symm h

variable {k n : ℕ}

theorem Region.Apart.not_covers {r r' : Region} (h : r.Apart r') (hk : r.Covers k) :
    ¬r'.Covers k := by
  simp only [Apart, Covers] at h hk ⊢
  omega

variable {α ι : Type}

/-- The contents of a region. -/
def read (mem : List α) (r : Region) : List α := (mem.drop r.offset).take r.length

/-- The memory with the cells of a region replaced. -/
def write (mem : List α) (r : Region) (buf : List α) : List α :=
  mem.take r.offset ++ buf ++ mem.drop (r.offset + r.length)

variable {mem mem' : List α} {r r' : Region} {buf : List α}

theorem read_congr (h : ∀ k, r.Covers k → mem[k]? = mem'[k]?) : read mem r = read mem' r := by
  refine ext_getElem? fun k => ?_
  simp only [read, List.getElem?_take, List.getElem?_drop]
  split
  · exact h _ ⟨Nat.le_add_right _ _, by omega⟩
  · rfl

section

variable (hr : r.offset + r.length ≤ mem.length) (hbuf : buf.length = r.length)
include hr hbuf

theorem length_write : (write mem r buf).length = mem.length := by
  simp only [write, length_append, length_take, length_drop]
  omega

theorem getElem?_write_of_not_covers (hk : ¬r.Covers k) : (write mem r buf)[k]? = mem[k]? := by
  have hlen : (mem.take r.offset).length = r.offset := length_take_of_le (by omega)
  rcases Nat.lt_or_ge k r.offset with hlow | hhigh
  · rw [write, append_assoc, List.getElem?_append_left (by omega), List.getElem?_take_of_lt hlow]
  · have hbehind : r.offset + r.length ≤ k := by
      simp only [Region.Covers] at hk
      omega
    rw [write, List.getElem?_append_right (by rw [length_append]; omega), length_append,
      hlen, hbuf, List.getElem?_drop, Nat.add_sub_cancel' hbehind]

theorem read_write_self : read (write mem r buf) r = buf := by
  have hlen : (mem.take r.offset).length = r.offset := length_take_of_le (by omega)
  rw [read, write, append_assoc, drop_append_of_le_length (by omega), drop_eq_nil_of_le (by omega),
    nil_append, take_append_of_le_length (by omega), take_of_length_le (by omega)]

theorem read_write_of_apart (h : r.Apart r') : read (write mem r buf) r' = read mem r' :=
  read_congr fun _ hk => getElem?_write_of_not_covers hr hbuf (h.symm.not_covers hk)

end

/-! ## Contents at a place -/

/-- The cells stand in the memory, from `offset` on. -/
def HoldsAt (mem : List α) (offset : ℕ) (cells : List α) : Prop :=
  read mem ⟨offset, cells.length⟩ = cells

/-- The memory is the same outside of the region. -/
structure ChangesOnly (r : Region) (mem mem' : List α) : Prop where
  length : mem'.length = mem.length
  outside : ∀ k, ¬r.Covers k → mem'[k]? = mem[k]?

variable {offset : ℕ} {cells cells' : List α}

theorem holdsAt_iff_starts : HoldsAt mem offset cells ↔ cells <+: mem.drop offset := by
  rw [prefix_iff_eq_take, eq_comm]
  rfl

theorem HoldsAt.drop_eq (h : HoldsAt mem offset cells) :
    mem.drop offset = cells ++ mem.drop (offset + cells.length) := by
  obtain ⟨rest, hrest⟩ := holdsAt_iff_starts.mp h
  rw [← drop_drop, ← hrest, drop_left]

theorem HoldsAt.length_le (h : HoldsAt mem offset cells) (hne : cells ≠ []) :
    offset + cells.length ≤ mem.length := by
  have hlen := (holdsAt_iff_starts.mp h).length_le
  have hpos := length_pos_iff.mpr hne
  rw [length_drop] at hlen
  omega

theorem holdsAt_append : HoldsAt mem offset (cells ++ cells')
    ↔ HoldsAt mem offset cells ∧ HoldsAt mem (offset + cells.length) cells' := by
  constructor
  · intro h
    have hfirst : HoldsAt mem offset cells :=
      holdsAt_iff_starts.mpr ((prefix_append _ _).trans (holdsAt_iff_starts.mp h))
    refine ⟨hfirst, holdsAt_iff_starts.mpr ?_⟩
    have hall := holdsAt_iff_starts.mp h
    rwa [hfirst.drop_eq, prefix_append_right_inj] at hall
  · rintro ⟨hfirst, hrest⟩
    rw [holdsAt_iff_starts, hfirst.drop_eq, prefix_append_right_inj]
    exact holdsAt_iff_starts.mp hrest

theorem holdsAt_cons {a : α} :
    HoldsAt mem offset (a :: cells) ↔ HoldsAt mem offset [a] ∧ HoldsAt mem (offset + 1) cells :=
  @holdsAt_append _ mem offset [a] cells

theorem HoldsAt.getElem? (h : HoldsAt mem offset cells) (hk : k < cells.length) :
    mem[offset + k]? = cells[k]? := by
  rw [← List.getElem?_drop, h.drop_eq, List.getElem?_append_left hk]

theorem HoldsAt.getElem?_concat {a : α} (h : HoldsAt mem offset (cells ++ [a])) :
    mem[offset + cells.length]? = some a := by
  rw [h.getElem? (by rw [length_append]; exact Nat.lt_succ_self _), List.getElem?_concat_length]

theorem HoldsAt.congr (h : HoldsAt mem offset cells)
    (hsame : ∀ k, offset ≤ k → k < offset + cells.length → mem'[k]? = mem[k]?) :
    HoldsAt mem' offset cells :=
  (read_congr fun k hk => hsame k hk.1 hk.2).trans h

theorem ChangesOnly.refl (r : Region) (mem : List α) : ChangesOnly r mem mem :=
  ⟨rfl, fun _ _ => rfl⟩

theorem ChangesOnly.trans {mem'' : List α} (h : ChangesOnly r mem mem')
    (h' : ChangesOnly r mem' mem'') : ChangesOnly r mem mem'' :=
  ⟨h'.length.trans h.length, fun k hk => (h'.outside k hk).trans (h.outside k hk)⟩

theorem ChangesOnly.mono {o o' n' : ℕ} (h : ChangesOnly ⟨o, n⟩ mem mem') (hlow : o' ≤ o)
    (hhigh : o + n ≤ o' + n') : ChangesOnly ⟨o', n'⟩ mem mem' := by
  refine ⟨h.length, fun k hk => h.outside k fun hcovers => hk ?_⟩
  simp only [Region.Covers] at hcovers ⊢
  omega

theorem ChangesOnly.holds {o : ℕ} (h : ChangesOnly ⟨o, n⟩ mem mem')
    (hcells : HoldsAt mem offset cells) (hapart : offset + cells.length ≤ o ∨ o + n ≤ offset) :
    HoldsAt mem' offset cells := by
  refine hcells.congr fun k hlow hhigh => h.outside k fun hcovers => ?_
  simp only [Region.Covers] at hcovers
  omega

theorem changesOnly_set (k : ℕ) (mem : List α) (a : α) : ChangesOnly ⟨k, 1⟩ mem (mem.set k a) := by
  refine ⟨length_set, fun j hj => List.getElem?_set_ne fun heq => hj ?_⟩
  rw [← heq]
  exact ⟨Nat.le_refl k, Nat.lt_succ_self k⟩

theorem changesOnly_write (hr : r.offset + r.length ≤ mem.length)
    (hbuf : buf.length = r.length) : ChangesOnly r mem (write mem r buf) :=
  ⟨length_write hr hbuf, fun _ hk => getElem?_write_of_not_covers hr hbuf hk⟩

theorem holdsAt_set (hk : k < mem.length) (a : α) : HoldsAt (mem.set k a) k [a] := by
  rw [holdsAt_iff_starts, drop_eq_getElem_cons (by rwa [length_set]), getElem_set_self]
  exact prefix_append [a] _

/-! ## Several regions -/

section

variable (region : ι → Region) (new : ι → Option (List α))

/-- The memory with the contents of some of the regions replaced. -/
def writeAll (mem : List α) (is : List ι) : List α :=
  is.foldl (fun mem i => (new i).elim mem (write mem (region i))) mem

/-- Every region lies in a memory of `n` cells, and what replaces it has its length. -/
structure Fits (n : ℕ) (is : List ι) : Prop where
  within : ∀ i ∈ is, (region i).offset + (region i).length ≤ n
  sized : ∀ i ∈ is, ∀ buf ∈ new i, buf.length = (region i).length

variable {region new} {is : List ι} {i : ι}

theorem Fits.of_cons (h : Fits region new n (i :: is)) : Fits region new n is where
  within j hj := h.within j (mem_cons_of_mem i hj)
  sized j hj := h.sized j (mem_cons_of_mem i hj)

/-- The first of several writes. -/
theorem writeAll_cons :
    writeAll region new mem (i :: is)
      = writeAll region new ((new i).elim mem (write mem (region i))) is := rfl

theorem Fits.length_elim (h : Fits region new mem.length (i :: is)) :
    ((new i).elim mem (write mem (region i))).length = mem.length := by
  cases hnew : new i with
  | none => rfl
  | some buf =>
    exact length_write (h.within i mem_cons_self) (h.sized i mem_cons_self buf hnew)

theorem getElem?_writeAll (h : Fits region new mem.length is)
    (hk : ∀ i ∈ is, (new i).isSome → ¬(region i).Covers k) :
    (writeAll region new mem is)[k]? = mem[k]? := by
  induction is generalizing mem with
  | nil => rfl
  | cons i is ih =>
    rw [writeAll_cons, ih (by rw [h.length_elim]; exact h.of_cons)
      fun j hj => hk j (mem_cons_of_mem i hj)]
    cases hnew : new i with
    | none => rfl
    | some buf =>
      exact getElem?_write_of_not_covers (h.within i mem_cons_self)
        (h.sized i mem_cons_self buf hnew)
        (hk i mem_cons_self (by rw [hnew]; rfl))

/-- A region holds what replaced it, or what it held before: the others do not reach it. -/
theorem read_writeAll (h : Fits region new mem.length is)
    (hapart : is.Pairwise fun i j => (region i).Apart (region j)) (hi : i ∈ is) :
    read (writeAll region new mem is) (region i) = (new i).getD (read mem (region i)) := by
  induction is generalizing mem with
  | nil => exact absurd hi not_mem_nil
  | cons j is ih =>
    obtain ⟨hj, hrest⟩ := pairwise_cons.mp hapart
    have hfits : Fits region new ((new j).elim mem (write mem (region j))).length is := by
      rw [h.length_elim]
      exact h.of_cons
    rw [writeAll_cons]
    rcases mem_cons.mp hi with rfl | hi
    · rw [read_congr fun k hk => getElem?_writeAll hfits fun j hj' _ => (hj j hj').not_covers hk]
      cases hnew : new i with
      | none => rfl
      | some buf =>
        exact read_write_self (h.within i mem_cons_self)
          (h.sized i mem_cons_self buf hnew)
    · rw [ih hfits hrest hi]
      cases hnew : new j with
      | none => rfl
      | some buf =>
        rw [Option.elim_some, read_write_of_apart (h.within j mem_cons_self)
          (h.sized j mem_cons_self buf hnew) (hj i hi)]

theorem writeAll_eq_self (h : ∀ i ∈ is, new i = none) : writeAll region new mem is = mem := by
  induction is with
  | nil => rfl
  | cons i is ih =>
    rw [writeAll_cons, h i mem_cons_self]
    exact ih fun j hj => h j (mem_cons_of_mem i hj)

end

end RutosSdk.Regions
