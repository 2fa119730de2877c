import Mathlib.Data.List.Basic

/-! # Records one behind the other in a memory

A record tells its own length. Walking a region of a memory goes from one record to the next until
the end of the region is reached or passed; whether the last record ends with the region is a matter
of what stands there.
-/

namespace RutosSdk.Records

open List

variable {α R : Type}

/-- The cells stand in the memory, from `offset` on. -/
def Stands (mem : ℕ → α) : ℕ → List α → Prop
  | _, [] => True
  | offset, a :: cells => mem offset = a ∧ Stands mem (offset + 1) cells

variable {mem : ℕ → α} {offset : ℕ} {cells cells' : List α}

theorem stands_append :
    Stands mem offset (cells ++ cells')
      ↔ Stands mem offset cells ∧ Stands mem (offset + cells.length) cells' := by
  induction cells generalizing offset with
  | nil => simp [Stands]
  | cons a cells ih =>
    rw [cons_append, Stands, Stands, ih, length_cons, and_assoc, Nat.add_assoc, Nat.add_comm 1]

/-- What stands somewhere is what the memory reads there. -/
theorem stands_iff_eq_map :
    Stands mem offset cells ↔ cells = (List.range cells.length).map fun k => mem (offset + k) := by
  induction cells generalizing offset with
  | nil => simp [Stands]
  | cons a cells ih =>
    rw [Stands, ih, length_cons, range_succ_eq_map, map_cons, map_map,
      List.cons.injEq, @eq_comm _ (mem offset)]
    simp only [Function.comp_def, Nat.succ_eq_add_one, Nat.add_assoc, Nat.add_comm 1, Nat.add_zero]

/-- How records are written, and the reader that finds the one at an offset. -/
structure Format (α R : Type) where
  encode : R → List α
  encode_ne_nil : ∀ r, encode r ≠ []
  readAt : (ℕ → α) → ℕ → Option R
  readAt_eq_some_iff : ∀ {mem i r}, readAt mem i = some r ↔ Stands mem i (encode r)

variable (F : Format α R)

/-- The bytes of a sequence of records. -/
def Format.encodeAll (rs : List R) : List α := rs.flatMap F.encode

@[simp] theorem Format.encodeAll_cons (r : R) (rs : List R) :
    F.encodeAll (r :: rs) = F.encode r ++ F.encodeAll rs := rfl

/-- The records met from `i` on by a walk of the first `size` cells. -/
inductive Walk (mem : ℕ → α) (size : ℕ) : ℕ → List R → Prop where
  | done {i : ℕ} : size ≤ i → Walk mem size i []
  | next {i : ℕ} {r : R} {rs : List R} : i < size → F.readAt mem i = some r →
      Walk mem size (i + (F.encode r).length) rs → Walk mem size i (r :: rs)

variable {F} {size i : ℕ} {rs rs' : List R}

/-- A walk meets the records that stand there. -/
theorem Walk.unique (h : Walk F mem size i rs) (h' : Walk F mem size i rs') : rs = rs' := by
  induction h generalizing rs' with
  | done hi =>
    cases h' with
    | done => rfl
    | next hi' => omega
  | next hi hread _ ih =>
    cases h' with
    | done hi' => omega
    | next _ hread' h'' =>
      obtain rfl := Option.some.inj (hread.symm.trans hread')
      rw [ih h'']

/-- Records are met by the walk if the last of them begins before the end of the region. -/
theorem walk_concat {r : R} (h : Stands mem i (F.encodeAll rs ++ F.encode r))
    (hlo : i + (F.encodeAll rs).length < size)
    (hhi : size ≤ i + (F.encodeAll rs ++ F.encode r).length) : Walk F mem size i (rs ++ [r]) := by
  induction rs generalizing i with
  | nil => exact .next hlo (F.readAt_eq_some_iff.mpr h) (.done hhi)
  | cons r' rs ih =>
    rw [Format.encodeAll_cons, append_assoc] at h hhi
    rw [Format.encodeAll_cons, length_append] at hlo
    rw [length_append] at hhi
    obtain ⟨hfirst, hrest⟩ := stands_append.mp h
    exact .next (by omega) (F.readAt_eq_some_iff.mpr hfirst) (ih hrest (by omega) (by omega))

/-- Records that end with the region are met by the walk. -/
theorem walk_of_stands (h : Stands mem i (F.encodeAll rs))
    (hend : i + (F.encodeAll rs).length = size) : Walk F mem size i rs := by
  rcases eq_nil_or_concat' rs with rfl | ⟨rs, r, rfl⟩
  · exact .done (Nat.le_of_eq hend.symm)
  · have hall : F.encodeAll (rs ++ [r]) = F.encodeAll rs ++ F.encode r := by
      simp [Format.encodeAll]
    have hpos := length_pos_iff.mpr (F.encode_ne_nil r)
    rw [hall] at h hend
    refine walk_concat h ?_ (Nat.le_of_eq hend.symm)
    rw [length_append] at hend
    omega

/-- Records are told by their cells. -/
theorem eq_of_encodeAll_eq (h : Stands mem i (F.encodeAll rs))
    (heq : F.encodeAll rs = F.encodeAll rs') : rs = rs' :=
  (walk_of_stands h rfl).unique (walk_of_stands (heq ▸ h) (by rw [heq]))

/-! ## Cells that a walk accepts -/

/-- The cells are a sequence of records. -/
def Whole (F : Format α R) (cells : List α) : Prop := ∃ rs, cells = F.encodeAll rs

/-- The cells at `i` end inside of a record, which what stands behind them completes. -/
def CutOff (F : Format α R) (mem : ℕ → α) (i : ℕ) (cells : List α) : Prop :=
  ∃ rs r front back, front ≠ [] ∧ back ≠ [] ∧ F.encode r = front ++ back ∧
    cells = F.encodeAll rs ++ front ∧ Stands mem (i + cells.length) back

/-- Of two sequences at one place the shorter is the beginning of the longer. -/
theorem Stands.exists_append (h : Stands mem offset cells) (h' : Stands mem offset cells')
    (hle : cells.length ≤ cells'.length) : ∃ rest, cells' = cells ++ rest := by
  induction cells generalizing offset cells' with
  | nil => exact ⟨cells', rfl⟩
  | cons a cells ih =>
    cases cells' with
    | nil => exact absurd hle (Nat.not_succ_le_zero _)
    | cons a' cells' =>
      obtain ⟨rest, rfl⟩ := ih h.2 h'.2 (Nat.le_of_succ_le_succ hle)
      exact ⟨rest, by rw [← h.1, ← h'.1]; rfl⟩

theorem CutOff.exists_walk (h : CutOff F mem i cells) (hcells : Stands mem i cells) :
    ∃ rs, Walk F mem (i + cells.length) i rs ∧ cells.length < (F.encodeAll rs).length := by
  obtain ⟨rs, r, front, back, hfront, hback, hr, rfl, hstands⟩ := h
  have hall := stands_append.mpr ⟨hcells, hstands⟩
  rw [append_assoc, ← hr] at hall
  have hpos := length_pos_iff.mpr hfront
  have hpos' := length_pos_iff.mpr hback
  have hlength := congrArg List.length hr
  simp only [length_append] at hlength
  refine ⟨rs ++ [r], walk_concat hall ?_ ?_, ?_⟩
  · simp only [length_append]
    omega
  · simp only [length_append]
    omega
  · simp only [Format.encodeAll, flatMap_append, flatMap_singleton, length_append]
    omega

/-- Cells that end inside of a record are no sequence of records. -/
theorem CutOff.not_whole (h : CutOff F mem i cells) (hcells : Stands mem i cells) :
    ¬Whole F cells := by
  obtain ⟨rs, hwalk, hlt⟩ := h.exists_walk hcells
  rintro ⟨rs', rfl⟩
  obtain rfl := hwalk.unique (walk_of_stands hcells rfl)
  exact Nat.lt_irrefl _ hlt

/-- A walk accepts whole records, and the beginning of one that is completed behind the region. -/
theorem exists_walk_iff (hcells : Stands mem i cells) :
    (∃ rs, Walk F mem (i + cells.length) i rs) ↔ Whole F cells ∨ CutOff F mem i cells := by
  constructor
  · rintro ⟨rs, hwalk⟩
    generalize hend : i + cells.length = size at hwalk
    induction hwalk generalizing cells with
    | done hi => exact .inl ⟨[], eq_nil_of_length_eq_zero (by omega)⟩
    | @next i r rs hi hread _ ih =>
      have hr := F.readAt_eq_some_iff.mp hread
      rcases Nat.lt_or_ge cells.length (F.encode r).length with hlt | hle
      · obtain ⟨back, hback⟩ := hcells.exists_append hr (Nat.le_of_lt hlt)
        have hlength := congrArg List.length hback
        rw [length_append] at hlength
        have hne : cells ≠ [] := by
          rintro rfl
          exact absurd hi (by simp at hend; omega)
        have hne' : back ≠ [] := by
          rintro rfl
          simp at hlength
          omega
        rw [hback] at hr
        exact .inr ⟨[], r, cells, back, hne, hne', hback, rfl, (stands_append.mp hr).2⟩
      · obtain ⟨rest, rfl⟩ := hr.exists_append hcells hle
        rw [length_append, ← Nat.add_assoc] at hend
        rcases ih (stands_append.mp hcells).2 hend with
          ⟨rs', rfl⟩ | ⟨rs', r', front, back, hfront, hback, hr', rfl, hstands⟩
        · exact .inl ⟨r :: rs', rfl⟩
        · refine .inr ⟨r :: rs', r', front, back, hfront, hback, hr', ?_, ?_⟩
          · rw [Format.encodeAll_cons, append_assoc]
          · rwa [length_append, ← Nat.add_assoc]
  · rintro (⟨rs, rfl⟩ | hcut)
    · exact ⟨rs, walk_of_stands hcells rfl⟩
    · obtain ⟨rs, hwalk, -⟩ := hcut.exists_walk hcells
      exact ⟨rs, hwalk⟩

end RutosSdk.Records
