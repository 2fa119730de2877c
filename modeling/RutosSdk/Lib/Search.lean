import Mathlib.Data.List.Infix

/-! # The first place of a pattern

The search of `strstr` and of scans like it: the first place in a list where a pattern stands. What
comes behind the place that is found plays no part, and a separator that is not in the pattern cuts
the search in two.
-/

namespace RutosSdk.Search

open List

variable {α : Type} {pat l l' : List α} {a : α} {i : ℕ}

/-- A pattern without the separator lies before it. -/
theorem prefix_of_prefix_append_cons (hsep : a ∉ pat) (h : pat <+: l ++ a :: l') : pat <+: l := by
  rcases Nat.lt_or_ge l.length pat.length with hlt | hle
  · have hlong : l ++ [a] <+: pat := by
      refine prefix_of_prefix_length_le (by simp) h ?_
      rw [length_append]
      exact hlt
    exact absurd (hlong.subset (mem_append_right l (mem_singleton_self a))) hsep
  · exact prefix_of_prefix_length_le h (prefix_append _ _) hle

variable [DecidableEq α]

/-- A list up to the first place of an element, the element, and what is behind it. -/
theorem eq_takeWhile_append_cons (h : a ∈ l) :
    l = l.takeWhile (· ≠ a) ++ a :: (l.dropWhile (· ≠ a)).drop 1 := by
  induction l with
  | nil => cases h
  | cons b l ih =>
    by_cases hb : b = a
    · simp [hb]
    · have hl := ih ((mem_cons.mp h).resolve_left (Ne.symm hb))
      rw [takeWhile_cons_of_pos (by simpa using hb),
        dropWhile_cons_of_pos (by simpa using hb), cons_append, ← hl]

/-- The first place where the pattern stands. -/
def findSub (pat : List α) : List α → Option ℕ
  | [] => if pat = [] then some 0 else none
  | a :: l => if pat.isPrefixOf (a :: l) then some 0 else (findSub pat l).map (· + 1)

theorem findSub_nil : findSub pat [] = if pat = [] then some 0 else none := rfl

theorem findSub_cons :
    findSub pat (a :: l)
      = if pat.isPrefixOf (a :: l) then some 0 else (findSub pat l).map (· + 1) := rfl

theorem findSub_of_starts (h : pat <+: l) : findSub pat l = some 0 := by
  cases l with
  | nil => rw [findSub_nil, if_pos (prefix_nil.mp h)]
  | cons a l => rw [findSub_cons, if_pos (List.isPrefixOf_iff_prefix.mpr h)]

theorem findSub_cons_of_not_starts (h : ¬pat <+: a :: l) :
    findSub pat (a :: l) = (findSub pat l).map (· + 1) := by
  rw [findSub_cons, if_neg (fun hp => h (List.isPrefixOf_iff_prefix.mp hp))]

/-- The pattern stands where it is found, and at no place before. -/
theorem findSub_eq_some_iff :
    findSub pat l = some i ↔ (i ≤ l.length ∧ pat <+: l.drop i) ∧ ∀ j < i, ¬pat <+: l.drop j := by
  induction l generalizing i with
  | nil =>
    by_cases hpat : pat = []
    · rcases i with _ | i <;> simp [findSub_nil]
    · simp [findSub_nil, hpat]
  | cons a l ih =>
    by_cases hp : pat <+: a :: l
    · rw [findSub_of_starts hp]
      constructor
      · rintro ⟨⟩
        exact ⟨⟨Nat.zero_le _, hp⟩, fun j hj => absurd hj (Nat.not_lt_zero j)⟩
      · rintro ⟨-, hfirst⟩
        rcases i with _ | i
        · rfl
        · exact absurd hp (hfirst 0 (Nat.succ_pos i))
    · rw [findSub_cons_of_not_starts hp, Option.map_eq_some_iff]
      constructor
      · rintro ⟨k, hk, rfl⟩
        obtain ⟨⟨hle, hstands⟩, hfirst⟩ := ih.mp hk
        refine ⟨⟨Nat.succ_le_succ hle, hstands⟩, fun j hj => ?_⟩
        rcases j with _ | j
        · exact hp
        · exact hfirst j (Nat.lt_of_succ_lt_succ hj)
      · rintro ⟨⟨hle, hstands⟩, hfirst⟩
        rcases i with _ | i
        · exact absurd hstands hp
        · exact ⟨i, ih.mpr ⟨⟨Nat.le_of_succ_le_succ hle, hstands⟩,
            fun j hj => hfirst (j + 1) (Nat.succ_lt_succ hj)⟩, rfl⟩

theorem length_le_of_findSub (h : findSub pat l = some i) : i + pat.length ≤ l.length := by
  obtain ⟨⟨hle, hstands⟩, -⟩ := findSub_eq_some_iff.mp h
  have := hstands.length_le
  rw [length_drop] at this
  omega

theorem findSub_eq_none_iff : findSub pat l = none ↔ ¬pat <:+: l := by
  induction l with
  | nil =>
    rw [findSub_nil, infix_nil]
    split_ifs with hpat <;> simp [hpat]
  | cons a l ih =>
    rw [infix_cons_iff, not_or, ← ih]
    by_cases hp : pat <+: a :: l
    · simp [findSub_of_starts hp, hp]
    · simp [findSub_cons_of_not_starts hp, hp]

/-- What stands behind the place that is found plays no part. -/
theorem findSub_append (h : findSub pat l = some i) : findSub pat (l ++ l') = some i := by
  have hlen := length_le_of_findSub h
  obtain ⟨⟨hle, hstands⟩, hfirst⟩ := findSub_eq_some_iff.mp h
  have hdrop : ∀ j ≤ i, (l ++ l').drop j = l.drop j ++ l' :=
    fun j hj => drop_append_of_le_length (by omega)
  refine findSub_eq_some_iff.mpr ⟨⟨by rw [length_append]; omega, ?_⟩, fun j hj hp => ?_⟩
  · rw [hdrop i (Nat.le_refl i)]
    exact hstands.trans (prefix_append _ _)
  · rw [hdrop j (Nat.le_of_lt hj)] at hp
    refine hfirst j hj (prefix_of_prefix_length_le hp (prefix_append _ _) ?_)
    rw [length_drop]
    omega

/-- A text without the pattern, cut off by an element that the pattern does not have. -/
theorem findSub_append_cons (hsep : a ∉ pat) (hne : pat ≠ []) (h : findSub pat l = none) :
    findSub pat (l ++ a :: l') = (findSub pat l').map (· + (l.length + 1)) := by
  have hnil : ¬pat <+: [] := fun hp => hne (prefix_nil.mp hp)
  induction l with
  | nil =>
    have hnot : ¬pat <+: a :: l' :=
      fun hp => hnil (prefix_of_prefix_append_cons hsep hp)
    rw [nil_append, findSub_cons_of_not_starts hnot]
    rfl
  | cons b l ih =>
    have hhere : ¬pat <+: b :: l := by
      intro hp
      rw [findSub_of_starts hp] at h
      exact Option.some_ne_none _ h
    have hnot : ¬pat <+: b :: (l ++ a :: l') :=
      fun hp => hhere (prefix_of_prefix_append_cons hsep hp)
    rw [findSub_cons_of_not_starts hhere, Option.map_eq_none_iff] at h
    rw [cons_append, findSub_cons_of_not_starts hnot, ih h, Option.map_map]
    rfl

/-- The first place where the pattern can begin is the first one of its first element. -/
theorem findSub_cons_append (h : a ∉ l) (l' : List α) :
    findSub (a :: pat) (l ++ (a :: pat ++ l')) = some l.length := by
  induction l with
  | nil => exact findSub_of_starts (prefix_append _ _)
  | cons b l ih =>
    have hnot : ¬a :: pat <+: b :: (l ++ (a :: pat ++ l')) := by
      rw [cons_prefix_cons]
      rintro ⟨rfl, -⟩
      exact h mem_cons_self
    rw [cons_append, findSub_cons_of_not_starts hnot, ih fun hmem => h (mem_cons_of_mem b hmem)]
    rfl

theorem not_infix_append_cons (hsep : a ∉ pat) (hne : pat ≠ []) (h : ¬pat <:+: l)
    (h' : ¬pat <:+: l') : ¬pat <:+: l ++ a :: l' := by
  rw [← findSub_eq_none_iff] at h h' ⊢
  rw [findSub_append_cons hsep hne h, h']
  rfl

end RutosSdk.Search
