import Mathlib.Data.List.Basic
import RutosSdk.Lib.Bytes

/-! # Bytes as groups of six bits

Three bytes are four sextets; one or two bytes left over are two or three sextets whose unused bits
are zero. A sequence of sextets that comes from bytes is called canonical: it does not end in a
single sextet and its unused bits are zero.
-/

namespace RutosSdk.Sextets

open List

/-- The four sextets of three bytes. -/
def group (a b c : Byte) : List (BitVec 6) :=
  [a.extractLsb' 2 6, a.extractLsb' 0 2 ++ b.extractLsb' 4 4,
    b.extractLsb' 0 4 ++ c.extractLsb' 6 2, c.extractLsb' 0 6]

/-- The three bytes of four sextets. -/
def ungroup (w x y z : BitVec 6) : List Byte :=
  [w ++ x.extractLsb' 4 2, x.extractLsb' 0 4 ++ y.extractLsb' 2 4, y.extractLsb' 0 2 ++ z]

/-- The sextets of a sequence of bytes. -/
def ofBytes : List Byte → List (BitVec 6)
  | [] => []
  | [a] => (group a 0 0).take 2
  | [a, b] => (group a b 0).take 3
  | a :: b :: c :: l => group a b c ++ ofBytes l

/-- The bytes of a sequence of sextets, unless a single sextet is left over. -/
def toBytes : List (BitVec 6) → Option (List Byte)
  | [] => some []
  | [_] => none
  | [w, x] => some ((ungroup w x 0 0).take 1)
  | [w, x, y] => some ((ungroup w x y 0).take 2)
  | w :: x :: y :: z :: l => (toBytes l).map (ungroup w x y z ++ ·)

/-- No single sextet is left over, and the bits that no byte uses are zero. -/
def Canonical : List (BitVec 6) → Prop
  | [] => True
  | [_] => False
  | [_, x] => x.extractLsb' 0 4 = 0
  | [_, _, y] => y.extractLsb' 0 2 = 0
  | _ :: _ :: _ :: _ :: l => Canonical l

theorem length_ofBytes (l : List Byte) : (ofBytes l).length = (4 * l.length + 2) / 3 := by
  fun_induction ofBytes l with
  | case1 => rfl
  | case2 a | case3 a b => simp [group]
  | case4 a b c l ih =>
    simp only [group, length_append, length_cons, length_nil, ih]
    omega

variable {s : List (BitVec 6)}

theorem length_of_toBytes {l : List Byte} (h : toBytes s = some l) :
    s.length % 4 ≠ 1 ∧ l.length = 3 * s.length / 4 := by
  fun_induction toBytes s generalizing l with
  | case1 =>
    obtain rfl := Option.some.inj h
    exact ⟨by decide, rfl⟩
  | case2 w => exact absurd h nofun
  | case3 w x | case4 w x y =>
    obtain rfl := Option.some.inj h
    simp [ungroup]
  | case5 w x y z s ih =>
    obtain ⟨l', hl', rfl⟩ := Option.map_eq_some_iff.mp h
    obtain ⟨hmod, hlen⟩ := ih hl'
    simp only [length_cons, length_append, ungroup, length_nil, hlen]
    omega

/-- The sextets of the three bytes at place `i` of a sequence. -/
abbrev groupAt (l : List Byte) (i : ℕ) : List (BitVec 6) :=
  group (l.getD (3 * i) 0) (l.getD (3 * i + 1) 0) (l.getD (3 * i + 2) 0)

/-- The bytes of the four sextets at place `i` of a sequence. -/
abbrev ungroupAt (s : List (BitVec 6)) (i : ℕ) : List Byte :=
  ungroup (s.getD (4 * i) 0) (s.getD (4 * i + 1) 0) (s.getD (4 * i + 2) 0) (s.getD (4 * i + 3) 0)

/-- Full groups by their place, then the partial group. -/
theorem ofBytes_eq_groups (l : List Byte) :
    ofBytes l = (List.range (l.length / 3)).flatMap (groupAt l)
      ++ (groupAt l (l.length / 3)).take ((4 * (l.length % 3) + 2) / 3) := by
  fun_induction ofBytes l with
  | case1 => rfl
  | case2 a | case3 a b => simp [groupAt]
  | case4 a b c l ih =>
    have hdiv : (a :: b :: c :: l).length / 3 = l.length / 3 + 1 := by
      simp only [length_cons]
      omega
    have hmod : (a :: b :: c :: l).length % 3 = l.length % 3 := by
      simp only [length_cons]
      omega
    -- a group further on is the group one place earlier of what follows the first three bytes
    have hstep : ∀ i, groupAt (a :: b :: c :: l) (i + 1) = groupAt l i := fun _ => rfl
    rw [hdiv, hmod, range_succ_eq_map, flatMap_cons, flatMap_map, ih, hstep]
    simp only [hstep, Nat.succ_eq_add_one, append_assoc]
    rfl

/-- Full groups by their place, then the partial group. -/
theorem toBytes_eq_groups (hs : s.length % 4 ≠ 1) :
    toBytes s = some ((List.range (s.length / 4)).flatMap (ungroupAt s)
      ++ (ungroupAt s (s.length / 4)).take (3 * (s.length % 4) / 4)) := by
  fun_induction toBytes s with
  | case1 => rfl
  | case2 w => exact absurd rfl hs
  | case3 w x | case4 w x y => simp [ungroupAt]
  | case5 w x y z s ih =>
    have hdiv : (w :: x :: y :: z :: s).length / 4 = s.length / 4 + 1 := by
      simp only [length_cons]
      omega
    have hmod : (w :: x :: y :: z :: s).length % 4 = s.length % 4 := by
      simp only [length_cons]
      omega
    have hstep : ∀ i, ungroupAt (w :: x :: y :: z :: s) (i + 1) = ungroupAt s i := fun _ => rfl
    rw [ih (hmod ▸ hs), hdiv, hmod, range_succ_eq_map, flatMap_cons, flatMap_map, hstep]
    simp only [hstep, Nat.succ_eq_add_one, append_assoc]
    rfl

/-- The bytes of the sextets of three bytes. -/
theorem ungroup_group (a b c : Byte) :
    ungroup (a.extractLsb' 2 6) (a.extractLsb' 0 2 ++ b.extractLsb' 4 4)
      (b.extractLsb' 0 4 ++ c.extractLsb' 6 2) (c.extractLsb' 0 6) = [a, b, c] := by
  simp only [ungroup, List.cons.injEq, and_true]
  refine ⟨?_, ?_, ?_⟩ <;> grind

/-- The sextets of the bytes of four sextets. -/
theorem group_ungroup (w x y z : BitVec 6) :
    group (w ++ x.extractLsb' 4 2) (x.extractLsb' 0 4 ++ y.extractLsb' 2 4)
      (y.extractLsb' 0 2 ++ z) = [w, x, y, z] := by
  simp only [group, List.cons.injEq, and_true]
  refine ⟨?_, ?_, ?_, ?_⟩ <;> grind

theorem toBytes_ofBytes (l : List Byte) : toBytes (ofBytes l) = some l := by
  fun_induction ofBytes l with
  | case1 => rfl
  | case2 a => exact congrArg (fun t => some (t.take 1)) (ungroup_group a 0 0)
  | case3 a b => exact congrArg (fun t => some (t.take 2)) (ungroup_group a b 0)
  | case4 a b c l ih =>
    change (toBytes (ofBytes l)).map (ungroup _ _ _ _ ++ ·) = _
    rw [ih, Option.map_some, ungroup_group]
    rfl

/-- A canonical sequence is the one of its own bytes. -/
theorem exists_bytes_of_canonical (hs : Canonical s) : ∃ l, toBytes s = some l ∧ ofBytes l = s := by
  fun_induction Canonical s with
  | case1 => exact ⟨[], rfl, rfl⟩
  | case2 => exact hs.elim
  | case3 w x =>
    refine ⟨_, rfl, ?_⟩
    simp only [ungroup, List.take, ofBytes, group, List.cons.injEq, and_true]
    refine ⟨?_, ?_⟩ <;> grind
  | case4 w x y =>
    refine ⟨_, rfl, ?_⟩
    simp only [ungroup, List.take, ofBytes, group, List.cons.injEq, and_true]
    refine ⟨?_, ?_, ?_⟩ <;> grind
  | case5 w x y z l ih =>
    obtain ⟨bytes, hbytes, hl⟩ := ih hs
    refine ⟨ungroup w x y z ++ bytes, by rw [toBytes, hbytes]; rfl, ?_⟩
    change group _ _ _ ++ ofBytes bytes = _
    rw [group_ungroup, hl]
    rfl

end RutosSdk.Sextets
