import Mathlib.Tactic.Ring

/-! # Circular counters

A free-running `w`-bit counter is a point on a circle of `2 ^ w` ticks, and the code under
verification orders its values by unsigned subtraction. `ahead t c` is the number of ticks from
`t` forward to `c`. The lemmas relate it to an ideal counter that never rolls over, to addition
along the circle, and to the signed comparison that sorts the values of one half circle.
-/

namespace RutosSdk.Circular

variable {w : ℕ}

/-- The number of ticks from `t` forward to `c`. -/
def ahead (t c : BitVec w) : ℕ := (c - t).toNat

theorem ahead_lt (t c : BitVec w) : ahead t c < 2 ^ w := (c - t).isLt

/-- The subtraction rolls over exactly when the target is the smaller value. -/
theorem ahead_eq_ite (t c : BitVec w) :
    ahead t c = if t.toNat ≤ c.toNat then c.toNat - t.toNat else 2 ^ w - t.toNat + c.toNat := by
  rw [ahead, BitVec.toNat_sub]
  split
  · rw [show 2 ^ w - t.toNat + c.toNat = c.toNat - t.toNat + 2 ^ w from by omega,
      Nat.add_mod_right, Nat.mod_eq_of_lt (by omega)]
  · exact Nat.mod_eq_of_lt (by omega)

@[simp] theorem ahead_self (t : BitVec w) : ahead t t = 0 := by simp [ahead]

theorem ahead_eq_zero_iff {t c : BitVec w} : ahead t c = 0 ↔ c = t := by
  constructor
  · intro h
    apply BitVec.eq_of_toNat_eq
    rw [ahead_eq_ite] at h
    split at h <;> omega
  · rintro rfl
    exact ahead_self c

/-- Going through `b` on the way from `a` to `c` costs nothing or one whole turn. -/
theorem ahead_trans (a b c : BitVec w) :
    ahead a b + ahead b c = ahead a c ∨ ahead a b + ahead b c = ahead a c + 2 ^ w := by
  rw [ahead_eq_ite a b, ahead_eq_ite b c, ahead_eq_ite a c]
  split <;> split <;> split <;> omega

/-- Without a whole turn the distances along the circle add up. -/
theorem ahead_add_of_lt {a b c : BitVec w} (h : ahead a b + ahead b c < 2 ^ w) :
    ahead a c = ahead a b + ahead b c := by
  rcases ahead_trans a b c with h' | h' <;> omega

/-- A target at least as far ahead as `b` lies that much further past `b`. -/
theorem ahead_sub_of_le {a b c : BitVec w} (h : ahead a b ≤ ahead a c) :
    ahead b c = ahead a c - ahead a b := by
  have := ahead_lt b c
  rcases ahead_trans a b c with h' | h' <;> omega

/-- A target not as far ahead as `b` is reached from `b` only after a turn. -/
theorem ahead_of_lt {a b c : BitVec w} (h : ahead a c < ahead a b) :
    ahead b c = 2 ^ w - ahead a b + ahead a c := by
  have := ahead_lt a b
  rcases ahead_trans a b c with h' | h' <;> omega

/-- Targets equally far ahead are the same point. -/
theorem ahead_inj {a b c : BitVec w} (h : ahead a b = ahead a c) : b = c := by
  have := ahead_sub_of_le (le_of_eq h)
  exact (ahead_eq_zero_iff.mp (by omega)).symm

/-- Moving the target by `d` moves it `d` further ahead, up to a whole turn. -/
theorem ahead_add_right {t c d : BitVec w} (h : ahead t c + d.toNat < 2 ^ w) :
    ahead t (c + d) = ahead t c + d.toNat := by
  have hd : ahead c (c + d) = d.toNat := by
    rw [ahead, BitVec.add_comm, BitVec.add_sub_cancel]
  have := @ahead_add_of_lt w t c (c + d) (by rw [hd]; exact h)
  rw [this, hd]

/-! ## The ideal counter -/

/-- The distance between two readings of an ideal counter is the ideal distance, as long as that
is less than one turn. -/
theorem ahead_ofNat {T C : ℕ} (h : T ≤ C) (hd : C - T < 2 ^ w) :
    ahead (BitVec.ofNat w T) (BitVec.ofNat w C) = C - T := by
  obtain ⟨d, rfl⟩ := Nat.exists_eq_add_of_le h
  have hd' : d < 2 ^ w := by omega
  rw [BitVec.ofNat_add, ahead_add_right] <;>
    simp only [ahead_self, BitVec.toNat_ofNat, Nat.mod_eq_of_lt hd'] <;> omega

/-- The ideal instant at which a counter that now reads `T` will read `c`. -/
def instant (T : ℕ) (c : BitVec w) : ℕ := T + ahead (BitVec.ofNat w T) c

theorem instant_sub (T : ℕ) (c : BitVec w) : instant T c - T = ahead (BitVec.ofNat w T) c := by
  simp [instant]

/-- As time passes and the target is not missed, its ideal instant stays the same. -/
theorem instant_eq_of_le {T T' : ℕ} {c : BitVec w} (h : T ≤ T') (h' : T' ≤ instant T c) :
    instant T' c = instant T c := by
  have hlt := ahead_lt (BitVec.ofNat w T) c
  unfold instant at *
  have hstep := ahead_ofNat (w := w) h (by omega)
  have := ahead_sub_of_le (a := BitVec.ofNat w T) (b := BitVec.ofNat w T') (c := c) (by omega)
  omega

/-- Seen from an earlier reading, distances between targets are differences of instants. -/
theorem ahead_eq_instant_sub {T : ℕ} {c d : BitVec w} (h : instant T c ≤ instant T d) :
    ahead c d = instant T d - instant T c := by
  unfold instant at *
  have := ahead_sub_of_le (a := BitVec.ofNat w T) (b := c) (c := d) (by omega)
  omega

/-! ## Half circles -/

/-- Within half a turn ahead of `b`, the signed difference is the difference of distances. -/
theorem toInt_sub {b p q : BitVec w} (hp : 2 * ahead b p < 2 ^ w) (hq : 2 * ahead b q < 2 ^ w) :
    (p - q).toInt = (ahead b p : ℤ) - ahead b q := by
  have hqp : (p - q).toNat = ahead q p := rfl
  rw [BitVec.toInt_eq_toNat_cond, hqp]
  rcases Nat.lt_or_ge (ahead b p) (ahead b q) with h | h
  · rw [ahead_of_lt h, if_neg (by omega)]
    push_cast [show ahead b q ≤ 2 ^ w from by omega]
    ring
  · rw [ahead_sub_of_le h, if_pos (by omega)]
    omega

end RutosSdk.Circular
