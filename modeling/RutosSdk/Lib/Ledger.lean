import Mathlib.Data.List.Nodup
import Mathlib.Data.List.Count

/-! # Ledgers of acquired and released resources

A log of what a program acquires and releases, the newest event first. A log is proper when nothing
is acquired that is held already and nothing is released that is not held; in a proper log every
resource was acquired once for each release of it, and once more if it is held.
-/

namespace RutosSdk.Ledger

open List

/-- A resource is acquired or released. -/
inductive Event (ρ : Type) where
  | acquire (r : ρ)
  | release (r : ρ)
deriving DecidableEq, Repr

variable {ρ : Type} [DecidableEq ρ]

/-- The resources that are held after a log. -/
def held : List (Event ρ) → List ρ
  | [] => []
  | .acquire r :: log => r :: held log
  | .release r :: log => (held log).erase r

/-- Only what is free is acquired, and only what is held is released. -/
def Proper : List (Event ρ) → Prop
  | [] => True
  | .acquire r :: log => r ∉ held log ∧ Proper log
  | .release r :: log => r ∈ held log ∧ Proper log

instance decidableProper : (log : List (Event ρ)) → Decidable (Proper log)
  | [] => isTrue trivial
  | .acquire r :: log =>
    have := decidableProper log
    inferInstanceAs (Decidable (r ∉ held log ∧ Proper log))
  | .release r :: log =>
    have := decidableProper log
    inferInstanceAs (Decidable (r ∈ held log ∧ Proper log))

variable {log : List (Event ρ)}

theorem Proper.nodup_held (h : Proper log) : (held log).Nodup := by
  induction log with
  | nil => exact nodup_nil
  | cons e log ih =>
    cases e with
    | acquire r => exact nodup_cons.mpr ⟨h.1, ih h.2⟩
    | release r => exact (ih h.2).erase r

@[simp]
theorem mem_held_acquire {r r' : ρ} :
    r' ∈ held (.acquire r :: log) ↔ r' = r ∨ r' ∈ held log := mem_cons

theorem Proper.mem_held_release {r r' : ρ} (h : Proper log) :
    r' ∈ held (.release r :: log) ↔ r' ≠ r ∧ r' ∈ held log := h.nodup_held.mem_erase_iff

/-- What was acquired was released, or it is held. -/
theorem Proper.count_acquire (h : Proper log) (r : ρ) :
    log.count (.acquire r) = log.count (.release r) + (held log).count r := by
  induction log with
  | nil => rfl
  | cons e log ih =>
    cases e with
    | acquire r' =>
      have hih := ih h.2
      by_cases heq : r' = r
      · subst heq
        rw [count_cons_self, count_cons_of_ne (by simp), held, count_cons_self]
        omega
      · rw [count_cons_of_ne (by simpa using heq), count_cons_of_ne (by simp), held,
          count_cons_of_ne heq, hih]
    | release r' =>
      have hih := ih h.2
      by_cases heq : r' = r
      · subst heq
        have hpos := count_pos_iff.mpr h.1
        rw [count_cons_of_ne (by simp), count_cons_self, held, count_erase_self]
        omega
      · rw [count_cons_of_ne (by simp), count_cons_of_ne (by simpa using heq), held,
          count_erase_of_ne (Ne.symm heq), hih]

/-- A proper log after which nothing is held releases all that was acquired. -/
theorem Proper.count_eq_of_held_nil (h : Proper log) (hnil : held log = []) (r : ρ) :
    log.count (.release r) = log.count (.acquire r) := by
  rw [h.count_acquire r, hnil, count_nil, Nat.add_zero]

end RutosSdk.Ledger
