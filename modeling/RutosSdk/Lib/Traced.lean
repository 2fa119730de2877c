import Mathlib.Data.List.Basic

/-! # Computations that record their accesses

`Traced ε α` is a value together with the list of events, such as array accesses by index, that were
made to compute it. A property of all events is checked one `bind` at a time. Memory is a function
from indices, so that a read past the end of an array has a value as well and only its event shows
where it fell; `Holds mem start l` says that the elements of `l` stand in it from `start` on.
-/

namespace RutosSdk

/-- A value and the events of its computation, in order. -/
structure Traced (ε α : Type) where
  val : α
  log : List ε

variable {start : ℕ}

namespace Traced

variable {ε α β γ : Type}

instance : Monad (Traced ε) where
  pure a := ⟨a, []⟩
  bind x f := ⟨(f x.val).val, x.log ++ (f x.val).log⟩

/-- The computation that only makes the event. -/
def touch (e : ε) : Traced ε Unit := ⟨(), [e]⟩

@[simp] theorem pure_val (a : α) : (pure a : Traced ε α).val = a := rfl

@[simp] theorem bind_val (x : Traced ε α) (f : α → Traced ε β) :
    (x >>= f).val = (f x.val).val := rfl

@[simp] theorem ite_val {c : Prop} [Decidable c] (x y : Traced ε α) :
    (if c then x else y).val = if c then x.val else y.val := apply_ite Traced.val c x y

/-! ## Properties of all events -/

/-- Every event satisfies `P`. -/
def All (P : ε → Prop) (x : Traced ε α) : Prop := ∀ e ∈ x.log, P e

variable {P : ε → Prop}

@[simp] theorem all_pure (a : α) : (pure a : Traced ε α).All P := fun _ h => by cases h

@[simp] theorem all_touch_iff {e : ε} : (touch e).All P ↔ P e := by
  simp [All, touch]

@[simp] theorem all_bind_iff {x : Traced ε α} {f : α → Traced ε β} :
    (x >>= f).All P ↔ x.All P ∧ (f x.val).All P := by
  simp only [All]
  exact List.forall_mem_append

theorem all_ite_iff {c : Prop} [Decidable c] {x y : Traced ε α} :
    (if c then x else y).All P ↔ (c → x.All P) ∧ (¬c → y.All P) := by
  by_cases h : c
  · simp [h]
  · simp [h]

/-! ## Reading memory -/

section Memory

variable (mem : ℕ → β) (ev : ℕ → ε)

/-- One element, with the event of its index. -/
def readAt (i : ℕ) : Traced ε β := ⟨mem i, [ev i]⟩

theorem readAt_val (i : ℕ) : (readAt mem ev i).val = mem i := rfl

@[simp] theorem all_readAt_iff {i : ℕ} : (readAt mem ev i).All P ↔ P (ev i) := by
  simp [All, readAt]

/-- Writes to `n` indices from `start` on. -/
def touchRange (start n : ℕ) : Traced ε Unit := ⟨(), (List.range' start n).map ev⟩

variable {n : ℕ}

@[simp] theorem all_touchRange_iff :
    (touchRange ev start n).All P ↔ ∀ i, start ≤ i → i < start + n → P (ev i) := by
  simp only [All, touchRange, List.forall_mem_map, List.mem_range'_1, and_imp]

/-- A loop that folds `n` elements from `start` on into an accumulator. -/
def foldRange (g : γ → β → γ) : ℕ → ℕ → γ → Traced ε γ
  | _, 0, acc => pure acc
  | start, n + 1, acc => do
      let b ← readAt mem ev start
      foldRange g (start + 1) n (g acc b)

/-- The copy of `n` elements from `start` on. -/
def readRange : ℕ → ℕ → Traced ε (List β)
  | _, 0 => pure []
  | start, n + 1 => do
      let b ← readAt mem ev start
      let bs ← readRange (start + 1) n
      return b :: bs

/-- The offset of the first of `n` elements from `start` on that satisfies `p`, which ends the
search. -/
def findRange (p : β → Bool) : ℕ → ℕ → Traced ε (Option ℕ)
  | _, 0 => pure none
  | start, n + 1 => do
      let b ← readAt mem ev start
      if p b then return some 0
      else
        let k ← findRange p (start + 1) n
        return k.map (· + 1)

variable {mem ev}

@[simp] theorem length_readRange_val (start n : ℕ) : (readRange mem ev start n).val.length = n := by
  induction n generalizing start with
  | zero => rfl
  | succ n ih => exact congrArg (· + 1) (ih (start + 1))

/-- What holds of an index range holds of its first index and of the rest. -/
theorem range_succ_iff {Q : ℕ → Prop} :
    (∀ i, start ≤ i → i < start + (n + 1) → Q i)
      ↔ Q start ∧ ∀ i, start + 1 ≤ i → i < start + 1 + n → Q i := by
  constructor
  · intro h
    exact ⟨h start (by omega) (by omega), fun i h₁ h₂ => h i (by omega) (by omega)⟩
  · rintro ⟨h₀, h⟩ i h₁ h₂
    by_cases hi : i = start
    · rw [hi]
      exact h₀
    · exact h i (by omega) (by omega)

@[simp] theorem all_foldRange_iff {g : γ → β → γ} {acc : γ} :
    (foldRange mem ev g start n acc).All P ↔ ∀ i, start ≤ i → i < start + n → P (ev i) := by
  induction n generalizing start acc with
  | zero => exact iff_of_true (all_pure acc) fun i h₁ h₂ => by omega
  | succ n ih => rw [foldRange, all_bind_iff, all_readAt_iff, ih, range_succ_iff]

@[simp] theorem all_readRange_iff :
    (readRange mem ev start n).All P ↔ ∀ i, start ≤ i → i < start + n → P (ev i) := by
  induction n generalizing start with
  | zero => exact iff_of_true (all_pure []) fun i h₁ h₂ => by omega
  | succ n ih =>
    rw [readRange, all_bind_iff, all_readAt_iff, all_bind_iff, ih, range_succ_iff]
    simp

theorem all_findRange {p : β → Bool} (h : ∀ i, start ≤ i → i < start + n → P (ev i)) :
    (findRange mem ev p start n).All P := by
  induction n generalizing start with
  | zero => exact all_pure none
  | succ n ih =>
    obtain ⟨hstart, hrest⟩ := range_succ_iff.mp h
    rw [findRange, all_bind_iff, all_readAt_iff, all_ite_iff, all_bind_iff]
    exact ⟨hstart, fun _ => all_pure _, fun _ => ⟨ih hrest, all_pure _⟩⟩

/-! ### Equal contents -/

section Congr

variable {mem' : ℕ → β} {start' : ℕ}

/-- An index counted from the next start. -/
theorem agree_succ {i : ℕ} (h : mem' (start' + (i + 1)) = mem (start + (i + 1))) :
    mem' (start' + 1 + i) = mem (start + 1 + i) := by
  rwa [Nat.add_assoc, Nat.add_comm 1, Nat.add_assoc, Nat.add_comm 1]

theorem foldRange_congr {g : γ → β → γ} {acc : γ}
    (h : ∀ i, i < n → mem' (start' + i) = mem (start + i)) :
    (foldRange mem' ev g start' n acc).val = (foldRange mem ev g start n acc).val := by
  induction n generalizing start start' acc with
  | zero => rfl
  | succ n ih =>
    have h₀ : mem' start' = mem start := h 0 (by omega)
    simp only [foldRange, readAt, bind_val, h₀]
    exact ih fun i hi => agree_succ (h (i + 1) (by omega))

theorem readRange_congr (h : ∀ i, i < n → mem' (start' + i) = mem (start + i)) :
    (readRange mem' ev start' n).val = (readRange mem ev start n).val := by
  induction n generalizing start start' with
  | zero => rfl
  | succ n ih =>
    have h₀ : mem' start' = mem start := h 0 (by omega)
    simp only [readRange, readAt, bind_val, pure_val, h₀]
    exact congrArg (mem start :: ·) (ih fun i hi => agree_succ (h (i + 1) (by omega)))

/-- The search depends only on the elements up to the one found. -/
theorem findRange_stable {p : β → Bool} {n' k : ℕ}
    (hfound : (findRange mem ev p start n).val = some k)
    (h : ∀ i, i ≤ k → mem' (start' + i) = mem (start + i)) (hn : k < n') :
    (findRange mem' ev p start' n').val = some k := by
  induction n generalizing start start' n' k with
  | zero => cases hfound
  | succ n ih =>
    obtain ⟨n', rfl⟩ := Nat.exists_eq_add_of_lt hn
    have h₀ : mem' start' = mem start := h 0 (by omega)
    simp only [findRange, readAt, bind_val, pure_val, ite_val] at hfound
    simp only [findRange, readAt, bind_val, pure_val, ite_val, h₀]
    split_ifs at hfound ⊢ with hp
    · exact hfound
    · obtain ⟨j, hj, rfl⟩ := Option.map_eq_some_iff.mp hfound
      exact Option.map_eq_some_iff.mpr
        ⟨j, ih hj (fun i hi => agree_succ (h (i + 1) (by omega))) (by omega), rfl⟩

end Congr

theorem findRange_lt {p : β → Bool} {k : ℕ} (hfound : (findRange mem ev p start n).val = some k) :
    k < n := by
  induction n generalizing start k with
  | zero => cases hfound
  | succ n ih =>
    simp only [findRange, readAt, bind_val, pure_val, ite_val] at hfound
    split_ifs at hfound with hp
    · obtain rfl := Option.some.inj hfound
      omega
    · obtain ⟨j, hj, rfl⟩ := Option.map_eq_some_iff.mp hfound
      have := ih hj
      omega

end Memory

end Traced

/-! ## Contents of memory -/

section Holds

variable {β ε γ : Type} {mem mem' : ℕ → β} {ev : ℕ → ε}

/-- The elements of `l` stand in memory from `start` on. -/
def Holds (mem : ℕ → β) : ℕ → List β → Prop
  | _, [] => True
  | start, b :: l => mem start = b ∧ Holds mem (start + 1) l

@[simp] theorem holds_nil : Holds mem start [] := trivial

@[simp] theorem holds_cons {b : β} {l : List β} :
    Holds mem start (b :: l) ↔ mem start = b ∧ Holds mem (start + 1) l := Iff.rfl

theorem holds_append {l l' : List β} :
    Holds mem start (l ++ l') ↔ Holds mem start l ∧ Holds mem (start + l.length) l' := by
  induction l generalizing start with
  | nil => simp
  | cons b l ih =>
    rw [List.cons_append, holds_cons, ih, holds_cons, List.length_cons, and_assoc,
      show start + 1 + l.length = start + (l.length + 1) from by omega]

/-- Memory with the elements of a list from index 0 on. -/
theorem holds_of_getD {d : β} {start : ℕ} {l : List β}
    (h : ∀ i, i < l.length → mem (start + i) = l.getD i d) : Holds mem start l := by
  induction l generalizing start with
  | nil => trivial
  | cons b l ih =>
    refine ⟨h 0 (by simp), ih ?_⟩
    intro i hi
    have := h (i + 1) (by simpa using hi)
    rw [show start + 1 + i = start + (i + 1) from by omega, this]
    rfl

theorem Holds.readRange_val {l : List β} (h : Holds mem start l) :
    (Traced.readRange mem ev start l.length).val = l := by
  induction l generalizing start with
  | nil => rfl
  | cons b l ih =>
    obtain ⟨hb, hl⟩ := h
    change mem start :: (Traced.readRange mem ev (start + 1) l.length).val = b :: l
    rw [hb, ih hl]

theorem Holds.foldRange_val {g : γ → β → γ} {l : List β} {acc : γ} (h : Holds mem start l) :
    (Traced.foldRange mem ev g start l.length acc).val = l.foldl g acc := by
  induction l generalizing start acc with
  | nil => rfl
  | cons b l ih =>
    obtain ⟨rfl, hl⟩ := h
    exact ih hl

end Holds

end RutosSdk
