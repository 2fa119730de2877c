import Mathlib.Data.List.Basic

/-! # Reading a stream in pieces

A blocking read returns at least one element and at most as many as were asked for; how many is up
to the system. A loop that goes on until it has all it wants gets the same elements however they
are cut up, a single read does not.
-/

namespace RutosSdk.Pieces

variable {α : Type}

/-- A stream, and what the coming reads do: fail, or return at most so many elements. -/
structure Source (α : Type) where
  stream : List α
  answers : ℕ → Option ℕ
  pos : ∀ k n, answers k = some n → 0 < n

/-- Why a read does not return elements: an error, or a wait for elements that never come. -/
inductive Stop where
  | failed
  | blocked
deriving DecidableEq

/-- The source after a read of `k` elements. -/
def Source.next (s : Source α) (k : ℕ) : Source α where
  stream := s.stream.drop k
  answers := fun i => s.answers (i + 1)
  pos := fun i => s.pos (i + 1)

@[simp] theorem Source.stream_next (s : Source α) (k : ℕ) :
    (s.next k).stream = s.stream.drop k := rfl

/-- One call to `read` for `n` elements. -/
def Source.read (s : Source α) (n : ℕ) : Except Stop (List α × Source α) :=
  match s.answers 0 with
  | none => .error .failed
  | some m =>
    if s.stream.length = 0 then .error .blocked
    else .ok (s.stream.take (min m n), s.next (min m n))

/-- Reads until `n` elements are there; as many reads as elements are enough. -/
def Source.readAll : ℕ → Source α → ℕ → Except Stop (List α × Source α)
  | 0, s, _ => .ok ([], s)
  | fuel + 1, s, n =>
    if n = 0 then .ok ([], s)
    else
      match s.read n with
      | .error e => .error e
      | .ok (piece, s') =>
        match Source.readAll fuel s' (n - piece.length) with
        | .error e => .error e
        | .ok (rest, s'') => .ok (piece ++ rest, s'')

variable {s s' : Source α} {n fuel : ℕ} {piece l : List α}

/-- What a read takes comes off the front of the stream. -/
theorem Source.read_ok (h : s.read n = .ok (piece, s')) (hn : 0 < n) :
    s.stream = piece ++ s'.stream ∧ 0 < piece.length ∧ piece.length ≤ n := by
  unfold Source.read at h
  split at h
  · cases h
  · rename_i m hm
    have hpos := s.pos 0 m hm
    split_ifs at h with hempty
    obtain ⟨rfl, rfl⟩ := Prod.mk.inj (Except.ok.inj h)
    refine ⟨(List.take_append_drop _ _).symm, ?_, ?_⟩
    · rw [List.length_take]
      omega
    · rw [List.length_take]
      omega

/-- However the reads cut the stream, the loop gets its first `n` elements. -/
theorem Source.readAll_ok (hfuel : n ≤ fuel) (h : s.readAll fuel n = .ok (l, s')) :
    l.length = n ∧ s.stream = l ++ s'.stream := by
  induction fuel generalizing s n l with
  | zero =>
    obtain ⟨rfl, rfl⟩ := Prod.mk.inj (Except.ok.inj h)
    exact ⟨by simp; omega, rfl⟩
  | succ fuel ih =>
    rw [Source.readAll] at h
    split_ifs at h with hn
    · obtain ⟨rfl, rfl⟩ := Prod.mk.inj (Except.ok.inj h)
      exact ⟨hn.symm, rfl⟩
    · split at h
      · cases h
      · rename_i piece s₁ hread
        obtain ⟨hstream, hpos, hle⟩ := Source.read_ok hread (by omega)
        split at h
        · cases h
        · rename_i rest s₂ hrest
          obtain ⟨rfl, rfl⟩ := Prod.mk.inj (Except.ok.inj h)
          obtain ⟨hlen, hstream'⟩ := ih (by omega) hrest
          refine ⟨by rw [List.length_append]; omega, ?_⟩
          rw [hstream, hstream', List.append_assoc]

/-- The loop does not wait for more than `n` elements. -/
theorem Source.readAll_ne_blocked (hn : n ≤ s.stream.length) :
    s.readAll fuel n ≠ .error .blocked := by
  induction fuel generalizing s n with
  | zero => exact nofun
  | succ fuel ih =>
    rw [Source.readAll]
    split_ifs with hzero
    · exact nofun
    · split
      · rename_i e hread
        unfold Source.read at hread
        split at hread
        · cases hread
          exact nofun
        · rw [if_neg (by omega)] at hread
          cases hread
      · rename_i piece s₁ hread
        obtain ⟨hstream, -, -⟩ := Source.read_ok hread (by omega)
        have hrest : n - piece.length ≤ s₁.stream.length := by
          rw [hstream, List.length_append] at hn
          omega
        split
        · rename_i e he
          rw [← he]
          exact ih hrest
        · exact nofun

end RutosSdk.Pieces
