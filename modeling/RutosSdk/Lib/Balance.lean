import Mathlib.Data.List.Basic
import RutosSdk.Lib.Bytes

/-! # Balanced quotes, braces and brackets

A text is read from left to right with the brackets that wait to be closed, innermost first. Between
quotes nothing but the next quote counts. A balanced text leaves the reader as it was, so that
balanced texts can be put one after the other, and between brackets.
-/

namespace RutosSdk

open List

namespace Balance

/-- Characters as bytes. -/
abbrev Text := List Byte

abbrev quote : Byte := 0x22
abbrev openBrace : Byte := 0x7B
abbrev closeBrace : Byte := 0x7D
abbrev openBracket : Byte := 0x5B
abbrev closeBracket : Byte := 0x5D
abbrev comma : Byte := 0x2C

/-- Whether the reader is between quotes, and what it waits for. -/
structure Reader where
  quoted : Bool
  waiting : Text
deriving DecidableEq, Repr

/-- A closing character: it must be the one that is waited for. -/
def close (c : Byte) : Text → Option Reader
  | [] => none
  | d :: waiting => if c = d then some ⟨false, waiting⟩ else none

/-- One character. -/
def step (r : Reader) (c : Byte) : Option Reader :=
  if c = quote then some { r with quoted := !r.quoted }
  else if r.quoted then some r
  else if c = openBrace then some { r with waiting := closeBrace :: r.waiting }
  else if c = openBracket then some { r with waiting := closeBracket :: r.waiting }
  else if c = closeBrace ∨ c = closeBracket then close c r.waiting
  else some r

/-- A whole text. -/
def read : Reader → Text → Option Reader
  | r, [] => some r
  | r, c :: text => (step r c).bind fun r => read r text

/-- Every quote, brace and bracket of the text has its partner in it. -/
def Balanced (text : Text) : Prop := read ⟨false, []⟩ text = some ⟨false, []⟩

instance (text : Text) : Decidable (Balanced text) := inferInstanceAs (Decidable (_ = _))

/-- A character that means nothing to the reader. -/
def Plain (c : Byte) : Prop :=
  c ≠ quote ∧ c ≠ openBrace ∧ c ≠ closeBrace ∧ c ≠ openBracket ∧ c ≠ closeBracket

instance (c : Byte) : Decidable (Plain c) := inferInstanceAs (Decidable (_ ∧ _))

/-! ## Reading on -/

theorem read_append (r : Reader) (a b : Text) :
    read r (a ++ b) = (read r a).bind fun r => read r b := by
  induction a generalizing r with
  | nil => rfl
  | cons c a ih =>
    rw [cons_append, read, read, Option.bind_assoc]
    exact congrArg _ (funext fun r => ih r)

/-- What waits below does not matter to a step that does not reach it. -/
theorem step_below {r r' : Reader} {c : Byte} (below : Text) (h : step r c = some r') :
    step ⟨r.quoted, r.waiting ++ below⟩ c = some ⟨r'.quoted, r'.waiting ++ below⟩ := by
  rw [step] at h ⊢
  split_ifs at h ⊢ with hquote hquoted hbrace hbracket hclose
  · obtain rfl := Option.some.inj h
    rfl
  · obtain rfl := Option.some.inj h
    rfl
  · obtain rfl := Option.some.inj h
    rfl
  · obtain rfl := Option.some.inj h
    rfl
  · cases hw : r.waiting with
    | nil =>
      rw [hw] at h
      cases h
    | cons d waiting =>
      rw [hw, close] at h
      rw [cons_append, close]
      split_ifs at h ⊢
      obtain rfl := Option.some.inj h
      rfl
  · obtain rfl := Option.some.inj h
    rfl

variable {text : Text}

theorem read_below {r r' : Reader} (below : Text) (h : read r text = some r') :
    read ⟨r.quoted, r.waiting ++ below⟩ text = some ⟨r'.quoted, r'.waiting ++ below⟩ := by
  induction text generalizing r with
  | nil =>
    obtain rfl := Option.some.inj h
    rfl
  | cons c text ih =>
    rw [read] at h ⊢
    obtain ⟨s, hstep, hread⟩ := Option.bind_eq_some_iff.mp h
    rw [step_below below hstep]
    exact ih hread

/-- A balanced text leaves what waits. -/
theorem Balanced.read (h : Balanced text) (waiting : Text) :
    read ⟨false, waiting⟩ text = some ⟨false, waiting⟩ :=
  read_below waiting h

/-! ## Balanced texts -/

theorem balanced_nil : Balanced [] := rfl

/-- Behind a balanced text only the rest matters. -/
theorem Balanced.append_iff {a b : Text} (ha : Balanced a) : Balanced (a ++ b) ↔ Balanced b := by
  rw [Balanced, read_append, ha.read []]
  exact Iff.rfl

theorem Balanced.append {a b : Text} (ha : Balanced a) (hb : Balanced b) : Balanced (a ++ b) :=
  ha.append_iff.mpr hb

theorem step_plain {c : Byte} (hc : Plain c) (r : Reader) : step r c = some r := by
  obtain ⟨h₁, h₂, h₃, h₄, h₅⟩ := hc
  rw [step, if_neg h₁, if_neg h₂, if_neg h₄, if_neg (not_or.mpr ⟨h₃, h₅⟩)]
  exact ite_self _

theorem balanced_plain (h : ∀ c ∈ text, Plain c) : Balanced text := by
  induction text with
  | nil => rfl
  | cons c text ih =>
    rw [Balanced, Balance.read, step_plain (h c mem_cons_self)]
    exact ih fun d hd => h d (mem_cons_of_mem c hd)

/-- Without braces and brackets what waits stays. -/
theorem read_flat {text : Text} (h : ∀ c ∈ text, c = quote ∨ Plain c) (r : Reader) :
    ∃ quoted, read r text = some ⟨quoted, r.waiting⟩ := by
  induction text generalizing r with
  | nil => exact ⟨r.quoted, rfl⟩
  | cons c text ih =>
    have htext : ∀ d ∈ text, d = quote ∨ Plain d := fun d hd => h d (mem_cons_of_mem c hd)
    rw [Balance.read]
    rcases h c mem_cons_self with rfl | hc
    · rw [step, if_pos rfl]
      exact ih htext { r with quoted := !r.quoted }
    · rw [step_plain hc]
      exact ih htext r

/-- Between quotes anything but a quote is passed over. -/
theorem read_quoted (h : ∀ c ∈ text, c ≠ quote) (waiting : Text) :
    read ⟨true, waiting⟩ text = some ⟨true, waiting⟩ := by
  induction text with
  | nil => rfl
  | cons c text ih =>
    rw [Balance.read, step, if_neg (h c mem_cons_self), if_pos rfl]
    exact ih fun d hd => h d (mem_cons_of_mem c hd)

theorem balanced_quoted (h : ∀ c ∈ text, c ≠ quote) : Balanced (quote :: (text ++ [quote])) := by
  have hopen : step ⟨false, []⟩ quote = some ⟨true, []⟩ := by decide
  rw [Balanced, Balance.read, hopen, Option.bind_some, read_append, read_quoted h]
  decide

theorem Balanced.braces (h : Balanced text) : Balanced (openBrace :: (text ++ [closeBrace])) := by
  have hopen : step ⟨false, []⟩ openBrace = some ⟨false, [closeBrace]⟩ := by decide
  rw [Balanced, Balance.read, hopen, Option.bind_some, read_append, h.read]
  decide

theorem Balanced.brackets (h : Balanced text) :
    Balanced (openBracket :: (text ++ [closeBracket])) := by
  have hopen : step ⟨false, []⟩ openBracket = some ⟨false, [closeBracket]⟩ := by decide
  rw [Balanced, Balance.read, hopen, Option.bind_some, read_append, h.read]
  decide

/-- Texts with commas between them. -/
def commaJoin : List Text → Text
  | [] => []
  | text :: texts => text ++ texts.flatMap fun text => comma :: text

/-- Texts with a comma in front of each. -/
theorem balanced_flatMap_comma {texts : List Text} (h : ∀ text ∈ texts, Balanced text) :
    Balanced (texts.flatMap fun text => comma :: text) := by
  induction texts with
  | nil => rfl
  | cons text texts ih =>
    have hcomma : Balanced [comma] := by decide
    exact (hcomma.append (h text mem_cons_self)).append
      (ih fun t ht => h t (mem_cons_of_mem text ht))

theorem balanced_commaJoin {texts : List Text} (h : ∀ text ∈ texts, Balanced text) :
    Balanced (commaJoin texts) := by
  cases texts with
  | nil => rfl
  | cons text texts =>
    exact (h text mem_cons_self).append
      (balanced_flatMap_comma fun t ht => h t (mem_cons_of_mem text ht))

end Balance

end RutosSdk
