import Mathlib.Data.List.Nodup

/-! # Finding frames through a sliding window

A stream arrives in pieces. A window keeps the part from `dropped` to `received`, is scanned for
frames after every piece, gives up everything up to the end of the last frame found, and gives up
`slack` more elements when it is too full for the next piece. What counts as a frame is a parameter.

No frame is lost that is short enough and overlaps no other frame: such a frame stays in the window
until it is complete, and the scan then stops at its first element.
-/

namespace RutosSdk

open List

/-- Tells whether a frame starts at an index of a memory, out of the `size` elements available from
there, and gives its size. Only the elements of the frame itself matter. -/
structure Recogniser (α : Type) where
  frameAt : (ℕ → α) → ℕ → ℕ → Option ℕ
  pos_le : ∀ {mem base size n}, frameAt mem base size = some n → 0 < n ∧ n ≤ size
  stable : ∀ {mem mem' base base' size size' n}, frameAt mem base size = some n →
    (∀ i, i < n → mem' (base' + i) = mem (base + i)) → n ≤ size' →
    frameAt mem' base' size' = some n

variable {i n : ℕ}

namespace Recogniser

variable {α : Type} (R : Recogniser α) (S : ℕ → α)

/-- The elements `i` to `i + n - 1` are a frame. -/
def IsFrame (i n : ℕ) : Prop := R.frameAt S i n = some n

variable {R S}

variable {size received : ℕ}

theorem isFrame_of_frameAt (h : R.frameAt S i size = some n) : R.IsFrame S i n :=
  R.stable h (fun _ _ => rfl) (Nat.le_refl n)

theorem IsFrame.pos (h : R.IsFrame S i n) : 0 < n := (R.pos_le h).1

/-- A frame is found wherever it is complete. -/
theorem IsFrame.frameAt (h : R.IsFrame S i n) (hn : n ≤ size) : R.frameAt S i size = some n :=
  R.stable h (fun _ _ => rfl) hn

/-- What is found depends on the available elements only. -/
theorem frameAt_congr {mem mem' : ℕ → α} {base base' : ℕ}
    (h : ∀ i, i < size → mem' (base' + i) = mem (base + i)) :
    R.frameAt mem' base' size = R.frameAt mem base size := by
  cases hmem : R.frameAt mem base size with
  | some n =>
    obtain ⟨_, hn⟩ := R.pos_le hmem
    exact R.stable hmem (fun i hi => h i (by omega)) hn
  | none =>
    cases hmem' : R.frameAt mem' base' size with
    | none => rfl
    | some n =>
      obtain ⟨_, hn⟩ := R.pos_le hmem'
      have := R.stable hmem' (fun i hi => (h i (by omega)).symm) hn
      rw [hmem] at this
      cases this

/-! ## One scan -/

variable (R S)

/-- The frames found from `i` on in what was received: the scan goes on after a frame, and at the
next element where there is none. -/
def scan (received i : ℕ) : List (ℕ × ℕ) :=
  if _h : i < received then
    match hf : R.frameAt S i (received - i) with
    | some n => (i, n) :: scan received (i + n)
    | none => scan received (i + 1)
  else []
termination_by received - i
decreasing_by
  · have := (R.pos_le hf).1
    omega
  · omega

variable {R S}

theorem scan_of_le (h : received ≤ i) : R.scan S received i = [] := by
  rw [scan, dif_neg (Nat.not_lt.mpr h)]

theorem scan_of_frame (h : i < received) (hf : R.frameAt S i (received - i) = some n) :
    R.scan S received i = (i, n) :: R.scan S received (i + n) := by
  rw [scan, dif_pos h]
  split
  · rename_i m hm
    obtain rfl : m = n := Option.some.inj (hm.symm.trans hf)
    rfl
  · rename_i hm
    cases hm.symm.trans hf

theorem scan_of_none (h : i < received) (hf : R.frameAt S i (received - i) = none) :
    R.scan S received i = R.scan S received (i + 1) := by
  rw [scan, dif_pos h]
  split
  · rename_i m hm
    cases hm.symm.trans hf
  · rfl

/-- The cases of a scan: at the end, at a frame, and at another element. -/
theorem scan_induction (R : Recogniser α) (S : ℕ → α) (received : ℕ) {motive : ℕ → Prop}
    (hend : ∀ i, received ≤ i → motive i)
    (hframe : ∀ i n, i < received → R.frameAt S i (received - i) = some n → motive (i + n)
      → motive i)
    (hnone : ∀ i, i < received → R.frameAt S i (received - i) = none → motive (i + 1) → motive i)
    (i : ℕ) : motive i := by
  induction hk : received - i using Nat.strongRecOn generalizing i with
  | ind k ih =>
    by_cases h : i < received
    · cases hf : R.frameAt S i (received - i) with
      | some n =>
        have hpos := (R.pos_le hf).1
        exact hframe i n h hf (ih (received - (i + n)) (by omega) (i + n) rfl)
      | none => exact hnone i h hf (ih (received - (i + 1)) (by omega) (i + 1) rfl)
    · exact hend i (Nat.not_lt.mp h)

/-- What the scan finds are complete frames from where it starts. -/
theorem mem_scan {f : ℕ × ℕ} (h : f ∈ R.scan S received i) :
    R.IsFrame S f.1 f.2 ∧ i ≤ f.1 ∧ f.1 + f.2 ≤ received := by
  induction i using scan_induction R S received with
  | hend i hi => rw [scan_of_le hi] at h; cases h
  | hframe i n hi hf ih =>
    obtain ⟨hpos, hn⟩ := R.pos_le hf
    rw [scan_of_frame hi hf] at h
    rcases mem_cons.mp h with rfl | h
    · exact ⟨isFrame_of_frameAt hf, Nat.le_refl i, by dsimp only; omega⟩
    · obtain ⟨hfr, hle, hr⟩ := ih h
      exact ⟨hfr, by omega, hr⟩
  | hnone i hi hf ih =>
    rw [scan_of_none hi hf] at h
    obtain ⟨hfr, hle, hr⟩ := ih h
    exact ⟨hfr, by omega, hr⟩

/-- In stream order, one after the other. -/
def Ordered (frames : List (ℕ × ℕ)) : Prop := frames.Pairwise fun f g => f.1 + f.2 ≤ g.1

theorem ordered_scan (received i : ℕ) : Ordered (R.scan S received i) := by
  induction i using scan_induction R S received with
  | hend i hi => rw [scan_of_le hi]; exact List.Pairwise.nil
  | hframe i n hi hf ih =>
    rw [scan_of_frame hi hf]
    exact List.Pairwise.cons (fun g hg => (mem_scan hg).2.1) ih
  | hnone i hi hf ih => rw [scan_of_none hi hf]; exact ih

/-- A frame is found if no frame found earlier reaches over its start. -/
theorem mem_scan_of_isFrame {j : ℕ} (hframe : R.IsFrame S j n) (hij : i ≤ j) (hr : j + n ≤ received)
    (hfree : ∀ k m, R.IsFrame S k m → k < j → k + m ≤ received → k + m ≤ j) :
    (j, n) ∈ R.scan S received i := by
  have hpos := hframe.pos
  induction i using scan_induction R S received with
  | hend i hi => omega
  | hframe i m hi hf ih =>
    rw [scan_of_frame hi hf]
    rcases Nat.eq_or_lt_of_le hij with rfl | hlt
    · have hn : R.frameAt S i (received - i) = some n := hframe.frameAt (by omega)
      obtain rfl : m = n := Option.some.inj (hf.symm.trans hn)
      exact mem_cons_self
    · have hm := (R.pos_le hf).2
      have := hfree i m (isFrame_of_frameAt hf) hlt (by omega)
      exact mem_cons_of_mem _ (ih this)
  | hnone i hi hf ih =>
    rw [scan_of_none hi hf]
    rcases Nat.eq_or_lt_of_le hij with rfl | hlt
    · have hn : R.frameAt S i (received - i) = some n := hframe.frameAt (by omega)
      cases hf.symm.trans hn
    · exact ih hlt

/-- The end of the last frame, or `i` where there is none. -/
def frameEnd : ℕ → List (ℕ × ℕ) → ℕ
  | i, [] => i
  | _, f :: frames => frameEnd (f.1 + f.2) frames

/-- The end is where it started or the end of one of the frames. -/
theorem frameEnd_eq (i : ℕ) (frames : List (ℕ × ℕ)) :
    frameEnd i frames = i ∨ ∃ f ∈ frames, frameEnd i frames = f.1 + f.2 := by
  induction frames generalizing i with
  | nil => exact .inl rfl
  | cons f frames ih =>
    right
    rcases ih (f.1 + f.2) with h | ⟨g, hg, h⟩
    · exact ⟨f, mem_cons_self, h⟩
    · exact ⟨g, mem_cons_of_mem _ hg, h⟩

/-- No frame ends after it. -/
theorem le_frameEnd {frames : List (ℕ × ℕ)} (hordered : Ordered frames)
    (hstart : ∀ f ∈ frames, i ≤ f.1) :
    i ≤ frameEnd i frames ∧ ∀ f ∈ frames, f.1 + f.2 ≤ frameEnd i frames := by
  induction frames generalizing i with
  | nil => exact ⟨Nat.le_refl i, fun f hf => by cases hf⟩
  | cons f frames ih =>
    obtain ⟨hf, hrest⟩ := pairwise_cons.mp hordered
    obtain ⟨hle, hall⟩ := ih hrest hf
    have hi := hstart f mem_cons_self
    have hend : frameEnd i (f :: frames) = frameEnd (f.1 + f.2) frames := rfl
    refine ⟨by omega, ?_⟩
    intro g hg
    rcases mem_cons.mp hg with rfl | hg
    · exact hle
    · exact hall g hg

end Recogniser

/-! ## The window -/

/-- The part of the stream that is kept, and the frames that were found. -/
structure Window where
  dropped : ℕ
  received : ℕ
  log : List (ℕ × ℕ)

namespace Window

open Recogniser

variable {α : Type} (R : Recogniser α) (S : ℕ → α) (capacity slack : ℕ)

/-- Nothing was received. -/
def initial : Window := ⟨0, 0, []⟩

/-- `k` more elements arrive. -/
def feed (k : ℕ) (w : Window) : Window :=
  let received := w.received + k
  let frames := R.scan S received w.dropped
  let dropped := frameEnd w.dropped frames
  ⟨if capacity - (received - dropped) < slack then dropped + slack else dropped, received,
    w.log ++ frames⟩

/-- A frame within the first `total` elements that no other such frame overlaps. -/
def Lonely (total i n : ℕ) : Prop :=
  R.IsFrame S i n ∧ i + n ≤ total
    ∧ ∀ j m, R.IsFrame S j m → j + m ≤ total → (j, m) ≠ (i, n) → j + m ≤ i ∨ i + n ≤ j

/-- There is room for the next piece, the frames found are frames of the stream, in order and all
dropped, and no lonely frame of at most `longest` elements was missed. -/
structure Sound (total longest : ℕ) (w : Window) : Prop where
  dropped_le : w.dropped ≤ w.received
  room : w.received - w.dropped + slack ≤ capacity
  frames : ∀ f ∈ w.log, R.IsFrame S f.1 f.2 ∧ f.1 + f.2 ≤ w.dropped
  ordered : Ordered w.log
  found : ∀ i n, Lonely R S total i n → n ≤ longest → i + n ≤ w.received → (i, n) ∈ w.log
  kept : ∀ i n, Lonely R S total i n → n ≤ longest → w.received < i + n → w.dropped ≤ i

variable {R S capacity slack}

theorem sound_initial {total longest : ℕ} (hcap : slack ≤ capacity) :
    Sound R S capacity slack total longest initial where
  dropped_le := Nat.le_refl 0
  room := by
    rw [initial, Nat.sub_self, Nat.zero_add]
    exact hcap
  frames f hf := by cases hf
  ordered := List.Pairwise.nil
  found i n hlonely _ hle := by
    have := hlonely.1.pos
    have : i + n ≤ 0 := hle
    omega
  kept _ _ _ _ _ := Nat.zero_le _

/-- A frame that overlaps a lonely one is that one. -/
theorem Lonely.apart {total j m : ℕ} (h : Lonely R S total i n) (hframe : R.IsFrame S j m)
    (htotal : j + m ≤ total) (hne : j ≠ i ∨ m ≠ n) : j + m ≤ i ∨ i + n ≤ j := by
  refine h.2.2 j m hframe htotal ?_
  rintro ⟨⟩
  rcases hne with h | h
  · exact h rfl
  · exact h rfl

section Feed

variable {total longest k : ℕ} {w : Window}

/-- The end of the frames found lies between the part dropped and the part received. -/
theorem frameEnd_scan_mem (h : w.dropped ≤ w.received) :
    w.dropped ≤ frameEnd w.dropped (R.scan S (w.received + k) w.dropped)
      ∧ frameEnd w.dropped (R.scan S (w.received + k) w.dropped) ≤ w.received + k := by
  refine ⟨(le_frameEnd (ordered_scan _ _) fun f hf => (mem_scan hf).2.1).1, ?_⟩
  rcases frameEnd_eq w.dropped (R.scan S (w.received + k) w.dropped) with heq | ⟨f, hf, heq⟩
  · omega
  · have := (mem_scan hf).2.2
    omega

/-- A lonely frame that becomes complete is found. -/
theorem found_of_complete (hlonely : Lonely R S total i n) (htotal : w.received + k ≤ total)
    (hkept : w.dropped ≤ i) (hr : i + n ≤ w.received + k) :
    (i, n) ∈ R.scan S (w.received + k) w.dropped := by
  refine mem_scan_of_isFrame hlonely.1 hkept hr ?_
  intro j m hframe hlt hle
  rcases hlonely.apart hframe (by omega) (.inl (by omega)) with h | h
  · exact h
  · omega

/-- The frames found do not reach into a lonely frame that is incomplete. -/
theorem frameEnd_le_of_incomplete (hlonely : Lonely R S total i n) (htotal : w.received + k ≤ total)
    (hkept : w.dropped ≤ i) (hr : w.received + k < i + n) :
    frameEnd w.dropped (R.scan S (w.received + k) w.dropped) ≤ i := by
  rcases frameEnd_eq w.dropped (R.scan S (w.received + k) w.dropped) with heq | ⟨f, hf, heq⟩
  · omega
  · obtain ⟨hframe, hstart, hend⟩ := mem_scan hf
    rcases hlonely.apart hframe (by omega) (by omega) with h | h
    · omega
    · omega

/-- One more piece: nothing that matters is lost, as long as the longest frame still fits beside
what is given up for room. -/
theorem Sound.feed (h : Sound R S capacity slack total longest w) (hk : k ≤ slack)
    (htotal : w.received + k ≤ total) (hlongest : longest + 2 * slack ≤ capacity + 1)
    (hslack : 2 * slack ≤ capacity) :
    Sound R S capacity slack total longest (w.feed R S capacity slack k) := by
  have hle := h.dropped_le
  have hroom := h.room
  obtain ⟨hlow, hhigh⟩ := frameEnd_scan_mem (R := R) (S := S) (k := k) hle
  have hends := (le_frameEnd (ordered_scan (R := R) (S := S) (w.received + k) w.dropped)
    fun f hf => (mem_scan hf).2.1).2
  have hdropped : frameEnd w.dropped (R.scan S (w.received + k) w.dropped)
      ≤ (w.feed R S capacity slack k).dropped := by
    rw [Window.feed]
    dsimp only
    split_ifs <;> omega
  constructor
  · rw [Window.feed]
    dsimp only
    split_ifs <;> omega
  · rw [Window.feed]
    dsimp only
    split_ifs <;> omega
  · intro f hf
    rcases mem_append.mp hf with hf | hf
    · obtain ⟨hframe, hend⟩ := h.frames f hf
      exact ⟨hframe, by omega⟩
    · exact ⟨(mem_scan hf).1, Nat.le_trans (hends f hf) hdropped⟩
  · refine pairwise_append.mpr ⟨h.ordered, ordered_scan _ _, ?_⟩
    intro f hf g hg
    exact Nat.le_trans (h.frames f hf).2 (mem_scan hg).2.1
  · intro i n hlonely hn hr
    by_cases hold : i + n ≤ w.received
    · exact mem_append_left _ (h.found i n hlonely hn hold)
    · have hkept := h.kept i n hlonely hn (Nat.not_le.mp hold)
      exact mem_append_right _ (found_of_complete hlonely htotal hkept hr)
  · intro i n hlonely hn hr
    have hr : w.received + k < i + n := hr
    have hkept := h.kept i n hlonely hn (by omega)
    have hfree := frameEnd_le_of_incomplete hlonely htotal hkept hr
    -- the elements given up for room lie before the last `longest` ones
    rw [Window.feed]
    dsimp only
    split_ifs <;> omega

end Feed

/-- A frame found is found once. -/
theorem Sound.count_eq_one {total longest : ℕ} {w : Window} {f : ℕ × ℕ}
    (h : Sound R S capacity slack total longest w) (hf : f ∈ w.log) : w.log.count f = 1 := by
  refine count_eq_one_of_mem ?_ hf
  refine List.Pairwise.imp_of_mem ?_ h.ordered
  rintro a b ha _ hab rfl
  have := (h.frames a ha).1.pos
  omega

end Window

end RutosSdk
