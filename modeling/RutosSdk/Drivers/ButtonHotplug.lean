import Mathlib.Data.List.Chain
import Mathlib.Data.List.TakeWhile
import RutosSdk.Lib.Bytes

/-! # Debouncing of buttons

Reference: `gpio_keys_handle_button` and `gpio_keys_polled_poll` in
`package/kernel/gpio-button-hotplug/src/gpio-button-hotplug.c`.

A poll samples every button. A state other than the last one is announced when it has been sampled
`threshold` times before, one after the other; a counter says how often it was. As long as nothing
is known of a switch the counter counts the samples of either state, so the first state that is
announced need not be one that lasted.
-/

namespace RutosSdk.Drivers.ButtonHotplug

open List

/-- `EV_KEY` and `EV_SW`. A button without a type is a key. -/
inductive EventType where
  | key
  | switch
deriving DecidableEq, Repr

/-- What the probe sets for a button, once. The threshold is 0 for a button that is not polled. -/
structure Button where
  map_entry : ℕ
  type : EventType
  threshold : ℕ
deriving DecidableEq, Repr

/-- `struct gpio_keys_button_data`, of a button with a GPIO. A `last_state` of -1 is `none`. -/
structure ButtonData extends Button where
  last_state : Option Bool
  count : ℕ
  seen : Word
deriving DecidableEq, Repr

/-- `struct bh_event` -/
structure Event where
  map_entry : ℕ
  type : EventType
  seen : Word
  pressed : Bool
deriving DecidableEq, Repr

/-- What `gpio_button_get_value` finds, and the time. -/
structure Sample where
  state : Bool
  jiffies : Word
deriving DecidableEq, Repr

variable {ι : Type} (HZ : Word)

variable (b : ButtonData) (buttons : ι → Button) (polls : List (ι → Sample))

/-- `gpio_keys_handle_button`, with the event that it creates. -/
def gpioKeysHandleButton (x : Sample) : ButtonData × Option Event :=
  if b.last_state = none ∧ b.type = .key ∧ x.state = false then
    ({ b with last_state := some x.state, count := 0 }, none)
  else if b.last_state = some x.state then ({ b with count := 0 }, none)
  else if b.count < b.threshold then ({ b with count := b.count + 1 }, none)
  else
    let seen := if b.seen = 0 then x.jiffies else b.seen
    ({ b with seen := x.jiffies, last_state := some x.state, count := 0 },
      some ⟨b.map_entry, b.type, (x.jiffies - seen) / HZ, x.state⟩)

/-- The buttons of a device, and the events that were created for each, in their order. -/
structure ButtonDev (ι : Type) where
  data : ι → ButtonData
  events : ι → List Event

/-- `gpio_keys_polled_poll`, with a sample of each button. -/
def gpioKeysPolledPoll (bdev : ButtonDev ι) (x : ι → Sample) : ButtonDev ι where
  data i := (gpioKeysHandleButton HZ (bdev.data i) (x i)).1
  events i := bdev.events i ++ (gpioKeysHandleButton HZ (bdev.data i) (x i)).2.toList

/-- The device after the probe. -/
def ButtonDev.probe : ButtonDev ι where
  data i := { buttons i with last_state := none, count := 0, seen := 0 }
  events _ := []

/-- The device after the polls. -/
def polled : ButtonDev ι := polls.foldl (gpioKeysPolledPoll HZ) (.probe buttons)

/-! ## What is to be announced -/

/-- The states of a button that were announced. -/
def announced (i : ι) : List Bool := ((polled HZ buttons polls).events i).map Event.pressed

/-- The states of a button that were sampled. -/
def sampled (i : ι) : List Bool := polls.map fun x => (x i).state

/-- A state is to be announced after `threshold` samples of it, unless it is the one announced last.
A key that is released is not announced first. -/
def Due (b : Button) (states told : List Bool) (state : Bool) : Prop :=
  List.replicate b.threshold state <:+ states ∧ told.getLast? ≠ some state ∧
    ¬(b.type = .key ∧ told = [] ∧ state = false)

instance (b : Button) (states told : List Bool) (state : Bool) :
    Decidable (Due b states told state) :=
  inferInstanceAs (Decidable (_ ∧ _ ∧ ¬_))

/-- At each poll the state is announced if it is to be, and the states that are announced
alternate. -/
structure Debounces (buttons : ι → Button) (polls : List (ι → Sample)) (i : ι) : Prop where
  announces : ∀ pre x post, polls = pre ++ x :: post →
    announced HZ buttons (pre ++ [x]) i = announced HZ buttons pre i
      ++ if Due (buttons i) (sampled pre i) (announced HZ buttons pre i) (x i).state
        then [(x i).state] else []
  alternates : (announced HZ buttons polls i).IsChain (· ≠ ·)

/-- The first samples of a switch, up to the one that is announced, have one state. -/
def SettlesFirst (b : Button) (states : List Bool) : Prop :=
  b.type = .switch → b.threshold < states.length →
    ∃ state, states.take (b.threshold + 1) = List.replicate (b.threshold + 1) state

/-! ## One sample -/

/-- The last state is what was announced last, or released for a key of which nothing was announced.
The counter counts the samples since, all of the other state; before there is a last state it counts
all samples. -/
def Tracks (states told : List Bool) : Prop :=
  b.count ≤ b.threshold ∧
    match b.last_state with
    | none => told = [] ∧ b.count = states.length ∧
      (b.type = .key → states = List.replicate b.count true)
    | some state =>
      (told.getLast? = some state ∨ told = [] ∧ b.type = .key ∧ state = false) ∧
        b.count = (states.reverse.takeWhile (· == !state)).length

theorem replicate_prefix_iff {n : ℕ} {a : Bool} {l : List Bool} :
    List.replicate n a <+: l ↔ n ≤ (l.takeWhile (· == a)).length := by
  induction l generalizing n with
  | nil => cases n <;> simp
  | cons b l ih =>
    cases n with
    | zero => simp
    | succ n =>
      rw [replicate_succ, cons_prefix_cons, ih, takeWhile_cons]
      by_cases hb : b = a
      · simp [hb]
      · simp [hb, Ne.symm hb]

/-- A stretch of samples as the counter sees it. -/
theorem replicate_suffix_iff {n : ℕ} {a : Bool} {l : List Bool} :
    List.replicate n a <:+ l ↔ n ≤ (l.reverse.takeWhile (· == a)).length := by
  rw [← replicate_prefix_iff, ← reverse_prefix, reverse_replicate]

theorem takeWhile_snoc (l : List Bool) (a state : Bool) :
    ((l ++ [a]).reverse.takeWhile (· == state)).length
      = if a = state then (l.reverse.takeWhile (· == state)).length + 1 else 0 := by
  by_cases h : a = state <;> simp [h]

/-- What a sample does: it is the released state of a key of which nothing is known, it is the last
state, it is counted, or it is announced. -/
theorem gpioKeysHandleButton_cases (x : Sample) :
    (b.last_state = none ∧ b.type = .key ∧ x.state = false ∧
      gpioKeysHandleButton HZ b x = ({ b with last_state := some false, count := 0 }, none)) ∨
    (b.last_state = some x.state ∧ gpioKeysHandleButton HZ b x = ({ b with count := 0 }, none)) ∨
    ((b.last_state = none ∧ (b.type = .key → x.state = true) ∨ b.last_state = some (!x.state)) ∧
      (b.count < b.threshold ∧
          gpioKeysHandleButton HZ b x = ({ b with count := b.count + 1 }, none) ∨
        b.threshold ≤ b.count ∧ ∃ event : Event, event.pressed = x.state ∧
          gpioKeysHandleButton HZ b x
            = ({ b with seen := x.jiffies, last_state := some x.state, count := 0 },
              some event))) := by
  unfold gpioKeysHandleButton
  split
  next h => exact .inl ⟨h.1, h.2.1, h.2.2, by rw [h.2.2]⟩
  next hfirst =>
    split
    next h => exact .inr (.inl ⟨h, rfl⟩)
    next hother =>
      refine .inr (.inr ⟨?_, ?_⟩)
      · rcases hlast : b.last_state with _ | q
        · refine .inl ⟨rfl, fun hkey => ?_⟩
          simpa [hlast, hkey] using hfirst
        · refine .inr (congrArg some (Bool.eq_not_of_ne fun h => hother ?_))
          rw [hlast, h]
      · split
        next h => exact .inl ⟨h, rfl⟩
        next h => exact .inr ⟨Nat.le_of_not_lt h, _, rfl, rfl⟩

/-- A sample leaves what the probe set. -/
theorem toButton_gpioKeysHandleButton (x : Sample) :
    (gpioKeysHandleButton HZ b x).1.toButton = b.toButton := by
  rcases gpioKeysHandleButton_cases HZ b x with
    ⟨-, -, -, h⟩ | ⟨-, h⟩ | ⟨-, ⟨-, h⟩ | ⟨-, event, -, h⟩⟩ <;> rw [h]

variable {HZ} {b : ButtonData} {states told : List Bool} {x : Sample}

theorem Tracks.handle (h : Tracks b states told) (x : Sample) :
    Tracks (gpioKeysHandleButton HZ b x).1 (states ++ [x.state])
      (told ++ (gpioKeysHandleButton HZ b x).2.toList.map Event.pressed) := by
  obtain ⟨hle, h⟩ := h
  rcases gpioKeysHandleButton_cases HZ b x with
    ⟨hlast, hkey, hstate, heq⟩ | ⟨hlast, heq⟩ | ⟨hlast, ⟨hcount, heq⟩ | ⟨hcount, event, hp, heq⟩⟩
  · rw [hlast] at h
    rw [heq]
    refine ⟨Nat.zero_le _, .inr ⟨by simp [h.1], hkey, rfl⟩, ?_⟩
    rw [takeWhile_snoc, hstate]
    rfl
  · rw [hlast] at h
    rw [heq]
    simp only [hlast]
    refine ⟨Nat.zero_le _, by simpa using h.1, ?_⟩
    rw [takeWhile_snoc, if_neg (by simp)]
  · rw [heq]
    refine ⟨hcount, ?_⟩
    rcases hlast with ⟨hlast, hpressed⟩ | hlast
    · simp only [hlast] at h ⊢
      refine ⟨by simp [h.1], by simp [h.2.1], fun hkey => ?_⟩
      rw [replicate_succ', ← h.2.2 hkey, hpressed hkey]
    · simp only [hlast] at h ⊢
      refine ⟨by simpa using h.1, ?_⟩
      rw [takeWhile_snoc, if_pos (by simp), h.2]
  · rw [heq]
    refine ⟨Nat.zero_le _, .inl (by simp [hp]), ?_⟩
    rw [takeWhile_snoc, if_neg (by simp)]

/-- With a last state the other one is to be announced when the counter is full. -/
theorem Tracks.due_iff_of_some (h : Tracks b states told) {q state : Bool}
    (hlast : b.last_state = some q) :
    Due b.toButton states told state ↔ state = !q ∧ b.threshold ≤ b.count := by
  obtain ⟨-, h⟩ := h
  simp only [hlast] at h
  unfold Due
  rw [replicate_suffix_iff, h.2]
  by_cases hstate : state = !q
  · subst hstate
    -- the other state is neither the one announced last nor the released one of a key at rest
    rcases h.1 with h | ⟨h, -, hq⟩
    · have hne : told ≠ [] := by
        rintro rfl
        simp at h
      simp [h, hne]
    · simp [h, hq]
  · have hq : state = q := by simpa using hstate
    subst hq
    rcases h.1 with h | ⟨h, hkey, hstate⟩
    · simp [h]
    · simp [h, hkey, hstate]

/-- Without a last state one is to be announced after `threshold` samples of it. -/
theorem Tracks.due_iff_of_none (h : Tracks b states told) {state : Bool}
    (hlast : b.last_state = none) :
    Due b.toButton states told state ↔
      List.replicate b.threshold state <:+ states ∧ (b.type = .key → state = true) := by
  obtain ⟨-, h⟩ := h
  simp only [hlast] at h
  simp [Due, h.1]

/-- A sample is announced if it is to be, provided that a switch of which nothing is known has been
in one state when its counter is full. -/
theorem Tracks.announces_iff (h : Tracks b states told) :
    (gpioKeysHandleButton HZ b x).2.toList.map Event.pressed
        = (if Due b.toButton states told x.state then [x.state] else []) ↔
      (b.last_state = none → b.type = .switch → states.length = b.threshold →
        states = List.replicate b.threshold x.state) := by
  have hle := h.1
  rcases gpioKeysHandleButton_cases HZ b x with
    ⟨hlast, hkey, hstate, heq⟩ | ⟨hlast, heq⟩ |
      ⟨⟨hlast, hpressed⟩ | hlast, ⟨hcount, heq⟩ | ⟨hcount, event, hp, heq⟩⟩
  · rw [heq, if_neg fun hdue => by simpa [hkey, hstate] using (h.due_iff_of_none hlast).mp hdue]
    simp [hkey]
  · rw [heq, if_neg fun hdue => by simpa using (h.due_iff_of_some hlast).mp hdue]
    simp [hlast]
  · -- fewer samples than the threshold: nothing is to be told
    have hlen : b.count = states.length := by
      have := h.2
      simp only [hlast] at this
      exact this.2.1
    have hshort : ¬List.replicate b.threshold x.state <:+ states := by
      intro hsuf
      have := hsuf.length_le
      rw [length_replicate] at this
      omega
    rw [heq, if_neg fun hdue => hshort ((h.due_iff_of_none hlast).mp hdue).1]
    refine iff_of_true rfl fun _ _ hfull => ?_
    omega
  · have hnone := h.2
    simp only [hlast] at hnone
    have hfull : states.length = b.threshold := by omega
    have hsuf : List.replicate b.threshold x.state <:+ states ↔
        states = List.replicate b.threshold x.state :=
      ⟨fun hsuf => (hsuf.eq_of_length (by simp [hfull])).symm, fun heq => heq ▸ suffix_rfl⟩
    have hdue : Due b.toButton states told x.state ↔ _ := h.due_iff_of_none hlast
    rw [heq]
    cases htype : b.type with
    | key =>
      have hall : states = List.replicate b.threshold x.state := by
        rw [hpressed htype, ← hfull, ← hnone.2.1]
        exact hnone.2.2 htype
      rw [if_pos (hdue.mpr ⟨hsuf.mpr hall, fun _ => hpressed htype⟩)]
      simp [hp]
    | switch =>
      by_cases hall : states = List.replicate b.threshold x.state
      · rw [if_pos (hdue.mpr ⟨hsuf.mpr hall, hpressed⟩)]
        simp [hp, hall]
      · rw [if_neg fun h => hall (hsuf.mp (hdue.mp h).1)]
        simp [hlast, hfull, hall]
  · rw [heq, if_neg fun hdue => by have := ((h.due_iff_of_some hlast).mp hdue).2; omega]
    simp [hlast]
  · rw [heq, if_pos ((h.due_iff_of_some hlast).mpr ⟨by simp, hcount⟩)]
    simp [hp, hlast]

/-! ## All samples -/

variable (HZ) (buttons : ι → Button) (polls : List (ι → Sample)) (i : ι)

theorem polled_snoc (x : ι → Sample) :
    polled HZ buttons (polls ++ [x]) = gpioKeysPolledPoll HZ (polled HZ buttons polls) x := by
  rw [polled, foldl_append]
  rfl

theorem announced_snoc (x : ι → Sample) :
    announced HZ buttons (polls ++ [x]) i
      = announced HZ buttons polls i
        ++ (gpioKeysHandleButton HZ ((polled HZ buttons polls).data i) (x i)).2.toList.map
          Event.pressed := by
  rw [announced, polled_snoc]
  exact map_append

theorem sampled_snoc (x : ι → Sample) :
    sampled (polls ++ [x]) i = sampled polls i ++ [(x i).state] :=
  map_append

theorem toButton_polled : ((polled HZ buttons polls).data i).toButton = buttons i := by
  induction polls using List.reverseRecOn with
  | nil => rfl
  | append_singleton polls x ih =>
    rw [polled_snoc]
    exact (toButton_gpioKeysHandleButton HZ _ _).trans ih

theorem tracks_polled :
    Tracks ((polled HZ buttons polls).data i) (sampled polls i)
      (announced HZ buttons polls i) := by
  induction polls using List.reverseRecOn with
  | nil => exact ⟨Nat.zero_le _, rfl, rfl, fun _ => rfl⟩
  | append_singleton polls x ih =>
    rw [announced_snoc, sampled_snoc, polled_snoc]
    exact ih.handle (x i)

/-- Nothing is known of a switch before its counter is full. -/
theorem last_state_polled_switch (htype : (buttons i).type = .switch)
    (hlen : polls.length ≤ (buttons i).threshold) :
    ((polled HZ buttons polls).data i).last_state = none := by
  induction polls using List.reverseRecOn with
  | nil => rfl
  | append_singleton polls x ih =>
    rw [length_append, length_singleton] at hlen
    have hnone := ih (by omega)
    have hb := toButton_polled HZ buttons polls i
    have hcount : ((polled HZ buttons polls).data i).count = polls.length := by
      have := (tracks_polled HZ buttons polls i).2
      simp only [hnone] at this
      rw [this.2.1, sampled, length_map]
    rw [polled_snoc]
    change (gpioKeysHandleButton HZ _ _).1.last_state = none
    rcases gpioKeysHandleButton_cases HZ ((polled HZ buttons polls).data i) (x i) with
      ⟨-, hkey, -⟩ | ⟨hlast, -⟩ | ⟨-, ⟨-, heq⟩ | ⟨hfull, -⟩⟩
    · rw [hb, htype] at hkey
      cases hkey
    · rw [hnone] at hlast
      cases hlast
    · rw [heq]
      exact hnone
    · rw [hb] at hfull
      omega

/-- The announcement at a poll is right unless the poll is the first one that is announced of a
switch. -/
theorem announces_at_iff (x : ι → Sample) :
    announced HZ buttons (polls ++ [x]) i
        = announced HZ buttons polls i
          ++ (if Due (buttons i) (sampled polls i)
            (announced HZ buttons polls i) (x i).state then [(x i).state] else []) ↔
      ((buttons i).type = .switch → polls.length = (buttons i).threshold →
        sampled polls i = List.replicate (buttons i).threshold (x i).state) := by
  have h := @Tracks.announces_iff HZ _ _ _ (x i) (tracks_polled HZ buttons polls i)
  have hlength : (sampled polls i).length = polls.length := length_map _
  rw [toButton_polled, hlength] at h
  rw [announced_snoc, append_cancel_left_eq, h]
  constructor
  · intro h htype hlen
    exact h (last_state_polled_switch HZ buttons polls i htype hlen.le) htype hlen
  · intro h _
    exact h

/-- What is announced differs from what was announced before it, so the announcements alternate. -/
theorem isChain_announced
    (h : ∀ pre x post, polls = pre ++ x :: post →
      announced HZ buttons (pre ++ [x]) i = announced HZ buttons pre i
        ++ if Due (buttons i) (sampled pre i) (announced HZ buttons pre i) (x i).state
          then [(x i).state] else []) :
    (announced HZ buttons polls i).IsChain (· ≠ ·) := by
  induction polls using List.reverseRecOn with
  | nil => exact .nil
  | append_singleton polls x ih =>
    have hchain := ih fun pre y post hpolls => h pre y (post ++ [x]) (by simp [hpolls])
    rw [h polls x [] rfl]
    split
    next hdue =>
      refine hchain.append (.singleton _) fun state hstate y hy => ?_
      rw [List.head?_singleton, Option.mem_some_iff] at hy
      rintro rfl
      exact hdue.2.1 (hy ▸ hstate)
    next => simpa using hchain

/-- The events of a button are debounced in every sequence of polls, unless it is a switch whose
first `threshold + 1` samples are not all of one state. -/
theorem debounces_iff :
    Debounces HZ buttons polls i ↔ SettlesFirst (buttons i) (sampled polls i) := by
  constructor
  · intro h htype hlen
    rw [sampled, length_map] at hlen
    have hpolls : polls = polls.take (buttons i).threshold
        ++ polls[(buttons i).threshold] :: polls.drop ((buttons i).threshold + 1) := by
      rw [← drop_eq_getElem_cons, take_append_drop]
    have hfirst := (announces_at_iff HZ buttons _ i _).mp (h.announces _ _ _ hpolls) htype
      (length_take_of_le hlen.le)
    refine ⟨(polls[(buttons i).threshold] i).state, ?_⟩
    rw [replicate_succ', ← hfirst, sampled, sampled, ← map_take, take_succ_eq_append_getElem hlen]
    exact map_append
  · intro h
    have hannounces : ∀ pre x post, polls = pre ++ x :: post →
        announced HZ buttons (pre ++ [x]) i = announced HZ buttons pre i
          ++ if Due (buttons i) (sampled pre i) (announced HZ buttons pre i) (x i).state
            then [(x i).state] else [] := by
      intro pre x post hpolls
      refine (announces_at_iff HZ buttons pre i x).mpr fun htype hlen => ?_
      have hsampled : sampled polls i = (sampled pre i ++ [(x i).state]) ++ sampled post i := by
        simp [sampled, hpolls]
      have hpre : (sampled pre i ++ [(x i).state]).length = (buttons i).threshold + 1 := by
        simp [sampled, hlen]
      obtain ⟨state, hstate⟩ := h htype (by rw [hsampled, length_append, hpre]; omega)
      rw [hsampled, take_left' hpre, replicate_succ'] at hstate
      obtain ⟨hstates, hx⟩ := append_inj' hstate rfl
      rw [hstates, singleton_inj.mp hx]
    exact ⟨hannounces, isChain_announced HZ buttons polls i hannounces⟩

/-- A switch with a threshold of 3 is on for three samples and off in the fourth, at which it is
announced as off. -/
theorem not_debounces :
    ¬Debounces 100 (fun _ : Unit => ⟨0, .switch, 3⟩)
      [fun _ => ⟨true, 1000⟩, fun _ => ⟨true, 1002⟩, fun _ => ⟨true, 1004⟩, fun _ => ⟨false, 1006⟩]
      () := by
  intro h
  have hlast := h.announces
    [fun _ => ⟨true, 1000⟩, fun _ => ⟨true, 1002⟩, fun _ => ⟨true, 1004⟩] _ [] rfl
  revert hlast
  decide

end RutosSdk.Drivers.ButtonHotplug
