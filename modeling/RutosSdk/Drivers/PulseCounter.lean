import Mathlib.Data.Fin.Basic
import RutosSdk.Lib.Bytes
import RutosSdk.Lib.Ledger
import RutosSdk.Lib.Steps

/-! # The pulse counter

Reference: `package/kernel/pulse-counter/src/pulse_counter.c`.

A write to `gpio_pins_add` requests a GPIO and makes a context for it, with a directory in sysfs and
an interrupt; a write to `gpio_pins_remove` undoes that, and so does the exit of the module for the
contexts that are left. What the module requests from the kernel and gives back is written to a log.
Each request may fail, by the outcomes that come with a write.
-/

namespace RutosSdk.Drivers.PulseCounter

open Ledger Steps

def MAX_GPIO_PINS : ℕ := 10

def IRQF_TRIGGER_RISING : ℕ := 1
def IRQF_TRIGGER_FALLING : ℕ := 2
def IRQF_TRIGGER_BOTH : ℕ := 3

/-- A place in `gpio_ctxs`. -/
abbrev Slot := Fin MAX_GPIO_PINS

/-- `struct gpio_ctx`, without the counters. -/
structure GpioCtx where
  pin : ℕ
  irq : ℕ
  debounce_time_ms : ℕ
  edge_type : ℕ
deriving DecidableEq, Repr

/-- What the kernel lends: a GPIO by its number, and an interrupt by its number and the context that
it is registered with. -/
inductive Resource where
  | gpio (pin : ℕ)
  | irq (irq : ℕ) (ctx : Slot)
deriving DecidableEq, Repr

structure State where
  gpio_ctxs : Slot → Option GpioCtx
  log : List (Event Resource)

/-- `pulse_counter_init` -/
def init : State := ⟨fun _ => none, []⟩

namespace State

variable (s : State)

def acquire (r : Resource) : State := { s with log := .acquire r :: s.log }

def release (r : Resource) : State := { s with log := .release r :: s.log }

def setCtx (i : Slot) (ctx : Option GpioCtx) : State :=
  { s with gpio_ctxs := Function.update s.gpio_ctxs i ctx }

theorem setCtx_none_eq_some {s : State} {i j : Slot} {ctx : GpioCtx} :
    (s.setCtx i none).gpio_ctxs j = some ctx ↔ j ≠ i ∧ s.gpio_ctxs j = some ctx := by
  simp only [setCtx, Function.update_apply]
  split_ifs with hj <;> simp [hj]

theorem setCtx_some_eq_some {s : State} {i j : Slot} {new ctx : GpioCtx} :
    (s.setCtx i (some new)).gpio_ctxs j = some ctx
      ↔ j = i ∧ ctx = new ∨ j ≠ i ∧ s.gpio_ctxs j = some ctx := by
  simp only [setCtx, Function.update_apply]
  split_ifs with hj <;> simp [hj, eq_comm]

theorem setCtx_setCtx (i : Slot) (ctx ctx' : Option GpioCtx) :
    (s.setCtx i ctx).setCtx i ctx' = s.setCtx i ctx' := by
  rw [setCtx, setCtx, setCtx, Function.update_idem]

theorem setCtx_eq_self {i : Slot} {ctx : Option GpioCtx} (h : s.gpio_ctxs i = ctx) :
    s.setCtx i ctx = s := by
  rw [setCtx, ← h, Function.update_eq_self]

end State

/-! ## The functions of the driver -/

/-- What the kernel answers to the calls of a write to `gpio_pins_add`; `none` is a name that no
GPIO has. -/
structure AddAnswers where
  get_gpio_by_name : Option ℕ
  gpio_request : ℤ
  gpio_direction_input : ℤ
  kzalloc : Bool
  gpio_to_irq : ℕ
  kobject_init_and_add : ℤ
  sysfs_create_group : ℤ
  request_threaded_irq : ℤ
deriving DecidableEq, Repr

variable (s : State)

/-- `add_gpio_ctx` -/
def addGpioCtx (pin : ℕ) (k : AddAnswers) : State × ℤ :=
  match (List.finRange MAX_GPIO_PINS).find? fun i => (s.gpio_ctxs i).isNone with
  | none => (s, -ENOMEM)
  | some i =>
    if ¬k.kzalloc then (s, -ENOMEM)
    else
      let ctx : GpioCtx :=
        { pin := pin, irq := k.gpio_to_irq, debounce_time_ms := 1,
          edge_type := IRQF_TRIGGER_RISING }
      let s := s.setCtx i (some ctx)
      if k.kobject_init_and_add ≠ 0 then (s.setCtx i none, k.kobject_init_and_add)
      else if k.sysfs_create_group ≠ 0 then (s.setCtx i none, k.sysfs_create_group)
      else if k.request_threaded_irq ≠ 0 then (s.setCtx i none, k.request_threaded_irq)
      else (s.acquire (.irq ctx.irq i), 0)

/-- `remove_gpio_ctx` -/
def removeGpioCtx (pin : ℕ) : State :=
  match (List.finRange MAX_GPIO_PINS).find? fun i => (s.gpio_ctxs i).any (·.pin = pin) with
  | none => s
  | some i =>
    match s.gpio_ctxs i with
    | none => s
    | some ctx => (s.release (.irq ctx.irq i)).setCtx i none

/-- `gpio_request`; a GPIO that is requested already is busy. -/
def gpioRequest (pin : ℕ) (answer : ℤ) : State × ℤ :=
  if answer ≠ 0 then (s, answer)
  else if .gpio pin ∈ held s.log then (s, -EBUSY)
  else (s.acquire (.gpio pin), 0)

/-- `gpio_pins_store` -/
def gpioPinsStore (k : AddAnswers) (count : ℕ) : State × ℤ :=
  match k.get_gpio_by_name with
  | none => (s, -EINVAL)
  | some new_gpio_pin =>
    let requested := gpioRequest s new_gpio_pin k.gpio_request
    if requested.2 ≠ 0 then requested
    else if k.gpio_direction_input ≠ 0 then
      (requested.1.release (.gpio new_gpio_pin), k.gpio_direction_input)
    else
      let added := addGpioCtx requested.1 new_gpio_pin k
      if added.2 ≠ 0 then (added.1.release (.gpio new_gpio_pin), added.2)
      else (added.1, count)

/-- `gpio_pins_remove` -/
def gpioPinsRemove (get_gpio_by_name : Option ℕ) (count : ℕ) : State × ℤ :=
  match get_gpio_by_name with
  | none => (s, -EINVAL)
  | some remove_gpio_pin =>
    ((removeGpioCtx s remove_gpio_pin).release (.gpio remove_gpio_pin), count)

/-- The edges that `edge_type_store` takes. -/
def IsEdgeType (e : ℕ) : Prop :=
  e = IRQF_TRIGGER_RISING ∨ e = IRQF_TRIGGER_FALLING ∨ e = IRQF_TRIGGER_BOTH

instance (e : ℕ) : Decidable (IsEdgeType e) := by
  unfold IsEdgeType
  infer_instance

/-- `edge_type_store`, for the context in slot `i`; without one there is no such file. -/
def edgeTypeStore (s : State) (i : Slot) (new_edge_type gpio_to_irq : ℕ)
    (request_threaded_irq : ℤ) (count : ℕ) : State × ℤ :=
  match s.gpio_ctxs i with
  | none => (s, -EINVAL)
  | some ctx =>
    if IsEdgeType new_edge_type then
      let s := (s.release (.irq ctx.irq i)).setCtx i (some { ctx with irq := gpio_to_irq })
      if request_threaded_irq = 0 then
        ((s.acquire (.irq gpio_to_irq i)).setCtx i
          (some { ctx with irq := gpio_to_irq, edge_type := new_edge_type }), count)
      else (s, count)
    else (s, count)

/-- One slot of `pulse_counter_exit`. -/
def exitSlot (i : Slot) : State :=
  match s.gpio_ctxs i with
  | none => s
  | some ctx => ((s.release (.irq ctx.irq i)).release (.gpio ctx.pin)).setCtx i none

/-- `pulse_counter_exit` -/
def pulseCounterExit : State := (List.finRange MAX_GPIO_PINS).foldl exitSlot s

/-- A write to one of the files of the module. -/
inductive Write where
  | gpioPinsAdd (k : AddAnswers) (count : ℕ)
  | gpioPinsRemove (get_gpio_by_name : Option ℕ) (count : ℕ)
  | edgeType (i : Slot) (new_edge_type gpio_to_irq : ℕ) (request_threaded_irq : ℤ) (count : ℕ)

/-- The state after a write. -/
def write (s : State) : Write → State
  | .gpioPinsAdd k count => (gpioPinsStore s k count).1
  | .gpioPinsRemove pin count => (gpioPinsRemove s pin count).1
  | .edgeType i new_edge_type irq answer count =>
    (edgeTypeStore s i new_edge_type irq answer count).1

/-! ## What is held -/

/-- An interrupt is held for exactly the contexts. -/
def InterruptsMatch : Prop :=
  ∀ irq i, .irq irq i ∈ held s.log ↔ ∃ ctx, s.gpio_ctxs i = some ctx ∧ ctx.irq = irq

/-- What the module holds is what its contexts name, and possibly one GPIO that has no context yet
or no longer. -/
structure Owned (loose : Option ℕ) (s : State) : Prop where
  proper : Proper s.log
  irq : InterruptsMatch s
  gpio : ∀ pin, .gpio pin ∈ held s.log
    ↔ loose = some pin ∨ ∃ i ctx, s.gpio_ctxs i = some ctx ∧ ctx.pin = pin
  pins_distinct : ∀ {i j ctx ctx'}, s.gpio_ctxs i = some ctx → s.gpio_ctxs j = some ctx' →
    ctx.pin = ctx'.pin → i = j
  loose_free : ∀ {i ctx}, s.gpio_ctxs i = some ctx → loose ≠ some ctx.pin

theorem owned_init : Owned none init where
  proper := trivial
  irq irq i := by simp [init, held]
  gpio pin := by simp [init, held]
  pins_distinct h := by simp [init] at h
  loose_free h := by simp [init] at h

namespace Owned

variable {s : State} {loose : Option ℕ} {pin : ℕ} {i : Slot} {ctx : GpioCtx}

theorem acquire_gpio (h : Owned none s) (hfree : .gpio pin ∉ held s.log) :
    Owned (some pin) (s.acquire (.gpio pin)) where
  proper := ⟨hfree, h.proper⟩
  irq irq i := by
    rw [State.acquire, mem_held_acquire, ← h.irq]
    simp
  gpio pin' := by
    rw [State.acquire, mem_held_acquire, h.gpio, Resource.gpio.injEq, Option.some.injEq, eq_comm]
    simp
  pins_distinct := h.pins_distinct
  loose_free hi heq := hfree ((h.gpio pin).mpr (.inr ⟨_, _, hi, (Option.some.inj heq).symm⟩))

theorem release_gpio (h : Owned (some pin) s) : Owned none (s.release (.gpio pin)) where
  proper := ⟨(h.gpio pin).mpr (.inl rfl), h.proper⟩
  irq irq i := by
    rw [State.release, h.proper.mem_held_release, ← h.irq]
    simp
  gpio pin' := by
    rw [State.release, h.proper.mem_held_release, h.gpio]
    constructor
    · rintro ⟨hne, hloose | hctx⟩
      · exact absurd (congrArg Resource.gpio (Option.some.inj hloose)).symm hne
      · exact .inr hctx
    · rintro (hnone | ⟨i, ctx, hi, rfl⟩)
      · exact absurd hnone (by simp)
      · refine ⟨fun heq => h.loose_free hi ?_, .inr ⟨i, ctx, hi, rfl⟩⟩
        rw [Resource.gpio.inj heq]
  pins_distinct := h.pins_distinct
  loose_free _ := by simp

/-- A counter is added. -/
theorem add_ctx (h : Owned (some pin) s) (hi : s.gpio_ctxs i = none) (hpin : ctx.pin = pin) :
    Owned none ((s.setCtx i (some ctx)).acquire (.irq ctx.irq i)) where
  proper := by
    refine ⟨fun hmem => ?_, h.proper⟩
    obtain ⟨ctx', hctx', -⟩ := (h.irq _ _).mp hmem
    rw [hi] at hctx'
    exact absurd hctx' (by simp)
  irq irq j := by
    have hold := h.irq irq j
    simp only [State.acquire, mem_held_acquire, State.setCtx_some_eq_some, Resource.irq.injEq]
    by_cases hj : j = i
    · subst hj
      simp only [hi, reduceCtorEq, false_and, exists_false, iff_false] at hold
      simp [State.setCtx, hold, eq_comm]
    · simpa [State.setCtx, hj] using hold
  gpio pin' := by
    have hold := h.gpio pin'
    simp only [State.acquire, mem_held_acquire, State.setCtx_some_eq_some, reduceCtorEq, false_or]
    refine hold.trans ⟨?_, ?_⟩
    · rintro (heq | ⟨j, ctx', hj, rfl⟩)
      · exact ⟨i, ctx, .inl ⟨rfl, rfl⟩, hpin.trans (Option.some.inj heq)⟩
      · have hne : j ≠ i := by
          rintro rfl
          rw [hi] at hj
          exact absurd hj (by simp)
        exact ⟨j, ctx', .inr ⟨hne, hj⟩, rfl⟩
    · rintro ⟨j, ctx', ⟨-, rfl⟩ | ⟨-, hj⟩, rfl⟩
      · exact .inl (congrArg some hpin.symm)
      · exact .inr ⟨j, ctx', hj, rfl⟩
  pins_distinct {j k ctx' ctx''} hj hk heq := by
    rcases State.setCtx_some_eq_some.mp hj with ⟨hji, hj⟩ | ⟨-, hj⟩ <;>
      rcases State.setCtx_some_eq_some.mp hk with ⟨hki, hk⟩ | ⟨-, hk⟩
    · rw [hji, hki]
    · exact absurd (by rw [← heq, hj, hpin]) (h.loose_free hk)
    · exact absurd (by rw [heq, hk, hpin]) (h.loose_free hj)
    · exact h.pins_distinct hj hk heq
  loose_free _ := by simp

/-- A counter is removed. -/
theorem remove_ctx (h : Owned none s) (hi : s.gpio_ctxs i = some ctx) :
    Owned (some ctx.pin) ((s.release (.irq ctx.irq i)).setCtx i none) where
  proper := ⟨(h.irq _ _).mpr ⟨ctx, hi, rfl⟩, h.proper⟩
  irq irq j := by
    refine h.proper.mem_held_release.trans ?_
    rw [h.irq]
    simp only [State.setCtx_none_eq_some, State.release, ne_eq, Resource.irq.injEq, not_and]
    constructor
    · rintro ⟨hne, ctx', hj, rfl⟩
      refine ⟨ctx', ⟨?_, hj⟩, rfl⟩
      rintro rfl
      rw [hi, Option.some.injEq] at hj
      exact hne (by rw [hj]) rfl
    · rintro ⟨ctx', ⟨hne, hj⟩, rfl⟩
      exact ⟨fun _ heq => hne heq, ctx', hj, rfl⟩
  gpio pin' := by
    refine h.proper.mem_held_release.trans ?_
    rw [h.gpio]
    simp only [State.setCtx_none_eq_some, State.release, ne_eq, reduceCtorEq, not_false_eq_true,
      true_and, false_or]
    constructor
    · rintro ⟨j, ctx', hj, rfl⟩
      by_cases heq : j = i
      · subst heq
        rw [hi, Option.some.injEq] at hj
        exact .inl (by rw [hj])
      · exact .inr ⟨j, ctx', ⟨heq, hj⟩, rfl⟩
    · rintro (heq | ⟨j, ctx', ⟨-, hj⟩, rfl⟩)
      · exact ⟨i, ctx, hi, Option.some.inj heq⟩
      · exact ⟨j, ctx', hj, rfl⟩
  pins_distinct hj hk :=
    h.pins_distinct (State.setCtx_none_eq_some.mp hj).2 (State.setCtx_none_eq_some.mp hk).2
  loose_free hj heq := by
    obtain ⟨hne, hj⟩ := State.setCtx_none_eq_some.mp hj
    exact hne (h.pins_distinct hj hi (Option.some.inj heq).symm)

end Owned

/-! ## The functions keep it -/

theorem neg_enomem_ne_zero : -ENOMEM ≠ 0 := by decide

variable {s : State}

theorem addGpioCtx_owned {pin : ℕ} (h : Owned (some pin) s) (k : AddAnswers) :
    (addGpioCtx s pin k).2 = 0 ∧ Owned none (addGpioCtx s pin k).1
      ∨ (addGpioCtx s pin k).2 ≠ 0 ∧ Owned (some pin) (addGpioCtx s pin k).1 := by
  unfold addGpioCtx
  split
  · exact .inr ⟨neg_enomem_ne_zero, h⟩
  · rename_i i hfind
    have hi : s.gpio_ctxs i = none := by simpa using List.find?_some hfind
    -- a failure gives the slot back
    have hback : ∀ ctx, (s.setCtx i ctx).setCtx i none = s := by
      intro ctx
      rw [State.setCtx_setCtx, State.setCtx_eq_self s hi]
    simp only [hback]
    split_ifs with hmem hkobj hsysfs hirq
    · exact .inr ⟨hkobj, h⟩
    · exact .inr ⟨hsysfs, h⟩
    · exact .inr ⟨hirq, h⟩
    · exact .inl ⟨rfl, h.add_ctx hi rfl⟩
    · exact .inr ⟨neg_enomem_ne_zero, h⟩

theorem gpioPinsStore_owned (h : Owned none s) (k : AddAnswers) (count : ℕ) :
    Owned none (gpioPinsStore s k count).1 := by
  unfold gpioPinsStore gpioRequest
  cases k.get_gpio_by_name with
  | none => exact h
  | some pin =>
    by_cases hanswer : k.gpio_request = 0
    · by_cases hheld : .gpio pin ∈ held s.log
      · simpa [hanswer, hheld, EBUSY] using h
      · have hreq := h.acquire_gpio hheld
        simp only [hanswer, hheld, ne_eq, not_true_eq_false, if_false]
        split_ifs with hdir hadd
        · rcases addGpioCtx_owned hreq k with ⟨-, howned⟩ | ⟨hne, -⟩
          · exact howned
          · exact absurd hadd hne
        · rcases addGpioCtx_owned hreq k with ⟨hzero, -⟩ | ⟨-, hloose⟩
          · exact absurd hzero hadd
          · exact hloose.release_gpio
        · exact hreq.release_gpio
    · simpa [hanswer] using h

/-- The slot that `remove_gpio_ctx` finds. -/
theorem removeGpioCtx_eq {pin : ℕ} {i : Slot} {ctx : GpioCtx} (h : Owned none s)
    (hi : s.gpio_ctxs i = some ctx) (hpin : ctx.pin = pin) :
    removeGpioCtx s pin = (s.release (.irq ctx.irq i)).setCtx i none := by
  have hfound : (List.finRange MAX_GPIO_PINS).find?
      (fun i => (s.gpio_ctxs i).any (·.pin = pin)) = some i := by
    cases hfind : (List.finRange MAX_GPIO_PINS).find?
        (fun i => (s.gpio_ctxs i).any (·.pin = pin)) with
    | none =>
      have hnot := List.find?_eq_none.mp hfind i (List.mem_finRange i)
      rw [hi] at hnot
      exact absurd hpin (by simpa using hnot)
    | some j =>
      have hj := List.find?_some hfind
      cases hctx : s.gpio_ctxs j with
      | none =>
        rw [hctx] at hj
        exact absurd hj (by simp)
      | some ctx' =>
        rw [hctx] at hj
        have hpin' : ctx'.pin = pin := by simpa using hj
        rw [h.pins_distinct hi hctx (hpin.trans hpin'.symm)]
  simp only [removeGpioCtx, hfound, hi]

theorem removeGpioCtx_of_forall_ne {pin : ℕ}
    (hnone : ∀ i ctx, s.gpio_ctxs i = some ctx → ctx.pin ≠ pin) : removeGpioCtx s pin = s := by
  have hfind : (List.finRange MAX_GPIO_PINS).find?
      (fun i => (s.gpio_ctxs i).any (·.pin = pin)) = none := by
    refine List.find?_eq_none.mpr fun i _ => ?_
    cases hctx : s.gpio_ctxs i with
    | none => simp
    | some ctx => simpa using hnone i ctx hctx
  simp only [removeGpioCtx, hfind]

theorem exitSlot_owned (h : Owned none s) (i : Slot) : Owned none (exitSlot s i) := by
  unfold exitSlot
  cases hi : s.gpio_ctxs i with
  | none => exact h
  | some ctx => exact (h.remove_ctx hi).release_gpio

theorem exitSlot_gpio_ctxs (s : State) (i j : Slot) :
    (exitSlot s i).gpio_ctxs j = if j = i then none else s.gpio_ctxs j := by
  unfold exitSlot
  cases hi : s.gpio_ctxs i with
  | none =>
    split_ifs with hj
    · rw [hj, hi]
    · rfl
  | some ctx => exact Function.update_apply _ _ _ _

theorem pulseCounterExit_owned (h : Owned none s) : Owned none (pulseCounterExit s) :=
  (List.finRange MAX_GPIO_PINS).foldlRecOn exitSlot h fun _ hs i _ => exitSlot_owned hs i

theorem foldl_exitSlot_gpio_ctxs (is : List Slot) (s : State) (j : Slot)
    (h : j ∈ is ∨ s.gpio_ctxs j = none) : (is.foldl exitSlot s).gpio_ctxs j = none := by
  induction is generalizing s with
  | nil => exact h.resolve_left List.not_mem_nil
  | cons i is ih =>
    rw [List.foldl_cons]
    refine ih (exitSlot s i) ?_
    rw [exitSlot_gpio_ctxs]
    by_cases hj : j = i
    · exact .inr (if_pos hj)
    · rw [if_neg hj]
      exact h.imp_left fun hmem => List.mem_of_ne_of_mem hj hmem

/-- Nothing is held after the exit. -/
theorem held_pulseCounterExit (h : Owned none s) : held (pulseCounterExit s).log = [] := by
  have hexit := pulseCounterExit_owned h
  have hnone : ∀ j, (pulseCounterExit s).gpio_ctxs j = none := by
    intro j
    exact foldl_exitSlot_gpio_ctxs _ s j (.inl (List.mem_finRange j))
  refine List.eq_nil_iff_forall_not_mem.mpr fun r hr => ?_
  cases r with
  | gpio pin => simpa [hnone] using (hexit.gpio pin).mp hr
  | irq irq i => simpa [hnone] using (hexit.irq irq i).mp hr

/-! ## Runs of writes -/

/-- The pin that is removed has a context, and an interrupt that is requested again for another edge
is granted. -/
def Sound (s : State) : Write → Prop
  | .gpioPinsAdd _ _ => True
  | .gpioPinsRemove none _ => True
  | .gpioPinsRemove (some pin) _ => ∃ i ctx, s.gpio_ctxs i = some ctx ∧ ctx.pin = pin
  | .edgeType i new_edge_type _ request_threaded_irq _ =>
    s.gpio_ctxs i ≠ none → IsEdgeType new_edge_type → request_threaded_irq = 0

/-- A write keeps what is owned. -/
theorem write_owned (s : State) (w : Write) (h : Owned none s) (hsound : Sound s w) :
    Owned none (write s w) := by
  cases w with
  | gpioPinsAdd k count => exact gpioPinsStore_owned h k count
  | gpioPinsRemove pin count =>
    cases pin with
    | none => exact h
    | some pin =>
      obtain ⟨i, ctx, hi, rfl⟩ := hsound
      rw [write, gpioPinsRemove, removeGpioCtx_eq h hi rfl]
      exact (h.remove_ctx hi).release_gpio
  | edgeType i new_edge_type irq answer count =>
    rw [write, edgeTypeStore]
    cases hi : s.gpio_ctxs i with
    | none => exact h
    | some ctx =>
      by_cases hedge : IsEdgeType new_edge_type
      · have hanswer : answer = 0 := hsound (by rw [hi]; simp) hedge
        -- as if the context was removed and another one added in its slot
        have hslot : ((s.release (.irq ctx.irq i)).setCtx i none).gpio_ctxs i = none := by
          simp [State.setCtx]
        have hadd := @Owned.add_ctx _ _ i { ctx with irq := irq, edge_type := new_edge_type }
          (h.remove_ctx hi) hslot rfl
        simpa [hedge, hanswer, State.setCtx, State.acquire] using hadd
      · simpa [hedge] using h

/-- A write that is not sound shows in the log or in the interrupts. -/
theorem sound_of_write (s : State) (w : Write) (h : Owned none s)
    (hw : Proper (write s w).log ∧ InterruptsMatch (write s w)) : Sound s w := by
  cases w with
  | gpioPinsAdd k count => trivial
  | gpioPinsRemove pin count =>
    cases pin with
    | none => trivial
    | some pin =>
      by_contra hnone
      have hne : ∀ i ctx, s.gpio_ctxs i = some ctx → ctx.pin ≠ pin :=
        fun i ctx hi hpin => hnone ⟨i, ctx, hi, hpin⟩
      have hfree := hw.1
      rw [write, gpioPinsRemove, removeGpioCtx_of_forall_ne hne] at hfree
      have hmem := (h.gpio pin).mp hfree.1
      exact hmem.elim (by simp) hnone
  | edgeType i new_edge_type irq answer count =>
    intro hctx hedge
    by_contra hanswer
    obtain ⟨ctx, hi⟩ := Option.ne_none_iff_exists'.mp hctx
    have hmatch := (hw.2 irq i).mpr
    simp only [write, edgeTypeStore, hi, hedge, hanswer, if_true, if_false] at hmatch
    have hmem := hmatch ⟨{ ctx with irq := irq }, by simp [State.setCtx], rfl⟩
    obtain ⟨hne, hold⟩ := h.proper.mem_held_release.mp hmem
    obtain ⟨ctx', hi', rfl⟩ := (h.irq _ _).mp hold
    rw [hi, Option.some.injEq] at hi'
    exact hne (by rw [hi'])

/-- The module frees nothing that it does not hold and holds an interrupt for each context, after
every write; and with the exit all that it held is freed once. -/
structure KeepsItsOwn (ws : List Write) : Prop where
  writes : Throughout write (fun s => Proper s.log ∧ InterruptsMatch s) init ws
  exit_proper : Proper (pulseCounterExit (ws.foldl write init)).log
  exit_freed : ∀ r, (pulseCounterExit (ws.foldl write init)).log.count (.release r)
    = (pulseCounterExit (ws.foldl write init)).log.count (.acquire r)

/-- The pulse counter keeps its own in exactly the runs that remove only pins with a context and in
which no interrupt is refused when it is requested again. -/
theorem keepsItsOwn_iff (ws : List Write) : KeepsItsOwn ws ↔ AllSteps write Sound init ws := by
  constructor
  · intro h
    exact allSteps_of_throughout write_owned sound_of_write owned_init h.writes
  · intro h
    have hall := throughout_of_allSteps write_owned owned_init h
    have hexit := pulseCounterExit_owned hall.last
    exact ⟨hall.imp fun s hs => ⟨hs.proper, hs.irq⟩, hexit.proper,
      hexit.proper.count_eq_of_held_nil (held_pulseCounterExit hall.last)⟩

/-- The answers of a kernel that grants everything for GPIO `pin`. -/
def granted (pin irq : ℕ) : AddAnswers where
  get_gpio_by_name := some pin
  gpio_request := 0
  gpio_direction_input := 0
  kzalloc := true
  gpio_to_irq := irq
  kobject_init_and_add := 0
  sysfs_create_group := 0
  request_threaded_irq := 0

/-- A GPIO that was never requested is freed, and so is an interrupt that was freed before and not
granted again. -/
theorem not_keepsItsOwn :
    ¬KeepsItsOwn [.gpioPinsRemove (some 17) 6]
      ∧ ¬KeepsItsOwn [.gpioPinsAdd (granted 17 40) 6,
        .edgeType ⟨0, by decide⟩ IRQF_TRIGGER_BOTH 40 (-EBUSY) 2] := by
  constructor
  · intro h
    have hproper := h.writes.last.1
    revert hproper
    decide
  · intro h
    have hproper := h.exit_proper
    revert hproper
    decide

end RutosSdk.Drivers.PulseCounter
