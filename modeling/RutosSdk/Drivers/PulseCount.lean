import Mathlib.Algebra.BigOperators.Group.List.Basic
import Mathlib.Algebra.Ring.Nat
import RutosSdk.Drivers.PulseCounter

/-! # Reading and resetting the pulse count

Reference: `gpio_irq_handler` and `reset_pulse_count_show` in
`package/kernel/pulse-counter/src/pulse_counter.c`.

Interrupts and reads of `reset_pulse_count` run at the same time, on several processors. Each access
to a counter is atomic, but a read takes the value of `pulse_count_r` in one step and sets it to
zero in another. What comes in between the two is set to zero as well, or is read twice.
-/

namespace RutosSdk.Drivers.PulseCount

open List PulseCounter Steps

def U64_MAX : ℕ := 18446744073709551615

/-- The counters of `struct gpio_ctx`. -/
structure Counters where
  pulse_count : BitVec 64
  pulse_count_r : BitVec 64
  debounce_count : BitVec 64
  last_interrupt_time : ℤ
deriving DecidableEq, Repr

/-- An interrupt or a read of `reset_pulse_count`, by what it does next. An interrupt comes with the
value of the GPIO and the time, in nanoseconds. -/
inductive Task where
  | irq (val : Bool) (now : ℤ)
  | irqCount (now : ℤ)
  | irqCountR (now : ℤ)
  | irqTime (now : ℤ)
  | irqDebounce
  | irqDone (accepted : Bool)
  | read
  | readReset (val : BitVec 64)
  | readResetDebounce (val : BitVec 64)
  | readDone (val : BitVec 64)
deriving DecidableEq, Repr

/-- The value of the GPIO is one that the edges lead to. -/
def edgeCounts (edge_type : ℕ) (val : Bool) : Bool :=
  (edge_type &&& IRQF_TRIGGER_RISING != 0 && val)
    || (edge_type &&& IRQF_TRIGGER_FALLING != 0 && !val)

/-- `ktime_after` of the time and the end of the debounce time. -/
def debounced (ctx : GpioCtx) (last_interrupt_time now : ℤ) : Bool :=
  now > last_interrupt_time + ctx.debounce_time_ms * 1000000

/-- One access of `gpio_irq_handler` or of `reset_pulse_count_show`. -/
def Task.next (ctx : GpioCtx) (c : Counters) : Task → Counters × Task
  | .irq val now =>
    if edgeCounts ctx.edge_type val then
      if debounced ctx c.last_interrupt_time now then (c, .irqCount now) else (c, .irqDebounce)
    else (c, .irqDone false)
  | .irqCount now => ({ c with pulse_count := c.pulse_count + 1 }, .irqCountR now)
  | .irqCountR now => ({ c with pulse_count_r := c.pulse_count_r + 1 }, .irqTime now)
  | .irqTime now => ({ c with last_interrupt_time := now }, .irqDone true)
  | .irqDebounce => ({ c with debounce_count := c.debounce_count + 1 }, .irqDone false)
  | .irqDone accepted => (c, .irqDone accepted)
  | .read => (c, .readReset c.pulse_count_r)
  | .readReset val => ({ c with pulse_count_r := 0 }, .readResetDebounce val)
  | .readResetDebounce val => ({ c with debounce_count := 0 }, .readDone val)
  | .readDone val => (c, .readDone val)

/-- The counters of a GPIO, and the interrupts and reads that use them. -/
structure System where
  counters : Counters
  tasks : List Task
deriving DecidableEq, Repr

/-- All interrupts and reads are still to come. -/
def System.start (irqs : List (Bool × ℤ)) (reads : ℕ) : System where
  counters := ⟨0, 0, 0, 0⟩
  tasks := irqs.map (fun irq => .irq irq.1 irq.2) ++ List.replicate reads .read

variable (s : System)

/-- The task at index `i` makes its next access. -/
def System.step (ctx : GpioCtx) (s : System) (i : ℕ) : System :=
  match s.tasks[i]? with
  | none => s
  | some t => ⟨(t.next ctx s.counters).1, s.tasks.set i (t.next ctx s.counters).2⟩

/-! ## Pulses and values -/

/-- The value that a read returns, once it has it. -/
def Task.value : Task → ℕ
  | .readReset val | .readResetDebounce val | .readDone val => val.toNat
  | _ => 0

/-- 1 for an interrupt that has counted its pulse. -/
def Task.pulse : Task → ℕ
  | .irqTime _ | .irqDone true => 1
  | _ => 0

/-- 1 for a read that has the value and has not reset the count. -/
def Task.pending : Task → ℕ
  | .readReset _ => 1
  | _ => 0

/-- The sum of the values that the reads return. -/
def System.returned : ℕ := (s.tasks.map Task.value).sum

/-- The number of accepted pulses, as they are counted. -/
def System.accepted (s : System) : ℕ := (s.tasks.map Task.pulse).sum

/-- The number of reads that have not reset the count yet. -/
def System.pending : ℕ := (s.tasks.map Task.pending).sum

/-- What is left in `pulse_count_r` by the reads that have taken its value. -/
def System.remaining : ℕ :=
  if s.pending = 0 then s.counters.pulse_count_r.toNat else 0

/-- No pulse is lost or returned twice, so far. -/
def System.Conserves : Prop := s.returned + s.remaining = s.accepted

/-- An interrupt or a read that is through. -/
def Task.finished : Task → Bool
  | .irqDone _ | .readDone _ => true
  | _ => false

/-- The values returned and the count at the end are the accepted pulses; and at every moment the
values taken, with the count unless it is about to be reset, are the pulses accepted so far. -/
structure KeepsPulses (ctx : GpioCtx) (s : System) (schedule : List ℕ) : Prop where
  moments : Throughout (System.step ctx) System.Conserves s schedule
  final : (∀ t ∈ (schedule.foldl (System.step ctx) s).tasks, t.finished) →
    (schedule.foldl (System.step ctx) s).returned
        + (schedule.foldl (System.step ctx) s).counters.pulse_count_r.toNat
      = (schedule.foldl (System.step ctx) s).accepted

/-- No pulse is counted while a read has the value and has not reset the count, nor does another
read begin then, but of a count of zero; and the count does not overflow. -/
def Undisturbed (i : ℕ) : Prop :=
  match s.tasks[i]? with
  | some (.irqCountR _) => s.pending = 0 ∧ s.counters.pulse_count_r.toNat < U64_MAX
  | some .read => s.pending = 0 ∨ s.counters.pulse_count_r = 0
  | _ => True

/-! ## One step -/

theorem sum_map_set {α : Type} (f : α → ℕ) {l : List α} {i : ℕ} {a : α} (h : l[i]? = some a)
    (b : α) : ((l.set i b).map f).sum + f a = (l.map f).sum + f b := by
  induction l generalizing i with
  | nil => exact absurd h (by simp)
  | cons c l ih =>
    cases i with
    | zero =>
      obtain rfl := Option.some.inj h
      rw [set_cons_zero, map_cons, map_cons, sum_cons, sum_cons]
      omega
    | succ i =>
      have hi := ih (List.getElem?_cons_succ ▸ h)
      rw [set_cons_succ, map_cons, map_cons, sum_cons, sum_cons]
      omega

variable {ctx : GpioCtx} {s : System} {i : ℕ}

theorem step_of_none (h : s.tasks[i]? = none) : s.step ctx i = s := by
  rw [System.step, h]

variable {t : Task}

theorem step_of_some (h : s.tasks[i]? = some t) :
    s.step ctx i = ⟨(t.next ctx s.counters).1, s.tasks.set i (t.next ctx s.counters).2⟩ := by
  rw [System.step, h]

/-- Most accesses leave the count, the values and the pulses as they are. -/
structure Task.Quiet (t : Task) : Prop where
  irqCountR : ∀ now, t ≠ .irqCountR now
  read : t ≠ .read
  readReset : ∀ val, t ≠ .readReset val

theorem Task.quiet_or (t : Task) :
    t.Quiet ∨ (∃ now, t = .irqCountR now) ∨ t = .read ∨ ∃ val, t = .readReset val := by
  cases t with
  | irqCountR now => exact .inr (.inl ⟨now, rfl⟩)
  | read => exact .inr (.inr (.inl rfl))
  | readReset val => exact .inr (.inr (.inr ⟨val, rfl⟩))
  | _ => exact .inl ⟨by simp, by simp, by simp⟩

theorem Task.Quiet.next_eq (h : t.Quiet) (ctx : GpioCtx) (c : Counters) :
    (t.next ctx c).1.pulse_count_r = c.pulse_count_r ∧ (t.next ctx c).2.value = t.value
      ∧ (t.next ctx c).2.pulse = t.pulse ∧ (t.next ctx c).2.pending = t.pending := by
  cases t with
  | irqCountR now => exact absurd rfl (h.irqCountR now)
  | read => exact absurd rfl h.read
  | readReset val => exact absurd rfl (h.readReset val)
  | irq val now =>
    rw [Task.next]
    split_ifs <;> exact ⟨rfl, rfl, rfl, rfl⟩
  | _ => exact ⟨rfl, rfl, rfl, rfl⟩

theorem Task.Quiet.undisturbed (h : t.Quiet) (hi : s.tasks[i]? = some t) : Undisturbed s i := by
  unfold Undisturbed
  rw [hi]
  cases t with
  | irqCountR now => exact absurd rfl (h.irqCountR now)
  | read => exact absurd rfl h.read
  | _ => trivial

variable (ctx) in
/-- What an access of the task changes, by what it leaves of the task. -/
theorem sums_step (hi : s.tasks[i]? = some t) :
    (s.step ctx i).returned + t.value = s.returned + (t.next ctx s.counters).2.value
      ∧ (s.step ctx i).accepted + t.pulse = s.accepted + (t.next ctx s.counters).2.pulse
      ∧ (s.step ctx i).pending + t.pending = s.pending + (t.next ctx s.counters).2.pending := by
  rw [step_of_some hi]
  exact ⟨sum_map_set _ hi _, sum_map_set _ hi _, sum_map_set _ hi _⟩

theorem toNat_add_one (n : BitVec 64) :
    (n + 1).toNat = if n.toNat < U64_MAX then n.toNat + 1 else 0 := by
  have hone : (1 : BitVec 64).toNat = 1 := rfl
  rw [BitVec.toNat_add, hone, U64_MAX]
  split_ifs with h <;> omega

/-- A step keeps the pulses if and only if it is not disturbed. -/
theorem conserves_step_iff (ctx : GpioCtx) (s : System) (i : ℕ) (h : s.Conserves) :
    (s.step ctx i).Conserves ↔ Undisturbed s i := by
  cases hi : s.tasks[i]? with
  | none =>
    rw [step_of_none hi, Undisturbed, hi]
    exact iff_of_true h trivial
  | some t =>
    obtain ⟨hreturned, haccepted, hpending⟩ := sums_step ctx hi
    have hcounters : (s.step ctx i).counters = (t.next ctx s.counters).1 := by
      rw [step_of_some hi]
    unfold System.Conserves System.remaining at h ⊢
    rw [hcounters]
    rcases t.quiet_or with hquiet | ⟨now, rfl⟩ | rfl | ⟨val, rfl⟩
    · obtain ⟨hcount, hvalue, hpulse, hpend⟩ := hquiet.next_eq ctx s.counters
      rw [hvalue, Nat.add_right_cancel_iff] at hreturned
      rw [hpulse, Nat.add_right_cancel_iff] at haccepted
      rw [hpend, Nat.add_right_cancel_iff] at hpending
      rw [hreturned, haccepted, hpending, hcount]
      exact iff_of_true h (hquiet.undisturbed hi)
    · have hcond : Undisturbed s i ↔ s.pending = 0 ∧ s.counters.pulse_count_r.toNat < U64_MAX := by
        rw [Undisturbed, hi]
      rw [hcond]
      dsimp only [Task.next, Task.value, Task.pulse, Task.pending] at *
      rw [toNat_add_one]
      split_ifs at h ⊢ <;> omega
    · have hcond : Undisturbed s i ↔ s.pending = 0 ∨ s.counters.pulse_count_r.toNat = 0 := by
        rw [Undisturbed, hi, ← BitVec.toNat_inj]
        rfl
      rw [hcond]
      dsimp only [Task.next, Task.value, Task.pulse, Task.pending] at *
      split_ifs at h ⊢ <;> omega
    · have hzero : (0 : BitVec 64).toNat = 0 := rfl
      rw [Undisturbed, hi]
      dsimp only [Task.next, Task.value, Task.pulse, Task.pending] at *
      refine iff_of_true ?_ trivial
      rw [if_neg (by omega)] at h
      rw [hzero, ite_self]
      omega

/-! ## Runs -/

theorem conserves_start (irqs : List (Bool × ℤ)) (reads : ℕ) :
    (System.start irqs reads).Conserves := by
  have hfirst : ∀ t ∈ (System.start irqs reads).tasks, t.value = 0 ∧ t.pulse = 0 := by
    intro t ht
    rcases mem_append.mp ht with ht | ht
    · obtain ⟨irq, -, rfl⟩ := mem_map.mp ht
      exact ⟨rfl, rfl⟩
    · rw [eq_of_mem_replicate ht]
      exact ⟨rfl, rfl⟩
  have hreturned : (System.start irqs reads).returned = 0 :=
    sum_eq_zero (forall_mem_map.mpr fun t ht => (hfirst t ht).1)
  have haccepted : (System.start irqs reads).accepted = 0 :=
    sum_eq_zero (forall_mem_map.mpr fun t ht => (hfirst t ht).2)
  rw [System.Conserves, hreturned, haccepted, System.remaining]
  split_ifs <;> rfl

theorem pending_of_finished (h : ∀ t ∈ s.tasks, t.finished) : s.pending = 0 := by
  refine sum_eq_zero (forall_mem_map.mpr fun t ht => ?_)
  have hfinished := h t ht
  cases t with
  | readReset val => exact absurd hfinished (by simp [Task.finished])
  | _ => rfl

/-- The pulses are kept in exactly the interleavings that disturb no read. -/
theorem keepsPulses_iff (ctx : GpioCtx) (irqs : List (Bool × ℤ)) (reads : ℕ) (schedule : List ℕ) :
    KeepsPulses ctx (.start irqs reads) schedule
      ↔ AllSteps (System.step ctx) Undisturbed (.start irqs reads) schedule := by
  have hstart := conserves_start irqs reads
  have hkeep : ∀ s i, System.Conserves s → Undisturbed s i → (s.step ctx i).Conserves :=
    fun s i h => (conserves_step_iff ctx s i h).mpr
  constructor
  · intro h
    exact allSteps_of_throughout hkeep (fun s i hs => (conserves_step_iff ctx s i hs).mp) hstart
      h.moments
  · intro h
    have hall := throughout_of_allSteps hkeep hstart h
    refine ⟨hall, fun hfinished => ?_⟩
    have hlast := hall.last
    rwa [System.Conserves, System.remaining, if_pos (pending_of_finished hfinished)] at hlast

/-- A rising edge, one second after the start. -/
def sampleIrq : Bool × ℤ := (true, 1000000000)

/-- A pulse that is counted between the two steps of a read is lost; and one that two reads have
taken before either has reset the count is returned twice. -/
theorem not_keepsPulses :
    ¬KeepsPulses ⟨17, 40, 1, IRQF_TRIGGER_RISING⟩ (.start [sampleIrq] 1) [1, 0, 0, 0, 0, 1, 1]
      ∧ ¬KeepsPulses ⟨17, 40, 1, IRQF_TRIGGER_RISING⟩ (.start [sampleIrq] 2)
        [0, 0, 0, 0, 1, 2, 1, 2, 1, 2] := by
  constructor
  · intro h
    have hfinal := h.final
    revert hfinal
    decide
  · intro h
    have hfinal := h.final
    revert hfinal
    decide

end RutosSdk.Drivers.PulseCount
