import RutosSdk.Hal.Timestamp

/-! # The 32-bit time line

Runs of `timestamp_counter_get` against a chip that counts ideal ticks and latches the count at
every PPS pulse. The free-running counter is read often enough, so its extended value follows the
ideal time from the 2^27 microsecond period of the first read on. The PPS value has only the pulses
to follow: it stays on the same line exactly as long as each pulse is seen to follow the one before
within one period.
-/

namespace RutosSdk.Hal

open Circular

/-! ## The chip -/

/-- A concentrator: what its PPS register holds before the first pulse, and the ideal 32 MHz ticks
at which pulses arrive. -/
structure Chip where
  pps_reg : Word
  pulses : List ℕ

/-- The tick of the latest pulse. -/
def Chip.latestPulse (chip : Chip) (tick : ℕ) : Option ℕ := (chip.pulses.filter (· ≤ tick)).max?

/-- The PPS register: the counter as latched at the latest pulse. -/
def Chip.ppsReg (chip : Chip) (tick : ℕ) : Word :=
  match chip.latestPulse tick with
  | some p => BitVec.ofNat 32 p
  | none => chip.pps_reg

variable (chip : Chip) (tick : ℕ)

/-- The eight bytes that one read of the timestamp registers gives. -/
def Chip.regBlock : Vector Byte 8 :=
  let pps := chip.ppsReg tick
  let inst := BitVec.ofNat 32 tick
  #v[pps.extractLsb' 24 8, pps.extractLsb' 16 8, pps.extractLsb' 8 8, pps.extractLsb' 0 8,
    inst.extractLsb' 24 8, inst.extractLsb' 16 8, inst.extractLsb' 8 8, inst.extractLsb' 0 8]

theorem ppsWord_regBlock : ppsWord (chip.regBlock tick) = chip.ppsReg tick := bigEndian_extractLsb _

theorem instWord_regBlock :
    instWord (chip.regBlock tick) = BitVec.ofNat 32 tick := bigEndian_extractLsb _

/-! ## Runs -/

/-- The ticks of the up to three reads of one `timestamp_counter_get`. -/
structure Instants where
  first : ℕ
  second : ℕ
  third : ℕ
deriving DecidableEq, Repr

/-- The tick whose registers the call uses. -/
def Chip.usedTick (chip : Chip) (r : Instants) : ℕ :=
  if MsbChanged (chip.regBlock r.first) (chip.regBlock r.second) then r.third else r.first

/-- A successful call, and the tick whose registers it used. -/
structure CounterRead where
  tick : ℕ
  get : CounterGet
deriving DecidableEq

/-- Ideal microseconds. -/
def CounterRead.time (e : CounterRead) : ℕ := e.tick / 32

/-- The calls of `timestamp_counter_get` one after the other. -/
def Chip.counterRun (chip : Chip) (self : TimestampCounter) (history : TimestampPpsHistory) :
    List Instants → List CounterRead
  | [] => []
  | r :: rs =>
    match timestampCounterGet self history (some (chip.regBlock r.first))
        (some (chip.regBlock r.second)) (some (chip.regBlock r.third)) with
    | some get => ⟨chip.usedTick r, get⟩ :: chip.counterRun get.self get.history rs
    | none => []

/-- The reads are in order of time, and each is less than 2^27 microseconds after the one before. -/
def Chip.Paced (chip : Chip) (last : ℕ) : List Instants → Prop
  | [] => True
  | r :: rs =>
    last ≤ r.first ∧ r.first ≤ r.second ∧ r.second ≤ r.third
      ∧ chip.usedTick r / 32 < last / 32 + 2 ^ 27 ∧ chip.Paced (chip.usedTick r) rs

instance Chip.decidablePaced (chip : Chip) : (last : ℕ) → (rs : List Instants) →
    Decidable (chip.Paced last rs)
  | _, [] => inferInstanceAs (Decidable True)
  | last, r :: rs =>
    have := chip.decidablePaced (chip.usedTick r) rs
    inferInstanceAs (Decidable (last ≤ r.first ∧ r.first ≤ r.second ∧ r.second ≤ r.third
      ∧ chip.usedTick r / 32 < last / 32 + 2 ^ 27 ∧ chip.Paced (chip.usedTick r) rs))

/-- What a call gives that uses the registers of the given tick. -/
def Chip.getAt (chip : Chip) (self : TimestampCounter) (history : TimestampPpsHistory) (tick : ℕ) :
    CounterGet where
  self := timestampCounterUpdate self (chip.ppsReg tick / 32) (BitVec.ofNat 32 tick / 32)
  history := timestampPpsHistorySave history (chip.ppsReg tick)
  inst := (self.inst.update (BitVec.ofNat 32 tick / 32)).value
  pps := (self.pps.update (chip.ppsReg tick / 32)).value

theorem timestampCounterGet_regBlock (self : TimestampCounter) (history : TimestampPpsHistory)
    (r : Instants) :
    timestampCounterGet self history (some (chip.regBlock r.first)) (some (chip.regBlock r.second))
        (some (chip.regBlock r.third))
      = some (chip.getAt self history (chip.usedTick r)) := by
  have hused : readTwice (some (chip.regBlock r.first)) (some (chip.regBlock r.second))
      (some (chip.regBlock r.third)) = some (chip.regBlock (chip.usedTick r)) := by
    unfold readTwice Chip.usedTick
    dsimp only
    split <;> rfl
  unfold timestampCounterGet
  rw [hused]
  dsimp only
  rw [ppsWord_regBlock, instWord_regBlock]
  rfl

theorem Chip.counterRun_cons (self : TimestampCounter) (history : TimestampPpsHistory)
    (r : Instants) (rs : List Instants) :
    chip.counterRun self history (r :: rs)
      = ⟨chip.usedTick r, chip.getAt self history (chip.usedTick r)⟩
        :: chip.counterRun (chip.getAt self history (chip.usedTick r)).self
          (chip.getAt self history (chip.usedTick r)).history rs := by
  rw [Chip.counterRun, timestampCounterGet_regBlock]

/-! ## One reading -/

/-- A register of ticks, scaled to microseconds, has 27 bits. -/
theorem toNat_scaled (reg : Word) : (reg / 32).toNat < 2 ^ 27 := by
  rw [BitVec.toNat_udiv, show BitVec.toNat (32 : Word) = 32 from rfl]
  omega

/-- They are the low bits of the ideal time. -/
theorem low27_scaled : low27 (BitVec.ofNat 32 tick / 32) = BitVec.ofNat 27 (tick / 32) := by
  apply BitVec.eq_of_toNat_eq
  rw [toNat_low27 (toNat_scaled _), BitVec.toNat_udiv, BitVec.toNat_ofNat, BitVec.toNat_ofNat,
    show BitVec.toNat (32 : Word) = 32 from rfl]
  omega

/-- The extended counter stands at ideal time `T` of a line that started at `start`. -/
structure OnLine (start : Word) (T : ℕ) (i : TimestampInfo) : Prop where
  valid : i.Valid
  low : low27 i.counter_us_27bits_ref = BitVec.ofNat 27 T
  value : i.value = BitVec.ofNat 32 T - start

variable {T tick p : ℕ} {i : TimestampInfo} {start a : Word} {chip : Chip}
  {history : TimestampPpsHistory} {rs : List Instants} {self : TimestampCounter}

/-- A reading less than 2^27 microseconds later keeps the counter on the line. -/
theorem OnLine.update (h : OnLine start T i) (hle : T ≤ tick / 32) (hlt : tick / 32 < T + 2 ^ 27) :
    OnLine start (tick / 32) (i.update (BitVec.ofNat 32 tick / 32)) := by
  obtain ⟨hvalid, hvalue⟩ :=
    TimestampInfo.update_value h.valid (toNat_scaled (BitVec.ofNat 32 tick))
  refine ⟨hvalid, low27_scaled tick, ?_⟩
  rw [hvalue, h.low, low27_scaled, ahead_ofNat hle (by omega), h.value]
  obtain ⟨d, hd⟩ := Nat.exists_eq_add_of_le hle
  rw [hd, Nat.add_sub_cancel_left, BitVec.ofNat_add]
  exact BitVec.sub_add_comm

/-- The ideal time at which the line starts: the 2^27 microsecond period of the first read. -/
def lineStart (tick : ℕ) : Word := BitVec.ofNat 32 (2 ^ 27 * (tick / 32 / 2 ^ 27))

/-- The first read puts the counter on the line that starts with its own period. -/
theorem onLine_first (tick : ℕ) : OnLine (lineStart tick) (tick / 32)
    (timestampCounterNew.inst.update (BitVec.ofNat 32 tick / 32)) := by
  have hnew : OnLine (lineStart tick) (2 ^ 27 * (tick / 32 / 2 ^ 27)) timestampCounterNew.inst := by
    refine ⟨⟨by decide, by decide⟩, ?_, ?_⟩
    · apply BitVec.eq_of_toNat_eq
      rw [BitVec.toNat_ofNat, Nat.mul_mod_right]
      rfl
    · rw [lineStart, BitVec.sub_self]
      rfl
  exact hnew.update (Nat.mul_div_le _ _) (by omega)

/-! ## The free-running counter -/

/-- Once on the line, every paced call leaves the counter on it. -/
theorem OnLine.all {last : ℕ} (h : OnLine start (last / 32) self.inst)
    (hpaced : chip.Paced last rs) :
    ∀ e ∈ chip.counterRun self history rs,
      OnLine start e.time e.get.self.inst ∧ e.get.inst = e.get.self.inst.value := by
  induction rs generalizing self history last with
  | nil => nofun
  | cons r rs ih =>
    obtain ⟨hfirst, hsecond, hthird, hlt, hrest⟩ := hpaced
    have hle : last ≤ chip.usedTick r := by
      unfold Chip.usedTick
      split <;> omega
    have hnext := h.update (Nat.div_le_div_right hle) hlt
    rw [Chip.counterRun_cons]
    intro e he
    rcases List.mem_cons.mp he with rfl | he
    · exact ⟨hnext, rfl⟩
    · exact ih hnext hrest e he

/-- A whole run from `timestamp_counter_new`. -/
theorem onLine_run {last : ℕ} {r : Instants} (hpaced : chip.Paced last (r :: rs)) :
    ∀ e ∈ chip.counterRun timestampCounterNew history (r :: rs),
      OnLine (lineStart (chip.usedTick r)) e.time e.get.self.inst
        ∧ e.get.inst = e.get.self.inst.value := by
  have hfirst := onLine_first (chip.usedTick r)
  rw [Chip.counterRun_cons]
  intro e he
  rcases List.mem_cons.mp he with rfl | he
  · exact ⟨hfirst, rfl⟩
  · exact OnLine.all hfirst hpaced.2.2.2.2 e he

/-- Packets of the last 2^27 microseconds are put on the line. -/
theorem OnLine.timestampPktExpand {P : ℕ} (h : OnLine start T self.inst) (hle : P ≤ T)
    (hlt : T < P + 2 ^ 27) :
    timestampPktExpand self (BitVec.ofNat 32 (P % 2 ^ 27)) = BitVec.ofNat 32 P - start := by
  have hP : (BitVec.ofNat 32 (P % 2 ^ 27)).toNat = P % 2 ^ 27 := by
    rw [BitVec.toNat_ofNat]
    omega
  have hP' : (BitVec.ofNat 32 (P % 2 ^ 27)).toNat < 2 ^ 27 := by omega
  have hlow : low27 (BitVec.ofNat 32 (P % 2 ^ 27)) = BitVec.ofNat 27 P := by
    apply BitVec.eq_of_toNat_eq
    rw [toNat_low27 hP', hP, BitVec.toNat_ofNat]
  rw [timestampPktExpand_eq h.valid hP', hlow, h.low, h.value, ahead_ofNat hle (by omega)]
  obtain ⟨d, rfl⟩ := Nat.exists_eq_add_of_le hle
  rw [Nat.add_sub_cancel_left, BitVec.ofNat_add]
  grind

/-- With its first read below 2^27 microseconds, every run of paced reads returns the ideal time
modulo 2^32, and expands the packet times of the last 2^27 microseconds to theirs. -/
theorem counter_on_time_line {chip : Chip} {history : TimestampPpsHistory} {last : ℕ} {r : Instants}
    {rs : List Instants} (hpaced : chip.Paced last (r :: rs))
    (hfirst : chip.usedTick r / 32 < 2 ^ 27) :
    ∀ e ∈ chip.counterRun timestampCounterNew history (r :: rs),
      e.get.inst = BitVec.ofNat 32 e.time
        ∧ ∀ P, P ≤ e.time → e.time < P + 2 ^ 27 →
          timestampPktExpand e.get.self (BitVec.ofNat 32 (P % 2 ^ 27)) = BitVec.ofNat 32 P := by
  have hstart : lineStart (chip.usedTick r) = 0#32 := by
    rw [lineStart, Nat.div_eq_of_lt hfirst]
    rfl
  intro e he
  obtain ⟨hline, hinst⟩ := onLine_run hpaced e he
  rw [hstart] at hline
  refine ⟨?_, ?_⟩
  · rw [hinst, hline.value, BitVec.sub_zero]
  · intro P hle hlt
    rw [hline.timestampPktExpand hle hlt, BitVec.sub_zero]

/-- A chip without PPS. -/
def sampleChip : Chip := ⟨0, []⟩

/-- Reads at the given microseconds. -/
def readsAt (l : List ℕ) : List Instants := l.map fun T => ⟨32 * T, 32 * T + 1, 32 * T + 2⟩

/-- Reads on either side of the first roll-over, and a packet time in front of it. -/
theorem counter_on_time_line_sampleChip :
    sampleChip.Paced 0 (readsAt [134217720, 134217740])
      ∧ ∀ e ∈ sampleChip.counterRun timestampCounterNew .initial (readsAt [134217720, 134217740]),
        e.get.inst = BitVec.ofNat 32 e.time
          ∧ ∀ P, P ≤ e.time → e.time < P + 2 ^ 27 →
            timestampPktExpand e.get.self (BitVec.ofNat 32 (P % 2 ^ 27)) = BitVec.ofNat 32 P := by
  have hpaced : sampleChip.Paced 0 (readsAt [134217720, 134217740]) := by decide
  exact ⟨hpaced, counter_on_time_line hpaced (by decide)⟩

/-- `timestamp_counter_new` just before the roll-over and the first read just behind it: the wrap is
not seen, and the line starts one period late. -/
theorem first_read_past_rollover :
    (2 ^ 27 - 1 < 2 ^ 27 ∧ sampleChip.Paced (32 * (2 ^ 27 - 1)) (readsAt [2 ^ 27 + 5]))
      ∧ (sampleChip.counterRun timestampCounterNew .initial (readsAt [2 ^ 27 + 5])).map
          (fun e => (e.time, e.get.inst)) = [(2 ^ 27 + 5, 5)] := by
  decide

/-! ## The PPS counter -/

/-- The first value at or after `a` with the given low bits. -/
def follow (a : Word) (v : BitVec 27) : Word := a + BitVec.ofNat 32 (ahead (low27 a) v)

theorem low27_follow (a : Word) (v : BitVec 27) : low27 (follow a v) = v := by
  rw [follow, low27, BitVec.setWidth_add _ _ (by decide), BitVec.setWidth_ofNat_of_le (by decide),
    ahead, BitVec.ofNat_toNat, BitVec.setWidth_eq]
  change low27 a + (v - low27 a) = v
  grind

/-- Distances of the low bits are distances modulo 2^27. -/
theorem ahead_low27 (a x : Word) : ahead (low27 a) (low27 x) = ahead a x % 2 ^ 27 := by
  rw [ahead_eq_ite, ahead_eq_ite, low27, low27, BitVec.toNat_setWidth, BitVec.toNat_setWidth]
  split <;> split <;> omega

/-- A value is the first with its low bits if it is less than one period ahead. -/
theorem follow_low27_eq_iff {x : Word} : follow a (low27 x) = x ↔ ahead a x < 2 ^ 27 := by
  have hx : a + BitVec.ofNat 32 (ahead a x) = x := by
    rw [ahead, BitVec.ofNat_toNat, BitVec.setWidth_eq]
    grind
  have hlt := ahead_lt a x
  rw [follow, ahead_low27]
  constructor
  · intro h
    have heq : BitVec.ofNat 32 (ahead a x % 2 ^ 27) = BitVec.ofNat 32 (ahead a x) := by
      rw [← BitVec.add_right_inj a]
      rw [h, hx]
    have := congrArg BitVec.toNat heq
    rw [BitVec.toNat_ofNat, BitVec.toNat_ofNat] at this
    omega
  · intro h
    rw [Nat.mod_eq_of_lt h, hx]

/-- The extended PPS counter stands at time `a` of the line. -/
structure Anchored (start a : Word) (i : TimestampInfo) : Prop where
  valid : i.Valid
  low : low27 i.counter_us_27bits_ref = low27 a
  value : i.value = a - start

theorem anchored_new (tick : ℕ) :
    Anchored (lineStart tick) (lineStart tick) timestampCounterNew.pps where
  valid := ⟨by decide, by decide⟩
  low := by
    apply BitVec.eq_of_toNat_eq
    rw [lineStart, low27, low27, BitVec.toNat_setWidth, BitVec.toNat_setWidth, BitVec.toNat_ofNat]
    change 0 % 2 ^ 27 = _
    omega
  value := by
    rw [BitVec.sub_self]
    rfl

/-- Any reading moves the anchor to the first time with the register's low bits. -/
theorem Anchored.update (h : Anchored start a i) (reg : Word) :
    Anchored start (follow a (low27 (reg / 32))) (i.update (reg / 32)) := by
  obtain ⟨hvalid, hvalue⟩ := TimestampInfo.update_value h.valid (toNat_scaled reg)
  refine ⟨hvalid, (low27_follow _ _).symm, ?_⟩
  rw [hvalue, h.value, h.low, follow]
  grind

/-- Each pulse that a read finds is less than 2^27 microseconds, modulo 2^32, ahead of the time that
the read before it stood at. Before the first pulse that is where the content of the register falls
on the line. -/
def Chip.PulsesFollowed (chip : Chip) (a : Word) : List ℕ → Prop
  | [] => True
  | tick :: ticks =>
    match chip.latestPulse tick with
    | some p =>
      ahead a (BitVec.ofNat 32 (p / 32)) < 2 ^ 27
        ∧ chip.PulsesFollowed (BitVec.ofNat 32 (p / 32)) ticks
    | none => chip.PulsesFollowed (follow a (low27 (chip.pps_reg / 32))) ticks

instance Chip.decidablePulsesFollowed (chip : Chip) : (a : Word) → (ticks : List ℕ) →
    Decidable (chip.PulsesFollowed a ticks)
  | _, [] => inferInstanceAs (Decidable True)
  | a, tick :: ticks =>
    match h : chip.latestPulse tick with
    | some p =>
      have := chip.decidablePulsesFollowed (BitVec.ofNat 32 (p / 32)) ticks
      decidable_of_iff (ahead a (BitVec.ofNat 32 (p / 32)) < 2 ^ 27
        ∧ chip.PulsesFollowed (BitVec.ofNat 32 (p / 32)) ticks) (by rw [Chip.PulsesFollowed, h])
    | none =>
      have := chip.decidablePulsesFollowed (follow a (low27 (chip.pps_reg / 32))) ticks
      decidable_of_iff (chip.PulsesFollowed (follow a (low27 (chip.pps_reg / 32))) ticks)
        (by rw [Chip.PulsesFollowed, h])

theorem le_of_latestPulse_eq (h : chip.latestPulse tick = some p) : p ≤ tick := by
  have hmem := List.max?_mem h
  simpa using (List.mem_filter.mp hmem).2

/-- The register then has the low bits of the pulse. -/
theorem low27_ppsReg (h : chip.latestPulse tick = some p) :
    low27 (chip.ppsReg tick / 32) = low27 (BitVec.ofNat 32 (p / 32)) := by
  rw [Chip.ppsReg, h, low27_scaled, low27, BitVec.setWidth_ofNat_of_le (by decide)]

/-- On one line, the PPS value is right exactly if the elapsed time is. -/
theorem sub_eq_elapsed_iff {value : Word} {P : ℕ} (hle : P ≤ T) :
    BitVec.ofNat 32 T - start - value = BitVec.ofNat 32 (T - P)
      ↔ value = BitVec.ofNat 32 P - start := by
  obtain ⟨d, rfl⟩ := Nat.exists_eq_add_of_le hle
  rw [Nat.add_sub_cancel_left, BitVec.ofNat_add]
  constructor <;> intro h <;> grind

/-- The PPS value gives the elapsed time since the latest pulse, if there was one. -/
def ElapsedRight (chip : Chip) (e : CounterRead) : Prop :=
  ∀ p, chip.latestPulse e.tick = some p →
    e.get.inst - e.get.pps = BitVec.ofNat 32 (e.time - p / 32)

/-- One call, with the free-running counter on the line and the PPS counter at `a`. -/
theorem elapsedRight_getAt_iff (hpulse : chip.latestPulse tick = some p)
    (hpps : Anchored start a self.pps)
    (hinst : (chip.getAt self history tick).inst = BitVec.ofNat 32 (tick / 32) - start) :
    ElapsedRight chip ⟨tick, chip.getAt self history tick⟩
      ↔ ahead a (BitVec.ofNat 32 (p / 32)) < 2 ^ 27 := by
  have hvalue : (chip.getAt self history tick).pps
      = follow a (low27 (BitVec.ofNat 32 (p / 32))) - start := by
    rw [← low27_ppsReg hpulse]
    exact (hpps.update (chip.ppsReg tick)).value
  have hle : p / 32 ≤ tick / 32 := Nat.div_le_div_right (le_of_latestPulse_eq hpulse)
  have hone : ElapsedRight chip ⟨tick, chip.getAt self history tick⟩
      ↔ (chip.getAt self history tick).inst - (chip.getAt self history tick).pps
        = BitVec.ofNat 32 (tick / 32 - p / 32) := by
    constructor
    · intro h
      exact h p hpulse
    · intro h p' hp'
      obtain rfl := Option.some.inj (hpulse.symm.trans hp')
      exact h
  rw [hone, hinst, sub_eq_elapsed_iff hle, hvalue, ← follow_low27_eq_iff]
  constructor <;> intro h <;> grind

theorem elapsedRight_iff (hpps : Anchored start a self.pps)
    (hinst : ∀ e ∈ chip.counterRun self history rs, e.get.inst = BitVec.ofNat 32 e.time - start) :
    (∀ e ∈ chip.counterRun self history rs, ElapsedRight chip e)
      ↔ chip.PulsesFollowed a (rs.map chip.usedTick) := by
  induction rs generalizing a self history with
  | nil => exact iff_of_true nofun trivial
  | cons r rs ih =>
    have hnext := hpps.update (chip.ppsReg (chip.usedTick r))
    rw [Chip.counterRun_cons] at hinst ⊢
    obtain ⟨hhead, hrest⟩ := List.forall_mem_cons.mp hinst
    rw [List.forall_mem_cons, List.map_cons, Chip.PulsesFollowed]
    cases hpulse : chip.latestPulse (chip.usedTick r) with
    | none =>
      have hreg : chip.ppsReg (chip.usedTick r) = chip.pps_reg := by rw [Chip.ppsReg, hpulse]
      rw [hreg] at hnext
      have hnone : ElapsedRight chip
          ⟨chip.usedTick r, chip.getAt self history (chip.usedTick r)⟩ := by
        intro p hp
        cases hpulse.symm.trans hp
      rw [and_iff_right hnone]
      exact ih (by rw [← hreg] at hnext ⊢; exact hnext) hrest
    | some p =>
      rw [elapsedRight_getAt_iff hpulse hpps hhead]
      -- the anchor of the rest is the pulse, if this one is right
      refine and_congr_right fun hahead => ih ?_ hrest
      rw [low27_ppsReg hpulse, follow_low27_eq_iff.mpr hahead] at hnext
      exact hnext

/-- In every run of paced reads, the PPS value gives the time since the latest pulse at every read
that has seen one, exactly if each pulse found latched is less than 2^27 microseconds ahead, modulo
2^32, of the one found before; the first one of the start of the line, or of what the register held
on it. -/
theorem pps_on_time_line_iff {chip : Chip} {history : TimestampPpsHistory} {last : ℕ} {r : Instants}
    {rs : List Instants} (hpaced : chip.Paced last (r :: rs)) :
    (∀ e ∈ chip.counterRun timestampCounterNew history (r :: rs), ElapsedRight chip e)
      ↔ chip.PulsesFollowed (lineStart (chip.usedTick r)) ((r :: rs).map chip.usedTick) := by
  refine elapsedRight_iff (anchored_new _) ?_
  intro e he
  obtain ⟨hline, hinst⟩ := onLine_run hpaced e he
  exact hinst.trans hline.value

/-- A chip with its first PPS pulse at the given microsecond. -/
def pulseChip (P : ℕ) : Chip := ⟨0, [32 * P]⟩

theorem pps_on_time_line_iff_pulseChip :
    (pulseChip 70000000).Paced 0 (readsAt [1000, 100000000, 200000000])
      ∧ ∀ e ∈ (pulseChip 70000000).counterRun timestampCounterNew .initial
          (readsAt [1000, 100000000, 200000000]), ElapsedRight (pulseChip 70000000) e := by
  have hpaced : (pulseChip 70000000).Paced 0 (readsAt [1000, 100000000, 200000000]) := by decide
  exact ⟨hpaced, (pps_on_time_line_iff hpaced).mpr (by decide)⟩

/-- The first pulse comes after the first roll-over: its low bits are taken for a pulse of the first
period, and the elapsed time is wrong by that period from then on. -/
theorem late_first_pulse :
    (pulseChip (2 ^ 27 + 5)).Paced 0 (readsAt [1000, 100000000, 2 ^ 27 + 10])
      ∧ ∃ e ∈ (pulseChip (2 ^ 27 + 5)).counterRun timestampCounterNew .initial
          (readsAt [1000, 100000000, 2 ^ 27 + 10]),
        e.time = 2 ^ 27 + 10
          ∧ (pulseChip (2 ^ 27 + 5)).latestPulse e.tick = some (32 * (2 ^ 27 + 5))
          ∧ e.get.inst = BitVec.ofNat 32 (2 ^ 27 + 10) ∧ e.get.pps = 5
          ∧ e.get.inst - e.get.pps ≠ BitVec.ofNat 32 (2 ^ 27 + 10 - (2 ^ 27 + 5)) := by
  decide

end RutosSdk.Hal
