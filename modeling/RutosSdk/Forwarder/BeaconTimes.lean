import RutosSdk.Forwarder.Beacon
import RutosSdk.Hal.GpsTime
import RutosSdk.Jit.Spacing

/-! # The times of the beacons

The pre-allocation loop counts its slots in whole periods from the last beacon queued, and relies on
`jit_enqueue` to refuse those that have passed; but the queue knows times only modulo `2 ^ 32`, so a
slot in the past is one in the far future to it. As long as the slot that is due is ahead of the
counter, by less than `2 ^ 31` ticks, and the turns follow each other by less than a period, every
beacon queued is right and every visit of the loop ends.
-/

namespace RutosSdk.Forwarder

open Binary64 Hal Jit

/-! ## Right beacons -/

/-- The ticks from the turn until the counter comes to the value in the packet. -/
def Beacon.ahead (b : Beacon) : ℕ := (b.pkt.count_us - b.turn.currentTime).toNat

/-- The GPS time that the payload carries. -/
def payloadTime (conf : BeaconConf) (pkt : LgwPktTx) : ℕ :=
  let byte := fun k => (pkt.payload.toList.getD (conf.beacon_datarate.rfu1Size + k) 0).toNat
  byte 0 + 256 * byte 1 + 65536 * byte 2 + 16777216 * byte 3

/-- The beacon is in a slot, carries its GPS time, and the counter comes to its value less than
`2 ^ 31` ticks later, within two ticks of that time. -/
structure Beacon.Right (conf : BeaconConf) (b : Beacon) : Prop where
  multiple : (conf.beacon_period.toNat : ℤ) ∣ b.gps_time
  carried : (payloadTime conf b.pkt : ℤ) = b.gps_time % 4294967296
  ahead_lt : b.ahead < 2147483648
  occurs : |(b.turn.age + b.ahead : ℚ) - b.turn.time_reference_gps.ticksTo ⟨b.gps_time, 0⟩| < 2

instance (conf : BeaconConf) (b : Beacon) : Decidable (b.Right conf) :=
  decidable_of_iff
    ((conf.beacon_period.toNat : ℤ) ∣ b.gps_time
      ∧ (payloadTime conf b.pkt : ℤ) = b.gps_time % 4294967296 ∧ b.ahead < 2147483648
      ∧ |(b.turn.age + b.ahead : ℚ) - b.turn.time_reference_gps.ticksTo ⟨b.gps_time, 0⟩| < 2)
    ⟨fun ⟨h₁, h₂, h₃, h₄⟩ => ⟨h₁, h₂, h₃, h₄⟩, fun ⟨h₁, h₂, h₃, h₄⟩ => ⟨h₁, h₂, h₃, h₄⟩⟩

/-- A turn with a valid reference that is not older than half a turn of the counter. -/
structure Turn.Valid (t : Turn) : Prop where
  ref : t.time_reference_gps.Valid
  age_lt : t.age < 2147483648

instance (t : Turn) : Decidable t.Valid :=
  decidable_of_iff (t.time_reference_gps.Valid ∧ t.age < 2147483648)
    ⟨fun ⟨h₁, h₂⟩ => ⟨h₁, h₂⟩, fun ⟨h₁, h₂⟩ => ⟨h₁, h₂⟩⟩

/-- The slot that is due: the first one after the reference or the one after the last beacon, and a
period more for each retry. -/
def dueTime (conf : BeaconConf) (ref : Tref) (s : BeaconState) : ℤ :=
  let beacon_period : ℤ := conf.beacon_period.toNat
  (if s.last_beacon_gps_time = 0 then (ref.gps.tv_sec / beacon_period + 1) * beacon_period
    else s.last_beacon_gps_time + beacon_period) + s.retry.toNat * beacon_period

/-- The slot that is due is ahead of the counter, by less than `2 ^ 31` ticks, and the reference of
the next turn is less than a period later. -/
structure Timely (conf : BeaconConf) (t t' : Turn) (s : BeaconState) : Prop where
  ahead : (t.age + 1 : ℚ) ≤ t.time_reference_gps.ticksTo ⟨dueTime conf t.time_reference_gps s, 0⟩
  near : t.time_reference_gps.ticksTo ⟨dueTime conf t.time_reference_gps s, 0⟩
    ≤ (t.age + 2147483647 : ℚ)
  pace : t'.time_reference_gps.gps.tv_sec
    < t.time_reference_gps.gps.tv_sec + conf.beacon_period.toNat

instance (conf : BeaconConf) (t t' : Turn) (s : BeaconState) : Decidable (Timely conf t t' s) :=
  decidable_of_iff
    ((t.age + 1 : ℚ) ≤ t.time_reference_gps.ticksTo ⟨dueTime conf t.time_reference_gps s, 0⟩
      ∧ t.time_reference_gps.ticksTo ⟨dueTime conf t.time_reference_gps s, 0⟩
        ≤ (t.age + 2147483647 : ℚ)
      ∧ t'.time_reference_gps.gps.tv_sec
        < t.time_reference_gps.gps.tv_sec + conf.beacon_period.toNat)
    ⟨fun ⟨h₁, h₂, h₃⟩ => ⟨h₁, h₂, h₃⟩, fun ⟨h₁, h₂, h₃⟩ => ⟨h₁, h₂, h₃⟩⟩

/-! ## The payload -/

theorem getD_writeBytes (payload : Vector Byte 256) (i : ℕ) (bs : List Byte) {k : ℕ}
    (hk : k < 256) :
    (writeBytes payload i bs).toList.getD k 0
      = if i ≤ k ∧ k < i + bs.length then bs.getD (k - i) 0 else payload.toList.getD k 0 := by
  induction bs generalizing payload i with
  | nil =>
    rw [if_neg (by simp)]
    rfl
  | cons b bs ih =>
    rw [writeBytes, ih, Vector.toList_setIfInBounds]
    simp only [List.getD_eq_getElem?_getD, List.getElem?_set, List.length_cons,
      Vector.length_toList]
    rcases Nat.lt_trichotomy k i with hlt | rfl | hgt
    · simp [show ¬i + 1 ≤ k by omega, show ¬i ≤ k by omega, show i ≠ k by omega]
    · simp [hk]
    · have hiff : (i + 1 ≤ k ∧ k < i + 1 + bs.length) ↔ (i ≤ k ∧ k < i + (bs.length + 1)) := by
        omega
      have hidx : k - i = k - (i + 1) + 1 := by omega
      simp only [hiff, hidx, List.getElem?_cons_succ, show i ≠ k by omega, if_false]

theorem BeaconDatarate.rfu1Size_le (dr : BeaconDatarate) : dr.rfu1Size ≤ 5 := by
  cases dr <;> decide

theorem lowBytes_four (x : ℤ) :
    lowBytes 4 x = [BitVec.ofInt 8 x, BitVec.ofInt 8 (x / 256), BitVec.ofInt 8 (x / 65536),
      BitVec.ofInt 8 (x / 16777216)] := by
  simp [lowBytes, List.range_succ]

section Loop

variable {wild : Double.WildCast} {env : Env} {conf : BeaconConf}

/-- The checksum is written behind the time. -/
theorem payloadTime_loadBeacon (ref : Tref) (tv_sec : ℤ) (pkt : LgwPktTx) :
    (payloadTime conf (loadBeacon wild conf ref tv_sec pkt) : ℤ) = tv_sec % 4294967296 := by
  have hrfu := conf.beacon_datarate.rfu1Size_le
  have hbyte : ∀ k < 4, ((loadBeacon wild conf ref tv_sec pkt).payload.toList.getD
      (conf.beacon_datarate.rfu1Size + k) 0) = (lowBytes 4 tv_sec).getD k 0 := by
    intro k hk
    rw [loadBeacon, getD_writeBytes _ _ _ (by omega), if_neg (by omega),
      getD_writeBytes _ _ _ (by omega), if_pos (by simp [lowBytes]; omega), Nat.add_sub_cancel_left]
  simp only [payloadTime, hbyte 0 (by decide), hbyte 1 (by decide), hbyte 2 (by decide),
    hbyte 3 (by decide), lowBytes_four]
  simp only [List.getD_cons_zero, List.getD_cons_succ, BitVec.toNat_ofInt]
  omega

/-! ## One turn -/

theorem jitEnqueue_beacon (q : JitQueue) (time_us : Word) (pkt : LgwPktTx)
    (h : (jitEnqueue env q time_us pkt .beacon).1 = .ok) :
    (jitEnqueue env q time_us pkt .beacon).2.2 = pkt := by
  rcases jitEnqueue_cases env q time_us pkt .beacon with ⟨-, -, heq⟩ | ⟨hne, -⟩
  · rw [heq]
    rfl
  · exact absurd h hne

/-- A turn queues the loaded packet, or counts a retry. -/
theorem beaconTurn_cases (t : Turn) (s : BeaconState) :
    (∃ tv_sec pkt, tv_sec = nextBeaconGpsTime conf t.time_reference_gps s
        ∧ pkt = loadBeacon wild conf t.time_reference_gps tv_sec s.beacon_pkt
        ∧ beaconTurn wild env conf t s
          = (⟨s.beacon_loop - 1, 0, tv_sec, pkt⟩, some ⟨t, tv_sec, pkt⟩))
      ∨ ∃ pkt, beaconTurn wild env conf t s
          = ({ s with retry := s.retry + 1, beacon_pkt := pkt }, none) := by
  simp only [beaconTurn]
  split
  · rename_i hok
    refine .inl ⟨_, _, rfl, rfl, ?_⟩
    rw [jitEnqueue_beacon _ _ _ hok]
  · exact .inr ⟨_, rfl⟩

/-! ## The slot that is due -/

/-- The seconds from the reference to the slot that is due. -/
def lead (conf : BeaconConf) (t : Turn) (s : BeaconState) : ℤ :=
  dueTime conf t.time_reference_gps s - t.time_reference_gps.gps.tv_sec

variable {t t' : Turn} {queued : List Beacon}

variable {s : BeaconState}

theorem lead_bounds (ht : t.Valid) (hs : Timely conf t t' s) :
    0 ≤ lead conf t s ∧ lead conf t s < 4300 := by
  have hage : (t.age : ℚ) < 2147483648 := by exact_mod_cast ht.age_lt
  have hahead := hs.ahead
  have hnear := hs.near
  exact ht.ref.sec_bounds (by linarith) (by linarith)

/-- The multiple of the period that follows a time. -/
theorem add_sub_tmod {x p : ℤ} (hx : 0 ≤ x) : x + (p - x.tmod p) = (x / p + 1) * p := by
  rw [Int.tmod_eq_emod_of_nonneg hx, Int.emod_def]
  ring

theorem next_multiple_bounds (x : ℤ) {p : ℤ} (hp : 0 < p) :
    x < (x / p + 1) * p ∧ (x / p + 1) * p ≤ x + p := by
  have hmod := Int.emod_nonneg x hp.ne'
  have hlt := Int.emod_lt_of_pos x hp
  have hdef := Int.mul_ediv_add_emod x p
  rw [add_mul, one_mul, mul_comm (x / p) p]
  omega

/-- With few retries the product does not wrap around: the code tries the slot that is due. -/
theorem nextBeaconGpsTime_eq {ref : Tref} (hp : conf.beacon_period.toNat ≤ 86400) (href : ref.Valid)
    (hretry : s.retry.toNat < 4300) : nextBeaconGpsTime conf ref s = dueTime conf ref s := by
  have hmul : s.retry.toNat * conf.beacon_period.toNat ≤ 4300 * 86400 :=
    Nat.mul_le_mul hretry.le hp
  have hprod : (s.retry * conf.beacon_period).toNat = s.retry.toNat * conf.beacon_period.toNat :=
    BitVec.toNat_mul_of_lt (by omega)
  simp only [nextBeaconGpsTime, dueTime, hprod, add_sub_tmod href.tv_sec_nonneg, Nat.cast_mul]

theorem dvd_dueTime {ref : Tref} (h : (conf.beacon_period.toNat : ℤ) ∣ s.last_beacon_gps_time) :
    (conf.beacon_period.toNat : ℤ) ∣ dueTime conf ref s := by
  unfold dueTime
  refine dvd_add ?_ (dvd_mul_left _ _)
  split
  · exact dvd_mul_left _ _
  · exact dvd_add h dvd_rfl

theorem last_lt_dueTime {ref : Tref} {s : BeaconState} (hp : 0 < conf.beacon_period.toNat)
    (href : ref.Valid) : s.last_beacon_gps_time < dueTime conf ref s := by
  have hp' : (0 : ℤ) < conf.beacon_period.toNat := by exact_mod_cast hp
  have hretry : (0 : ℤ) ≤ s.retry.toNat * conf.beacon_period.toNat := by positivity
  unfold dueTime
  dsimp only
  split
  · rename_i hlast
    have hdiv : 0 ≤ ref.gps.tv_sec / conf.beacon_period.toNat :=
      Int.ediv_nonneg href.tv_sec_nonneg hp'.le
    have hslot : 0 < (ref.gps.tv_sec / conf.beacon_period.toNat + 1) * conf.beacon_period.toNat :=
      Int.mul_pos (by omega) hp'
    omega
  · omega

theorem toNat_retry_succ {retry : Word} (h : retry.toNat < 4300) :
    (retry + 1).toNat = retry.toNat + 1 := by
  bv_omega

/-- A retry moves the slot that is due further away from the reference. -/
theorem lead_retry (hs : Timely conf t t' s) (hp : 0 < conf.beacon_period.toNat)
    (hretry : s.retry.toNat < 4300) (pkt : LgwPktTx) :
    lead conf t s + 1 ≤ lead conf t' { s with retry := s.retry + 1, beacon_pkt := pkt } := by
  have hp' : (0 : ℤ) < conf.beacon_period.toNat := by exact_mod_cast hp
  have hpace := hs.pace
  have hmul : (((s.retry.toNat + 1 : ℕ) : ℤ)) * conf.beacon_period.toNat
      = s.retry.toNat * conf.beacon_period.toNat + conf.beacon_period.toNat := by
    push_cast
    ring
  simp only [lead, dueTime, toNat_retry_succ hretry, hmul]
  split
  · have h := @next_multiple_bounds t.time_reference_gps.gps.tv_sec _ hp'
    have h' := @next_multiple_bounds t'.time_reference_gps.gps.tv_sec _ hp'
    omega
  · omega

theorem ahead_loadBeacon {t : Turn} {tv_sec : ℤ} {k : ℕ} (pkt : LgwPktTx)
    (h : lgwGps2cnt (doubles wild) t.time_reference_gps ⟨tv_sec, 0⟩
      = some (t.time_reference_gps.count_us + BitVec.ofInt 32 (t.age + k : ℕ)))
    (hk : k < 4294967296) :
    Beacon.ahead ⟨t, tv_sec, loadBeacon wild conf t.time_reference_gps tv_sec pkt⟩ = k := by
  simp only [Beacon.ahead, loadBeacon, Turn.currentTime, h, Option.getD_some]
  rw [BitVec.ofInt_natCast, BitVec.ofNat_add, ← BitVec.add_assoc,
    BitVec.add_comm _ (BitVec.ofNat 32 k), BitVec.add_sub_cancel, BitVec.toNat_ofNat]
  exact Nat.mod_eq_of_lt hk

/-- The beacon of a turn whose slot is due in time. -/
theorem right_of_timely (ht : t.Valid) (hs : Timely conf t t' s)
    (hdvd : (conf.beacon_period.toNat : ℤ) ∣ s.last_beacon_gps_time) :
    Beacon.Right conf ⟨t, dueTime conf t.time_reference_gps s,
      loadBeacon wild conf t.time_reference_gps (dueTime conf t.time_reference_gps s)
        s.beacon_pkt⟩ := by
  have hahead := hs.ahead
  have hnear := hs.near
  have hage : (t.age : ℚ) < 2147483648 := by exact_mod_cast ht.age_lt
  obtain ⟨z, hz₁, hz₂, hz⟩ := lgwGps2cnt_eq ht.ref (by linarith) (by linarith) wild
  -- the conversion gives a counter value ahead of the current one
  have hzlo : (t.age : ℚ) - 1 < z := by linarith
  have hzlo' : (t.age : ℤ) - 1 < z := by exact_mod_cast hzlo
  have hzhi : (z : ℚ) < t.age + 2147483648 := by linarith
  have hzhi' : z < t.age + 2147483648 := by exact_mod_cast hzhi
  obtain ⟨k, rfl⟩ : ∃ k : ℕ, z = (t.age + k : ℕ) := ⟨(z - t.age).toNat, by omega⟩
  have hk := @ahead_loadBeacon wild conf t _ k s.beacon_pkt hz (by omega)
  refine ⟨dvd_dueTime hdvd, payloadTime_loadBeacon _ _ _, ?_, ?_⟩
  · omega
  · push_cast at hz₁ hz₂
    rw [hk, abs_lt]
    constructor <;> linarith

/-! ## The beacons queued -/

/-- The beacons queued so far are right and in the order of their times, the last one being the
reference for the next. -/
structure Scheduled (conf : BeaconConf) (s : BeaconState) (queued : List Beacon) : Prop where
  right : ∀ b ∈ queued, b.Right conf
  increasing : queued.Pairwise fun b b' => b.gps_time < b'.gps_time
  le_last : ∀ b ∈ queued, b.gps_time ≤ s.last_beacon_gps_time
  dvd_last : (conf.beacon_period.toNat : ℤ) ∣ s.last_beacon_gps_time

/-- One turn keeps the schedule. -/
theorem Scheduled.beaconTurn (h : Scheduled conf s queued) (hp : 0 < conf.beacon_period.toNat)
    (hp' : conf.beacon_period.toNat ≤ 86400) (ht : t.Valid) (hs : Timely conf t t' s)
    (hretry : s.retry.toNat < 4300) :
    Scheduled conf (beaconTurn wild env conf t s).1
      (queued ++ (beaconTurn wild env conf t s).2.toList) := by
  rcases @beaconTurn_cases wild env conf t s with ⟨_, _, rfl, rfl, heq⟩ | ⟨pkt, heq⟩
  · have hlast := @last_lt_dueTime conf t.time_reference_gps s hp ht.ref
    rw [heq, nextBeaconGpsTime_eq hp' ht.ref hretry, Option.toList_some]
    refine ⟨?_, ?_, ?_, dvd_dueTime h.dvd_last⟩
    · intro b hb
      rcases List.mem_append.mp hb with hb | hb
      · exact h.right b hb
      · obtain rfl := List.mem_singleton.mp hb
        exact right_of_timely ht hs h.dvd_last
    · refine List.pairwise_append.mpr ⟨h.increasing, List.pairwise_singleton _ _, ?_⟩
      intro b hb b' hb'
      obtain rfl := List.mem_singleton.mp hb'
      exact lt_of_le_of_lt (h.le_last b hb) hlast
    · intro b hb
      rcases List.mem_append.mp hb with hb | hb
      · exact (lt_of_le_of_lt (h.le_last b hb) hlast).le
      · obtain rfl := List.mem_singleton.mp hb
        exact le_rfl
  · rw [heq, Option.toList_none, List.append_nil]
    exact ⟨h.right, h.increasing, h.le_last, h.dvd_last⟩

/-! ## The loop -/

section Turns

variable {turns : ℕ → Turn} {s : BeaconState}

variable {n : ℕ}

theorem beaconLoop_succ (h : (beaconLoop wild env conf turns s n).goesOn conf (turns n)) :
    beaconLoop wild env conf turns s (n + 1)
      = ⟨(beaconTurn wild env conf (turns n) (beaconLoop wild env conf turns s n).vars).1,
          (beaconLoop wild env conf turns s n).queued
            ++ (beaconTurn wild env conf (turns n)
              (beaconLoop wild env conf turns s n).vars).2.toList, true⟩ := by
  rw [beaconLoop, loopStep, if_pos h]

theorem beaconLoop_succ_of_not (h : ¬(beaconLoop wild env conf turns s n).goesOn conf (turns n)) :
    beaconLoop wild env conf turns s (n + 1)
      = { beaconLoop wild env conf turns s n with running := false } := by
  rw [beaconLoop, loopStep, if_neg h]

theorem LoopState.goesOn_iff {l : LoopState} :
    l.goesOn conf t = true ↔ l.running = true ∧ l.vars.beacon_loop ≠ 0
      ∧ 0 < conf.beacon_period.toNat ∧ t.ready = true := by
  have hpos : conf.beacon_period ≠ 0 ↔ 0 < conf.beacon_period.toNat := by
    rw [Nat.pos_iff_ne_zero, ne_eq, ne_eq, ← BitVec.toNat_inj]
    rfl
  simp only [LoopState.goesOn, BeaconState.looping, Bool.and_eq_true, decide_eq_true_eq, hpos,
    and_assoc]

/-- The turn before one that is taken was taken as well. -/
theorem goesOn_of_succ
    (h : (beaconLoop wild env conf turns s (n + 1)).goesOn conf (turns (n + 1))) :
    (beaconLoop wild env conf turns s n).goesOn conf (turns n) := by
  by_contra hnot
  rw [beaconLoop_succ_of_not hnot] at h
  exact absurd (LoopState.goesOn_iff.mp h).1 (by simp)

variable (wild env conf turns s) in
/-- Every turn that the loop takes has a valid reference and finds its slot in time. -/
def LoopMeets : Prop :=
  ∀ n, (beaconLoop wild env conf turns s n).goesOn conf (turns n) →
    (turns n).Valid
      ∧ Timely conf (turns n) (turns (n + 1)) (beaconLoop wild env conf turns s n).vars

/-- Each retry costs a second at least, so there are never more than the seconds to the slot; each
turn uses up the beacons to queue or the seconds to the horizon. -/
theorem turns_le (hmeets : LoopMeets wild env conf turns s) (hretry : s.retry = 0) (n : ℕ)
    (h : (beaconLoop wild env conf turns s n).goesOn conf (turns n)) :
    let vars := (beaconLoop wild env conf turns s n).vars
    (vars.retry.toNat : ℤ) ≤ lead conf (turns n) vars
      ∧ n + 4300 * (vars.beacon_loop.toNat : ℤ) - lead conf (turns n) vars
        ≤ 4300 * s.beacon_loop.toNat := by
  intro vars
  induction n with
  | zero =>
    have hlead : 0 ≤ lead conf (turns 0) s := (lead_bounds (hmeets 0 h).1 (hmeets 0 h).2).1
    change ((s.retry.toNat : ℕ) : ℤ) ≤ lead conf (turns 0) s
      ∧ ((0 : ℕ) : ℤ) + 4300 * (s.beacon_loop.toNat : ℤ) - lead conf (turns 0) s ≤ _
    rw [hretry]
    exact ⟨hlead, by omega⟩
  | succ n ih =>
    have hprev := goesOn_of_succ h
    obtain ⟨hvalid, htimely⟩ := hmeets n hprev
    have hlead := (lead_bounds (hmeets (n + 1) h).1 (hmeets (n + 1) h).2).1
    have hlt := (lead_bounds hvalid htimely).2
    obtain ⟨hle, hturns⟩ := ih hprev
    obtain ⟨-, hloop, hp, -⟩ := LoopState.goesOn_iff.mp hprev
    unfold vars
    rw [beaconLoop_succ hprev] at hlead ⊢
    generalize (beaconLoop wild env conf turns s n).vars = vars at *
    have hmany : vars.retry.toNat < 4300 := by omega
    rcases @beaconTurn_cases wild env conf (turns n) vars with ⟨_, _, -, -, heq⟩ | ⟨pkt, heq⟩
    · rw [heq] at hlead ⊢
      have hdec : (vars.beacon_loop - 1).toNat = vars.beacon_loop.toNat - 1 := by
        bv_omega
      have hpos : 0 < vars.beacon_loop.toNat := by bv_omega
      refine ⟨hlead, ?_⟩
      dsimp only at hlead ⊢
      omega
    · rw [heq]
      have hnext := lead_retry htimely hp hmany pkt
      have hsucc := toNat_retry_succ hmany
      dsimp only
      omega

theorem retry_lt (hmeets : LoopMeets wild env conf turns s) (hretry : s.retry = 0)
    (h : (beaconLoop wild env conf turns s n).goesOn conf (turns n)) :
    (beaconLoop wild env conf turns s n).vars.retry.toNat < 4300 := by
  have hle := (turns_le hmeets hretry n h).1
  have hlt := (lead_bounds (hmeets n h).1 (hmeets n h).2).2
  omega

/-- The beacons stay right along the loop. -/
theorem Scheduled.beaconLoop (h : Scheduled conf s queued) (hp : conf.beacon_period.toNat ≤ 86400)
    (hmeets : LoopMeets wild env conf turns s) (hretry : s.retry = 0) (n : ℕ) :
    Scheduled conf (beaconLoop wild env conf turns s n).vars
      (queued ++ (beaconLoop wild env conf turns s n).queued) := by
  induction n with
  | zero =>
    change Scheduled conf s (queued ++ [])
    rwa [List.append_nil]
  | succ n ih =>
    by_cases hgo : (Forwarder.beaconLoop wild env conf turns s n).goesOn conf (turns n)
    · obtain ⟨hvalid, htimely⟩ := hmeets n hgo
      rw [beaconLoop_succ hgo, ← List.append_assoc]
      exact ih.beaconTurn (LoopState.goesOn_iff.mp hgo).2.2.1 hp hvalid htimely
        (retry_lt hmeets hretry hgo)
    · rw [beaconLoop_succ_of_not hgo]
      exact ih

/-- The loop ends. -/
theorem exists_ended (hmeets : LoopMeets wild env conf turns s) (hretry : s.retry = 0) :
    ∃ n, (beaconLoop wild env conf turns s n).running = false := by
  refine ⟨4300 * 256 + 1, ?_⟩
  have hnot :
      ¬(beaconLoop wild env conf turns s (4300 * 256)).goesOn conf (turns (4300 * 256)) := by
    intro h
    have hle := (turns_le hmeets hretry _ h).2
    have hlt := (lead_bounds (hmeets _ h).1 (hmeets _ h).2).2
    omega
  rw [beaconLoop_succ_of_not hnot]

end Turns

/-! ## Visits of the loop -/

variable (wild env conf) in
/-- Every turn of every visit has a valid reference and finds its slot in time. -/
def RunMeets : List Visit → BeaconState → Prop
  | [], _ => True
  | v :: vs, s =>
    LoopMeets wild env conf v.turns (s.enter v.num_beacon)
      ∧ ∀ n, (v.loop wild env conf s n).running = false →
        RunMeets vs (v.loop wild env conf s n).vars

theorem RunMeets.exists_run {vs : List Visit} {s : BeaconState} (h : RunMeets wild env conf vs s) :
    ∃ s' queued, BeaconRun wild env conf s vs s' queued := by
  induction vs generalizing s with
  | nil => exact ⟨s, [], .nil s⟩
  | cons v vs ih =>
    obtain ⟨n, hn⟩ := exists_ended h.1 rfl
    obtain ⟨s', queued, hrun⟩ := ih (h.2 n hn)
    exact ⟨s', _, .cons n hn hrun⟩

theorem BeaconRun.scheduled {vs : List Visit} {s s' : BeaconState}
    (hrun : BeaconRun wild env conf s vs s' queued) (hp : conf.beacon_period.toNat ≤ 86400)
    (hmeets : RunMeets wild env conf vs s) {before : List Beacon} (h : Scheduled conf s before) :
    Scheduled conf s' (before ++ queued) := by
  induction hrun generalizing before with
  | nil s => rwa [List.append_nil]
  | @cons s s' v vs queued n ended rest ih =>
    have hentered : Scheduled conf (s.enter v.num_beacon) before :=
      ⟨h.right, h.increasing, h.le_last, h.dvd_last⟩
    rw [← List.append_assoc]
    exact ih (hmeets.2 n ended) (hentered.beaconLoop hp hmeets.1 rfl n)

/-- In every run whose turns find their slots in time, each visit of the loop ends, and the beacons
queued are right and each later than those before. -/
theorem beacons_right_of_timely (hp : conf.beacon_period.toNat ≤ 86400) {stack : LgwPktTx}
    {vs : List Visit} (h : RunMeets wild env conf vs (beaconInit wild conf stack)) :
    (∃ s queued, BeaconRun wild env conf (beaconInit wild conf stack) vs s queued)
      ∧ ∀ s queued, BeaconRun wild env conf (beaconInit wild conf stack) vs s queued →
        (∀ b ∈ queued, b.Right conf) ∧ queued.Pairwise fun b b' => b.gps_time < b'.gps_time := by
  refine ⟨h.exists_run, fun s queued hrun => ?_⟩
  have hinit : Scheduled conf (beaconInit wild conf stack) [] :=
    ⟨by simp, List.Pairwise.nil, by simp, dvd_zero _⟩
  have hsched := hrun.scheduled hp h hinit
  exact ⟨hsched.right, hsched.increasing⟩

end Loop

/-- A beacon every 128 seconds at SF9, on one channel. -/
def sampleBeaconConf : BeaconConf where
  beacon_period := 128
  beacon_freq_hz := 869525000
  beacon_freq_nb := 1
  beacon_freq_step := 0
  beacon_datarate := .sf9
  beacon_bw_hz := .hz125000
  beacon_power := 14
  beacon_infodesc := 0
  lat := .ofInt 54
  lon := .ofInt 25

/-- A visit whose turns find an empty queue, and a reference of the given GPS second that was taken
`age` ticks before. -/
def sampleVisit (tv_sec : ℤ) (age : ℕ) : Visit where
  num_beacon := 0
  turns := fun _ => ⟨true, ⟨1, 5000000, ⟨0, 0⟩, ⟨tv_sec, 0⟩, ⟨1, 0⟩⟩, age, jitQueueInit⟩

/-- The loop of `sampleVisit`, as the first one. -/
def sampleLoop (tv_sec : ℤ) (age : ℕ) : ℕ → LoopState :=
  (sampleVisit tv_sec age).loop (fun _ _ _ => 0) .sample sampleBeaconConf
    (beaconInit (fun _ _ _ => 0) sampleBeaconConf .zero)

theorem runMeets_sampleVisit :
    RunMeets (fun _ _ _ => 0) .sample sampleBeaconConf [sampleVisit 1000 500000]
      (beaconInit (fun _ _ _ => 0) sampleBeaconConf .zero) := by
  have hended : ∀ n, ¬(sampleLoop 1000 500000 (n + 3)).goesOn sampleBeaconConf
      ((sampleVisit 1000 500000).turns (n + 3)) := by
    intro n
    induction n with
    | zero => decide +kernel
    | succ n ih => exact fun h => ih (goesOn_of_succ h)
  refine ⟨fun n h => ?_, fun _ _ => trivial⟩
  rcases Nat.lt_or_ge n 3 with hlt | hge
  · clear h
    revert n
    decide +kernel
  · obtain ⟨k, rfl⟩ := Nat.exists_eq_add_of_le' hge
    exact absurd h (hended k)

theorem beacons_right_sampleVisit :
    ∃ s queued, BeaconRun (fun _ _ _ => 0) .sample sampleBeaconConf
        (beaconInit (fun _ _ _ => 0) sampleBeaconConf .zero) [sampleVisit 1000 500000] s queued
      ∧ (queued.map fun b => b.gps_time) = [1024, 1152, 1280]
      ∧ ∀ b ∈ queued, b.Right sampleBeaconConf := by
  have hrun := BeaconRun.cons (s := beaconInit (fun _ _ _ => 0) sampleBeaconConf .zero)
    (v := sampleVisit 1000 500000) 4 (show (sampleLoop 1000 500000 4).running = false by
      decide +kernel) (.nil _)
  refine ⟨_, _, hrun, ?_, ?_⟩
  · decide +kernel
  · exact ((beacons_right_of_timely (by decide) runMeets_sampleVisit).2 _ _ hrun).1

/-- The reference is 20 seconds old and valid. The slot after it has passed for 19 seconds when the
loop queues a beacon for it, which the counter only comes to after a whole turn. -/
theorem passed_slot_queued :
    ∃ b ∈ (sampleLoop 127 20000000 1).queued, b.turn.Valid ∧ b.gps_time = 128
      ∧ b.ahead = 4275967296 ∧ ¬b.Right sampleBeaconConf := by
  decide +kernel

end RutosSdk.Forwarder
