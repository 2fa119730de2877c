import RutosSdk.Hal.Sx1261
import RutosSdk.Hal.TimeOnAir

/-! # The write mode after a transmission

`sx1302_send` and `sx1261_set_rx_params` store their requests in bulk mode and flush them. What they
store is a demand on the bulk storage that depends on the parameters only. The mode is back to
single and the storage empty exactly if the demand can be met and the MCU acknowledges the flush.
-/

namespace RutosSdk.Hal

open Com Memory

/-! ## Demands -/

/-- Bytes and requests to be stored, and calls to be counted. -/
structure Demand where
  bytes : ℕ
  requests : ℕ
  attempts : ℕ
deriving DecidableEq, Repr

instance : Add Demand :=
  ⟨fun d e => ⟨d.bytes + e.bytes, d.requests + e.requests, d.attempts + e.attempts⟩⟩

instance : Zero Demand := ⟨⟨0, 0, 0⟩⟩

theorem Demand.mk_add_mk (a b c a' b' c' : ℕ) :
    Demand.mk a b c + Demand.mk a' b' c' = ⟨a + a', b + b', c + c'⟩ := rfl

theorem Demand.zero_add (d : Demand) : 0 + d = d := by
  change Demand.mk (0 + d.bytes) (0 + d.requests) (0 + d.attempts) = d
  simp only [Nat.zero_add]

/-- The storage has room for the demand. -/
def Demand.Fits (d : Demand) (b : SpiReqBulk) : Prop :=
  b.size + d.bytes ≤ usbBurstChunk ∧ b.nb_req + d.requests ≤ 255

instance (d : Demand) (b : SpiReqBulk) : Decidable (d.Fits b) := inferInstanceAs (Decidable (_ ∧ _))

/-- The demand of calls one after the other; `none` is a call that never succeeds. -/
def Demand.both (d e : Option Demand) : Option Demand := d.bind fun x => e.map fun y => x + y

/-- The storage is within its bounds, as `spi_req_bulk_insert` keeps it. -/
def Bounded (b : SpiReqBulk) : Prop := b.size ≤ usbBurstChunk ∧ b.nb_req ≤ 255

/-- The link before calls in bulk mode. -/
structure InBulk (c : Client) (l : Link) : Prop where
  mode : (l.usb.client c).write_mode = .bulk
  bounded : Bounded l.usb.bulk

/-- The demand has been stored. -/
structure Stored (c : Client) (d : Demand) (l l' : Link) : Prop where
  mode : (l'.usb.client c).write_mode = .bulk
  count : (l'.usb.client c).spi_req_nb = (l.usb.client c).spi_req_nb + BitVec.ofNat 8 d.attempts
  size : l'.usb.bulk.size = l.usb.bulk.size + d.bytes
  nb_req : l'.usb.bulk.nb_req = l.usb.bulk.nb_req + d.requests
  port : l'.port = l.port

/-- In bulk mode the calls store the demand if there is room for it, and stop with an error
otherwise. -/
structure Stores {α : Type} (c : Client) (p : ComScript α) (d : Option Demand) : Prop where
  fits : ∀ {l : Link}, InBulk c l → ∀ e, d = some e → e.Fits l.usb.bulk →
    ∃ a, (p l).1 = some a ∧ Stored c e l (p l).2
  refuses : ∀ {l : Link}, InBulk c l → (∀ e, d = some e → ¬e.Fits l.usb.bulk) →
    (p l).1 = none ∧ ((p l).2.usb.client c).write_mode = .bulk

variable {α β : Type} {c : Client} {l : Link}

variable {d e : Demand} {l' : Link} {P : Prop}

theorem Stored.inBulk (h : Stored c d l l') (hfits : d.Fits l.usb.bulk) : InBulk c l' := by
  refine ⟨h.mode, ?_⟩
  unfold Bounded
  rw [h.size, h.nb_req]
  exact hfits

/-- Demands that are met one after the other add up. -/
theorem Stored.trans {l'' : Link} (h : Stored c d l l') (h' : Stored c e l' l'') :
    Stored c (d + e) l l'' := by
  refine ⟨h'.mode, ?_, ?_, ?_, h'.port.trans h.port⟩
  · rw [h'.count, h.count, BitVec.add_assoc]
    change _ = _ + BitVec.ofNat 8 (d.attempts + e.attempts)
    rw [BitVec.ofNat_add]
  · rw [h'.size, h.size, Nat.add_assoc]
    rfl
  · rw [h'.nb_req, h.nb_req, Nat.add_assoc]
    rfl

theorem Stored.fits_add_iff (h : Stored c d l l') (e : Demand) :
    (d + e).Fits l.usb.bulk ↔ e.Fits l'.usb.bulk := by
  have hb : (d + e).bytes = d.bytes + e.bytes := rfl
  have hr : (d + e).requests = d.requests + e.requests := rfl
  unfold Demand.Fits
  rw [h.size, h.nb_req, hb, hr]
  omega

theorem Demand.Fits.left {b : SpiReqBulk} (h : (d + e).Fits b) : d.Fits b := by
  have hb : (d + e).bytes = d.bytes + e.bytes := rfl
  have hr : (d + e).requests = d.requests + e.requests := rfl
  unfold Demand.Fits at h ⊢
  omega

/-! ## Rules -/

theorem stores_fail : Stores c (Script.fail : ComScript α) none where
  fits _ e he := absurd he (by simp)
  refuses hl _ := ⟨rfl, hl.mode⟩

theorem stores_pure (a : α) : Stores c (pure a : ComScript α) (some 0) where
  fits hl e he _ := by
    obtain rfl := Option.some.inj he
    exact ⟨a, rfl, hl.mode, (BitVec.add_zero _).symm, rfl, rfl, rfl⟩
  refuses hl h := absurd hl.bounded (h 0 rfl)

variable {p : ComScript α} (rf_chain : Byte) (env : SendEnv) (data : ℕ → Byte)
  (radio_type : LgwRadioType) (modulation : Byte) (packet : LgwPktTx) (bandwidth : Byte)

theorem Stores.bind {f : α → ComScript β} {d e : Option Demand} (hp : Stores c p d)
    (hf : ∀ a, Stores c (f a) e) : Stores c (p >>= f) (Demand.both d e) where
  fits := by
    intro l hl t ht hfits
    obtain ⟨x, rfl, y, rfl, rfl⟩ : ∃ x, d = some x ∧ ∃ y, e = some y ∧ t = x + y := by
      cases d with
      | none => exact absurd ht (by simp [Demand.both])
      | some x =>
        cases e with
        | none => exact absurd ht (by simp [Demand.both])
        | some y => exact ⟨x, rfl, y, rfl, (Option.some.inj ht).symm⟩
    obtain ⟨a, ha, hstored⟩ := hp.fits hl x rfl hfits.left
    obtain ⟨b, hb, hstored'⟩ := (hf a).fits (hstored.inBulk hfits.left) y rfl
      ((hstored.fits_add_iff y).mp hfits)
    rw [Script.bind_of_some (Prod.ext ha rfl)]
    exact ⟨b, hb, hstored.trans hstored'⟩
  refuses := by
    intro l hl hrefuse
    by_cases hx : ∃ x, d = some x ∧ x.Fits l.usb.bulk
    · -- the first part is stored, so it is the second that does not fit
      obtain ⟨x, rfl, hfits⟩ := hx
      obtain ⟨a, ha, hstored⟩ := hp.fits hl x rfl hfits
      rw [Script.bind_of_some (Prod.ext ha rfl)]
      refine (hf a).refuses (hstored.inBulk hfits) ?_
      rintro y rfl hy
      exact hrefuse (x + y) rfl ((hstored.fits_add_iff y).mpr hy)
    · obtain ⟨hnone, hmode⟩ := hp.refuses hl fun x hd hfits => hx ⟨x, hd, hfits⟩
      rw [Script.bind_of_none (Prod.ext hnone rfl)]
      exact ⟨rfl, hmode⟩

/-- A write in bulk mode: the count goes up, and the request is offered to the storage. -/
theorem comWrite_of_bulk (r : UsbRequest) (h : (l.usb.client r.client).write_mode = .bulk) :
    comWrite r l =
      let s := l.usb.client r.client
      let (ok, bulk) := spiReqBulkInsert l.usb.bulk (r.frame s.spi_req_nb)
      (if ok then some () else none,
        { l with usb := { l.usb.setClient r.client { s with spi_req_nb := s.spi_req_nb + 1 } with
          bulk := bulk } }) := by
  simp only [comWrite, usbWrite, h, if_true]

/-- A request that does not fit is only counted. -/
theorem comWrite_of_not_hasRoom {r : UsbRequest} (h : (l.usb.client r.client).write_mode = .bulk)
    (hroom : ¬l.usb.bulk.HasRoom r.commandSize) :
    (comWrite r l).1 = none ∧ Stored r.client ⟨0, 0, 1⟩ l (comWrite r l).2 := by
  rw [← length_frame (l.usb.client r.client).spi_req_nb] at hroom
  rw [comWrite_of_bulk r h]
  dsimp only
  rw [spiReqBulkInsert_of_not_hasRoom hroom]
  refine ⟨rfl, ?_, ?_, rfl, rfl, rfl⟩
  · exact (congrArg ClientState.write_mode (client_setClient _)).trans h
  · exact congrArg ClientState.spi_req_nb (client_setClient _)

/-- A request is stored if there is room for it. -/
theorem stores_comWrite (r : UsbRequest) :
    Stores r.client (comWrite r) (some ⟨r.commandSize, 1, 1⟩) where
  fits := by
    intro l hl e he hfits
    obtain rfl := Option.some.inj he
    have hroom : l.usb.bulk.HasRoom (r.frame (l.usb.client r.client).spi_req_nb).length := by
      rw [length_frame]
      exact ⟨Nat.ne_of_lt hfits.2, hfits.1⟩
    obtain ⟨hok, hsize, hnb, -⟩ := spiReqBulkInsert_of_hasRoom hroom
    rw [comWrite_of_bulk r hl.mode]
    refine ⟨(), if_pos hok, ?_, ?_, ?_, hnb, rfl⟩
    · exact (congrArg ClientState.write_mode (client_setClient _)).trans hl.mode
    · exact congrArg ClientState.spi_req_nb (client_setClient _)
    · exact hsize.trans (by rw [length_frame])
  refuses := by
    intro l hl hrefuse
    have hroom : ¬l.usb.bulk.HasRoom r.commandSize := by
      rintro ⟨hnb, hsize⟩
      exact hrefuse _ rfl ⟨hsize, Nat.lt_of_le_of_ne hl.bounded.2 hnb⟩
    obtain ⟨hnone, hstored⟩ := comWrite_of_not_hasRoom hl.mode hroom
    exact ⟨hnone, hstored.mode⟩

/-- The demand of requests one after the other. -/
def Demand.ofSizes (sizes : List ℕ) : Demand := ⟨sizes.sum, sizes.length, sizes.length⟩

theorem Stores.of_eq {d e : Option Demand} (h : Stores c p d) (he : d = e) : Stores c p e := he ▸ h

theorem stores_all {γ : Type} (request : γ → UsbRequest) (hclient : ∀ w, (request w).client = c)
    (ws : List γ) :
    Stores c (Script.all (fun w => comWrite (request w)) ws)
      (some (Demand.ofSizes (ws.map fun w => (request w).commandSize))) := by
  induction ws with
  | nil => exact stores_pure ()
  | cons w ws ih =>
    have hw := stores_comWrite (request w)
    rw [hclient w] at hw
    refine (hw.bind fun _ => ih).of_eq ?_
    simp only [Demand.both, Option.bind_some, Option.map_some, Demand.ofSizes, List.map_cons,
      List.sum_cons, List.length_cons, List.length_map]
    rw [Nat.add_comm ws.length 1]
    rfl

/-- Calls that are only counted, their errors ignored, before others. -/
theorem Stores.after {q : ComScript β} {k : ℕ} (hp : ∀ l, InBulk c l → Stored c ⟨0, 0, k⟩ l (p l).2)
    (hq : Stores c q (some d)) : Stores c (fun l => q (p l).2) (some (⟨0, 0, k⟩ + d)) where
  fits := by
    intro l hl e he hfits
    obtain rfl := Option.some.inj he
    obtain ⟨b, hb, hstored⟩ := hq.fits ((hp l hl).inBulk hl.bounded) d rfl
      (((hp l hl).fits_add_iff d).mp hfits)
    exact ⟨b, hb, (hp l hl).trans hstored⟩
  refuses := by
    intro l hl hrefuse
    refine hq.refuses ((hp l hl).inBulk hl.bounded) ?_
    rintro e he hfits
    obtain rfl := Option.some.inj he
    exact hrefuse _ rfl (((hp l hl).fits_add_iff _).mpr hfits)

/-! ## Registers and memory -/

/-- Bytes that the request of a register write takes. -/
def TxWrite.commandSize : TxWrite → ℕ
  | .w r _ => if r.layout.2.2 = 8 ∧ r.layout.2.1 = 0 then 9 else 6
  | .wb .. => 10

theorem TxWrite.request_spec (w : TxWrite) :
    (w.request rf_chain).client = .sx1302 ∧ (w.request rf_chain).commandSize = w.commandSize := by
  cases w with
  | w r reg_value =>
    simp only [TxWrite.request, regRequest, TxWrite.commandSize]
    by_cases h : (r.loreg rf_chain).leng = 8 ∧ (r.loreg rf_chain).offs = 0
    · rw [if_pos h, if_pos (show r.layout.2.2 = 8 ∧ r.layout.2.1 = 0 from h)]
      exact ⟨rfl, rfl⟩
    · rw [if_neg h, if_neg (show ¬(r.layout.2.2 = 8 ∧ r.layout.2.1 = 0) from h)]
      exact ⟨rfl, rfl⟩
  | wb r data => exact ⟨rfl, rfl⟩

/-- The demand of register writes. -/
def regDemand (ws : List TxWrite) : Demand := Demand.ofSizes (ws.map TxWrite.commandSize)

theorem stores_regWrites (ws : List TxWrite) :
    Stores .sx1302 (regWrites rf_chain ws) (some (regDemand ws)) := by
  refine (stores_all _ (fun w => (w.request_spec rf_chain).1) ws).of_eq ?_
  simp only [regDemand, (TxWrite.request_spec rf_chain _).2]

theorem stores_regSwitch (o : Option (List TxWrite)) :
    Stores .sx1302 (regSwitch rf_chain o) (o.map regDemand) := by
  cases o with
  | none => exact stores_fail
  | some ws => exact stores_regWrites rf_chain ws

theorem commandSize_memChunk (k : ℕ) (addr : BitVec 16) (size : ℕ) :
    (memChunk data k addr size).commandSize = min usbBurstChunk size + 8 := by
  simp [memChunk, burst, UsbRequest.commandSize]

/-- The loop of `lgw_mem_wb` with `todo` bytes left. -/
def memRest (fuel k : ℕ) (addr : BitVec 16) (todo : ℕ) : ComScript Unit :=
  fun l =>
    let s := memLoop usbBurstChunk (memBurst data) false fuel ⟨true, k, addr, todo, l⟩
    (if s.com_stat then some () else none, s.link)

/-- The last chunk decides. -/
theorem memRest_last (fuel k : ℕ) (addr : BitVec 16) {todo : ℕ} (hpos : 0 < todo)
    (hle : todo ≤ usbBurstChunk) :
    memRest data (fuel + 1) k addr todo = comWrite (memChunk data k addr todo) := by
  funext l
  have hloop : ∀ fuel (s : MemState Link), s.sz_todo = 0 →
      memLoop usbBurstChunk (memBurst data) false fuel s = s := by
    intro fuel s hs
    cases fuel with
    | zero => rfl
    | succ fuel => rw [memLoop, if_neg (by omega)]
  rw [memRest, memLoop, if_pos hpos, hloop _ _ (by simp [memStep, if_neg (Nat.not_lt.mpr hle)])]
  simp only [memStep, if_neg (Nat.not_lt.mpr hle), memBurst]
  cases h : comWrite (memChunk data k addr todo) l with
  | mk res l' => cases res <;> rfl

/-- The status of a chunk is overwritten by that of the next. -/
theorem memRest_next (fuel k : ℕ) (addr : BitVec 16) {todo : ℕ} (hlt : usbBurstChunk < todo)
    (l : Link) :
    memRest data (fuel + 2) k addr todo l
      = memRest data (fuel + 1) (k + 1) (addr + BitVec.ofNat 16 usbBurstChunk)
          (todo - usbBurstChunk) (comWrite (memChunk data k addr usbBurstChunk) l).2 := by
  have hstep : memStep usbBurstChunk (memBurst data) false ⟨true, k, addr, todo, l⟩
      = ⟨(comWrite (memChunk data k addr usbBurstChunk) l).1.isSome, k + 1,
          addr + BitVec.ofNat 16 usbBurstChunk, todo - usbBurstChunk,
          (comWrite (memChunk data k addr usbBurstChunk) l).2⟩ := by
    simp only [memStep, if_pos hlt, memBurst, Bool.false_eq_true, if_false]
  have hpos := Nat.sub_pos_of_lt hlt
  rw [memRest, memLoop, if_pos (Nat.zero_lt_of_lt hlt), hstep, memRest, memLoop, memLoop,
    if_pos hpos, if_pos hpos]
  rfl

/-- Of several chunks only the last can be stored: the frame of a full chunk exceeds the storage. -/
theorem stores_memRest (data : ℕ → Byte) (fuel k : ℕ) (addr : BitVec 16) {todo : ℕ}
    (hpos : 0 < todo) (hfuel : todo ≤ fuel + 1) :
    Stores .sx1302 (memRest data (fuel + 1) k addr todo)
      (some ⟨(todo - 1) % usbBurstChunk + 9, 1, (todo - 1) / usbBurstChunk + 1⟩) := by
  have hchunk : 0 < usbBurstChunk := by decide
  induction fuel generalizing k addr todo with
  | zero =>
    rw [memRest_last data 0 k addr hpos (by omega)]
    refine (stores_comWrite (memChunk data k addr todo)).of_eq ?_
    obtain rfl : todo = 1 := by omega
    rfl
  | succ fuel ih =>
    by_cases hlt : usbBurstChunk < todo
    · have hfull : ∀ b : SpiReqBulk,
          ¬b.HasRoom (memChunk data k addr usbBurstChunk).commandSize := by
        rintro b ⟨-, hsize⟩
        rw [commandSize_memChunk] at hsize
        omega
      have hcount : ∀ l, InBulk .sx1302 l →
          Stored .sx1302 ⟨0, 0, 1⟩ l (comWrite (memChunk data k addr usbBurstChunk) l).2 :=
        fun l hl => (comWrite_of_not_hasRoom (r := memChunk data k addr usbBurstChunk) hl.mode
          (hfull _)).2
      have hrest := @ih (k + 1) (addr + BitVec.ofNat 16 usbBurstChunk) (todo - usbBurstChunk)
        (by omega) (by omega)
      rw [funext (memRest_next data fuel k addr hlt)]
      refine (Stores.after hcount hrest).of_eq ?_
      have hsub : todo - 1 = todo - usbBurstChunk - 1 + usbBurstChunk := by omega
      rw [hsub, Nat.add_mod_right, Nat.add_div_right _ hchunk]
      change some (Demand.mk (0 + _) (0 + 1) (1 + _)) = _
      rw [Nat.zero_add, Nat.zero_add, Nat.add_comm 1]
    · rw [memRest_last data (fuel + 1) k addr hpos (by omega)]
      refine (stores_comWrite (memChunk data k addr todo)).of_eq ?_
      rw [commandSize_memChunk, Nat.mod_eq_of_lt (by omega), Nat.div_eq_of_lt (by omega)]
      congr 2
      omega

/-- The demand of a write to the memory. -/
def memDemand (size : BitVec 16) : Option Demand :=
  if size = 0 then none
  else some ⟨(size.toNat - 1) % usbBurstChunk + 9, 1, (size.toNat - 1) / usbBurstChunk + 1⟩

theorem stores_lgwMemWb (mem_addr : BitVec 16) (data : ℕ → Byte) (size : BitVec 16) :
    Stores .sx1302 (lgwMemWb mem_addr data size) (memDemand size) := by
  unfold memDemand
  split
  · rename_i hsize
    rw [hsize]
    exact stores_fail
  · rename_i hsize
    obtain ⟨fuel, hfuel⟩ : ∃ fuel, size.toNat = fuel + 1 :=
      Nat.exists_eq_succ_of_ne_zero fun h => hsize (BitVec.eq_of_toNat_eq h)
    have hrest := @stores_memRest data fuel 0 mem_addr size.toNat (by omega) (by omega)
    have heq : lgwMemWb mem_addr data size = memRest data (fuel + 1) 0 mem_addr size.toNat := by
      funext l
      rw [lgwMemWb, memTransfer, if_neg (by omega), memRest, hfuel]
    rwa [heq]

/-! ## Demands under a condition -/

/-- A demand made under a condition. -/
def Demand.when (P : Prop) [Decidable P] (d : Demand) : Option Demand := if P then some d else none

theorem Demand.when_pos [Decidable P] (h : P) (d : Demand) : Demand.when P d = some d := if_pos h

theorem Demand.when_neg [Decidable P] (h : ¬P) (d : Demand) : Demand.when P d = none := if_neg h

theorem Demand.both_when (P Q : Prop) [Decidable P] [Decidable Q] (d e : Demand) :
    Demand.both (Demand.when P d) (Demand.when Q e) = Demand.when (P ∧ Q) (d + e) := by
  by_cases hP : P <;> by_cases hQ : Q <;>
    simp [Demand.when_pos, Demand.when_neg, hP, hQ, Demand.both]

theorem Demand.both_some_when (Q : Prop) [Decidable Q] (d e : Demand) :
    Demand.both (some d) (Demand.when Q e) = Demand.when Q (d + e) := by
  by_cases hQ : Q <;> simp [Demand.when_pos, Demand.when_neg, hQ, Demand.both]

theorem Demand.when_congr {Q : Prop} [Decidable P] [Decidable Q] (h : P ↔ Q) (hd : Q → d = e) :
    Demand.when P d = Demand.when Q e := by
  by_cases hP : P
  · rw [Demand.when_pos hP, Demand.when_pos (h.mp hP), hd (h.mp hP)]
  · rw [Demand.when_neg hP, Demand.when_neg fun hQ => hP (h.mpr hQ)]

/-! ## Sessions -/

/-- The write mode is single, and no request is left in the storage. -/
structure Restored (c : Client) (l : Link) : Prop where
  mode : (l.usb.client c).write_mode = .single
  nb_req : l.usb.bulk.nb_req = 0
  size : l.usb.bulk.size = 0

/-- The MCU acknowledges a transfer of `size` bytes, whatever they are. -/
def Acknowledges (x : Exchange) (size : ℕ) : Prop := ∀ buf, (mcuSpiWrite x buf size).ok = true

/-- Whether a transfer succeeds does not depend on its bytes. This leaves out the acknowledges that
end inside a status, which `decode_ack_spi_bulk` completes with what the buffer held. -/
def Decided (x : Exchange) : Prop :=
  ∀ size buf buf', (mcuSpiWrite x buf size).ok = (mcuSpiWrite x buf' size).ok

/-- The demand can be stored, is seen by the flush, and the flush is acknowledged. -/
structure Flushed (c : Client) (d : Demand) (l : Link) : Prop where
  fits : d.Fits l.usb.bulk
  counted : (l.usb.client c).spi_req_nb + BitVec.ofNat 8 d.attempts ≠ 0
  acknowledged : Acknowledges (l.port 0) (l.usb.bulk.size + d.bytes)

/-- The state after a flush of stored requests and the return to single mode. -/
theorem restored_flush_iff (hmode : (l.usb.client c).write_mode = .bulk)
    (hreq : l.usb.bulk.nb_req ≠ 0) :
    Restored c ((comFlush c >>= fun _ => comSetWriteMode c .single) l).2
      ↔ (l.usb.client c).spi_req_nb ≠ 0
        ∧ (mcuSpiWrite (l.port 0) l.usb.bulk.buffer l.usb.bulk.size).ok = true := by
  by_cases hcount : (l.usb.client c).spi_req_nb = 0
  · -- nothing is counted, so nothing is sent
    have hflush : comFlush c l = (some (), { l with
        usb := l.usb.setClient c { l.usb.client c with write_mode := .single } }) := by
      simp only [comFlush, usbFlush, hmode, hcount, if_true, ne_eq, not_true, if_false]
    rw [Script.bind_of_some hflush]
    exact ⟨fun h => absurd h.nb_req hreq, fun h => absurd hcount h.1⟩
  · set t := mcuSpiWrite (l.port 0) l.usb.bulk.buffer l.usb.bulk.size with ht
    by_cases hok : t.ok = true
    · have hflush : comFlush c l = (some (), { l with
          usb := { l.usb.setClient c ⟨.single, 0⟩ with bulk := ⟨0, 0, t.buf⟩ }
          port := fun n => l.port (n + 1) }) := by
        simp only [comFlush, usbFlush, mcuSpiFlush, hmode, hcount, ← ht, hok, if_true, ne_eq,
          not_true, if_false]
      rw [Script.bind_of_some hflush]
      refine ⟨fun _ => ⟨hcount, hok⟩, fun _ => ⟨?_, rfl, rfl⟩⟩
      exact congrArg ClientState.write_mode (client_setClient _)
    · have hflush : comFlush c l = (none, { l with
          usb := { l.usb.setClient c ⟨.single, 0⟩ with bulk := { l.usb.bulk with buffer := t.buf } }
          port := fun n => l.port (n + 1) }) := by
        simp only [comFlush, usbFlush, mcuSpiFlush, hmode, hcount, ← ht, hok, ne_eq,
          not_true, if_false, Bool.false_eq_true]
      rw [Script.bind_of_none hflush]
      exact ⟨fun h => absurd h.nb_req hreq, fun h => absurd h.2 hok⟩

/-- A session leaves the link as it should be exactly if the demand of its calls is flushed. -/
theorem restored_bulkSession_iff {p : ComScript Unit} [Decidable P]
    (hp : Stores c p (Demand.when P d)) (hreq : d.requests ≠ 0) (hbounded : Bounded l.usb.bulk)
    (hport : Decided (l.port 0)) : Restored c (bulkSession c p l).2 ↔ P ∧ Flushed c d l := by
  set l₁ : Link := { l with usb := usbSetWriteMode l.usb c .bulk } with hl₁
  have hsession : bulkSession c p l
      = (p >>= fun _ => comFlush c >>= fun _ => comSetWriteMode c .single) l₁ := rfl
  have hclient : l₁.usb.client c = { l.usb.client c with write_mode := .bulk } :=
    client_setClient _
  have hcount : (l₁.usb.client c).spi_req_nb = (l.usb.client c).spi_req_nb := by rw [hclient]
  have hbulk : InBulk c l₁ := ⟨by rw [hclient], hbounded⟩
  rw [hsession]
  by_cases hfits : P ∧ d.Fits l.usb.bulk
  · obtain ⟨a, ha, hstored⟩ := hp.fits hbulk d (Demand.when_pos hfits.1 d) hfits.2
    have hreq' : (p l₁).2.usb.bulk.nb_req ≠ 0 := by
      rw [hstored.nb_req]
      omega
    rw [Script.bind_of_some (Prod.ext ha rfl), restored_flush_iff hstored.mode hreq',
      hstored.count, hcount, hstored.port, hstored.size]
    constructor
    · rintro ⟨hne, hok⟩
      exact ⟨hfits.1, hfits.2, hne, fun buf => (hport _ _ _).trans hok⟩
    · rintro ⟨-, h⟩
      exact ⟨h.counted, h.acknowledged _⟩
  · have hrefuse : ∀ e, Demand.when P d = some e → ¬e.Fits l.usb.bulk := by
      intro e he h
      unfold Demand.when at he
      split_ifs at he with hP
      obtain rfl := Option.some.inj he
      exact hfits ⟨hP, h⟩
    obtain ⟨hnone, hmode⟩ := hp.refuses hbulk hrefuse
    rw [Script.bind_of_none (Prod.ext hnone rfl)]
    refine ⟨fun h => ?_, fun ⟨hP, h⟩ => absurd ⟨hP, h.fits⟩ hfits⟩
    exact absurd (hmode.symm.trans h.mode) (by decide)

/-! ## The two functions -/

/-- The modulations that `sx1302_send` handles. -/
abbrev IsTxModulation : Prop := modulation = modCw ∨ modulation = modLora ∨ modulation = modFsk

/-- The radios that `sx1302_send` handles. -/
abbrev IsTxRadio : Prop := radio_type = .sx1250 ∨ radio_type = .sx1255 ∨ radio_type = .sx1257

/-- The parameters that `sx1302_send` does not refuse on its way to the flush. -/
structure Transmittable (radio_type : LgwRadioType) (packet : LgwPktTx) : Prop where
  modulation : IsTxModulation packet.modulation
  radio_type : IsTxRadio radio_type
  bandwidth : packet.modulation = modLora → isLoraBw packet.bandwidth
  size : packet.size ≠ 0
  tx_mode : isTxMode packet.tx_mode

/-- What a transmission stores: the configuration of the radio, of the modem, the payload (of a
payload beyond one chunk the rest only) and the trigger. -/
def sendDemand : Demand :=
  let modem : Demand :=
    if packet.modulation = modCw then ⟨51, 6, 6⟩
    else if packet.modulation = modLora then ⟨148, 22, 22⟩
    else ⟨206, 26, 26⟩
  let payload : Demand := ⟨(packet.size.toNat - 1) % usbBurstChunk + 9, 1,
    (packet.size.toNat - 1) / usbBurstChunk + 1⟩
  let trigger : Demand := if packet.tx_mode = txTimestamped then ⟨48, 6, 6⟩ else ⟨12, 2, 2⟩
  ⟨93, 12, 12⟩ + modem + payload + trigger

/-- What `sx1261_set_rx_params` stores. -/
def rxParamsDemand : Demand := ⟨79, 8, 8⟩

theorem eq_or_not_isTxModulation :
    modulation = modCw ∨ modulation = modLora ∨ modulation = modFsk
      ∨ ¬IsTxModulation modulation := by
  tauto

theorem demand_selectModem :
    (selectModem modulation).map regDemand
      = Demand.when (IsTxModulation modulation) ⟨12, 2, 2⟩ := by
  rcases eq_or_not_isTxModulation modulation with rfl | rfl | rfl | h
  · rfl
  · rfl
  · rfl
  · rw [Demand.when_neg h]
    simp only [IsTxModulation, not_or] at h
    simp only [selectModem, h.1, h.2.1, h.2.2, if_false, Option.map_none]

theorem demand_powerParameters (gain : LgwTxGain) :
    (powerParameters radio_type gain).map regDemand
      = Demand.when (IsTxRadio radio_type) ⟨9, 1, 1⟩ := by
  cases radio_type <;> rfl

theorem demand_agcBandwidth :
    (agcBandwidth modulation bandwidth).map regDemand
      = Demand.when (IsTxModulation modulation) ⟨9, 1, 1⟩ := by
  rcases eq_or_not_isTxModulation modulation with rfl | rfl | rfl | h
  · rfl
  · rfl
  · rfl
  · rw [Demand.when_neg h]
    simp only [IsTxModulation, not_or] at h
    simp only [agcBandwidth, h.1, h.2.1, h.2.2, if_false, or_self, Option.map_none]

theorem regDemand_cwModem : regDemand (cwModem env packet) = ⟨51, 6, 6⟩ := by
  simp [regDemand, cwModem, frequencyDeviation, agcDeviation, TxWrite.commandSize, TxReg.layout,
    Demand.ofSizes]

theorem regDemand_loraModem (lwan_public : Bool) (packet : LgwPktTx) :
    regDemand (loraModem lwan_public packet) = ⟨138, 21, 21⟩ := by
  simp [regDemand, loraModem, frequencyDeviation, TxWrite.commandSize, TxReg.layout, Demand.ofSizes]

theorem regDemand_fskModem (sync_word : BitVec 64) (sync_word_size : Byte) (packet : LgwPktTx) :
    regDemand (fskModem env sync_word sync_word_size packet) = ⟨197, 25, 25⟩ := by
  simp [regDemand, fskModem, frequencyDeviation, agcDeviation, TxWrite.commandSize, TxReg.layout,
    Demand.ofSizes]

theorem demand_configureModem (lwan_public : Bool) (sync_word : BitVec 64) (sync_word_size : Byte)
    (packet : LgwPktTx) :
    (configureModem env lwan_public sync_word sync_word_size packet).map regDemand
      = Demand.when (IsTxModulation packet.modulation)
        (if packet.modulation = modCw then ⟨51, 6, 6⟩
          else if packet.modulation = modLora then ⟨138, 21, 21⟩ else ⟨197, 25, 25⟩) := by
  unfold configureModem
  rcases eq_or_not_isTxModulation packet.modulation with h | h | h | h
  · rw [if_pos h, if_pos h, Demand.when_pos (.inl h), Option.map_some, regDemand_cwModem]
  · have hcw : packet.modulation ≠ modCw := by rw [h]; decide
    rw [if_neg hcw, if_neg hcw, if_pos h, if_pos h, Demand.when_pos (.inr (.inl h)),
      Option.map_some, regDemand_loraModem]
  · have hcw : packet.modulation ≠ modCw := by rw [h]; decide
    have hlora : packet.modulation ≠ modLora := by rw [h]; decide
    rw [if_neg hcw, if_neg hcw, if_neg hlora, if_neg hlora, if_pos h,
      Demand.when_pos (.inr (.inr h)), Option.map_some, regDemand_fskModem]
  · rw [Demand.when_neg h]
    simp only [IsTxModulation, not_or] at h
    simp only [h.1, h.2.1, h.2.2, if_false, Option.map_none]

/-- The bandwidths and radios for which a start delay is known. -/
theorem radioBwDelay_eq_none_iff :
    radioBwDelay radio_type bandwidth = none
      ↔ ¬(IsTxRadio radio_type ∧ isLoraBw bandwidth = true) := by
  have hbw : ∀ b : Byte, (b = bw125Khz ∨ b = bw250Khz ∨ b = bw500Khz)
      ↔ isLoraBw b = true := by decide
  rw [← hbw]
  unfold radioBwDelay IsTxRadio
  cases radio_type with
  | sx1250 | sx1255 | sx1257 =>
    split_ifs <;> simp_all
  | none | sx1272 | sx1276 => simp

theorem stores_sx1302TxSetStartDelay (chirp_lowpass : ℕ) :
    Stores .sx1302
      (sx1302TxSetStartDelay rf_chain radio_type modulation bandwidth chirp_lowpass)
      (Demand.when (modulation = modLora → IsTxRadio radio_type ∧ isLoraBw bandwidth)
        (if modulation = modLora then ⟨10, 1, 1⟩ else 0)) := by
  unfold sx1302TxSetStartDelay
  by_cases hlora : modulation = modLora
  · have hdelay := radioBwDelay_eq_none_iff radio_type bandwidth
    rw [if_neg (not_not_intro hlora), if_pos hlora]
    split
    · rename_i hnone
      rw [Demand.when_neg fun h => hdelay.mp hnone (h hlora)]
      exact stores_fail
    · rename_i d hsome
      have hok : IsTxRadio radio_type ∧ isLoraBw bandwidth :=
        Classical.byContradiction fun h => by rw [hdelay.mpr h] at hsome; cases hsome
      rw [Demand.when_pos fun _ => hok]
      exact (stores_regWrites rf_chain _).bind fun _ => stores_pure _
  · rw [if_pos hlora, Demand.when_pos fun h => absurd h hlora, if_neg hlora]
    exact stores_pure 0

theorem stores_writePayload :
    Stores .sx1302 (writePayload env packet)
      (Demand.when (packet.size ≠ 0)
        ((if packet.modulation = modFsk then ⟨9, 1, 1⟩ else 0)
          + ⟨(packet.size.toNat - 1) % usbBurstChunk + 9, 1,
            (packet.size.toNat - 1) / usbBurstChunk + 1⟩)) := by
  have hpayload : ∀ mem_addr, Stores .sx1302
      (lgwMemWb mem_addr (payloadByte env packet) packet.size) (memDemand packet.size) :=
    fun mem_addr => stores_lgwMemWb mem_addr _ _
  have hmem : memDemand packet.size = Demand.when (packet.size ≠ 0)
      ⟨(packet.size.toNat - 1) % usbBurstChunk + 9, 1,
        (packet.size.toNat - 1) / usbBurstChunk + 1⟩ := by
    unfold memDemand
    by_cases h : packet.size = 0
    · rw [if_pos h, Demand.when_neg (not_not_intro h)]
    · rw [if_neg h, Demand.when_pos h]
  unfold writePayload
  by_cases hfsk : packet.modulation = modFsk
  · rw [if_pos hfsk, if_pos hfsk]
    refine ((stores_lgwMemWb _ _ 1).bind fun _ => hpayload _).of_eq ?_
    rw [hmem]
    unfold Demand.when
    split <;> rfl
  · rw [if_neg hfsk, if_neg hfsk]
    refine (hpayload _).of_eq ?_
    rw [hmem, Demand.zero_add]

theorem demand_triggerTransmit (tx_start_delay : BitVec 16) :
    (triggerTransmit packet tx_start_delay).map regDemand
      = Demand.when (isTxMode packet.tx_mode)
        (if packet.tx_mode = txTimestamped then ⟨48, 6, 6⟩ else ⟨12, 2, 2⟩) := by
  unfold triggerTransmit
  generalize packet.tx_mode = tx_mode
  have hmode : tx_mode = txImmediate ∨ tx_mode = txTimestamped ∨ tx_mode = txOnGps
      ∨ isTxMode tx_mode = false := by
    revert tx_mode
    decide
  rcases hmode with rfl | rfl | rfl | h
  · rfl
  · rfl
  · rfl
  · have hne : tx_mode ≠ txImmediate ∧ tx_mode ≠ txTimestamped ∧ tx_mode ≠ txOnGps := by
      revert tx_mode
      decide
    rw [Demand.when_neg (by rw [h]; decide)]
    simp only [hne.1, hne.2.1, hne.2.2, if_false, Option.map_none]

open Classical in
/-- What `sx1302_send` stores. -/
theorem stores_sendWrites (env : SendEnv) (conf : SendConf) (packet : LgwPktTx) :
    Stores .sx1302 (sendWrites env conf packet)
      (Demand.when (Transmittable conf.radio_type packet) (sendDemand packet)) := by
  unfold sendWrites
  refine Stores.of_eq
    ((stores_regSwitch _ _).bind fun _ => (stores_regWrites _ _).bind fun _ =>
      (stores_regSwitch _ _).bind fun _ => (stores_regWrites _ _).bind fun _ =>
      (stores_regSwitch _ _).bind fun _ => (stores_regSwitch _ _).bind fun _ =>
      (stores_sx1302TxSetStartDelay _ _ _ _ _).bind fun delay =>
      (stores_regWrites _ _).bind fun _ =>
      (stores_writePayload env packet).bind fun _ => (stores_regWrites _ _).bind fun _ =>
      (stores_regSwitch _ _).of_eq (demand_triggerTransmit packet delay)) ?_
  rw [demand_selectModem, demand_powerParameters, demand_agcBandwidth, demand_configureModem]
  simp only [Demand.both_when, Demand.both_some_when]
  refine Demand.when_congr ⟨?_, ?_⟩ ?_
  · rintro ⟨hmod, hradio, -, -, hbw, hsize, htx⟩
    exact ⟨hmod, hradio, fun h => (hbw h).2, hsize, htx⟩
  · intro h
    exact ⟨h.modulation, h.radio_type, h.modulation, h.modulation,
      fun hlora => ⟨h.radio_type, h.bandwidth hlora⟩, h.size, h.tx_mode⟩
  · intro h
    have hdc : ∀ gain, regDemand (dcOffsets gain) = ⟨18, 2, 2⟩ := fun _ => rfl
    have hgain : ∀ radio_type gain freq_hz,
        regDemand (gainAndFrequency radio_type gain freq_hz) = ⟨33, 4, 4⟩ := fun _ _ _ => rfl
    have hbuffer : ∀ v, regDemand [.w .writeBuffer v] = ⟨6, 1, 1⟩ := fun _ => rfl
    have hzero : (0 : Demand) = ⟨0, 0, 0⟩ := rfl
    unfold sendDemand
    rw [hdc, hgain, hbuffer, hbuffer, hzero]
    -- the two sides add up the same numbers in another order
    rcases h.modulation with hmod | hmod | hmod
    all_goals
      rw [hmod]
      by_cases htx : packet.tx_mode = txTimestamped
      all_goals
        simp only [htx, if_true, if_false, show modLora ≠ modCw by decide,
          show modFsk ≠ modCw by decide, show modFsk ≠ modLora by decide,
          show modCw ≠ modLora by decide, show modCw ≠ modFsk by decide,
          show modLora ≠ modFsk by decide, Demand.mk_add_mk, Demand.mk.injEq]
        exact ⟨by omega, trivial, by omega⟩

theorem stores_rxParamsWrites (freq_hz : Word) (bandwidth : Byte) :
    Stores .sx1261 (rxParamsWrites freq_hz bandwidth)
      (Demand.when (bandwidth = bw125Khz ∨ bandwidth = bw250Khz) rxParamsDemand) := by
  have hwrites : ∀ ws, Stores .sx1261 (sx1261Writes ws)
      (some (Demand.ofSizes (ws.map fun w => w.request.commandSize))) :=
    stores_all Sx1261Write.request fun _ => rfl
  unfold rxParamsWrites
  refine Stores.of_eq ((hwrites _).bind fun _ => (hwrites _).bind fun _ =>
    (show Stores .sx1261 _ (Demand.when (bandwidth = bw125Khz ∨ bandwidth = bw250Khz)
      ⟨38, 3, 3⟩) from ?_)) ?_
  · unfold fskBwReg
    by_cases h125 : bandwidth = bw125Khz
    · rw [if_pos h125, Demand.when_pos (.inl h125)]
      exact hwrites _
    · rw [if_neg h125]
      by_cases h250 : bandwidth = bw250Khz
      · rw [if_pos h250, Demand.when_pos (.inr h250)]
        exact hwrites _
      · rw [if_neg h250, Demand.when_neg (not_or.mpr ⟨h125, h250⟩)]
        exact stores_fail
  · rw [Demand.both_some_when, Demand.both_some_when]
    rfl

/-- A link after start-up, whose transfers are answered by `x`. -/
def freshLink (x : Exchange) : Link := ⟨.initial, fun _ => x, fun _ => 0⟩

/-- An acknowledge without any status. -/
def emptyAck : Exchange := ⟨true, true, some #v[0, 0, 0, ackMultipleSpi], []⟩

theorem ok_emptyAck (buf : ℕ → Byte) (size : ℕ) :
    (mcuSpiWrite emptyAck buf size).ok = decide (size ≤ maxSizeCommand) := by
  unfold mcuSpiWrite
  by_cases h : maxSizeCommand < size
  · rw [if_pos h, decide_eq_false (Nat.not_le.mpr h)]
  · rw [if_neg h, decide_eq_true (Nat.not_lt.mp h), if_neg (by decide), if_neg (by simp [emptyAck])]
    rfl

/-- A LoRa packet of the given size that is sent at once. -/
def sampleTx (size : BitVec 16) : LgwPktTx :=
  { LgwPktTx.zero with
    freq_hz := 868100000
    modulation := modLora
    bandwidth := bw125Khz
    datarate := 7
    coderate := 1
    preamble := 8
    size := size }

/-- After `sx1302_send` and after `sx1261_set_rx_params`, the write mode is single and the storage
empty exactly if the parameters are supported, the requests fit the storage and are counted, and the
MCU acknowledges the flush. -/
theorem writeMode_restored_iff (env : SendEnv) (conf : SendConf) (packet : LgwPktTx)
    (freq_hz : Word) (bandwidth : Byte) (l : Link) (hbounded : Bounded l.usb.bulk)
    (hport : Decided (l.port 0)) :
    (Restored .sx1302 (sx1302Send env conf packet l).2
      ↔ Transmittable conf.radio_type packet ∧ Flushed .sx1302 (sendDemand packet) l)
    ∧ (Restored .sx1261 (sx1261SetRxParams freq_hz bandwidth l).2
      ↔ (bandwidth = bw125Khz ∨ bandwidth = bw250Khz) ∧ Flushed .sx1261 rxParamsDemand l) := by
  classical
  have hsend : (sendDemand packet).requests ≠ 0 := by
    change 12 + _ + 1 + _ ≠ 0
    omega
  exact ⟨restored_bulkSession_iff (stores_sendWrites env conf packet) hsend hbounded hport,
    restored_bulkSession_iff (stores_rxParamsWrites freq_hz bandwidth) (by decide) hbounded hport⟩

/-- A packet of four bytes on a fresh link. -/
theorem writeMode_restored_sampleTx :
    Restored .sx1302 (sx1302Send ⟨0, 0, 0, fun _ => 0⟩ sampleConf (sampleTx 4)
        (freshLink emptyAck)).2
      ∧ Restored .sx1261 (sx1261SetRxParams 868100000 bw125Khz (freshLink emptyAck)).2 := by
  have hdecided : Decided emptyAck := by
    intro size buf buf'
    rw [ok_emptyAck, ok_emptyAck]
  have hack : ∀ size ≤ maxSizeCommand, Acknowledges emptyAck size := by
    intro size hsize buf
    rw [ok_emptyAck, decide_eq_true hsize]
  obtain ⟨hsend, hrx⟩ := writeMode_restored_iff ⟨0, 0, 0, fun _ => 0⟩ sampleConf (sampleTx 4)
    868100000 bw125Khz (freshLink emptyAck) ⟨by decide, by decide⟩ hdecided
  refine ⟨hsend.mpr ⟨?_, ?_⟩, hrx.mpr ⟨.inl rfl, ?_⟩⟩
  · exact ⟨by decide, by decide, fun _ => rfl, by decide, rfl⟩
  · exact ⟨by decide, by decide, hack _ (by decide)⟩
  · exact ⟨by decide, by decide, hack _ (by decide)⟩

/-- In bulk mode every read is refused. -/
theorem usbRead_of_bulk {st : UsbState} (h : (st.client c).write_mode = .bulk) (x : Exchange)
    (stack : ℕ → Byte) (frame : List Byte) : usbRead x stack st c frame = (false, []) := by
  rw [usbRead, if_pos h]

/-- An empty packet, which `lgw_send` accepts, leaves the link in bulk mode with its requests
stored, so that every read is refused; so does an SX1261 bandwidth of 500 kHz. -/
theorem empty_packet_leaves_bulk :
    lgwSendAccepts
        { LgwContext.initial with
          is_started := true
          rf_chain_cfg :=
            Vector.replicate _ { LgwConfRxrf.zero with enable := true, tx_enable := true } }
        (sampleTx 0)
      ∧ ((sx1302Send ⟨0, 0, 0, fun _ => 0⟩ sampleConf (sampleTx 0)
        (freshLink emptyAck)).2.usb.bulk.nb_req = 33
          ∧ ∀ x stack frame, usbRead x stack (sx1302Send ⟨0, 0, 0, fun _ => 0⟩ sampleConf
            (sampleTx 0) (freshLink emptyAck)).2.usb .sx1302 frame = (false, []))
      ∧ (sx1261SetRxParams 868100000 bw500Khz (freshLink emptyAck)).2.usb.bulk.nb_req = 5
      ∧ ∀ x stack frame, usbRead x stack
          (sx1261SetRxParams 868100000 bw500Khz (freshLink emptyAck)).2.usb .sx1261 frame
        = (false, []) := by
  refine ⟨by decide, ⟨by decide +kernel, ?_⟩, by decide +kernel, ?_⟩
  · exact usbRead_of_bulk (by decide +kernel)
  · exact usbRead_of_bulk (by decide +kernel)

end RutosSdk.Hal
