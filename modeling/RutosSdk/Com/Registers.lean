import RutosSdk.Com.Ack
import RutosSdk.Com.Memory

/-! # Registers of the concentrator

Reference: `reg_w`, `reg_r`, `lgw_reg_w`, `lgw_reg_r` in `libloragw/src/loragw_reg.c`, `lgw_spi_w`,
`lgw_spi_r`, `lgw_spi_rmw` in `libloragw/src/loragw_spi.c`, `lgw_usb_w`, `lgw_usb_r`, `lgw_usb_rmw`
in `libloragw/src/loragw_usb.c`.

A register is a field of a byte. To write one, the byte is read, changed and written back, by the
library itself over SPI and by the MCU over USB. The outcome of every transfer is a parameter: over
SPI whether it is made, over USB what comes back. The MCU carries out the requests that it receives.
-/

namespace RutosSdk.Com.Registers

open Memory Records

/-! ## Transfers -/

/-- The bytes of the concentrator. -/
abbrev Mem := BitVec 15 → Byte

/-- One byte written. -/
def Mem.set (mem : Mem) (address : BitVec 16) (data : Byte) : Mem :=
  fun a => if a = busAddress address then data else mem a

/-- The outcome of a write: whether it is reported as done, and whether it took place. -/
structure WriteOutcome where
  ok : Bool
  applied : Bool
  applied_of_ok : ok = true → applied = true

/-- The memory after a write with the given outcome. -/
def Mem.write (mem : Mem) (o : WriteOutcome) (address : BitVec 16) (data : Byte) : Mem :=
  if o.applied then mem.set address data else mem

/-- `lgw_spi_r`: the byte read, unless the transfer fails. -/
def lgwSpiR (ok : Bool) (mem : Mem) (address : BitVec 16) : Option Byte :=
  if ok then some (mem (busAddress address)) else none

/-- The mask of a field. -/
def fieldMask (offs leng : ℕ) : Byte := BitVec.ofNat 8 (((1 <<< leng) - 1) <<< offs)

/-- `lgw_spi_rmw`. The write is made even if the read has failed and left the buffer zero. -/
def lgwSpiRmw (read : Bool) (write : WriteOutcome) (mem : Mem) (address : BitVec 16)
    (offs leng : ℕ) (data : Byte) : Bool × Mem :=
  let buf0 := (lgwSpiR read mem address).getD 0
  let buf1 := fieldMask offs leng
  let buf2 := data <<< offs
  let buf3 := (~~~buf1 &&& buf0) ||| (buf1 &&& buf2)
  (read && write.ok, mem.write write address buf3)

/-- What the MCU makes of a byte: the bits of the mask are taken from the data of the request. -/
def mcuRmw (frame : List Byte) (byte : Byte) : Byte :=
  let bitmask := frame.getD 4 0
  (~~~bitmask &&& byte) ||| (bitmask &&& frame.getD 5 0)

/-- What the MCU does to the bytes when it has received a request. -/
def mcuApply (mem : Mem) : UsbRequest → Mem
  | .rmw address offs leng data =>
    mem.set address
      (mcuRmw (UsbRequest.frame 0 (.rmw address offs leng data)) (mem (busAddress address)))
  | .wb _ address data _ =>
    data.zipIdx.foldl (fun mem d => mem.set (address + BitVec.ofNat 16 d.2) d.1) mem
  | .sx1261W .. => mem

/-- The bytes of the concentrator, and the variables of the USB link. -/
structure Chip where
  mem : Mem
  usb : UsbState

/-- `lgw_usb_w` and `lgw_usb_rmw`. In bulk mode the request is stored, and nothing is sent. -/
def lgwUsbWrite (x : Exchange) (stack : ℕ → Byte) (s : Chip) (r : UsbRequest) : Bool × Chip :=
  let res := usbWrite x stack s.usb r
  (res.ok, ⟨if res.sent.isEmpty then s.mem else mcuApply s.mem r, res.state⟩)

/-- `lgw_usb_r`, with the zero that `reg_r` hands over. -/
def lgwUsbR (x : Exchange) (stack : ℕ → Byte) (st : UsbState) (address : BitVec 16) :
    Option Byte :=
  (lgwUsbRb x stack st 0 address [0] (by decide)).map (·.headD 0)

/-- The link, and the outcomes of the transfers of a write and of the read that follows it. -/
inductive ComCall where
  | spi (read : Bool) (write : WriteOutcome) (again : Bool)
  | usb (write : Exchange) (stack : ℕ → Byte) (again : Exchange) (stack' : ℕ → Byte)

variable (com : ComCall)

/-- One byte fits a burst. -/
theorem one_le_usbBurstChunk : 1 ≤ usbBurstChunk := by decide

/-- `lgw_com_w` -/
def lgwComW (s : Chip) (address : BitVec 16) (data : Byte) : Bool × Chip :=
  match com with
  | .spi _ write _ => (write.ok, { s with mem := s.mem.write write address data })
  | .usb write stack _ _ =>
    lgwUsbWrite write stack s (burst address [data] one_le_usbBurstChunk)

/-- `lgw_com_r` -/
def lgwComR (s : Chip) (address : BitVec 16) : Option Byte :=
  match com with
  | .spi _ _ again => lgwSpiR again s.mem address
  | .usb _ _ again stack' => lgwUsbR again stack' s.usb address

/-- `lgw_com_rmw` -/
def lgwComRmw (s : Chip) (address : BitVec 16) (offs leng : ℕ) (data : Byte) : Bool × Chip :=
  match com with
  | .spi read write _ =>
    let (ok, mem) := lgwSpiRmw read write s.mem address offs leng data
    (ok, { s with mem := mem })
  | .usb write stack _ _ => lgwUsbWrite write stack s (.rmw address offs leng data)

/-! ## Registers -/

/-- `reg_w` -/
def regW (com : ComCall) (s : Chip) (r : LgwReg) (reg_value : Word) : Bool × Chip :=
  if r.leng = 8 ∧ r.offs = 0 then lgwComW com s r.addr (reg_value.setWidth 8)
  else if r.offs + r.leng ≤ 8 then lgwComRmw com s r.addr r.offs r.leng (reg_value.setWidth 8)
  else (false, s)

/-- The value of a register in its byte. -/
def fieldValue (r : LgwReg) (byte : Byte) : Word :=
  let left := byte <<< (8 - r.leng - r.offs)
  if r.sign then (left.sshiftRight (8 - r.leng)).signExtend 32
  else (left >>> (8 - r.leng)).setWidth 32

/-- `reg_r`: the value on success. -/
def regR (s : Chip) (r : LgwReg) : Option Word :=
  if r.offs + r.leng ≤ 8 then (lgwComR com s r.addr).map (fieldValue r) else none

/-- `lgw_reg_w`; the array of registers is a parameter. -/
def lgwRegW (loregs : List LgwReg) (com : ComCall) (s : Chip) (register_id : ℕ)
    (reg_value : Word) : Bool × Chip :=
  match loregs[register_id]? with
  | none => (false, s)
  | some r => if r.rdon then (false, s) else regW com s r reg_value

/-- `lgw_reg_r` -/
def lgwRegR (loregs : List LgwReg) (com : ComCall) (s : Chip) (register_id : ℕ) :
    Option Word :=
  match loregs[register_id]? with
  | none => none
  | some r => regR com s r

/-! ## Bits -/

theorem getLsbD_fieldMask (offs leng i : ℕ) :
    (fieldMask offs leng).getLsbD i = decide (i < 8 ∧ offs ≤ i ∧ i < offs + leng) := by
  rw [fieldMask, BitVec.getLsbD_ofNat, Nat.testBit_shiftLeft, Nat.one_shiftLeft,
    Nat.testBit_two_pow_sub_one, Bool.eq_iff_iff]
  simp only [Bool.and_eq_true, decide_eq_true_eq]
  omega

/-- The byte with the field replaced. -/
theorem getLsbD_mix (byte data : Byte) (offs leng i : ℕ) :
    ((~~~fieldMask offs leng &&& byte) ||| (fieldMask offs leng &&& data <<< offs)).getLsbD i
      = if offs ≤ i ∧ i < offs + leng then decide (i < 8) && data.getLsbD (i - offs)
        else byte.getLsbD i := by
  rw [BitVec.getLsbD_or, BitVec.getLsbD_and, BitVec.getLsbD_and, BitVec.getLsbD_not,
    BitVec.getLsbD_shiftLeft, getLsbD_fieldMask]
  by_cases hi : i < 8
  · by_cases hfield : offs ≤ i ∧ i < offs + leng
    · simp [hi, hfield.1, hfield.2, Nat.not_lt.mpr hfield.1]
    · simp [hi, hfield]
  · have hbyte : byte.getLsbD i = false := BitVec.getLsbD_of_ge _ _ (by omega)
    simp [hi, hbyte]

/-! ## The byte that is written -/

/-- What the byte is taken to have been: zero, if it could not be read. -/
def oldByte (mem : Mem) (r : LgwReg) : Byte :=
  match com with
  | .spi read _ _ => if read then mem (busAddress r.addr) else 0
  | .usb .. => mem (busAddress r.addr)

/-- The byte with the field replaced. -/
def newByte (mem : Mem) (r : LgwReg) (reg_value : Word) : Byte :=
  (~~~fieldMask r.offs r.leng &&& oldByte com mem r)
    ||| (fieldMask r.offs r.leng &&& reg_value.setWidth 8 <<< r.offs)

/-- The byte is written: the transfer takes place, or the request is sent. -/
def applied (st : UsbState) (r : LgwReg) (reg_value : Word) : Bool :=
  match com with
  | .spi _ write _ => write.applied
  | .usb write stack _ _ =>
    !(usbWrite write stack st (regRequest r (reg_value.setWidth 8))).sent.isEmpty

variable {com : ComCall} {s : Chip} {r : LgwReg} {reg_value : Word} {byte : Byte}

/-- A field of a whole byte is the byte. -/
theorem newByte_of_whole (h : r.leng = 8 ∧ r.offs = 0) (com : ComCall) (mem : Mem)
    (reg_value : Word) : newByte com mem r reg_value = reg_value.setWidth 8 := by
  refine BitVec.eq_of_getLsbD_eq ?_
  intro i hi
  rw [newByte, getLsbD_mix, h.1, h.2, if_pos (by omega)]
  simp [hi]

/-- The request of `reg_w` over USB, and what the MCU makes of it. -/
theorem mcuApply_regRequest (write : Exchange) (stack : ℕ → Byte) (again : Exchange)
    (stack' : ℕ → Byte) (mem : Mem) :
    mcuApply mem (regRequest r (reg_value.setWidth 8))
      = mem.set r.addr (newByte (.usb write stack again stack') mem r reg_value) := by
  rw [regRequest]
  split_ifs with hwhole
  · rw [newByte_of_whole hwhole]
    simp [mcuApply, burst]
  · rfl

theorem regW_usb (hfits : r.offs + r.leng ≤ 8) (write : Exchange) (stack : ℕ → Byte)
    (again : Exchange) (stack' : ℕ → Byte) (s : Chip) (reg_value : Word) :
    regW (.usb write stack again stack') s r reg_value
      = lgwUsbWrite write stack s (regRequest r (reg_value.setWidth 8)) := by
  rw [regW, regRequest]
  split_ifs <;> rfl

/-- The bytes after `reg_w`, which are the same whether the byte is a register of its own or not. -/
theorem regW_mem (hfits : r.offs + r.leng ≤ 8) (com : ComCall) (s : Chip) (reg_value : Word) :
    (regW com s r reg_value).2.mem
      = if applied com s.usb r reg_value then s.mem.set r.addr (newByte com s.mem r reg_value)
        else s.mem := by
  cases com with
  | spi read write again =>
    rw [regW]
    by_cases hwhole : r.leng = 8 ∧ r.offs = 0
    · rw [if_pos hwhole, newByte_of_whole hwhole]
      rfl
    · have hold : (lgwSpiR read s.mem r.addr).getD 0 = oldByte (.spi read write again) s.mem r := by
        cases read <;> rfl
      rw [if_neg hwhole, if_pos hfits]
      simp only [lgwComRmw, lgwSpiRmw, hold]
      rfl
  | usb write stack again stack' =>
    rw [regW_usb hfits, lgwUsbWrite, mcuApply_regRequest write stack again stack']
    have happlied : applied (.usb write stack again stack') s.usb r reg_value
        = !(usbWrite write stack s.usb (regRequest r (reg_value.setWidth 8))).sent.isEmpty := rfl
    rw [happlied]
    cases (usbWrite write stack s.usb (regRequest r (reg_value.setWidth 8))).sent.isEmpty <;> rfl

/-! ## The value that is read -/

/-- The value modulo `2 ^ leng`, with its sign if the register has one. -/
def reduced (r : LgwReg) (reg_value : Word) : Word :=
  if r.sign then (reg_value.setWidth r.leng).signExtend 32
  else (reg_value.setWidth r.leng).setWidth 32

/-- The byte holds the lowest bits of the value in the field. -/
def HoldsValue (r : LgwReg) (byte : Byte) (reg_value : Word) : Prop :=
  ∀ i < r.leng, byte.getLsbD (r.offs + i) = reg_value.getLsbD i

/-- A signed field of no bits at all is read as the bit below it. -/
def BelowClear (r : LgwReg) (byte : Byte) : Prop :=
  r.leng = 0 → r.sign = true → 0 < r.offs → byte.getLsbD (r.offs - 1) = false

/-- The sign of a field is its topmost bit, or what is below. -/
theorem msb_left_aligned (hfits : r.offs + r.leng ≤ 8) (byte : Byte) :
    (byte <<< (8 - r.leng - r.offs)).msb
      = (decide (0 < r.offs + r.leng) && byte.getLsbD (r.offs + r.leng - 1)) := by
  rw [BitVec.msb_eq_getLsbD_last, BitVec.getLsbD_shiftLeft]
  by_cases hpos : 0 < r.offs + r.leng
  · rw [show 8 - 1 - (8 - r.leng - r.offs) = r.offs + r.leng - 1 by omega]
    simp [hpos]
    omega
  · simp [hpos]
    omega

/-- The bits of the value. -/
theorem getLsbD_fieldValue (hfits : r.offs + r.leng ≤ 8) {i : ℕ} (hi : i < 32) :
    (fieldValue r byte).getLsbD i
      = if i < r.leng then byte.getLsbD (r.offs + i)
        else r.sign && (byte <<< (8 - r.leng - r.offs)).msb := by
  have hbit : i < r.leng → 8 - r.leng + i - (8 - r.leng - r.offs) = r.offs + i := by omega
  cases hsign : r.sign with
  | false =>
    simp only [fieldValue, hsign, Bool.false_eq_true, if_false, BitVec.getLsbD_setWidth,
      BitVec.getLsbD_ushiftRight, BitVec.getLsbD_shiftLeft]
    split_ifs with hlt
    · rw [hbit hlt]
      simp [hi]
      omega
    · simp [hi]
      omega
  | true =>
    simp only [fieldValue, hsign, if_true, BitVec.getLsbD_signExtend, BitVec.getLsbD_sshiftRight,
      BitVec.getLsbD_shiftLeft, BitVec.msb_sshiftRight, Bool.true_and]
    by_cases hlt : i < r.leng
    · have hin : ¬8 - r.leng + i < 8 - r.leng - r.offs := by omega
      rw [if_pos (by omega), if_pos (by omega), if_pos hlt, hbit hlt]
      simp [hi, hin, show ¬8 ≤ i by omega, show 8 - r.leng + i < 8 by omega]
    · rw [if_neg hlt]
      by_cases hbyte : i < 8
      · rw [if_pos hbyte, if_neg (by omega)]
        simp [hi, hbyte]
      · simp [hi, hbyte]

theorem getLsbD_reduced {i : ℕ} (hi : i < 32) :
    (reduced r reg_value).getLsbD i
      = if i < r.leng then reg_value.getLsbD i
        else r.sign && (decide (0 < r.leng) && reg_value.getLsbD (r.leng - 1)) := by
  cases hsign : r.sign with
  | false => simp [reduced, hsign, hi]
  | true =>
    rw [reduced, hsign, if_pos rfl, BitVec.getLsbD_signExtend, BitVec.msb_eq_getLsbD_last]
    simp [hi]
    split_ifs <;> simp_all

/-- The value is read from the bytes that hold it, except for a signed field without bits. -/
theorem fieldValue_eq_reduced_iff (hfits : r.offs + r.leng ≤ 8) :
    fieldValue r byte = reduced r reg_value ↔ HoldsValue r byte reg_value ∧ BelowClear r byte := by
  have hmsb := msb_left_aligned hfits byte
  constructor
  · intro heq
    refine ⟨fun i hi => ?_, fun hzero hsign hoffs => ?_⟩
    · have hbit := congrArg (BitVec.getLsbD · i) heq
      simpa only [getLsbD_fieldValue hfits (show i < 32 by omega),
        getLsbD_reduced (show i < 32 by omega), if_pos hi] using hbit
    · have hbit : (fieldValue r byte).getLsbD 0 = (reduced r reg_value).getLsbD 0 := by rw [heq]
      rw [getLsbD_fieldValue hfits (by decide), getLsbD_reduced (by decide), if_neg (by omega),
        if_neg (by omega), hmsb, hsign] at hbit
      simpa [hzero, hoffs] using hbit
  · rintro ⟨hholds, hbelow⟩
    refine BitVec.eq_of_getLsbD_eq ?_
    intro i hi
    rw [getLsbD_fieldValue hfits hi, getLsbD_reduced hi, hmsb]
    split_ifs with hlt
    · exact hholds i hlt
    · cases hsign : r.sign with
      | false => rfl
      | true =>
        rcases Nat.eq_zero_or_pos r.leng with hzero | hpos
        · rcases Nat.eq_zero_or_pos r.offs with hoffs | hoffs
          · simp [hzero, hoffs]
          · simp [hzero, hbelow hzero hsign hoffs]
        · have htop := hholds (r.leng - 1) (by omega)
          rw [← Nat.add_sub_assoc hpos] at htop
          simp [htop, hpos, show 0 < r.offs + r.leng by omega]

/-- The field of the byte that is written is the value. -/
theorem holdsValue_newByte (hfits : r.offs + r.leng ≤ 8) (mem : Mem) :
    HoldsValue r (newByte com mem r reg_value) reg_value := by
  intro i hi
  have hbyte : r.offs + i < 8 := by omega
  have hi8 : i < 8 := by omega
  rw [newByte, getLsbD_mix, if_pos (by omega), BitVec.getLsbD_setWidth, Nat.add_sub_cancel_left]
  simp [hbyte, hi8]

/-! ## Writing a register and reading it again -/

/-- No bit outside of the field is changed. -/
def KeepsOthers (r : LgwReg) (mem mem' : Mem) : Prop :=
  ∀ a i, a ≠ busAddress r.addr ∨ i < r.offs ∨ r.offs + r.leng ≤ i →
    (mem' a).getLsbD i = (mem a).getLsbD i

/-- A write of register `register_id` keeps the bits outside of its field, and if it and the read
that follows succeed, that returns the value as far as the register can hold it. -/
def WritesField (loregs : List LgwReg) (com : ComCall) (s : Chip) (register_id : ℕ) (r : LgwReg)
    (reg_value : Word) : Prop :=
  let (ok, s') := lgwRegW loregs com s register_id reg_value
  KeepsOthers r s.mem s'.mem
    ∧ (ok = true → ∀ v, lgwRegR loregs com s' register_id = some v → v = reduced r reg_value)

/-- Over SPI, when the byte is written it could be read before, or has no bits outside of the field;
and a signed field has at least one bit, or the bit below it is not set. -/
structure SpiKnown (read : Bool) (write : WriteOutcome) (again : Bool) (mem : Mem) (r : LgwReg) :
    Prop where
  known : write.applied = true →
    read = true ∨ mem (busAddress r.addr) &&& ~~~fieldMask r.offs r.leng = 0
  below : read = true → write.ok = true → again = true → BelowClear r (mem (busAddress r.addr))

/-- The byte of an acknowledge that is handed out as the register's; zero, if it is too short. -/
def ackByte (x : Exchange) (hdr : Vector Byte 4) : Byte := (received x hdr).getD 9 0

/-- Over USB in single mode, when the write is acknowledged, an acknowledge that the read takes
carries the field of the register, and of a signed field without bits the bit below it is not
set. -/
def UsbKnown (write : Exchange) (stack : ℕ → Byte) (again : Exchange) (stack' : ℕ → Byte)
    (s : Chip) (r : LgwReg) (reg_value : Word) : Prop :=
  let request := regRequest r (reg_value.setWidth 8)
  (s.usb.client .sx1302).write_mode = .single →
    Acknowledged write (overlay stack (request.frame (s.usb.client .sx1302).spi_req_nb))
      request.commandSize →
    ∀ hdr, Delivered again hdr 10 →
      Taken (requestBuffer stack' [readRequest 0 r.addr [0] (by decide)]) (received again hdr) →
        (∀ i < r.leng, (ackByte again hdr).getLsbD (r.offs + i)
          = (newByte (.usb write stack again stack') s.mem r reg_value).getLsbD (r.offs + i))
        ∧ BelowClear r (ackByte again hdr)

/-- The byte of a register that may be written is known to the write, and to the read. -/
def ByteKnown (com : ComCall) (s : Chip) (r : LgwReg) (reg_value : Word) : Prop :=
  r.rdon = false →
    match com with
    | .spi read write again => SpiKnown read write again s.mem r
    | .usb write stack again stack' => UsbKnown write stack again stack' s r reg_value

theorem getLsbD_newByte_of_outside {mem : Mem} {i : ℕ} (hi : i < r.offs ∨ r.offs + r.leng ≤ i) :
    (newByte com mem r reg_value).getLsbD i = (oldByte com mem r).getLsbD i := by
  rw [newByte, getLsbD_mix, if_neg (by omega)]

/-- The bits outside of the field are zero if the byte is zero under the complement of the mask. -/
theorem and_not_fieldMask_eq_zero_iff {offs leng : ℕ} :
    byte &&& ~~~fieldMask offs leng = 0
      ↔ ∀ i, i < offs ∨ offs + leng ≤ i → byte.getLsbD i = false := by
  have hbit : ∀ i, (byte &&& ~~~fieldMask offs leng).getLsbD i
      = (byte.getLsbD i && decide (i < 8) && !decide (offs ≤ i ∧ i < offs + leng)) := by
    intro i
    rw [BitVec.getLsbD_and, BitVec.getLsbD_not, getLsbD_fieldMask]
    by_cases hi : i < 8 <;> simp [hi]
  constructor
  · intro h i hi
    by_cases hlt : i < 8
    · have := hbit i
      rw [h] at this
      simpa [hlt, show ¬ (offs ≤ i ∧ i < offs + leng) by omega] using this.symm
    · exact BitVec.getLsbD_of_ge _ _ (by omega)
  · intro h
    refine BitVec.eq_of_getLsbD_eq ?_
    intro i hi
    rw [hbit]
    by_cases hfield : offs ≤ i ∧ i < offs + leng
    · simp [hfield]
    · simp [h i (by omega)]

/-- The bits outside of the field are kept if they are known when the byte is written. -/
theorem keepsOthers_iff (mem : Mem) (applied : Bool) :
    KeepsOthers r mem
        (if applied then mem.set r.addr (newByte com mem r reg_value) else mem)
      ↔ (applied = true → ∀ i, i < r.offs ∨ r.offs + r.leng ≤ i →
        (oldByte com mem r).getLsbD i = (mem (busAddress r.addr)).getLsbD i) := by
  constructor
  · rintro h rfl i hi
    have hbit := h (busAddress r.addr) i (.inr hi)
    rwa [if_pos rfl, Mem.set, if_pos rfl, getLsbD_newByte_of_outside hi] at hbit
  · intro h a i hout
    split_ifs with happlied
    · rw [Mem.set]
      split_ifs with haddr
      · subst haddr
        have hi := hout.resolve_left fun hne => hne rfl
        rw [getLsbD_newByte_of_outside hi, h happlied i hi]
      · rfl
    · rfl

/-- What `lgw_usb_r` hands out: a byte of the acknowledge, or the zero it was called with. -/
theorem lgwUsbR_eq_some_iff {x : Exchange} {stack : ℕ → Byte} {st : UsbState}
    {address : BitVec 16} :
    lgwUsbR x stack st address = some byte
      ↔ (st.client .sx1302).write_mode = .single ∧ ∃ hdr, Delivered x hdr 10 ∧
        Taken (requestBuffer stack [readRequest 0 address [0] (by decide)]) (received x hdr) ∧
        byte = ackByte x hdr := by
  have hbuf : overlay stack (readRequest 0 address [0] (by decide)).encode
      = requestBuffer stack [readRequest 0 address [0] (by decide)] := by
    simp [requestBuffer]
  have hown : requestBuffer stack [readRequest 0 address [0] (by decide)] 9 = 0 := rfl
  unfold lgwUsbR lgwUsbRb
  simp only [List.length_singleton, Nat.reduceAdd, hbuf]
  cases (st.client .sx1302).write_mode with
  | bulk => simp
  | single =>
    simp only [reduceCtorEq, if_false, true_and]
    by_cases hok : (mcuSpiWrite x (requestBuffer stack [readRequest 0 address [0] (by decide)])
        10).ok = true
    · obtain ⟨hdr, hdel, htaken⟩ := mcuSpiWrite_ok_iff.mp hok
      rw [if_pos hok, mcuSpiWrite_of_delivered hdel]
      simp only [List.range_one, List.map_cons, List.map_nil, Option.map_some, List.headD_cons,
        Option.some.injEq, overlay, hown, Nat.add_zero]
      constructor
      · rintro rfl
        exact ⟨hdr, hdel, htaken, rfl⟩
      · rintro ⟨hdr', hdel', -, rfl⟩
        rw [Option.some.inj (hdel.hdr_eq.symm.trans hdel'.hdr_eq)]
        rfl
    · rw [if_neg hok]
      refine iff_of_false (by simp) ?_
      rintro ⟨hdr, hdel, htaken, -⟩
      exact hok (mcuSpiWrite_ok_iff.mpr ⟨hdr, hdel, htaken⟩)

/-- What the field reads as rests on the byte that the link hands out. -/
theorem forall_regR_iff (hfits : r.offs + r.leng ≤ 8) (com : ComCall) (s : Chip)
    (reg_value : Word) :
    (∀ v, regR com s r = some v → v = reduced r reg_value)
      ↔ ∀ byte, lgwComR com s r.addr = some byte →
        HoldsValue r byte reg_value ∧ BelowClear r byte := by
  simp only [regR, if_pos hfits, Option.map_eq_some_iff, ← fieldValue_eq_reduced_iff hfits]
  refine ⟨fun h byte hbyte => h _ ⟨byte, hbyte, rfl⟩, ?_⟩
  rintro h v ⟨byte, hbyte, rfl⟩
  exact h byte hbyte

/-- A write that is reported as done was made; and one of part of a byte has read it. -/
theorem regW_fst_spi (hfits : r.offs + r.leng ≤ 8) (read : Bool) (write : WriteOutcome)
    (again : Bool) :
    (regW (.spi read write again) s r reg_value).1
      = (write.ok && (decide (r.leng = 8 ∧ r.offs = 0) || read)) := by
  rw [regW]
  split_ifs with hwhole
  · simp [lgwComW, hwhole]
  · simp [lgwComRmw, lgwSpiRmw, hwhole, Bool.and_comm]

/-- Over SPI the other bits are kept if the byte could be read or has none. -/
theorem keepsOthers_spi_iff (hfits : r.offs + r.leng ≤ 8) (read : Bool) (write : WriteOutcome)
    (again : Bool) :
    KeepsOthers r s.mem (regW (.spi read write again) s r reg_value).2.mem
      ↔ (write.applied = true →
        read = true ∨ s.mem (busAddress r.addr) &&& ~~~fieldMask r.offs r.leng = 0) := by
  rw [regW_mem hfits, keepsOthers_iff, and_not_fieldMask_eq_zero_iff]
  refine imp_congr_right fun _ => ?_
  cases read with
  | true => exact iff_of_true (fun _ _ => rfl) (.inl rfl)
  | false =>
    rw [or_iff_right Bool.false_ne_true]
    refine forall_congr' fun i => imp_congr_right fun _ => ?_
    rw [show oldByte (.spi false write again) s.mem r = 0#8 from rfl, eq_comm, BitVec.getLsbD_zero]

theorem readsBack_spi_iff (hfits : r.offs + r.leng ≤ 8) (read : Bool) (write : WriteOutcome)
    (again : Bool) :
    ((regW (.spi read write again) s r reg_value).1 = true → ∀ v,
        regR (.spi read write again) (regW (.spi read write again) s r reg_value).2 r = some v →
          v = reduced r reg_value)
      ↔ (read = true → write.ok = true → again = true →
        BelowClear r (s.mem (busAddress r.addr))) := by
  -- only a field without bits is affected, and its byte was read
  have hbelow : read = true → (BelowClear r (newByte (.spi read write again) s.mem r reg_value)
      ↔ BelowClear r (s.mem (busAddress r.addr))) := by
    rintro rfl
    refine forall_congr' fun hzero => forall_congr' fun _ => forall_congr' fun hoffs => ?_
    rw [getLsbD_newByte_of_outside (.inl (by omega))]
    rfl
  have hread : write.ok = true → ∀ byte,
      lgwComR (.spi read write again) (regW (.spi read write again) s r reg_value).2 r.addr
        = some byte ↔ again = true ∧ byte = newByte (.spi read write again) s.mem r reg_value := by
    intro hok byte
    have happlied : applied (.spi read write again) s.usb r reg_value = true :=
      write.applied_of_ok hok
    rw [lgwComR, lgwSpiR, regW_mem hfits, if_pos happlied, Mem.set, if_pos rfl]
    cases again <;> simp [eq_comm]
  rw [forall_regR_iff hfits, regW_fst_spi hfits]
  constructor
  · intro h hr hok hagain
    exact (hbelow hr).mp (h (by simp [hr, hok]) _ ((hread hok _).mpr ⟨hagain, rfl⟩)).2
  · intro h hfst byte hbyte
    rw [Bool.and_eq_true] at hfst
    obtain ⟨hagain, rfl⟩ := (hread hfst.1 byte).mp hbyte
    refine ⟨holdsValue_newByte hfits _, fun hzero => ?_⟩
    have hr : read = true := by simpa [hzero] using hfst.2
    exact (hbelow hr).mpr (h hr hfst.1 hagain) hzero

/-- Over USB the MCU keeps the other bits. -/
theorem keepsOthers_usb (hfits : r.offs + r.leng ≤ 8) (write : Exchange) (stack : ℕ → Byte)
    (again : Exchange) (stack' : ℕ → Byte) :
    KeepsOthers r s.mem (regW (.usb write stack again stack') s r reg_value).2.mem := by
  rw [regW_mem hfits, keepsOthers_iff]
  exact fun _ _ _ => rfl

theorem client_regRequest (r : LgwReg) (reg_value : Byte) :
    (regRequest r reg_value).client = .sx1302 := by
  unfold regRequest
  split <;> rfl

theorem readsBack_usb_iff (hfits : r.offs + r.leng ≤ 8) (write : Exchange) (stack : ℕ → Byte)
    (again : Exchange) (stack' : ℕ → Byte) :
    ((regW (.usb write stack again stack') s r reg_value).1 = true → ∀ v,
        regR (.usb write stack again stack')
            (regW (.usb write stack again stack') s r reg_value).2 r = some v →
          v = reduced r reg_value)
      ↔ UsbKnown write stack again stack' s r reg_value := by
  have hnew := @holdsValue_newByte (.usb write stack again stack') r reg_value hfits s.mem
  have hok : (s.usb.client .sx1302).write_mode = .single →
      ((usbWrite write stack s.usb (regRequest r (reg_value.setWidth 8))).ok = true
        ↔ Acknowledged write (overlay stack ((regRequest r (reg_value.setWidth 8)).frame
            (s.usb.client .sx1302).spi_req_nb))
          (regRequest r (reg_value.setWidth 8)).commandSize) := by
    intro hmode
    rw [← mcuSpiWrite_ok_iff, usbWrite, client_regRequest, if_neg (by simp [hmode])]
  rw [forall_regR_iff hfits, regW_usb hfits]
  simp only [lgwComR, lgwUsbR_eq_some_iff, lgwUsbWrite, write_mode_usbWrite, UsbKnown]
  constructor
  · intro h hmode hack hdr hdel htaken
    obtain ⟨hholds, hbelow⟩ := h ((hok hmode).mpr hack) _ ⟨hmode, hdr, hdel, htaken, rfl⟩
    exact ⟨fun i hi => (hholds i hi).trans (hnew i hi).symm, hbelow⟩
  · rintro h hsuccess byte ⟨hmode, hdr, hdel, htaken, rfl⟩
    obtain ⟨hcarries, hbelow⟩ := h hmode ((hok hmode).mp hsuccess) hdr hdel htaken
    exact ⟨fun i hi => (hcarries i hi).trans (hnew i hi), hbelow⟩

/-- For every register that fits a byte, every content, value and outcome of the transfers, a write
keeps the other bits and is read back exactly if the byte is known when it is written, and to the
read that follows. -/
theorem writesField_iff {loregs : List LgwReg} {register_id : ℕ} {r : LgwReg}
    (hr : loregs[register_id]? = some r) (hfits : r.offs + r.leng ≤ 8) (com : ComCall) (s : Chip)
    (reg_value : Word) :
    WritesField loregs com s register_id r reg_value ↔ ByteKnown com s r reg_value := by
  cases hrdon : r.rdon with
  | true =>
    have hsame : lgwRegW loregs com s register_id reg_value = (false, s) := by
      simp [lgwRegW, hr, hrdon]
    rw [WritesField, hsame]
    exact iff_of_true ⟨fun a i _ => rfl, nofun⟩ fun h => absurd (hrdon.symm.trans h) nofun
  | false =>
    have hw : lgwRegW loregs com s register_id reg_value = regW com s r reg_value := by
      simp [lgwRegW, hr, hrdon]
    simp only [WritesField, hw, lgwRegR, hr, ByteKnown, hrdon, true_imp_iff]
    cases com with
    | spi read write again =>
      rw [keepsOthers_spi_iff hfits, readsBack_spi_iff hfits]
      exact ⟨fun h => ⟨h.1, h.2⟩, fun h => ⟨h.known, h.below⟩⟩
    | usb write stack again stack' =>
      rw [readsBack_usb_iff hfits]
      exact and_iff_right (keepsOthers_usb hfits write stack again stack')

/-- A transfer that is made and reported as done. -/
def WriteOutcome.done : WriteOutcome := ⟨true, true, fun _ => rfl⟩

/-- A register of one bit. -/
def sampleReg : LgwReg := ⟨0x5601, 4, false, 1, false⟩

/-- A concentrator with every bit set. -/
def sampleChip : Chip := ⟨fun _ => 0xFF, .initial⟩

theorem writesField_sampleReg :
    WritesField [sampleReg] (.spi true .done true) sampleChip 0 sampleReg 0 :=
  (writesField_iff rfl (by decide) (.spi true .done true) sampleChip 0).mpr fun _ =>
    ⟨fun _ => .inl rfl, fun _ _ _ => nofun⟩

/-- When the byte cannot be read, the other bits are cleared. -/
theorem lgwRegW_clears_others :
    (lgwRegW [sampleReg] (.spi false .done true) sampleChip 0 1).2.mem (busAddress 0x5601) = 0x10
      ∧ ¬ WritesField [sampleReg] (.spi false .done true) sampleChip 0 sampleReg 1 := by
  refine ⟨by decide, ?_⟩
  rintro ⟨hkeeps, -⟩
  exact absurd (hkeeps (busAddress 0x5601) 0 (.inr (.inl (by decide)))) (by decide)

end RutosSdk.Com.Registers
