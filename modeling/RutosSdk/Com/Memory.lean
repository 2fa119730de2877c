import Mathlib.Data.List.Range
import Mathlib.Tactic.Ring

/-! # Memory transfers by chunks

Reference: `lgw_mem_wb`, `lgw_mem_rb` in `libloragw/src/loragw_reg.c`, and `lgw_spi_wb`,
`lgw_spi_rb` in `libloragw/src/loragw_spi.c`.

A transfer is cut into chunks of the size that the link takes at once. Each chunk is one burst, with
a status of its own, and the status that is returned is the last one.
-/

namespace RutosSdk.Com.Memory

/-! ## Bursts -/

variable (command_size : ℕ) (ioctl : ℕ → ℤ) (address : BitVec 16)

/-- The address as it is sent, without its most significant bit. -/
def busAddress : BitVec 15 := address.setWidth 15

theorem busAddress_add (n : ℕ) :
    busAddress (address + BitVec.ofNat 16 n) = busAddress address + BitVec.ofNat 15 n := by
  rw [busAddress, BitVec.setWidth_add _ _ (by decide), BitVec.setWidth_ofNat_of_le (by decide)]
  rfl

/-- The bytes of a burst at successive addresses, from index `0` of the burst on. -/
def inTurn (size : ℕ) : List (ℕ × BitVec 15) :=
  (List.range size).map fun j => (j, busAddress address + BitVec.ofNat 15 j)

/-- A link to the concentrator: the size of its chunks, and what the `k`-th burst does: its status,
and which bytes of the burst are exchanged with which addresses, in this order. -/
structure Link where
  chunk_size : ℕ
  chunk_size_pos : 0 < chunk_size
  burst : ℕ → BitVec 16 → ℕ → Bool × List (ℕ × BitVec 15)
  burst_ok : ∀ {k address size}, 0 < size → size ≤ chunk_size →
    (burst k address size).1 = true → (burst k address size).2 = inTurn address size

/-! ## The SPI link -/

/-- `LGW_BURST_CHUNK` -/
def lgwBurstChunk : ℕ := 1024

/-- The loop of `lgw_spi_wb` and `lgw_spi_rb`: the bytes transferred, and the exchanges. Every
message begins with the command, and so with the same address. -/
def spiLoop (command_size : ℕ) (ioctl : ℕ → ℤ) (address : BitVec 16) :
    ℕ → ℕ → ℕ → ℤ → ℤ × List (ℕ × BitVec 15)
  | 0, _, _, byte_transfered => (byte_transfered, [])
  | fuel + 1, i, size_to_do, byte_transfered =>
    if 0 < size_to_do then
      let chunk_size := if size_to_do < lgwBurstChunk then size_to_do else lgwBurstChunk
      let exchanged := if ioctl i = command_size + chunk_size then
        (inTurn address chunk_size).map fun e => (i * lgwBurstChunk + e.1, e.2) else []
      let rest := spiLoop command_size ioctl address fuel (i + 1) (size_to_do - chunk_size)
        (byte_transfered + (ioctl i - command_size))
      (rest.1, exchanged ++ rest.2)
    else (byte_transfered, [])

/-- What `lgw_spi_wb` and `lgw_spi_rb` have in common. -/
def spiBurst (size : ℕ) : Bool × List (ℕ × BitVec 15) :=
  if size = 0 then (false, [])
  else
    let (byte_transfered, exchanged) := spiLoop command_size ioctl address size 0 size 0
    (byte_transfered = size, exchanged)

/-- `lgw_spi_wb`, given the results of its calls to `ioctl`. -/
def lgwSpiWb : (ℕ → ℤ) → BitVec 16 → ℕ → Bool × List (ℕ × BitVec 15) := spiBurst 3

/-- `lgw_spi_rb`; a dummy byte follows the address. -/
def lgwSpiRb : (ℕ → ℤ) → BitVec 16 → ℕ → Bool × List (ℕ × BitVec 15) := spiBurst 4

theorem spiLoop_zero (fuel i : ℕ) (byte_transfered : ℤ) :
    spiLoop command_size ioctl address fuel i 0 byte_transfered = (byte_transfered, []) := by
  cases fuel with
  | zero => rfl
  | succ fuel => rw [spiLoop, if_neg (Nat.lt_irrefl 0)]

/-- A burst of one chunk is one message. -/
theorem spiBurst_eq {size : ℕ} (hpos : 0 < size) (hle : size ≤ lgwBurstChunk) :
    spiBurst command_size ioctl address size
      = (decide (ioctl 0 = command_size + size),
          if ioctl 0 = command_size + size then inTurn address size else []) := by
  have hchunk : (if size < lgwBurstChunk then size else lgwBurstChunk) = size := by
    split_ifs with h
    · rfl
    · omega
  obtain ⟨n, rfl⟩ : ∃ n, size = n + 1 := ⟨size - 1, by omega⟩
  rw [spiBurst, if_neg (by omega), spiLoop, if_pos hpos, hchunk]
  simp only [Nat.sub_self, spiLoop_zero, Nat.zero_mul, Nat.zero_add, List.append_nil, List.map_id']
  congr 1
  rw [decide_eq_decide]
  omega

theorem spiBurst_ok {command_size : ℕ} {ioctl : ℕ → ℤ} {address : BitVec 16} {size : ℕ}
    (hpos : 0 < size) (hle : size ≤ lgwBurstChunk)
    (h : (spiBurst command_size ioctl address size).1 = true) :
    (spiBurst command_size ioctl address size).2 = inTurn address size := by
  rw [spiBurst_eq command_size ioctl address hpos hle] at h ⊢
  exact if_pos (of_decide_eq_true h)

/-- The link over SPI for writes, given what `ioctl` returns for the `i`-th message of the `k`-th
burst. -/
def spiWbLink (ioctl : ℕ → ℕ → ℤ) : Link where
  chunk_size := lgwBurstChunk
  chunk_size_pos := by decide
  burst k := lgwSpiWb (ioctl k)
  burst_ok := spiBurst_ok

/-- The link over SPI for reads. -/
def spiRbLink (ioctl : ℕ → ℕ → ℤ) : Link where
  chunk_size := lgwBurstChunk
  chunk_size_pos := by decide
  burst k := lgwSpiRb (ioctl k)
  burst_ok := spiBurst_ok

/-! ## `lgw_mem_wb` and `lgw_mem_rb` -/

/-- The variables of the loop, and the state of the link. -/
structure MemState (σ : Type) where
  com_stat : Bool
  chunk_cnt : ℕ
  addr : BitVec 16
  sz_todo : ℕ
  link : σ

section

variable {σ : Type} (chunk_size_max : ℕ) (burst : ℕ → BitVec 16 → ℕ → σ → Bool × σ)
  (fifo_mode : Bool)

/-- One chunk, by a burst with its number, address and size. In FIFO mode the address stays. -/
def memStep (s : MemState σ) : MemState σ :=
  let chunk_size := if chunk_size_max < s.sz_todo then chunk_size_max else s.sz_todo
  let (com_stat, link) := burst s.chunk_cnt s.addr chunk_size s.link
  { com_stat := com_stat
    chunk_cnt := s.chunk_cnt + 1
    addr := if fifo_mode then s.addr else s.addr + BitVec.ofNat 16 chunk_size
    sz_todo := s.sz_todo - chunk_size
    link := link }

/-- The loop, for at most `fuel` chunks. -/
def memLoop : ℕ → MemState σ → MemState σ
  | 0, s => s
  | fuel + 1, s =>
    if 0 < s.sz_todo then memLoop fuel (memStep chunk_size_max burst fifo_mode s) else s

/-- What `lgw_mem_wb` and `lgw_mem_rb` have in common: the status, and the state of the link. -/
def memTransfer (mem_addr : BitVec 16) (size : ℕ) (link : σ) : Bool × σ :=
  if size = 0 then (false, link)
  else
    let s := memLoop chunk_size_max burst fifo_mode size ⟨true, 0, mem_addr, size, link⟩
    (s.com_stat, s.link)

end

/-- A burst, behind the exchanges so far: the index of a byte in the buffer, and the address. -/
def Link.exchange (link : Link) (k : ℕ) (addr : BitVec 16) (size : ℕ)
    (exchanged : List (ℕ × BitVec 15)) : Bool × List (ℕ × BitVec 15) :=
  ((link.burst k addr size).1,
    exchanged ++ (link.burst k addr size).2.map fun e => (k * link.chunk_size + e.1, e.2))

/-- `lgw_mem_wb` -/
def lgwMemWb (link : Link) (mem_addr : BitVec 16) (size : ℕ) : Bool × List (ℕ × BitVec 15) :=
  memTransfer link.chunk_size link.exchange false mem_addr size []

/-- `lgw_mem_rb` -/
def lgwMemRb (link : Link) (mem_addr : BitVec 16) (size : ℕ) (fifo_mode : Bool) :
    Bool × List (ℕ × BitVec 15) :=
  memTransfer link.chunk_size link.exchange fifo_mode mem_addr size []

/-! ## Chunk by chunk -/

section

variable (link : Link) (fifo_mode : Bool) (mem_addr : BitVec 16) (size : ℕ)

/-- The address of the `k`-th chunk. -/
def chunkAddr (k : ℕ) : BitVec 16 :=
  if fifo_mode then mem_addr else mem_addr + BitVec.ofNat 16 (k * link.chunk_size)

/-- The size of the `k`-th chunk. -/
def chunkLen (k : ℕ) : ℕ := min link.chunk_size (size - k * link.chunk_size)

/-- The status of the `k`-th chunk. -/
def chunkOk (k : ℕ) : Bool :=
  (link.burst k (chunkAddr link fifo_mode mem_addr k) (chunkLen link size k)).1

/-- The number of the last chunk. -/
def lastChunk : ℕ := (size - 1) / link.chunk_size

/-- The state before chunk `k`. -/
structure Before (k : ℕ) (s : MemState (List (ℕ × BitVec 15))) : Prop where
  com_stat : ∀ j, k = j + 1 → s.com_stat = chunkOk link fifo_mode mem_addr size j
  chunk_cnt : s.chunk_cnt = k
  addr : k * link.chunk_size < size → s.addr = chunkAddr link fifo_mode mem_addr k
  sz_todo : s.sz_todo = size - k * link.chunk_size
  exchanged : (∀ j < k, chunkOk link fifo_mode mem_addr size j = true) →
    s.link.map Prod.fst = List.range (min size (k * link.chunk_size))
      ∧ (fifo_mode = false → ∀ e ∈ s.link, e.2 = busAddress mem_addr + BitVec.ofNat 15 e.1)

variable {link fifo_mode mem_addr size} {k : ℕ} {s : MemState (List (ℕ × BitVec 15))}

/-- One chunk. -/
theorem Before.memStep (h : Before link fifo_mode mem_addr size k s)
    (htodo : k * link.chunk_size < size) :
    Before link fifo_mode mem_addr size (k + 1)
      (memStep link.chunk_size link.exchange fifo_mode s) := by
  have hlen : (if link.chunk_size < s.sz_todo then link.chunk_size else s.sz_todo)
      = chunkLen link size k := by
    rw [h.sz_todo, chunkLen]
    split_ifs <;> omega
  have hsucc : (k + 1) * link.chunk_size = k * link.chunk_size + link.chunk_size := by ring
  have hpos := link.chunk_size_pos
  refine ⟨?_, ?_, ?_, ?_, ?_⟩ <;> simp only [Memory.memStep, Link.exchange, hlen, h.chunk_cnt,
    h.addr htodo]
  · intro j hj
    obtain rfl : k = j := by omega
    rfl
  · intro hnext
    -- a chunk with another one behind it is full
    have hfull : chunkLen link size k = link.chunk_size := by
      rw [chunkLen]
      omega
    rw [chunkAddr, chunkAddr, hfull, hsucc, BitVec.ofNat_add, ← BitVec.add_assoc]
    split_ifs <;> rfl
  · rw [h.sz_todo, chunkLen]
    omega
  · intro hall
    obtain ⟨hfst, haddr⟩ := h.exchanged fun j hj => hall j (by omega)
    have hlenpos : 0 < chunkLen link size k := by
      rw [chunkLen]
      omega
    rw [link.burst_ok hlenpos (Nat.min_le_left _ _) (hall k (Nat.lt_succ_self k))]
    refine ⟨?_, ?_⟩
    · rw [List.map_append, hfst, List.map_map, inTurn, List.map_map]
      have hmin : min size (k * link.chunk_size) = k * link.chunk_size := by omega
      have hmin' : min size ((k + 1) * link.chunk_size)
          = k * link.chunk_size + chunkLen link size k := by
        rw [chunkLen]
        omega
      rw [hmin, hmin', List.range_add]
      rfl
    · intro hfifo e he
      rcases List.mem_append.mp he with he | he
      · exact haddr hfifo e he
      · simp only [inTurn, List.map_map, List.mem_map, List.mem_range, Function.comp] at he
        obtain ⟨j, -, rfl⟩ := he
        dsimp only
        rw [chunkAddr, hfifo, if_neg (by decide), busAddress_add, BitVec.ofNat_add,
          BitVec.add_assoc]

/-- The chunks up to the last one, and no others, are to be done. -/
theorem mul_chunk_size_lt_iff (hsize : 0 < size) :
    k * link.chunk_size < size ↔ k ≤ lastChunk link size := by
  rw [lastChunk, Nat.le_div_iff_mul_le link.chunk_size_pos]
  omega

/-- The loop ends behind the last chunk. -/
theorem Before.memLoop (hsize : 0 < size) {fuel : ℕ} (h : Before link fifo_mode mem_addr size k s)
    (hk : k ≤ lastChunk link size + 1) (hfuel : lastChunk link size + 1 ≤ fuel + k) :
    Before link fifo_mode mem_addr size (lastChunk link size + 1)
        (memLoop link.chunk_size link.exchange fifo_mode fuel s)
      ∧ (memLoop link.chunk_size link.exchange fifo_mode fuel s).sz_todo = 0 := by
  induction fuel generalizing k s with
  | zero =>
    obtain rfl : k = lastChunk link size + 1 := by omega
    refine ⟨h, ?_⟩
    have := (@mul_chunk_size_lt_iff link size (lastChunk link size + 1) hsize).mp.mt (by omega)
    rw [Memory.memLoop, h.sz_todo]
    omega
  | succ fuel ih =>
    rw [Memory.memLoop]
    by_cases htodo : k * link.chunk_size < size
    · have hle := (mul_chunk_size_lt_iff hsize).mp htodo
      rw [if_pos (by rw [h.sz_todo]; omega)]
      exact ih (h.memStep htodo) (by omega) (by omega)
    · have hlt := (mul_chunk_size_lt_iff hsize).mpr.mt htodo
      obtain rfl : k = lastChunk link size + 1 := by omega
      rw [if_neg (by rw [h.sz_todo]; omega)]
      refine ⟨h, ?_⟩
      rw [h.sz_todo]
      omega

/-- Every transfer of at least one byte ends; its status is that of the last chunk. -/
theorem lgwMemRb_spec (hsize : 0 < size) :
    (lgwMemRb link mem_addr size fifo_mode).1
        = chunkOk link fifo_mode mem_addr size (lastChunk link size)
      ∧ ((∀ k ≤ lastChunk link size, chunkOk link fifo_mode mem_addr size k = true) →
        (lgwMemRb link mem_addr size fifo_mode).2.map Prod.fst = List.range size
          ∧ (fifo_mode = false → ∀ e ∈ (lgwMemRb link mem_addr size fifo_mode).2,
            e.2 = busAddress mem_addr + BitVec.ofNat 15 e.1)) := by
  have hstart : Before link fifo_mode mem_addr size 0 ⟨true, 0, mem_addr, size, []⟩ := by
    refine ⟨fun j hj => absurd hj (by omega), rfl, fun _ => ?_, by simp, fun _ => ?_⟩
    · rw [chunkAddr, Nat.zero_mul]
      split_ifs
      · rfl
      · exact (BitVec.add_zero mem_addr).symm
    · simp
  have hfuel : lastChunk link size + 1 ≤ size + 0 := by
    have := Nat.div_le_self (size - 1) link.chunk_size
    rw [lastChunk]
    omega
  obtain ⟨hend, -⟩ := hstart.memLoop hsize (Nat.zero_le _) hfuel
  rw [lgwMemRb, memTransfer, if_neg (by omega)]
  refine ⟨hend.com_stat _ rfl, ?_⟩
  intro hall
  have hcovered : min size ((lastChunk link size + 1) * link.chunk_size) = size := by
    have := (@mul_chunk_size_lt_iff link size (lastChunk link size + 1) hsize).mp.mt (by omega)
    omega
  have := hend.exchanged fun j hj => hall j (by omega)
  rwa [hcovered] at this

/-! ## What a success means -/

variable (link fifo_mode mem_addr size)

/-- The status is success exactly if every chunk was transferred, and then each byte of the buffer
has been exchanged once, in order, and outside of FIFO mode with its address. -/
def Reports (r : Bool × List (ℕ × BitVec 15)) : Prop :=
  (r.1 = true ↔ 0 < size ∧ ∀ k ≤ lastChunk link size, chunkOk link fifo_mode mem_addr size k = true)
    ∧ (r.1 = true → r.2.map Prod.fst = List.range size
      ∧ (fifo_mode = false → ∀ e ∈ r.2, e.2 = busAddress mem_addr + BitVec.ofNat 15 e.1))

/-- No chunk fails before the last one, unless the last one fails too. -/
def FailsAtLast : Prop :=
  0 < size → chunkOk link fifo_mode mem_addr size (lastChunk link size) = true →
    ∀ k < lastChunk link size, chunkOk link fifo_mode mem_addr size k = true

theorem lgwMemRb_reports_iff :
    Reports link fifo_mode mem_addr size (lgwMemRb link mem_addr size fifo_mode)
      ↔ FailsAtLast link fifo_mode mem_addr size := by
  rcases Nat.eq_zero_or_pos size with rfl | hsize
  · have hzero : lgwMemRb link mem_addr 0 fifo_mode = (false, []) := rfl
    rw [Reports, hzero, FailsAtLast]
    simp
  · obtain ⟨hstat, hexchanged⟩ := @lgwMemRb_spec link fifo_mode mem_addr size hsize
    unfold Reports FailsAtLast
    rw [hstat]
    constructor
    · rintro ⟨hiff, -⟩ - hlast k hk
      exact (hiff.mp hlast).2 k hk.le
    · intro h
      have hall : chunkOk link fifo_mode mem_addr size (lastChunk link size) = true →
          ∀ k ≤ lastChunk link size, chunkOk link fifo_mode mem_addr size k = true := by
        intro hlast k hk
        rcases Nat.lt_or_eq_of_le hk with hk | rfl
        · exact h hsize hlast k hk
        · exact hlast
      exact ⟨⟨fun hlast => ⟨hsize, hall hlast⟩, fun hall => hall.2 _ le_rfl⟩,
        fun hlast => hexchanged (hall hlast)⟩

end

/-- `lgw_mem_wb` and `lgw_mem_rb` report the transfer as it went exactly if no chunk fails before
the last one, unless the last one fails too. -/
theorem lgwMem_reports_iff (link : Link) (mem_addr : BitVec 16) (size : ℕ) :
    (Reports link false mem_addr size (lgwMemWb link mem_addr size)
        ↔ FailsAtLast link false mem_addr size)
      ∧ ∀ fifo_mode, Reports link fifo_mode mem_addr size (lgwMemRb link mem_addr size fifo_mode)
        ↔ FailsAtLast link fifo_mode mem_addr size :=
  ⟨lgwMemRb_reports_iff link false mem_addr size,
    fun fifo_mode => lgwMemRb_reports_iff link fifo_mode mem_addr size⟩

/-- The first of two messages fails. -/
def failsFirst (k _ : ℕ) : ℤ := if k = 0 then -1 else 1027

/-- A write of two chunks succeeds although the first one was not transferred. -/
theorem lgwMemWb_hides_failure :
    (lgwMemWb (spiWbLink failsFirst) 0x0000 2048).1 = true
      ∧ ¬ Reports (spiWbLink failsFirst) false 0x0000 2048
        (lgwMemWb (spiWbLink failsFirst) 0x0000 2048) := by
  have hlast : lastChunk (spiWbLink failsFirst) 2048 = 1 := by decide
  have hfirst : chunkOk (spiWbLink failsFirst) false 0x0000 2048 0 = false := by
    decide
  have hsecond : chunkOk (spiWbLink failsFirst) false 0x0000 2048 1 = true := by
    decide
  have hok : (lgwMemWb (spiWbLink failsFirst) 0x0000 2048).1 = true := by
    have := (@lgwMemRb_spec (spiWbLink failsFirst) false 0x0000 2048 (by decide)).1
    rw [hlast, hsecond] at this
    exact this
  refine ⟨hok, ?_⟩
  rintro ⟨hiff, -⟩
  have := (hiff.mp hok).2 0 (Nat.zero_le _)
  rw [hfirst] at this
  cases this

end RutosSdk.Com.Memory
