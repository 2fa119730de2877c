import RutosSdk.Com.Mcu
import RutosSdk.Lib.Pieces

/-! # Reading an acknowledge from the port

Reference: `read_ack` in `libloragw/src/loragw_mcu.c`, with the port as `set_blocking_linux` in
`libloragw/src/loragw_usb.c` leaves it.

The payload is read until it is complete, the header with a single call, into an array that still
holds the header of the exchange before. Calls interrupted by a signal are repeated and do not show.
-/

namespace RutosSdk.Com

open Pieces

/-! ## `read_ack` -/

/-- What a call of `read_ack` leaves behind: the header and payload it returns, the port, how many
bytes of the header it has read, and at which indices it has looked. -/
structure AckRead where
  result : Except Stop (Vector Byte 4 × List Byte)
  port : Source Byte
  fresh : ℕ
  consulted : List ℕ

/-- `buf_hdr` with the bytes of a read at its beginning. -/
def headerAfter (hdr : Vector Byte 4) (piece : List Byte) : Vector Byte 4 :=
  Vector.ofFn fun i => piece.getD i hdr[i]

/-- `read_ack`, on a port and with what `buf_hdr` holds. -/
def readAckFrom (port : Source Byte) (buf_hdr : Vector Byte 4) (buf_size : ℕ) : AckRead :=
  match port.read 4 with
  | .error e => ⟨.error e, port, 0, []⟩
  | .ok (piece, port') =>
    let hdr := headerAfter buf_hdr piece
    if cmdGetType hdr < 0x40 ∨ 0x46 < cmdGetType hdr then
      ⟨.error .failed, port', piece.length, [3]⟩
    else if buf_size < cmdGetSize hdr then ⟨.error .failed, port', piece.length, [3, 1, 2]⟩
    else
      match port'.readAll (cmdGetSize hdr) (cmdGetSize hdr) with
      | .error e => ⟨.error e, port', piece.length, [3, 1, 2]⟩
      | .ok (payload, port'') => ⟨.ok (hdr, payload), port'', piece.length, [3, 1, 2]⟩

/-- The header and payload are returned as they were sent and the port is at what follows them, or
the call fails without having looked at bytes of an earlier header. -/
def ReadRight (port : Source Byte) (buf_hdr : Vector Byte 4) (buf_size : ℕ)
    (hdr : Vector Byte 4) (payload rest : List Byte) : Prop :=
  let r := readAckFrom port buf_hdr buf_size
  (r.result = .ok (hdr, payload) ∧ r.port.stream = rest)
    ∨ (r.result = .error .failed ∧ ∀ i ∈ r.consulted, i < r.fresh)

/-! ## The header -/

theorem headerAfter_toList (buf_hdr hdr : Vector Byte 4) :
    headerAfter buf_hdr hdr.toList = hdr := by
  refine Vector.ext ?_
  intro i hi
  rw [headerAfter, Vector.getElem_ofFn, List.getD_eq_getElem _ _ (by simpa using hi)]
  exact Vector.getElem_toList _

section

variable {port : Source Byte} {hdr : Vector Byte 4} {payload rest : List Byte}
  (hsize : payload.length = cmdGetSize hdr)
  (hstream : port.stream = hdr.toList ++ (payload ++ rest))

include hstream

/-- The read of the header, when it does not fail. -/
theorem read_header {n : ℕ} (h : port.answers 0 = some n) :
    port.read 4 = .ok (hdr.toList.take n, port.next (min n 4)) := by
  have hlen : port.stream.length ≠ 0 := by
    rw [hstream]
    simp
  rw [Source.read, h]
  dsimp only
  rw [if_neg hlen, hstream, List.take_append_of_le_length (by rw [Vector.length_toList]; omega)]
  congr 2
  rcases Nat.le_total n 4 with hn | hn
  · rw [Nat.min_eq_left hn]
  · rw [Nat.min_eq_right hn, List.take_of_length_le (by simp), List.take_of_length_le (by simpa)]

include hsize

/-- A header read in one piece is the one that was sent, and decides the rest. -/
theorem readRight_of_whole {n : ℕ} (h : port.answers 0 = some n) (hn : 4 ≤ n)
    (buf_hdr : Vector Byte 4) (buf_size : ℕ) :
    ReadRight port buf_hdr buf_size hdr payload rest := by
  have hpiece : hdr.toList.take n = hdr.toList := List.take_of_length_le (by simpa using hn)
  have hnext : (port.next (min n 4)).stream = payload ++ rest := by
    rw [Source.stream_next, hstream, Nat.min_eq_right hn, List.drop_left' (by simp)]
  have hfresh : ∀ i ∈ [3, 1, 2], i < hdr.toList.length := by simp
  unfold ReadRight readAckFrom
  rw [read_header hstream h, hpiece]
  dsimp only
  rw [headerAfter_toList]
  split_ifs with htype hfits
  · exact .inr ⟨rfl, by simp⟩
  · exact .inr ⟨rfl, hfresh⟩
  · have hblocked : (port.next (min n 4)).readAll (cmdGetSize hdr) (cmdGetSize hdr)
        ≠ .error .blocked := by
      refine Source.readAll_ne_blocked ?_
      rw [hnext, List.length_append]
      omega
    split
    · rename_i e he
      cases e with
      | failed => exact .inr ⟨rfl, hfresh⟩
      | blocked => exact absurd he hblocked
    · rename_i l port'' hall
      obtain ⟨hlen, heq⟩ := Source.readAll_ok (Nat.le_refl _) hall
      rw [hnext] at heq
      obtain ⟨rfl, rfl⟩ := List.append_inj heq (by omega)
      exact .inl ⟨rfl, rfl⟩

/-- A header of which only a part was read is judged by bytes of an earlier one, and leaves the port
too early in the stream even if they happen to be the same. -/
theorem not_readRight_of_part {n : ℕ} (h : port.answers 0 = some n) (hn : n < 4)
    (buf_hdr : Vector Byte 4) (buf_size : ℕ) :
    ¬ ReadRight port buf_hdr buf_size hdr payload rest := by
  have hnext : (port.next (min n 4)).stream = (hdr.toList ++ (payload ++ rest)).drop n := by
    rw [Source.stream_next, hstream, Nat.min_eq_left (Nat.le_of_lt hn)]
  have hfresh : (hdr.toList.take n).length = n := by simp; omega
  have hstale : ∀ l : List ℕ, 3 ∈ l → ¬ ∀ i ∈ l, i < n := by
    intro l hl hall
    have := hall 3 hl
    omega
  unfold ReadRight readAckFrom
  rw [read_header hstream h]
  dsimp only
  rw [hfresh]
  split_ifs with htype hfits
  · rintro (⟨hok, -⟩ | ⟨-, hall⟩)
    · cases hok
    · exact hstale _ (by simp) hall
  · rintro (⟨hok, -⟩ | ⟨-, hall⟩)
    · cases hok
    · exact hstale _ (by simp) hall
  · split
    · rintro (⟨hok, -⟩ | ⟨-, hall⟩)
      · cases hok
      · exact hstale _ (by simp) hall
    · rename_i l port'' hall
      rintro (⟨hok, hrest⟩ | ⟨hfailed, -⟩)
      · obtain ⟨hhdr, rfl⟩ := Prod.mk.inj (Except.ok.inj hok)
        obtain ⟨hlen, heq⟩ := Source.readAll_ok (Nat.le_refl _) hall
        -- the bytes of the header that were not read are still in front
        have hcount := congrArg List.length heq
        rw [hnext, hrest] at hcount
        simp only [List.length_drop, List.length_append, Vector.length_toList] at hcount
        omega
      · cases hfailed

end

/-- For every acknowledge in the stream and every way the reads cut it, `read_ack` is right exactly
if the first read does not return with less than the header. -/
theorem readRight_iff {hdr : Vector Byte 4} {payload rest : List Byte}
    (hsize : payload.length = cmdGetSize hdr) (port : Source Byte)
    (hstream : port.stream = hdr.toList ++ (payload ++ rest)) (buf_hdr : Vector Byte 4)
    (buf_size : ℕ) :
    ReadRight port buf_hdr buf_size hdr payload rest ↔ ∀ n, port.answers 0 = some n → 4 ≤ n := by
  constructor
  · intro hright n h
    by_contra hn
    exact not_readRight_of_part hsize hstream h (by omega) buf_hdr buf_size hright
  · intro h
    cases hanswer : port.answers 0 with
    | none =>
      refine .inr ?_
      simp [readAckFrom, Source.read, hanswer]
    | some n => exact readRight_of_whole hsize hstream hanswer (h n hanswer) buf_hdr buf_size

/-- A port with the acknowledge of one byte and the beginning of the next one, whose first read
returns `n` bytes. -/
def samplePort (n : ℕ) (hn : 0 < n) : Source Byte where
  stream := [0x11, 0, 1, 0x46, 0xAB, 0x12, 0]
  answers k := if k = 0 then some n else some 64
  pos k m h := by
    split at h <;> obtain rfl := Option.some.inj h
    · exact hn
    · decide

theorem readRight_samplePort :
    ReadRight (samplePort 64 (by decide)) #v[0x10, 0, 5, 0x46] 16 #v[0x11, 0, 1, 0x46] [0xAB]
      [0x12, 0] :=
  (readRight_iff rfl (samplePort 64 (by decide)) rfl #v[0x10, 0, 5, 0x46] 16).mpr fun n h => by
    obtain rfl := Option.some.inj h
    decide

/-- Three bytes of the header and the type of the earlier one make up a header, and the type itself
is returned as the payload. -/
theorem readAck_takes_part :
    (readAckFrom (samplePort 3 (by decide)) #v[0x10, 0, 5, 0x46] 16).result
        = .ok (#v[0x11, 0, 1, 0x46], [0x46])
      ∧ ¬ ReadRight (samplePort 3 (by decide)) #v[0x10, 0, 5, 0x46] 16 #v[0x11, 0, 1, 0x46] [0xAB]
        [0x12, 0] :=
  ⟨rfl, not_readRight_of_part rfl rfl rfl (by decide) _ _⟩

end RutosSdk.Com
