import Mathlib.Algebra.Order.Group.Unbundled.Int
import Mathlib.Algebra.Ring.Int.Defs
import Mathlib.Algebra.Ring.Nat
import TalonRPC.Bytes.Slice

/-!
# TcpBuffer

The byte buffer of a connection: a vector with a read and a write index, whose readable bytes are
those between the two. Writing grows the vector when the bytes do not fit; moving the read index
past a third of the vector compacts it. A copy that would end past the vector is a fault. Its
indices are 32-bit ints, so a vector has fewer than `2 ^ 31` bytes.

## Main definitions

* `TcpBuffer`, `TcpBuffer.WellFormed`: the buffer, and `0 ≤ read ≤ write ≤ size`
* `TcpBuffer.readable`: the bytes written and not yet read
* `writeToBuffer`, `readFromBuffer`, `resizeBuffer`, `adjustBuffer`, `moveReadIndex`,
  `moveWriteIndex`: its operations

## Main results

* `readable_adjustBuffer`, `resizeBuffer_of_le`: compacting and growing keep the readable bytes
* `writeToBuffer_eq`: writing copies no byte past the end of the vector
* `readable_writeToBuffer`, `readFromBuffer_eq`: writing appends to them, reading takes from their
  front
* `moveReadIndex_cases`: what moving the read index does to the vector
* `moveReadIndex_of_le`, `receive_of_lt`: moving an index within the vector consumes or adds bytes
-/

namespace TalonRPC

open Bytes

/-- How the run of a function ends when it does not return: with a memory access outside an array
or a vector or through a null pointer, whose behaviour is undefined, or with a
`std::length_error`. -/
inductive Fault
  | outOfBounds
  | lengthError
  | nullPointer
  deriving DecidableEq, Repr

/-- `TcpBuffer`: the vector and the indices of its first unread and its first free byte. -/
@[ext] structure TcpBuffer where
  buffer : List UInt8
  readIndex : ℕ
  writeIndex : ℕ
  deriving DecidableEq, Repr

namespace TcpBuffer

/-- `TcpBuffer::TcpBuffer`. -/
def new (size : ℕ) : TcpBuffer := ⟨List.replicate size 0, 0, 0⟩

/-- `TcpBuffer::readAble`. -/
def readAble (b : TcpBuffer) : ℕ := b.writeIndex - b.readIndex

/-- `TcpBuffer::writeAble`. -/
def writeAble (b : TcpBuffer) : ℕ := b.buffer.length - b.writeIndex

/-- The readable bytes: those from the read index up to the write index. -/
def readable (b : TcpBuffer) : List UInt8 := slice b.buffer b.readIndex b.readAble

/-- The vector with the bytes in the place of as many behind the write index, which stays where it
is. -/
def overwrite (b : TcpBuffer) (buf : List UInt8) : TcpBuffer :=
  { b with
    buffer := b.buffer.take b.writeIndex ++ (buf ++ b.buffer.drop (b.writeIndex + buf.length)) }

/-- The `memcpy` to the write index, which must not reach past the end of the vector. -/
def store (b : TcpBuffer) (buf : List UInt8) : Except Fault TcpBuffer :=
  if b.writeAble < buf.length then .error .outOfBounds else .ok (b.overwrite buf)

/-- `TcpBuffer::resizeBuffer`. A vector cannot have a negative size. -/
def resizeBuffer (b : TcpBuffer) (newSize : ℤ) : Except Fault TcpBuffer :=
  if newSize < 0 then .error .lengthError
  else
    -- The new vector starts with the readable bytes, as many as it holds, and its other bytes are
    -- zero.
    let count := min newSize.toNat b.readAble
    .ok ⟨slice b.buffer b.readIndex count ++ List.replicate (newSize.toNat - count) 0, 0, count⟩

/-- `(int)(1.5 * n)`; where the product exceeds an int, the conversion yields the least int. -/
def grownSize (n : ℕ) : ℤ := if 3 * n / 2 < 2 ^ 31 then 3 * n / 2 else -2 ^ 31

/-- The buffer `writeToBuffer` copies into: one in which the bytes do not fit is grown first. -/
def grownFor (b : TcpBuffer) (buf : List UInt8) : Except Fault TcpBuffer :=
  if b.writeAble < buf.length then b.resizeBuffer (grownSize (b.writeIndex + buf.length))
  else .ok b

/-- `TcpBuffer::writeToBuffer`. -/
def writeToBuffer (b : TcpBuffer) (buf : List UInt8) : Except Fault TcpBuffer := do
  let b ← b.grownFor buf
  let b ← b.store buf
  return { b with writeIndex := b.writeIndex + buf.length }

/-- `TcpBuffer::adjustBuffer`. -/
def adjustBuffer (b : TcpBuffer) : TcpBuffer :=
  if b.readIndex < b.buffer.length / 3 then b
  else
    -- The readable bytes come to the front of a vector of the same size.
    ⟨b.readable ++ List.replicate (b.buffer.length - b.readAble) 0, 0, b.readAble⟩

/-- `TcpBuffer::readFromBuffer`: what `re` holds afterwards, when it is assigned, and the buffer. -/
def readFromBuffer (b : TcpBuffer) (size : ℤ) : Except Fault (Option (List UInt8) × TcpBuffer) :=
  if b.readAble = 0 then .ok (none, b)
  else if size < 0 then .error .lengthError
  else
    let readSize := min size.toNat b.readAble
    .ok (some (slice b.buffer b.readIndex readSize),
      adjustBuffer { b with readIndex := b.readIndex + readSize })

/-- `TcpBuffer::moveReadIndex`. The sum is compared as an unsigned number, so a negative one is
refused like one past the end. -/
def moveReadIndex (b : TcpBuffer) (size : ℤ) : TcpBuffer :=
  let j := b.readIndex + size
  -- The source logs the refusal and leaves the index where it is.
  if j < 0 ∨ b.buffer.length ≤ j then b
  else adjustBuffer { b with readIndex := j.toNat }

/-- `TcpBuffer::moveWriteIndex`. -/
def moveWriteIndex (b : TcpBuffer) (size : ℤ) : TcpBuffer :=
  let j := b.writeIndex + size
  if j < 0 ∨ b.buffer.length ≤ j then b
  else adjustBuffer { b with writeIndex := j.toNat }

/-- Bytes a `read` stores behind the write index, no more than it was asked for, and the
`moveWriteIndex` that follows it. -/
def receive (b : TcpBuffer) (bytes : List UInt8) : TcpBuffer :=
  (b.overwrite bytes).moveWriteIndex bytes.length

/-- `0 ≤ read index ≤ write index ≤ size`, with a size that is an int. -/
structure WellFormed (b : TcpBuffer) : Prop where
  read_le_write : b.readIndex ≤ b.writeIndex
  write_le_size : b.writeIndex ≤ b.buffer.length
  size_lt : b.buffer.length < 2 ^ 31

instance (b : TcpBuffer) : Decidable b.WellFormed :=
  decidable_of_iff (b.readIndex ≤ b.writeIndex ∧ b.writeIndex ≤ b.buffer.length ∧
    b.buffer.length < 2 ^ 31) ⟨fun ⟨h₁, h₂, h₃⟩ => ⟨h₁, h₂, h₃⟩, fun ⟨h₁, h₂, h₃⟩ => ⟨h₁, h₂, h₃⟩⟩

variable {b : TcpBuffer}

theorem wellFormed_new {size : ℕ} (hsize : size < 2 ^ 31) : (new size).WellFormed := by
  refine ⟨le_rfl, Nat.zero_le _, ?_⟩
  rw [new, List.length_replicate]
  exact hsize

theorem WellFormed.length_readable (h : b.WellFormed) : b.readable.length = b.readAble := by
  have := h.write_le_size
  have := h.read_le_write
  exact length_slice_of_le (by unfold readAble; omega)

theorem WellFormed.write_eq (h : b.WellFormed) : b.writeIndex = b.readIndex + b.readAble := by
  have := h.read_le_write
  unfold readAble
  omega

/-- The vector holds the readable bytes at the read index. -/
theorem holdsAt_of_readable (h : b.WellFormed) {q r : List UInt8} (hread : b.readable = q ++ r) :
    HoldsAt b.buffer b.readIndex q := by
  have hall : HoldsAt b.buffer b.readIndex b.readable := by
    rw [HoldsAt, h.length_readable]
    rfl
  rw [hread] at hall
  exact (holdsAt_append.mp hall).1

/-! ## Compacting -/

@[simp] theorem length_adjustBuffer (h : b.WellFormed) :
    b.adjustBuffer.buffer.length = b.buffer.length := by
  unfold adjustBuffer
  split_ifs
  · rfl
  · have := h.write_eq
    have := h.write_le_size
    simp only [List.length_append, h.length_readable, List.length_replicate]
    omega

theorem readAble_adjustBuffer (b : TcpBuffer) : b.adjustBuffer.readAble = b.readAble := by
  unfold adjustBuffer
  split_ifs
  · rfl
  · simp [readAble]

theorem writeIndex_adjustBuffer_le (h : b.WellFormed) :
    b.adjustBuffer.writeIndex ≤ b.writeIndex := by
  unfold adjustBuffer
  split_ifs
  · exact le_refl _
  · have := h.write_eq
    simp only
    omega

theorem wellFormed_adjustBuffer (h : b.WellFormed) : b.adjustBuffer.WellFormed := by
  have hlen := length_adjustBuffer h
  have hwrite := writeIndex_adjustBuffer_le h
  refine ⟨?_, ?_, hlen ▸ h.size_lt⟩
  · unfold adjustBuffer
    split_ifs
    · exact h.read_le_write
    · exact Nat.zero_le _
  · have := h.write_le_size
    omega

/-- **Compacting keeps the readable bytes.** -/
theorem readable_adjustBuffer (h : b.WellFormed) : b.adjustBuffer.readable = b.readable := by
  unfold adjustBuffer
  split_ifs
  · rfl
  · simp only [readable, readAble, Nat.sub_zero]
    exact slice_middle (p := []) rfl h.length_readable

/-! ## Moving the indices -/

/-- **Moving the read index** over readable bytes, within the vector, consumes them. -/
theorem moveReadIndex_of_le (h : b.WellFormed) {k : ℕ} (hk : k ≤ b.readAble)
    (hsize : b.readIndex + k < b.buffer.length) :
    (b.moveReadIndex k).WellFormed ∧ (b.moveReadIndex k).readable = b.readable.drop k ∧
      (b.moveReadIndex k).readAble = b.readAble - k ∧
      (b.moveReadIndex k).buffer.length = b.buffer.length ∧
      (b.moveReadIndex k).writeIndex ≤ b.writeIndex := by
  have hw := h.write_eq
  -- The index stays below the size, so the move is not refused.
  have hmoved : b.moveReadIndex k = adjustBuffer { b with readIndex := b.readIndex + k } := by
    rw [moveReadIndex, if_neg (by omega)]
    rfl
  have hwf : ({ b with readIndex := b.readIndex + k } : TcpBuffer).WellFormed :=
    ⟨by simp only; omega, h.write_le_size, h.size_lt⟩
  have hreadAble : ({ b with readIndex := b.readIndex + k } : TcpBuffer).readAble =
      b.readAble - k := by
    simp only [readAble] at *
    omega
  rw [hmoved]
  refine ⟨wellFormed_adjustBuffer hwf, ?_, ?_, length_adjustBuffer hwf,
    writeIndex_adjustBuffer_le hwf⟩
  · rw [readable_adjustBuffer hwf, readable, hreadAble, readable, drop_slice]
  · rw [readAble_adjustBuffer, hreadAble]

/-- Moving the read index to the write index or below keeps the buffer well-formed. -/
theorem wellFormed_moveReadIndex (h : b.WellFormed) {k : ℤ}
    (hk : b.readIndex + k ≤ b.writeIndex) :
    (b.moveReadIndex k).WellFormed ∧ (b.moveReadIndex k).buffer.length = b.buffer.length ∧
      (b.moveReadIndex k).writeIndex ≤ b.writeIndex := by
  unfold moveReadIndex
  dsimp only
  split_ifs with hrefused
  · exact ⟨h, rfl, le_rfl⟩
  · have hwf : ({ b with readIndex := (b.readIndex + k).toNat } : TcpBuffer).WellFormed :=
      ⟨by simp only; omega, h.write_le_size, h.size_lt⟩
    exact ⟨wellFormed_adjustBuffer hwf, length_adjustBuffer hwf, writeIndex_adjustBuffer_le hwf⟩

/-- **Moving the read index makes progress** exactly if it moves forward, within the vector. -/
theorem readAble_moveReadIndex_lt_iff (h : b.WellFormed) {k : ℤ}
    (hk : b.readIndex + k ≤ b.writeIndex) :
    (b.moveReadIndex k).readAble < b.readAble ↔ 1 ≤ k ∧ b.readIndex + k < b.buffer.length := by
  have hw := h.write_eq
  unfold moveReadIndex
  dsimp only
  split_ifs with hrefused
  · omega
  · rw [readAble_adjustBuffer]
    simp only [readAble] at *
    omega

theorem length_overwrite (b : TcpBuffer) (buf : List UInt8)
    (h : b.writeIndex + buf.length ≤ b.buffer.length) :
    (b.overwrite buf).buffer.length = b.buffer.length := by
  simp only [overwrite, List.length_append, List.length_take, List.length_drop]
  omega

/-- Bytes stored behind the write index follow the readable ones. -/
theorem slice_overwrite (h : b.WellFormed) (buf : List UInt8) :
    slice (b.overwrite buf).buffer b.readIndex (b.readAble + buf.length) = b.readable ++ buf := by
  -- What is in front of the write index is what has been read and what has not.
  have hread : b.buffer.take b.writeIndex = b.buffer.take b.readIndex ++ b.readable := by
    rw [h.write_eq, readable, slice, List.take_add]
  have hlen : (b.buffer.take b.readIndex).length = b.readIndex := by
    have := h.read_le_write
    have := h.write_le_size
    rw [List.length_take]
    omega
  rw [overwrite, hread, List.append_assoc]
  simp only
  rw [← List.append_assoc b.readable buf]
  exact slice_middle hlen (by rw [List.length_append, h.length_readable])

/-- **Receiving bytes** that leave room in the vector appends them to the readable ones. -/
theorem receive_of_lt (h : b.WellFormed) {bytes : List UInt8} (hlt : bytes.length < b.writeAble) :
    (b.receive bytes).WellFormed ∧ (b.receive bytes).readable = b.readable ++ bytes ∧
      (b.receive bytes).buffer.length = b.buffer.length ∧
      (b.receive bytes).writeIndex < b.buffer.length := by
  -- There is room left, so the move of the write index is not refused.
  have hlt' : b.writeIndex + bytes.length < b.buffer.length := by
    unfold writeAble at hlt
    omega
  have hlen := length_overwrite b bytes hlt'.le
  have hmoved : b.receive bytes =
      adjustBuffer { b.overwrite bytes with writeIndex := b.writeIndex + bytes.length } := by
    rw [receive, moveWriteIndex, if_neg]
    · rfl
    · rw [hlen]
      simp only [overwrite]
      omega
  have hwf : ({ b.overwrite bytes with writeIndex := b.writeIndex + bytes.length } :
      TcpBuffer).WellFormed := by
    refine ⟨?_, ?_, ?_⟩
    · have := h.read_le_write
      simp only [overwrite]
      omega
    · simp only [hlen]
      omega
    · simp only [hlen]
      exact h.size_lt
  rw [hmoved]
  refine ⟨wellFormed_adjustBuffer hwf, ?_, by rw [length_adjustBuffer hwf, hlen],
    (writeIndex_adjustBuffer_le hwf).trans_lt hlt'⟩
  rw [readable_adjustBuffer hwf, ← slice_overwrite h bytes]
  simp only [readable, readAble, overwrite]
  congr 1
  have := h.read_le_write
  omega

/-- **A read that fills the vector is lost**: the move of the write index is refused. -/
theorem receive_of_full (h : b.WellFormed) {bytes : List UInt8}
    (hfull : bytes.length = b.writeAble) :
    b.receive bytes = b.overwrite bytes := by
  have := h.write_le_size
  have hlen := length_overwrite b bytes (by rw [hfull]; unfold writeAble; omega)
  rw [receive, moveWriteIndex, if_pos]
  rw [hlen, hfull]
  simp only [overwrite, writeAble]
  omega

/-! ## Compacted buffers -/

/-- The buffer has been compacted if it was to be. -/
def Settled (b : TcpBuffer) : Prop := b.readIndex = 0 ∨ b.readIndex < b.buffer.length / 3

theorem settled_adjustBuffer (b : TcpBuffer) : b.adjustBuffer.Settled := by
  unfold adjustBuffer
  split_ifs with h
  · exact .inr h
  · exact .inl rfl

theorem Settled.moveReadIndex (h : b.Settled) (k : ℤ) : (b.moveReadIndex k).Settled := by
  unfold TcpBuffer.moveReadIndex
  dsimp only
  split_ifs
  · exact h
  · exact settled_adjustBuffer _

theorem settled_receive {bytes : List UInt8} (hlt : bytes.length < b.writeAble) :
    (b.receive bytes).Settled := by
  unfold writeAble at hlt
  have hlen := length_overwrite b bytes (by omega)
  rw [receive, moveWriteIndex, if_neg]
  · exact settled_adjustBuffer _
  · rw [hlen]
    simp only [overwrite]
    omega

/-- Where the read index moves to, and what it does to the vector: nothing, unless it comes to a
third of it. -/
theorem moveReadIndex_cases (b : TcpBuffer) (k : ℤ) :
    (b.moveReadIndex k).buffer = b.buffer ∧ (b.moveReadIndex k).writeIndex = b.writeIndex ∨
      ∃ j : ℕ, b.buffer.length / 3 ≤ j ∧ j = b.readIndex + k ∧
        (b.moveReadIndex k).writeIndex = b.writeIndex - j := by
  unfold TcpBuffer.moveReadIndex adjustBuffer
  dsimp only
  split_ifs with hrefused hthird
  · -- The move is refused.
    exact .inl ⟨rfl, rfl⟩
  · -- The index stays below a third of the vector.
    exact .inl ⟨rfl, rfl⟩
  · -- The vector is compacted.
    exact .inr ⟨(b.readIndex + k).toNat, by omega, by omega, rfl⟩

/-! ## Growing, writing and reading -/

theorem resizeBuffer_of_le (h : b.WellFormed) {n : ℕ} (hn : b.readAble ≤ n) (hlt : n < 2 ^ 31) :
    ∃ b', b.resizeBuffer n = .ok b' ∧ b'.WellFormed ∧ b'.readable = b.readable ∧
      b'.buffer.length = n ∧ b'.readIndex = 0 ∧ b'.writeIndex = b.readAble := by
  have hlen := h.length_readable
  refine ⟨⟨b.readable ++ List.replicate (n - b.readAble) 0, 0, b.readAble⟩, ?_, ?_, ?_, ?_, rfl,
    rfl⟩
  · rw [resizeBuffer, if_neg (by omega)]
    simp only [Int.toNat_natCast, Nat.min_eq_right hn]
    rfl
  · refine ⟨Nat.zero_le _, ?_, ?_⟩ <;>
      simp only [List.length_append, hlen, List.length_replicate] <;> omega
  · simp only [readable, readAble, Nat.sub_zero]
    exact slice_middle (p := []) rfl hlen
  · simp only [List.length_append, hlen, List.length_replicate]
    omega

/-- Bytes that fit are copied into the vector, and follow the readable ones. -/
theorem overwrite_of_le (h : b.WellFormed) {buf : List UInt8} (hle : buf.length ≤ b.writeAble) :
    b.store buf = .ok (b.overwrite buf) ∧
      ({ b.overwrite buf with writeIndex := b.writeIndex + buf.length } : TcpBuffer).WellFormed ∧
      ({ b.overwrite buf with writeIndex := b.writeIndex + buf.length } : TcpBuffer).readable =
        b.readable ++ buf := by
  have hsize := h.write_le_size
  have hread := h.read_le_write
  have hle' : b.writeIndex + buf.length ≤ b.buffer.length := by
    unfold writeAble at hle
    omega
  have hlen := length_overwrite b buf hle'
  refine ⟨if_neg (by omega), ⟨?_, ?_, ?_⟩, ?_⟩
  · simp only [overwrite]
    omega
  · simp only [hlen]
    exact hle'
  · simp only [hlen]
    exact h.size_lt
  · rw [← slice_overwrite h buf]
    simp only [readable, readAble, overwrite]
    congr 1
    omega

/-- **There is room for the bytes** that are written, once the vector has grown. -/
theorem grownFor_room (h : b.WellFormed) {buf : List UInt8} {c : TcpBuffer}
    (hc : b.grownFor buf = .ok c) :
    c.WellFormed ∧ c.readable = b.readable ∧ buf.length ≤ c.writeAble ∧
      c.writeIndex ≤ b.writeIndex := by
  unfold grownFor at hc
  split_ifs at hc with hroom
  · have hw := h.write_eq
    by_cases hgrow : 3 * (b.writeIndex + buf.length) / 2 < 2 ^ 31
    · have hsize : grownSize (b.writeIndex + buf.length) =
          (3 * (b.writeIndex + buf.length) / 2 : ℕ) := by
        rw [grownSize, if_pos (by exact_mod_cast hgrow)]
        push_cast
        rfl
      -- The grown vector is half as large again as is needed.
      obtain ⟨c', hc', hwf, hread, hlen, -, hwrite⟩ :=
        resizeBuffer_of_le h (n := 3 * (b.writeIndex + buf.length) / 2) (by omega) hgrow
      rw [hsize, hc'] at hc
      obtain rfl := Except.ok.inj hc
      refine ⟨hwf, hread, ?_, by omega⟩
      unfold writeAble
      omega
    · -- The grown size is no int, and the vector refuses its negative value.
      rw [grownSize, if_neg (by exact_mod_cast hgrow), resizeBuffer, if_pos (by omega)] at hc
      cases hc
  · obtain rfl := Except.ok.inj hc
    exact ⟨h, rfl, by omega, le_rfl⟩

/-- The vector can be grown while its new size is an int. -/
theorem exists_grownFor (b : TcpBuffer) (buf : List UInt8)
    (hlt : 3 * (b.writeIndex + buf.length) / 2 < 2 ^ 31) : ∃ c, b.grownFor buf = .ok c := by
  unfold grownFor
  split_ifs
  · rw [grownSize, if_pos (by exact_mod_cast hlt), resizeBuffer, if_neg (by omega)]
    exact ⟨_, rfl⟩
  · exact ⟨b, rfl⟩

/-- What `writeToBuffer` leaves: no byte is copied past the end of the vector. -/
theorem writeToBuffer_eq (h : b.WellFormed) {buf : List UInt8} {c : TcpBuffer}
    (hc : b.grownFor buf = .ok c) :
    b.writeToBuffer buf =
      .ok { c.overwrite buf with writeIndex := c.writeIndex + buf.length } := by
  obtain ⟨hwf, -, hfits, -⟩ := grownFor_room h hc
  rw [writeToBuffer, hc]
  simp only [bind, Except.bind, (overwrite_of_le hwf hfits).1]
  rfl

/-- **Writing appends to the readable bytes.** -/
theorem readable_writeToBuffer (h : b.WellFormed) {buf : List UInt8} {b' : TcpBuffer}
    (hb' : b.writeToBuffer buf = .ok b') :
    b'.WellFormed ∧ b'.readable = b.readable ++ buf ∧
      b'.writeIndex ≤ b.writeIndex + buf.length := by
  cases hc : b.grownFor buf with
  | error e =>
    rw [writeToBuffer, hc] at hb'
    cases hb'
  | ok c =>
    obtain ⟨hwf, hread, hfits, hwrite⟩ := grownFor_room h hc
    rw [writeToBuffer_eq h hc] at hb'
    obtain rfl := Except.ok.inj hb'
    obtain ⟨-, hwf', hread'⟩ := overwrite_of_le hwf hfits
    refine ⟨hwf', by rw [hread', hread], ?_⟩
    dsimp only
    omega

/-- Writing succeeds while the grown vector is an int. -/
theorem exists_writeToBuffer (h : b.WellFormed) (buf : List UInt8)
    (hlt : 3 * (b.writeIndex + buf.length) / 2 < 2 ^ 31) :
    ∃ b', b.writeToBuffer buf = .ok b' := by
  obtain ⟨c, hc⟩ := exists_grownFor b buf hlt
  exact ⟨_, writeToBuffer_eq h hc⟩

/-- **Reading takes from the front** of the readable bytes. -/
theorem readFromBuffer_eq (h : b.WellFormed) (hne : b.readAble ≠ 0) (n : ℕ) :
    ∃ b', b.readFromBuffer n = .ok (some (b.readable.take n), b') ∧ b'.WellFormed ∧
      b'.readable = b.readable.drop n := by
  have hw := h.write_eq
  have hsize := h.write_le_size
  set k := min n b.readAble with hk
  have hwf : ({ b with readIndex := b.readIndex + k } : TcpBuffer).WellFormed :=
    ⟨by simp only; omega, hsize, h.size_lt⟩
  refine ⟨adjustBuffer { b with readIndex := b.readIndex + k }, ?_, wellFormed_adjustBuffer hwf, ?_⟩
  · rw [readFromBuffer, if_neg hne, if_neg (by omega)]
    simp only [Int.toNat_natCast, ← hk]
    rw [readable, slice, slice, List.take_take]
  · rw [readable_adjustBuffer hwf, readable, readable, drop_slice]
    simp only [readAble] at hk ⊢
    -- More bytes than there are may be asked for; then none are left.
    by_cases hn : n ≤ b.writeIndex - b.readIndex
    · rw [Nat.min_eq_left hn] at hk
      rw [hk]
      congr 1
      omega
    · rw [Nat.min_eq_right (by omega)] at hk
      rw [show b.writeIndex - (b.readIndex + k) = 0 by omega,
        show b.writeIndex - b.readIndex - n = 0 by omega, slice_zero_right, slice_zero_right]

end TcpBuffer

end TalonRPC
