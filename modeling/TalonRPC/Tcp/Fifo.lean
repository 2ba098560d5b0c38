import TalonRPC.Machine.Fifo
import TalonRPC.Machine.Run
import TalonRPC.Tcp.Buffer

/-!
# TcpBuffer is a queue of bytes

Bytes are written at the write index and read at the read index. A write that does not fit grows
the vector by half, a read that comes to a third of the vector compacts it, and both move the bytes
in between. To those who write and read, the buffer is a queue.

## Main definitions

* `BufferEvent`, `bufferStep`: the operations on a buffer
* `BufferEvent.abstract`: what an operation does to the queue
* `Represents b q written`: the buffer holds the queue `q` after as many bytes were written

## Main results

* `Represents.step`: an operation on the buffer does to the queue what it should
* `tcpBuffer_fifo`: every run of a buffer is one of the queue
-/

namespace TalonRPC

namespace TcpBuffer

open Machine

/-- An operation on a buffer. -/
inductive BufferEvent
  | write (buf : List UInt8)
  | read (size : ℤ)
  | adjust
  | resize (newSize : ℤ)
  deriving DecidableEq, Repr

/-- The buffer after an operation that returns. -/
def bufferStep (b : TcpBuffer) : BufferEvent → Option TcpBuffer
  | .write buf => (b.writeToBuffer buf).toOption
  | .read size => (b.readFromBuffer size).toOption.map (·.2)
  | .adjust => some b.adjustBuffer
  | .resize newSize => (b.resizeBuffer newSize).toOption

/-- What a `readFromBuffer` assigns to `re`, if it does. -/
def readBytes (b : TcpBuffer) : BufferEvent → List (Option (List UInt8))
  | .read size => (b.readFromBuffer size).toOption.toList.map (·.1)
  | _ => []

namespace BufferEvent

/-- What an operation does to the queue: growing and compacting leave it alone. -/
def abstract : BufferEvent → FifoEvent UInt8
  | .write buf => .put buf
  | .read size => .take size.toNat
  | .adjust => .keep
  | .resize _ => .keep

/-- The bytes that an operation writes. -/
def written : BufferEvent → List UInt8
  | .write buf => buf
  | _ => []

end BufferEvent

/-- The bytes written. -/
def written (es : List BufferEvent) : List UInt8 := es.flatMap BufferEvent.written

/-- An operation as it may be called: no negative number of bytes is asked for, and a vector is not
made too small for the readable bytes. -/
def Admissible (b : TcpBuffer) : BufferEvent → Prop
  | .write _ => True
  | .read size => 0 ≤ size
  | .adjust => True
  | .resize newSize => b.readAble ≤ newSize ∧ newSize < 2 ^ 31

instance (b : TcpBuffer) (e : BufferEvent) : Decidable (Admissible b e) :=
  match e with
  | .write _ | .adjust => .isTrue trivial
  | .read size => inferInstanceAs (Decidable (0 ≤ size))
  | .resize newSize => inferInstanceAs (Decidable (b.readAble ≤ newSize ∧ newSize < 2 ^ 31))

/-- The buffer holds the queue `q`, after at most `n` bytes were written. -/
structure Represents (b : TcpBuffer) (q : List UInt8) (n : ℕ) : Prop where
  wellFormed : b.WellFormed
  readable : b.readable = q
  writeIndex_le : b.writeIndex ≤ n

variable {b : TcpBuffer} {q : List UInt8} {n : ℕ}

theorem represents_new {c : ℕ} (hc : c < 2 ^ 31) : Represents (new c) [] 0 := by
  refine ⟨wellFormed_new hc, ?_, le_rfl⟩
  simp [TcpBuffer.readable, readAble, new]

theorem Represents.readAble_eq (h : Represents b q n) : b.readAble = q.length := by
  rw [← h.readable, h.wellFormed.length_readable]

/-- Writing puts the bytes at the end, and no byte outside of the vector. The vector can be grown
while few bytes were written. -/
theorem Represents.write (h : Represents b q n) {buf : List UInt8} (hlt : n + buf.length < 2 ^ 30) :
    ∃ b', b.writeToBuffer buf = .ok b' ∧ Represents b' (q ++ buf) (n + buf.length) := by
  have hwrite := h.writeIndex_le
  obtain ⟨b', hb'⟩ := exists_writeToBuffer h.wellFormed buf (by omega)
  obtain ⟨hwf, hread, hle⟩ := readable_writeToBuffer h.wellFormed hb'
  exact ⟨b', hb', hwf, by rw [hread, h.readable], by omega⟩

/-- Reading from an empty buffer assigns nothing. -/
theorem Represents.read_empty (h : Represents b [] n) (size : ℤ) :
    b.readFromBuffer size = .ok (none, b) := by
  rw [readFromBuffer, if_pos (by simpa using h.readAble_eq)]

theorem writeIndex_readFromBuffer_le (h : b.WellFormed) {size : ℤ} {re : Option (List UInt8)}
    {b' : TcpBuffer} (hb' : b.readFromBuffer size = .ok (re, b')) :
    b'.writeIndex ≤ b.writeIndex := by
  have hw := h.write_eq
  rw [readFromBuffer] at hb'
  split_ifs at hb'
  · obtain ⟨-, rfl⟩ := Prod.mk.inj (Except.ok.inj hb')
    exact le_rfl
  · obtain ⟨-, rfl⟩ := Prod.mk.inj (Except.ok.inj hb')
    refine writeIndex_adjustBuffer_le ⟨?_, h.write_le_size, h.size_lt⟩
    simp only
    omega

/-- Reading takes the bytes from the front. -/
theorem Represents.read (h : Represents b q n) (hne : q ≠ []) (k : ℕ) :
    ∃ b', b.readFromBuffer k = .ok (some (q.take k), b') ∧ Represents b' (q.drop k) n := by
  have hpos : b.readAble ≠ 0 := by
    rw [h.readAble_eq]
    exact mt List.length_eq_zero_iff.mp hne
  obtain ⟨b', hb', hwf, hread⟩ := readFromBuffer_eq h.wellFormed hpos k
  rw [h.readable] at hb' hread
  exact ⟨b', hb', hwf, hread,
    (writeIndex_readFromBuffer_le h.wellFormed hb').trans h.writeIndex_le⟩

/-- Compacting leaves the queue alone. -/
theorem Represents.adjust (h : Represents b q n) : Represents b.adjustBuffer q n where
  wellFormed := wellFormed_adjustBuffer h.wellFormed
  readable := by rw [readable_adjustBuffer h.wellFormed, h.readable]
  writeIndex_le := (writeIndex_adjustBuffer_le h.wellFormed).trans h.writeIndex_le

/-- So does growing. -/
theorem Represents.resize (h : Represents b q n) {k : ℕ} (hk : b.readAble ≤ k) (hlt : k < 2 ^ 31) :
    ∃ b', b.resizeBuffer k = .ok b' ∧ Represents b' q n := by
  have hw := h.wellFormed.write_eq
  have hle := h.writeIndex_le
  obtain ⟨b', hb', hwf, hread, -, -, hwrite⟩ := resizeBuffer_of_le h.wellFormed hk hlt
  exact ⟨b', hb', hwf, by rw [hread, h.readable], by omega⟩

/-- An operation on the buffer does to the queue what it should, and answers what the queue
answers. -/
theorem Represents.step (h : Represents b q n) {e : BufferEvent} (he : Admissible b e)
    (hlt : n + e.written.length < 2 ^ 30) :
    ∃ b', bufferStep b e = some b' ∧ Represents b' (e.abstract.apply q) (n + e.written.length) ∧
      readBytes b e = e.abstract.answer q := by
  cases e with
  | write buf =>
    have hlt' : n + buf.length < 2 ^ 30 := hlt
    obtain ⟨b', hb', hrep⟩ := h.write hlt'
    exact ⟨b', by rw [bufferStep, hb', Except.toOption], hrep, rfl⟩
  | read size =>
    obtain ⟨k, rfl⟩ := Int.eq_ofNat_of_zero_le he
    simp only [bufferStep, readBytes, BufferEvent.abstract, FifoEvent.answer, Int.toNat_natCast]
    by_cases hq : q = []
    · subst hq
      rw [h.read_empty k]
      exact ⟨b, rfl, by simpa [FifoEvent.apply, BufferEvent.written] using h, rfl⟩
    · obtain ⟨b', hb', hrep⟩ := h.read hq k
      rw [hb', if_neg hq]
      exact ⟨b', rfl, hrep, rfl⟩
  | adjust => exact ⟨_, rfl, h.adjust, rfl⟩
  | resize newSize =>
    obtain ⟨hle, hsize⟩ := he
    obtain ⟨k, rfl⟩ := Int.eq_ofNat_of_zero_le (by omega : 0 ≤ newSize)
    obtain ⟨b', hb', hrep⟩ := h.resize (by exact_mod_cast hle) (by exact_mod_cast hsize)
    exact ⟨b', by rw [bufferStep, hb', Except.toOption], hrep, rfl⟩

theorem written_snoc (es : List BufferEvent) (e : BufferEvent) :
    written (es ++ [e]) = written es ++ e.written := by
  simp [written]

theorem put_abstract (es : List BufferEvent) : put (es.map BufferEvent.abstract) = written es := by
  induction es with
  | nil => rfl
  | cons e es ih =>
    rw [put] at ih
    rw [written, put, List.map_cons, List.flatMap_cons, List.flatMap_cons, ih]
    cases e <;> rfl

/-- **A buffer is a queue of bytes.** Every operation of a run returns, with no copy past the end of
the vector, and leaves the indices in order; the readable bytes are those written and not yet read,
in order; and every read on a buffer that is not empty returns the first of them, as many as it asks
for. -/
theorem tcpBuffer_fifo {c : ℕ} (hc : c < 2 ^ 31) {es : List BufferEvent}
    (hadm : Along bufferStep Admissible (new c) es) (hbytes : (written es).length < 2 ^ 30) :
    ∃ b, exec bufferStep (new c) es = some b ∧ b.WellFormed ∧
      b.readable = pending (es.map BufferEvent.abstract) ∧
      outputs bufferStep readBytes (new c) es = answers (es.map BufferEvent.abstract) ∧
      ((outputs bufferStep readBytes (new c) es).flatMap fun re => re.getD []) ++ b.readable =
        written es := by
  obtain ⟨b, hb, hrep, hout⟩ := Along.progress (I := fun fs b =>
      Represents b (pending (fs.map BufferEvent.abstract)) (written fs).length ∧
        outputs bufferStep readBytes (new c) fs = answers (fs.map BufferEvent.abstract))
    ⟨represents_new hc, rfl⟩ (by
      rintro fs b e hpre hexec ⟨hrep, hout⟩ he
      -- A part of the run has written no more than the whole.
      have hlt : (written fs).length + e.written.length < 2 ^ 30 := by
        obtain ⟨gs, hgs⟩ := hpre
        rw [← hgs, written, List.flatMap_append, ← written, written_snoc, List.length_append,
          List.length_append] at hbytes
        omega
      obtain ⟨b', hstep, hrep', hread⟩ := hrep.step he hlt
      refine ⟨b', hstep, ?_, ?_⟩
      · rw [List.map_append, List.map_singleton, pending_snoc, written_snoc, List.length_append]
        exact hrep'
      · rw [List.map_append, List.map_singleton, answers_snoc, outputs_append hexec, hout, ← hread,
          outputs_cons hstep]
        simp [outputs]) hadm
  refine ⟨b, hb, hrep.wellFormed, hrep.readable, hout, ?_⟩
  rw [hout, hrep.readable, answered_append_pending, put_abstract]

/-- A write that grows the vector, a short read, a resize, and a read that asks for more than there
is. -/
def queueRun : List BufferEvent :=
  [.write [1, 2, 3], .read 2, .write [4, 5], .resize 3, .adjust, .read 7]

theorem tcpBuffer_fifo_queueRun : ∃ b, exec bufferStep (new 1) queueRun = some b ∧
    b.WellFormed ∧ b.readable = pending (queueRun.map BufferEvent.abstract) ∧
      outputs bufferStep readBytes (new 1) queueRun = answers (queueRun.map BufferEvent.abstract) ∧
      ((outputs bufferStep readBytes (new 1) queueRun).flatMap fun re => re.getD []) ++
        b.readable = written queueRun :=
  tcpBuffer_fifo (by decide) (by decide) (by decide)

end TcpBuffer

end TalonRPC
