import TalonRPC.Machine.Loop
import TalonRPC.Machine.Traced
import TalonRPC.TinyPB.Protocol

/-!
# The TinyPB decoder

`TinyPBCoder::decode` copies the vector of the buffer, scans the readable bytes for a frame, takes
it off the buffer and reads its fields from the copy; then it starts over, until a scan finds no
frame. Every access to the copy and to the arrays on the stack is an event of the computation, so
that its indices can be compared with the bounds they should respect; an access outside the vector
or an array ends the computation.

## Main definitions

* `Access`, `Access.Within lo hi room`: the accesses, and the bounds they respect
* `scan`, `parseFrame`: the search for a frame, and the fields of a frame
* `iteration`, `decodeStep`: one turn of the outer loop
* `decode n`: the decoder, if it returns within `n` iterations
* `Decodes b ms b'`: the decoder returns, having appended `ms` and left `b'`
* `Takes b ts b'`: its iterations so far took the frames `ts`
-/

namespace TalonRPC.TinyPBCoder

open Bytes Machine TinyPBProtocol

/-- An access of the decoder: `size` bytes of the copy from `index` on, a `memcpy` of `size` bytes
into a zeroed array of `capacity` chars, the search for the terminator in an array that starts
with `content`, or the construction of a string of `size` chars. -/
inductive Access
  | load (index size : ℤ)
  | copy (capacity : ℕ) (size : ℤ)
  | terminate (capacity : ℕ) (content : ByteString)
  | construct (size : ℤ)
  deriving DecidableEq

/-- The access stays between the indices `lo` and `hi` of the copy, leaves `room` bytes of an
array, finds a terminator and has no negative size. -/
def Access.Within (lo hi : ℤ) (room : ℕ) : Access → Prop
  | .load index size => 0 ≤ size ∧ (size = 0 ∨ lo ≤ index ∧ index + size ≤ hi)
  | .copy capacity size => 0 ≤ size ∧ size + room ≤ capacity
  | .terminate capacity content => content.length < capacity ∨ 0 ∈ content
  | .construct size => 0 ≤ size

instance (lo hi : ℤ) (room : ℕ) : DecidablePred (Access.Within lo hi room)
  | .load _ _ => inferInstanceAs (Decidable (_ ∧ _))
  | .copy _ _ => inferInstanceAs (Decidable (_ ∧ _))
  | .terminate _ _ => inferInstanceAs (Decidable (_ ∨ _))
  | .construct _ => inferInstanceAs (Decidable (_ ≤ _))

/-- Computations of the decoder. -/
abbrev Exec := Traced Fault Access

/-- The access `a`, which yields `r` if it stays within the vector and the arrays. -/
def access {α : Type} (tmp : ByteString) (a : Access) (r : α) (fault : Fault) : Exec α :=
  .perform a (if a.Within 0 tmp.length 0 then .ok r else .error fault)

/-- `size` bytes of the copy from `index` on. -/
def load (tmp : ByteString) (index size : ℤ) : Exec ByteString :=
  access tmp (.load index size) (slice tmp index.toNat size.toNat) .outOfBounds

/-- `getInt32FromNetByte(&tmp[index])`. -/
def getInt32FromNetByte (tmp : ByteString) (index : ℤ) : Exec Int32 := do
  let bytes ← load tmp index 4
  pure (ofBe32 bytes)

/-- A `memcpy` from `&tmp[index]` into a zeroed array, and the string up to its first zero. -/
def copyString (tmp : ByteString) (capacity : ℕ) (index size : ℤ) : Exec ByteString := do
  -- The array is on the stack, and the declared length is not compared with it.
  access tmp (.copy capacity size) () .outOfBounds
  let content ← load tmp index size
  access tmp (.terminate capacity content) (content.takeWhile (· ≠ 0)) .outOfBounds

/-- `std::string(&tmp[index], size)`. -/
def newString (tmp : ByteString) (index size : ℤ) : Exec ByteString := do
  access tmp (.construct size) () .lengthError
  load tmp index size

/-- A frame: the indices of its markers and the length it declares. -/
structure Frame where
  start : ℕ
  stop : ℤ
  pkLen : Int32
  deriving DecidableEq, Repr

/-- The inner loop of `decode`, from the index `i` on, with `n` bytes left before the write
index. -/
def scan (tmp : ByteString) (writeIndex : ℕ) : ℕ → ℕ → Exec (Option Frame)
  | 0, _ => pure none
  | n + 1, i => do
    let c ← load tmp i 1
    if c = [pbStart] ∧ i + 1 < writeIndex then do
      let pkLen ← getInt32FromNetByte tmp (i + 1)
      let j := wrap32 (i + pkLen.toInt - 1)
      -- The frame is not complete: the search goes on inside it.
      if writeIndex ≤ j then scan tmp writeIndex n (i + 1)
      else do
        let c ← load tmp j 1
        if c = [pbEnd] then pure (some ⟨i, j, pkLen⟩) else scan tmp writeIndex n (i + 1)
    else scan tmp writeIndex n (i + 1)

/-- A string of the frame behind its length, and the index behind it. -/
def parseField (tmp : ByteString) (capacity : ℕ) (lenIndex : ℤ) :
    Exec (Int32 × ByteString × ℤ) := do
  let len ← getInt32FromNetByte tmp lenIndex
  let index := wrap32 (lenIndex + 4)
  let field ← copyString tmp capacity index len.toInt
  pure (len, field, wrap32 (index + len.toInt))

/-- The fields of a frame, or nothing where `decode` reports a parse error and continues. -/
def parseFrame (tmp : ByteString) (f : Frame) : Exec (Option TinyPBProtocol) :=
  let msgIdLenIndex := wrap32 (f.start + 1 + 4)
  if f.stop ≤ msgIdLenIndex then pure none
  else do
    let (msgIdLen, msgId, methodNameLenIndex) ← parseField tmp 100 msgIdLenIndex
    if f.stop ≤ methodNameLenIndex then pure none
    else do
      let (methodNameLen, methodName, errCodeIndex) ← parseField tmp 512 methodNameLenIndex
      if f.stop ≤ errCodeIndex then pure none
      else do
        let errCode ← getInt32FromNetByte tmp errCodeIndex
        let errInfoLenIndex := wrap32 (errCodeIndex + 4)
        if f.stop ≤ errInfoLenIndex then pure none
        else do
          let (errInfoLen, errInfo, pbDataIndex) ← parseField tmp 512 errInfoLenIndex
          let pbDataLen := wrap32 (f.pkLen.toInt - methodNameLen.toInt - msgIdLen.toInt -
            errInfoLen.toInt - 2 - 24)
          let pbData ← newString tmp pbDataIndex pbDataLen
          pure (some
            { pkLen := f.pkLen, msgIdLen, msgId, methodNameLen, methodName, errCode, errInfoLen,
              errInfo, pbData, parseSuccess := true })

/-- What an iteration that takes a frame does: the frame, the buffer it leaves, and the message
it delivers, if any. -/
structure Taken where
  frame : Frame
  rest : TcpBuffer
  delivered : Option TinyPBProtocol
  deriving DecidableEq, Repr

/-- The search of an iteration. -/
def scanBuffer (b : TcpBuffer) : Exec (Option Frame) :=
  scan b.buffer b.writeIndex b.readAble b.readIndex

/-- One iteration of the outer loop; without a frame, `decode` returns. The frame leaves the
buffer before its fields are read. -/
def iteration (b : TcpBuffer) : Exec (Option Taken) := do
  match ← scanBuffer b with
  | none => pure none
  | some f => do
    -- A refused move is not noticed: the same frame is scanned again.
    let rest := b.moveReadIndex (f.stop - f.start + 1)
    let delivered ← parseFrame b.buffer f
    pure (some ⟨f, rest, delivered⟩)

/-- One iteration, on the messages appended so far and the buffer. -/
def decodeStep (s : List TinyPBProtocol × TcpBuffer) :
    Verdict (List TinyPBProtocol × TcpBuffer)
      (Except Fault (List TinyPBProtocol × TcpBuffer)) :=
  match (iteration s.2).result with
  | .error e => .done (.error e)
  | .ok none => .done (.ok s)
  | .ok (some t) => .next (s.1 ++ t.delivered.toList, t.rest)

/-- `TinyPBCoder::decode`, if its outer loop is left within `n` iterations. -/
def decode (n : ℕ) (out : List TinyPBProtocol) (b : TcpBuffer) :
    Option (Except Fault (List TinyPBProtocol × TcpBuffer)) :=
  iterate decodeStep n (out, b)

/-- **The decoder returns** on `b`: it appends the messages `ms` and leaves the buffer `b'`. -/
def Decodes (b : TcpBuffer) (ms : List TinyPBProtocol) (b' : TcpBuffer) : Prop :=
  ∀ out, ∃ n, decode n out b = some (.ok (out ++ ms, b'))

/-- The decoder called on `b` takes the frames `ts`, one in each iteration, and comes to the
buffer `b'`. -/
inductive Takes : TcpBuffer → List Taken → TcpBuffer → Prop
  | nil (b : TcpBuffer) : Takes b [] b
  | cons {b b' : TcpBuffer} {t : Taken} {ts : List Taken} :
      (iteration b).result = .ok (some t) → Takes t.rest ts b' → Takes b (t :: ts) b'

/-- The messages of the frames `ts`. -/
def messages (ts : List Taken) : List TinyPBProtocol := ts.flatMap fun t => t.delivered.toList

end TalonRPC.TinyPBCoder
