import TalonRPC.Bytes.NetworkOrder
import TalonRPC.Tcp.Buffer

/-!
# The TinyPB protocol and its encoder

A message travels as one frame: the start marker, the length of the whole frame, the message id
and the method name, each behind its length, the error code, the error text behind its length,
the payload, four checksum bytes and the end marker. Numbers are in network byte order.

## Main definitions

* `TinyPBProtocol`: a message
* `frame m`: the bytes `encodeTinyPB` writes for `m`
* `stamped m`: `m` as `encodeTinyPB` leaves it
* `encodeTinyPB`, `encode`: the encoder, for one message and for a list
* `Encodable`: messages whose texts fit the decoder's arrays

## Main results

* `length_frame`: a frame is as long as its length field says
* `encode_eq`, `exists_encode`: encoding a list appends its frames to the buffer
-/

namespace TalonRPC

open Bytes

/-- A `std::string`. -/
abbrev ByteString := List UInt8

/-- `TinyPBProtocol`, with the message id it inherits. -/
structure TinyPBProtocol where
  pkLen : Int32 := 0
  msgIdLen : Int32 := 0
  msgId : ByteString := []
  methodNameLen : Int32 := 0
  methodName : ByteString := []
  errCode : Int32 := 0
  errInfoLen : Int32 := 0
  errInfo : ByteString := []
  pbData : ByteString := []
  checkSum : Int32 := 0
  parseSuccess : Bool := false
  deriving DecidableEq, Repr

namespace TinyPBProtocol

/-- `TinyPBProtocol::PB_START`. -/
def pbStart : UInt8 := 0x02

/-- `TinyPBProtocol::PB_END`. -/
def pbEnd : UInt8 := 0x03

/-- The id `encodeTinyPB` gives a message without one: `"123456789"`. -/
def defaultMsgId : ByteString := [0x31, 0x32, 0x33, 0x34, 0x35, 0x36, 0x37, 0x38, 0x39]

/-- The message with an id. -/
def named (m : TinyPBProtocol) : TinyPBProtocol :=
  if m.msgId = [] then { m with msgId := defaultMsgId } else m

/-- The length of the frame of `m`, its id as it is. -/
def frameLength (m : TinyPBProtocol) : ℕ :=
  2 + 24 + m.msgId.length + m.methodName.length + m.errInfo.length + m.pbData.length

/-- The fields of `m`, its id as it is, one after the other. -/
def fields (m : TinyPBProtocol) : ByteString :=
  [pbStart] ++ be32 (.ofInt m.frameLength) ++
    be32 (.ofInt m.msgId.length) ++ m.msgId ++
    be32 (.ofInt m.methodName.length) ++ m.methodName ++
    be32 m.errCode ++
    be32 (.ofInt m.errInfo.length) ++ m.errInfo ++
    m.pbData ++
    -- The checksum on the wire is always one.
    be32 1 ++ [pbEnd]

/-- The bytes of `m` on the wire. -/
def frame (m : TinyPBProtocol) : ByteString := m.named.fields

/-- `m` as `encodeTinyPB` leaves it. -/
def stamped (m : TinyPBProtocol) : TinyPBProtocol :=
  { m.named with
    pkLen := .ofInt m.named.frameLength
    msgIdLen := .ofInt m.named.msgId.length
    methodNameLen := .ofInt m.named.methodName.length
    errInfoLen := .ofInt m.named.errInfo.length
    parseSuccess := true }

/-- Messages whose texts fit the arrays of the decoder, and hold no terminator. -/
structure Encodable (m : TinyPBProtocol) : Prop where
  length_msgId : m.msgId.length ≤ 99
  length_methodName : m.methodName.length ≤ 511
  length_errInfo : m.errInfo.length ≤ 511
  msgId_nul : 0 ∉ m.msgId
  methodName_nul : 0 ∉ m.methodName
  errInfo_nul : 0 ∉ m.errInfo

instance (m : TinyPBProtocol) : Decidable m.Encodable :=
  decidable_of_iff (m.msgId.length ≤ 99 ∧ m.methodName.length ≤ 511 ∧ m.errInfo.length ≤ 511 ∧
      0 ∉ m.msgId ∧ 0 ∉ m.methodName ∧ 0 ∉ m.errInfo)
    ⟨fun ⟨h₁, h₂, h₃, h₄, h₅, h₆⟩ => ⟨h₁, h₂, h₃, h₄, h₅, h₆⟩,
      fun ⟨h₁, h₂, h₃, h₄, h₅, h₆⟩ => ⟨h₁, h₂, h₃, h₄, h₅, h₆⟩⟩

theorem named_of_ne_nil {m : TinyPBProtocol} (h : m.msgId ≠ []) : m.named = m := if_neg h

theorem named_msgId_ne_nil (m : TinyPBProtocol) : m.named.msgId ≠ [] := by
  unfold TinyPBProtocol.named
  split_ifs with h
  · exact show defaultMsgId ≠ [] by decide
  · exact h

theorem Encodable.named {m : TinyPBProtocol} (h : m.Encodable) : m.named.Encodable := by
  unfold TinyPBProtocol.named
  split_ifs
  · exact ⟨show defaultMsgId.length ≤ 99 by decide, h.length_methodName, h.length_errInfo,
      show 0 ∉ defaultMsgId by decide, h.methodName_nul, h.errInfo_nul⟩
  · exact h

theorem length_fields (m : TinyPBProtocol) : m.fields.length = m.frameLength := by
  simp only [fields, frameLength, List.length_append, length_be32, List.length_singleton]
  omega

/-- **A frame is as long as its length field says.** -/
theorem length_frame (m : TinyPBProtocol) : m.frame.length = m.named.frameLength :=
  length_fields m.named

theorem frameLength_ge (m : TinyPBProtocol) : 26 ≤ m.frameLength := by
  unfold frameLength
  omega

end TinyPBProtocol

/-! ## The encoder -/

namespace TinyPBCoder

open TinyPBProtocol

/-- `TinyPBCoder::encodeTinyPB`: the message as it is left, and the bytes. A frame of `2 ^ 31`
bytes or more does not fit the memory its int length allocates. -/
def encodeTinyPB (m : TinyPBProtocol) : Except Fault (TinyPBProtocol × ByteString) :=
  if 2 ^ 31 ≤ m.named.frameLength then .error .outOfBounds
  else .ok (m.stamped, m.frame)

/-- `TinyPBCoder::encode`: the messages as they are left, and the buffer. -/
def encode : List TinyPBProtocol → TcpBuffer → Except Fault (List TinyPBProtocol × TcpBuffer)
  | [], out => .ok ([], out)
  | m :: ms, out =>
    (encodeTinyPB m).bind fun (m', buf) =>
      -- A message is written only if it got bytes.
      (if buf.length = 0 then .ok out else out.writeToBuffer buf).bind fun out =>
        (encode ms out).map fun (ms', out) => (m' :: ms', out)

/-- The frames of a list of messages, one after the other. -/
def wire (ms : List TinyPBProtocol) : ByteString := (ms.map frame).flatten

@[simp] theorem wire_nil : wire [] = [] := rfl

@[simp] theorem wire_cons (m : TinyPBProtocol) (ms : List TinyPBProtocol) :
    wire (m :: ms) = m.frame ++ wire ms := rfl

@[simp] theorem wire_append (ms ns : List TinyPBProtocol) :
    wire (ms ++ ns) = wire ms ++ wire ns := by
  simp [wire]

/-- One message of `encode`. -/
theorem encode_cons_ok {m : TinyPBProtocol} {ms ms' : List TinyPBProtocol} {out out' : TcpBuffer} :
    encode (m :: ms) out = .ok (ms', out') ↔
      m.named.frameLength < 2 ^ 31 ∧ ∃ out₁ ms₁, out.writeToBuffer m.frame = .ok out₁ ∧
        encode ms out₁ = .ok (ms₁, out') ∧ ms' = m.stamped :: ms₁ := by
  -- A frame always has bytes, so `encode` always writes them.
  have hne : m.frame.length ≠ 0 := by
    have := m.named.frameLength_ge
    rw [length_frame]
    omega
  have hcons : encode (m :: ms) out = (encodeTinyPB m).bind fun (m', buf) =>
      (if buf.length = 0 then .ok out else out.writeToBuffer buf).bind fun out =>
        (encode ms out).map fun (ms', out) => (m' :: ms', out) := rfl
  rw [hcons]
  by_cases hlen : 2 ^ 31 ≤ m.named.frameLength
  · simp only [encodeTinyPB, if_pos hlen, Except.bind, reduceCtorEq, false_iff, not_and]
    omega
  · simp only [encodeTinyPB, if_neg hlen, Except.bind, if_neg hne]
    cases hout : out.writeToBuffer m.frame with
    | error e => simp
    | ok out₁ =>
      dsimp only
      cases hms : encode ms out₁ with
      | error e => simp [Except.map, hms]
      | ok r =>
        simp only [Except.map, Except.ok.injEq, Prod.mk.injEq]
        constructor
        · rintro ⟨rfl, rfl⟩
          exact ⟨by omega, out₁, r.1, rfl, hms, rfl⟩
        · rintro ⟨-, out₂, ms₂, rfl, hms₂, rfl⟩
          obtain rfl := Except.ok.inj (hms.symm.trans hms₂)
          exact ⟨rfl, rfl⟩

/-- **Encoding a list** stamps its messages and appends their frames to the buffer. -/
theorem encode_eq {ms ms' : List TinyPBProtocol} {out out' : TcpBuffer} (hwf : out.WellFormed)
    (h : encode ms out = .ok (ms', out')) :
    ms' = ms.map stamped ∧ out'.WellFormed ∧ out'.readable = out.readable ++ wire ms ∧
      ∀ m ∈ ms, m.named.frameLength < 2 ^ 31 := by
  -- Every message is written to the buffer the one before it leaves.
  induction ms generalizing out ms' with
  | nil =>
    obtain ⟨rfl, rfl⟩ := Prod.mk.inj (Except.ok.inj h)
    exact ⟨rfl, hwf, by simp, by simp⟩
  | cons m ms ih =>
    obtain ⟨hlen, out₁, ms₁, hout, hms, rfl⟩ := encode_cons_ok.mp h
    obtain ⟨hwf₁, hread, -⟩ := TcpBuffer.readable_writeToBuffer hwf hout
    obtain ⟨rfl, hwf', hread', hall⟩ := ih hwf₁ hms
    refine ⟨rfl, hwf', ?_, ?_⟩
    · rw [hread', hread, wire_cons, List.append_assoc]
    · simpa using ⟨hlen, hall⟩

/-- Encoding succeeds while the grown buffer is an int. -/
theorem exists_encode {ms : List TinyPBProtocol} {out : TcpBuffer} (hwf : out.WellFormed)
    (hlt : 3 * (out.writeIndex + (wire ms).length) / 2 < 2 ^ 31) :
    ∃ r, encode ms out = .ok r := by
  induction ms generalizing out with
  | nil => exact ⟨_, rfl⟩
  | cons m ms ih =>
    rw [wire_cons, List.length_append] at hlt
    obtain ⟨out₁, hout⟩ := TcpBuffer.exists_writeToBuffer hwf m.frame (by omega)
    obtain ⟨hwf₁, -, hwrite⟩ := TcpBuffer.readable_writeToBuffer hwf hout
    obtain ⟨⟨ms₁, out'⟩, hms⟩ := @ih out₁ hwf₁ (by omega)
    have hlen := length_frame m
    exact ⟨_, encode_cons_ok.mpr ⟨by omega, out₁, ms₁, hout, hms, rfl⟩⟩

end TinyPBCoder

end TalonRPC
