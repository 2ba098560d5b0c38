import TalonRPC.Bytes.Framing
import TalonRPC.TinyPB.Protocol

/-!
# Telling frames apart

The payload of a message has no length of its own: it is what the other fields leave of the frame.
Still a frame says where each of its fields ends, so two lists of messages with the same bytes on
the wire have the same fields. The encoder writes a frame field by field into memory of just its
length, through a pointer that moves on; every byte of the memory is written once.

## Main definitions

* `outputs ms`: what `encodeTinyPB` makes of the messages, one after the other
* `SameOnWire m n`: the messages agree on what the wire carries
* `Writer`, `writeFrame`: the writes of `encodeTinyPB`
* `Exact m`: the frame is as long as its length field says, and every byte is written once

## Main results

* `sameOnWire_of_frame`: messages whose frames begin the same bytes agree, and so do the rests
* `writeFrame_writes`: the writes go through the memory once, and leave the frame there
* `uniquelyDecodable`: lists with the same outputs agree message by message
-/

namespace TalonRPC

namespace TinyPBCoder

open Bytes TinyPBProtocol

/-- The outputs of `encodeTinyPB` for a list of messages, one after the other. -/
def outputs : List TinyPBProtocol → Except Fault ByteString
  | [] => .ok []
  | m :: ms => (encodeTinyPB m).bind fun (_, buf) => (outputs ms).map fun rest => buf ++ rest

/-- The messages agree on all the wire carries. A message without an id has the default one. -/
structure SameOnWire (m n : TinyPBProtocol) : Prop where
  msgId : m.named.msgId = n.named.msgId
  methodName : m.methodName = n.methodName
  errCode : m.errCode = n.errCode
  errInfo : m.errInfo = n.errInfo
  pbData : m.pbData = n.pbData

/-- The pointer `tmp`, as a position in the memory of the frame, and what has been written, each
byte with its position. -/
structure Writer where
  tmp : ℕ := 0
  writes : List (ℕ × UInt8) := []

/-- Bytes copied to `tmp`, which moves behind them. -/
def Writer.put (w : Writer) (bytes : ByteString) : Writer where
  tmp := w.tmp + bytes.length
  writes := w.writes ++ (List.range' w.tmp bytes.length).zip bytes

/-- A text, which is copied if it is not empty. -/
def Writer.putText (w : Writer) (text : ByteString) : Writer :=
  if text ≠ [] then w.put text else w

/-- The writes of `encodeTinyPB`, for a message with an id. The last one does not move `tmp`, which
is not used any more. -/
def writeFrame (m : TinyPBProtocol) : Writer :=
  let w : Writer := {}
  let w := w.put [pbStart]
  let w := w.put (be32 (.ofInt m.frameLength))
  let w := w.put (be32 (.ofInt m.msgId.length))
  let w := w.putText m.msgId
  let w := w.put (be32 (.ofInt m.methodName.length))
  let w := w.putText m.methodName
  let w := w.put (be32 m.errCode)
  let w := w.put (be32 (.ofInt m.errInfo.length))
  let w := w.putText m.errInfo
  let w := w.putText m.pbData
  let w := w.put (be32 1)
  w.put [pbEnd]

/-- **The output for a message is exact**: it is as long as `m_pk_len` says, each of its bytes is
written once and none beyond, and what is written is the output. -/
def Exact (m : TinyPBProtocol) : Prop :=
  ∃ m' buf, encodeTinyPB m = .ok (m', buf) ∧ (buf.length : ℤ) = m'.pkLen.toInt ∧
    (∀ i, ((writeFrame m.named).writes.map Prod.fst).count i = if i < buf.length then 1 else 0) ∧
    ∀ i b, (i, b) ∈ (writeFrame m.named).writes ↔ buf[i]? = some b

variable {m n : TinyPBProtocol} {ms ns : List TinyPBProtocol} {a b r s : ByteString} {w : Writer}

/-! ## Reading frames back -/

theorem be32_length_inj {k l : ℕ} (hk : k < 2 ^ 31) (hl : l < 2 ^ 31)
    (h : be32 (.ofInt k) = be32 (.ofInt l)) : k = l := by
  have hword := congrArg ofBe32 h
  rw [ofBe32_be32, ofBe32_be32] at hword
  have hint := congrArg Int32.toInt hword
  rw [toInt_ofNat hk, toInt_ofNat hl] at hint
  exact_mod_cast hint

/-- The first four bytes are a word of their own. -/
theorem be32_append_inj {x y : Int32} (h : be32 x ++ r = be32 y ++ s) : x = y ∧ r = s := by
  obtain ⟨hword, hrest⟩ := List.append_inj h rfl
  refine ⟨?_, hrest⟩
  rw [← ofBe32_be32 x, hword, ofBe32_be32]

/-- A text behind its length ends where the length says. -/
theorem text_append_inj (ha : a.length < 2 ^ 31) (hb : b.length < 2 ^ 31)
    (h : be32 (.ofInt a.length) ++ (a ++ r) = be32 (.ofInt b.length) ++ (b ++ s)) :
    a = b ∧ r = s := by
  obtain ⟨hword, hrest⟩ := List.append_inj h rfl
  exact List.append_inj hrest (be32_length_inj ha hb hword)

/-- **The frame of a message can be told from what follows it**, and so can its fields. -/
theorem sameOnWire_of_frame (hm : m.named.frameLength < 2 ^ 31) (hn : n.named.frameLength < 2 ^ 31)
    (h : m.frame ++ r = n.frame ++ s) : SameOnWire m n ∧ r = s := by
  have hlen : ∀ {p : TinyPBProtocol}, p.named.frameLength < 2 ^ 31 →
      p.named.msgId.length < 2 ^ 31 ∧ p.named.methodName.length < 2 ^ 31 ∧
        p.named.errInfo.length < 2 ^ 31 := by
    intro p hp
    unfold frameLength at hp
    omega
  obtain ⟨hmId, hmName, hmInfo⟩ := hlen hm
  obtain ⟨hnId, hnName, hnInfo⟩ := hlen hn
  simp only [frame, fields, List.append_assoc] at h
  -- Field by field, from the start of the frame.
  obtain ⟨-, h⟩ := List.append_inj h rfl
  obtain ⟨hframe, h⟩ := List.append_inj h rfl
  obtain ⟨hid, h⟩ := text_append_inj hmId hnId h
  obtain ⟨hname, h⟩ := text_append_inj hmName hnName h
  obtain ⟨hcode, h⟩ := be32_append_inj h
  obtain ⟨hinfo, h⟩ := text_append_inj hmInfo hnInfo h
  -- The payload is what is left of the length of the frame.
  have hdata : m.named.pbData.length = n.named.pbData.length := by
    have heq := be32_length_inj hm hn hframe
    unfold frameLength at heq
    rw [hid, hname, hinfo] at heq
    omega
  obtain ⟨hdata, h⟩ := List.append_inj h hdata
  obtain ⟨-, h⟩ := List.append_inj h rfl
  obtain ⟨-, h⟩ := List.append_inj h rfl
  -- Naming a message changes its id only.
  have hnamed : ∀ p : TinyPBProtocol, p.named.methodName = p.methodName ∧
      p.named.errCode = p.errCode ∧ p.named.errInfo = p.errInfo ∧ p.named.pbData = p.pbData := by
    intro p
    unfold TinyPBProtocol.named
    split_ifs <;> exact ⟨rfl, rfl, rfl, rfl⟩
  obtain ⟨hm₁, hm₂, hm₃, hm₄⟩ := hnamed m
  obtain ⟨hn₁, hn₂, hn₃, hn₄⟩ := hnamed n
  exact ⟨⟨hid, hm₁ ▸ hn₁ ▸ hname, hm₂ ▸ hn₂ ▸ hcode, hm₃ ▸ hn₃ ▸ hinfo, hm₄ ▸ hn₄ ▸ hdata⟩, h⟩

/-- The outputs of messages that are not too long are their bytes on the wire. -/
theorem outputs_eq (h : ∀ m ∈ ms, m.named.frameLength < 2 ^ 31) : outputs ms = .ok (wire ms) := by
  induction ms with
  | nil => rfl
  | cons m ms ih =>
    obtain ⟨hm, hms⟩ := List.forall_mem_cons.mp h
    rw [outputs, encodeTinyPB, if_neg (by omega), ih hms]
    rfl

/-! ## The writes of a frame -/

/-- The writer has gone through the first bytes of the memory once, and left `bytes` there. -/
def Wrote (w : Writer) (bytes : ByteString) : Prop :=
  w.tmp = bytes.length ∧ w.writes = (List.range bytes.length).zip bytes

theorem Wrote.put (h : Wrote w a) (b : ByteString) : Wrote (w.put b) (a ++ b) := by
  obtain ⟨htmp, hwrites⟩ := h
  refine ⟨?_, ?_⟩
  · rw [Writer.put, htmp, List.length_append]
  · rw [Writer.put, hwrites, htmp, List.length_append, List.range_eq_range', List.range_eq_range',
      ← List.range'_append_1, List.zip_append (by simp)]
    simp

theorem Wrote.putText (h : Wrote w a) (b : ByteString) : Wrote (w.putText b) (a ++ b) := by
  unfold Writer.putText
  split_ifs with hne
  · exact h.put b
  · rw [not_not.mp hne, List.append_nil]
    exact h

/-- **The writes of a frame** go through its memory once, and leave the frame there. -/
theorem writeFrame_writes (m : TinyPBProtocol) :
    (writeFrame m).writes = (List.range m.frameLength).zip m.fields := by
  have hstart : Wrote {} [] := ⟨rfl, rfl⟩
  have hall : Wrote (writeFrame m) m.fields := by
    unfold writeFrame fields
    exact (((((((((((hstart.put _).put _).put _).putText _).put _).putText _).put _).put _).putText
      _).putText _).put _).put _
  rw [hall.2, length_fields]

theorem exact_of_frameLength (h : m.named.frameLength < 2 ^ 31) : Exact m := by
  have hlen := length_frame m
  refine ⟨m.stamped, m.frame, by rw [encodeTinyPB, if_neg (by omega)], ?_, ?_, ?_⟩
  · rw [hlen]
    exact (toInt_ofNat h).symm
  · intro i
    rw [writeFrame_writes, List.map_fst_zip (by rw [length_fields, List.length_range]),
      List.nodup_range.count, hlen]
    simp
  · intro i b
    rw [writeFrame_writes, ← length_fields, List.mem_iff_getElem?]
    simp only [List.getElem?_zip_eq_some]
    constructor
    · rintro ⟨k, hk, hb⟩
      -- The position of a byte is the one it is listed at.
      have hlt := (List.getElem?_eq_some_iff.mp hb).1
      obtain rfl := Option.some.inj ((List.getElem?_range hlt).symm.trans hk)
      exact hb
    · intro hb
      exact ⟨i, List.getElem?_range (List.getElem?_eq_some_iff.mp hb).1, hb⟩

/-- **The wire format is uniquely decodable**: lists with the same outputs agree message by message;
and every output is exact. -/
theorem uniquelyDecodable (ms ns : List TinyPBProtocol)
    (hms : ∀ m ∈ ms, m.named.frameLength < 2 ^ 31) (hns : ∀ n ∈ ns, n.named.frameLength < 2 ^ 31) :
    (∃ bs cs, outputs ms = .ok bs ∧ outputs ns = .ok cs ∧
      (bs = cs → List.Forall₂ SameOnWire ms ns)) ∧ ∀ m ∈ ms, Exact m := by
  refine ⟨⟨wire ms, wire ns, outputs_eq hms, outputs_eq hns, fun h => ?_⟩,
    fun m hm => exact_of_frameLength (hms m hm)⟩
  refine forall₂_of_flatten_eq (fun m hempty => ?_) (fun m hm n hn r s => ?_) h
  · have hge := m.named.frameLength_ge
    rw [← length_frame, hempty] at hge
    simp at hge
  · exact sameOnWire_of_frame (hms m hm) (hns n hn)

/-- A message without an id, and the same one with the default id. -/
theorem uniquelyDecodable_default : (∃ bs cs,
      outputs [{ pbData := [2, 3] }] = .ok bs ∧
        outputs [{ msgId := defaultMsgId, pbData := [2, 3] }] = .ok cs ∧
      (bs = cs → List.Forall₂ SameOnWire [{ pbData := [2, 3] }]
        [{ msgId := defaultMsgId, pbData := [2, 3] }])) ∧
    ∀ m ∈ [({ pbData := [2, 3] } : TinyPBProtocol)], Exact m :=
  uniquelyDecodable _ _ (by decide) (by decide)

end TinyPBCoder

end TalonRPC
