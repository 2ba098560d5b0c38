import TalonRPC.Bytes.Fields
import TalonRPC.TinyPB.Parse

/-!
# The layout of a message

Where the fields of an encoded message are in the vector, and what the scan and the parser make
of them. The length behind the start marker leads to the end marker of the message, whatever
bytes its payload holds.

## Main definitions

* `text s`: a text behind its length
* `Layout tmp k m`: where the fields of `m` are, if its frame starts at `k`
* `received m`: what the decoder makes of `m`

## Main results

* `holdsAt_fields_iff`: a message is held exactly where its fields are
* `Layout.closes`, `Layout.frameFits`, `Layout.parsed_eq`: its scan, its bounds and its parse
-/

namespace TalonRPC

open Bytes Machine

/-- What the decoder makes of `m`: the message as it was encoded, without its checksum. -/
def TinyPBProtocol.received (m : TinyPBProtocol) : TinyPBProtocol :=
  { m.stamped with checkSum := 0 }

theorem TinyPBProtocol.msgId_received (m : TinyPBProtocol) : m.received.msgId = m.named.msgId := rfl

namespace TinyPBCoder

open TinyPBProtocol

variable {tmp : ByteString} {m : TinyPBProtocol} {k w : ℕ} {lo hi : ℤ}

/-- The number an index holds. -/
theorem int32At_of_holdsAt {x : Int32} (h : HoldsAt tmp k (be32 x)) : int32At tmp k = x := by
  rw [int32At, h.slice_eq (length_be32 x).symm, ofBe32_be32]

theorem holdsAt_be32_iff {x : Int32} (hk : k + 4 ≤ tmp.length) :
    HoldsAt tmp k (be32 x) ↔ int32At tmp k = x := by
  refine ⟨int32At_of_holdsAt, ?_⟩
  rintro rfl
  rw [HoldsAt, length_be32, int32At, be32_ofBe32 (length_slice_of_le hk)]

/-- A text behind its length. -/
def text (s : ByteString) : ByteString := be32 (.ofInt s.length) ++ s

@[simp] theorem length_text (s : ByteString) : (text s).length = 4 + s.length := by
  rw [text, List.length_append, length_be32]

section Text

variable {s : ByteString} (h : HoldsAt tmp k (text s)) (hs : s.length < 2 ^ 31)
include h hs

theorem int32At_text : (int32At tmp k).toInt = s.length := by
  rw [int32At_of_holdsAt (holdsAt_append.mp h).1, toInt_ofNat hs]

theorem fieldEnd_text : fieldEnd tmp k = k + 4 + s.length := by
  rw [fieldEnd, int32At_text h hs, Int.toNat_natCast]

theorem fieldBytes_text : fieldBytes tmp k = s := by
  have hbody := (holdsAt_append.mp h).2
  rw [length_be32] at hbody
  rw [fieldBytes, int32At_text h hs, Int.toNat_natCast, hbody.slice_eq rfl]

theorem fieldText_text (hnul : 0 ∉ s) : fieldText tmp k = s := by
  rw [fieldText, fieldBytes_text h hs, takeWhile_ne_eq_iff.mpr hnul]

theorem fieldFits_text {capacity room : ℕ} (hcap : s.length < capacity)
    (hroom : s.length + room ≤ capacity) (hhi : (k + 4 + s.length : ℤ) ≤ hi) :
    FieldFits tmp capacity hi room k := by
  have hlen := int32At_text h hs
  exact ⟨by omega, by omega, by omega, by omega, .inl (by omega)⟩

end Text

/-- The vector holds the frame of `m` at `k`: where its fields are. -/
structure Layout (tmp : ByteString) (k : ℕ) (m : TinyPBProtocol) : Prop where
  start : tmp[k]? = some pbStart
  pkLen : int32At tmp (k + 1) = .ofInt m.frameLength
  msgId : HoldsAt tmp (k + 5) (text m.msgId)
  methodName : HoldsAt tmp (k + 9 + m.msgId.length) (text m.methodName)
  errCode : int32At tmp (k + 13 + m.msgId.length + m.methodName.length) = m.errCode
  errInfo : HoldsAt tmp (k + 17 + m.msgId.length + m.methodName.length) (text m.errInfo)
  pbData : HoldsAt tmp (k + 21 + m.msgId.length + m.methodName.length + m.errInfo.length) m.pbData
  checkSum : int32At tmp (k + m.frameLength - 5) = 1
  stop : tmp[k + m.frameLength - 1]? = some pbEnd

theorem fields_eq (m : TinyPBProtocol) : m.fields = [pbStart] ++ be32 (.ofInt m.frameLength) ++
    text m.msgId ++ text m.methodName ++ be32 m.errCode ++ text m.errInfo ++ m.pbData ++ be32 1 ++
      [pbEnd] := by
  simp only [fields, text, List.append_assoc]

/-- **A message is held exactly where its fields are.** -/
theorem holdsAt_fields_iff (hlen : k + m.frameLength ≤ tmp.length) :
    HoldsAt tmp k m.fields ↔ Layout tmp k m := by
  unfold frameLength at hlen
  -- The offsets the appended parts have, as `Layout` writes them.
  have e₁ : k + (1 + 4 + (4 + m.msgId.length)) = k + 9 + m.msgId.length := by omega
  have e₂ : k + (1 + 4 + (4 + m.msgId.length) + (4 + m.methodName.length)) =
      k + 13 + m.msgId.length + m.methodName.length := by omega
  have e₃ : k + (1 + 4 + (4 + m.msgId.length) + (4 + m.methodName.length) + 4) =
      k + 17 + m.msgId.length + m.methodName.length := by omega
  have e₄ : k + (1 + 4 + (4 + m.msgId.length) + (4 + m.methodName.length) + 4 +
      (4 + m.errInfo.length)) = k + 21 + m.msgId.length + m.methodName.length +
        m.errInfo.length := by omega
  have e₅ : k + (1 + 4 + (4 + m.msgId.length) + (4 + m.methodName.length) + 4 +
      (4 + m.errInfo.length) + m.pbData.length) = k + m.frameLength - 5 := by
    unfold frameLength
    omega
  have e₆ : k + (1 + 4 + (4 + m.msgId.length) + (4 + m.methodName.length) + 4 +
      (4 + m.errInfo.length) + m.pbData.length + 4) = k + m.frameLength - 1 := by
    unfold frameLength
    omega
  rw [fields_eq]
  simp only [holdsAt_append, List.length_append, List.length_singleton, length_be32, length_text,
    e₁, e₂, e₃, e₄, e₅, e₆, holdsAt_singleton]
  -- What is left are the numbers.
  rw [holdsAt_be32_iff (by omega), holdsAt_be32_iff (by omega),
    holdsAt_be32_iff (by unfold frameLength; omega)]
  constructor
  · rintro ⟨⟨⟨⟨⟨⟨⟨⟨h₁, h₂⟩, h₃⟩, h₄⟩, h₅⟩, h₆⟩, h₇⟩, h₈⟩, h₉⟩
    exact ⟨h₁, h₂, h₃, h₄, h₅, h₆, h₇, h₈, h₉⟩
  · rintro ⟨h₁, h₂, h₃, h₄, h₅, h₆, h₇, h₈, h₉⟩
    exact ⟨⟨⟨⟨⟨⟨⟨⟨h₁, h₂⟩, h₃⟩, h₄⟩, h₅⟩, h₆⟩, h₇⟩, h₈⟩, h₉⟩

section Frame

variable (h : Layout tmp k m) (hm : m.Encodable) (hlen : m.frameLength < 2 ^ 31)
include h hm hlen

/-- **The fields of a message are where the decoder looks for them.** -/
theorem Layout.indices :
    methodNameLenIndex tmp (frameAt tmp k) = k + 9 + m.msgId.length ∧
      errCodeIndex tmp (frameAt tmp k) = k + 13 + m.msgId.length + m.methodName.length ∧
      errInfoLenIndex tmp (frameAt tmp k) = k + 17 + m.msgId.length + m.methodName.length ∧
      pbDataIndex tmp (frameAt tmp k) =
        k + 21 + m.msgId.length + m.methodName.length + m.errInfo.length ∧
      pbDataLen tmp (frameAt tmp k) = m.pbData.length := by
  have hid := hm.length_msgId
  have hname := hm.length_methodName
  have hinfo := hm.length_errInfo
  -- Every part starts where the text in front of it ends.
  have h₁ : methodNameLenIndex tmp (frameAt tmp k) = k + 9 + m.msgId.length := by
    rw [methodNameLenIndex, msgIdLenIndex, frameAt, fieldEnd_text h.msgId (by omega)]
  have h₂ : errCodeIndex tmp (frameAt tmp k) =
      k + 13 + m.msgId.length + m.methodName.length := by
    rw [errCodeIndex, h₁, fieldEnd_text h.methodName (by omega)]
    omega
  have h₃ : errInfoLenIndex tmp (frameAt tmp k) =
      k + 17 + m.msgId.length + m.methodName.length := by
    rw [errInfoLenIndex, h₂]
    omega
  refine ⟨h₁, h₂, h₃, ?_, ?_⟩
  · rw [pbDataIndex, h₃, fieldEnd_text h.errInfo (by omega)]
    omega
  · -- The payload is what the other fields leave of the length of the frame.
    have e₁ := int32At_text h.msgId (by omega)
    have e₂ := int32At_text h.methodName (by omega)
    have e₃ := int32At_text h.errInfo (by omega)
    have e₄ : (frameAt tmp k).pkLen.toInt = m.frameLength := by
      rw [frameAt, h.pkLen, toInt_ofNat hlen]
    rw [pbDataLen, h₁, h₃, msgIdLenIndex, frameAt, e₁, e₂, e₃]
    rw [frameAt] at e₄
    rw [e₄, frameLength]
    push_cast
    omega

/-- The accesses to a message stay inside it, and leave room for a terminator. -/
theorem Layout.frameFits {room : ℕ} (hroom : room ≤ 1) (hhi : k + m.frameLength ≤ hi) :
    FrameFits tmp hi room (frameAt tmp k) := by
  obtain ⟨h₁, h₂, h₃, h₄, h₅⟩ := h.indices hm hlen
  have hid := hm.length_msgId
  have hname := hm.length_methodName
  have hinfo := hm.length_errInfo
  unfold frameLength at hhi
  refine .inr ⟨fieldFits_text h.msgId (by omega) (by omega) (by omega) (by push_cast; omega), ?_⟩
  rw [h₁]
  refine .inr ⟨fieldFits_text h.methodName (by omega) (by omega) (by omega)
    (by push_cast; omega), ?_⟩
  rw [h₂]
  refine .inr ⟨by push_cast; omega, ?_⟩
  rw [h₃]
  refine .inr ⟨fieldFits_text h.errInfo (by omega) (by omega) (by omega)
    (by push_cast; omega), ?_⟩
  rw [h₅]
  omega

end Frame

/-- The frame of a message closes where it starts. -/
theorem Layout.closes (h : Layout tmp k m) (hlen : m.frameLength < 2 ^ 31)
    (hw : k + m.frameLength ≤ w) (hw_lt : w < 2 ^ 31) :
    endIndex tmp k = k + m.frameLength - 1 ∧ Closes tmp w k := by
  have hge := m.frameLength_ge
  have hend : endIndex tmp k = k + m.frameLength - 1 := by
    rw [endIndex, h.pkLen, toInt_ofNat hlen, wrap32_of_range (by omega) (by omega)]
  refine ⟨hend, ⟨h.start, by omega⟩, by omega, by omega, ?_⟩
  -- The bytes between the markers do not matter.
  rw [hend, show (k + m.frameLength - 1 : ℤ).toNat = k + m.frameLength - 1 by omega]
  exact h.stop

/-- The parser reads an encoded message as it was `received`. -/
theorem Layout.parsed_eq (h : Layout tmp k m.named) (hm : m.Encodable)
    (hlen : m.named.frameLength < 2 ^ 31)
    (hend : endIndex tmp k = k + m.named.frameLength - 1) :
    parsed tmp (frameAt tmp k) = some m.received := by
  obtain ⟨h₁, h₂, h₃, h₄, h₅⟩ := h.indices hm.named hlen
  have hid := hm.named.length_msgId
  have hname := hm.named.length_methodName
  have hinfo := hm.named.length_errInfo
  have hstop : (frameAt tmp k).stop = k + m.named.frameLength - 1 := hend
  have hstart : msgIdLenIndex (frameAt tmp k) = k + 5 := rfl
  have hpkLen : (frameAt tmp k).pkLen = .ofInt m.named.frameLength := h.pkLen
  rw [parsed, if_neg]
  · simp only [message, h₁, h₂, h₃, h₄, h₅, hstart, hpkLen, Int.toNat_natCast, h.errCode,
      h.pbData.slice_eq rfl, int32At_of_holdsAt (holdsAt_append.mp h.msgId).1,
      int32At_of_holdsAt (holdsAt_append.mp h.methodName).1,
      int32At_of_holdsAt (holdsAt_append.mp h.errInfo).1,
      fieldText_text h.msgId (by omega) hm.named.msgId_nul,
      fieldText_text h.methodName (by omega) hm.named.methodName_nul,
      fieldText_text h.errInfo (by omega) hm.named.errInfo_nul, received, stamped]
  · -- No part starts at or behind the end marker.
    rw [hstop, hstart, h₁, h₂, h₃]
    unfold frameLength
    omega

end TinyPBCoder

end TalonRPC
