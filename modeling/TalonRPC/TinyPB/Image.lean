import TalonRPC.TinyPB.Iteration
import TalonRPC.TinyPB.Layout

/-!
# The image of the encoder

A delivered message encodes back to the bytes it was read from if the decoder lost nothing on the
way. What it loses are a text behind its first zero and an empty id, which `encodeTinyPB` replaces;
and the checksum, which `decode` does not look at. Every other byte of a delivered frame is the one
the encoder writes.

## Main definitions

* `frameBytes`: the bytes of a frame
* `Canonical`: frames with an id, without zeros in their texts, and with the checksum of the encoder

## Main results

* `Takes.encodable`: what the decoder delivers can be encoded
* `reencode_iff`: a delivered message encodes to its own bytes exactly if its frame is canonical
* `not_reencode_checkSum`: a frame with another checksum is delivered
-/

namespace TalonRPC.TinyPBCoder

open Bytes Machine TinyPBProtocol

/-- The bytes from the start marker to the end marker. -/
def frameBytes (tmp : ByteString) (f : Frame) : ByteString :=
  slice tmp f.start (f.stop - f.start + 1).toNat

/-- The frame has an id, no text of it holds a zero, and its checksum is the one the encoder
writes. -/
structure Canonical (tmp : ByteString) (f : Frame) : Prop where
  msgId_ne : fieldBytes tmp (msgIdLenIndex f) ≠ []
  msgId_nul : 0 ∉ fieldBytes tmp (msgIdLenIndex f)
  methodName_nul : 0 ∉ fieldBytes tmp (methodNameLenIndex tmp f)
  errInfo_nul : 0 ∉ fieldBytes tmp (errInfoLenIndex tmp f)
  checkSum : int32At tmp (f.stop - 4).toNat = 1

/-- A frame whose message is delivered: all its parts fit. -/
structure Delivers (tmp : ByteString) (f : Frame) : Prop where
  stop_eq : f.stop = f.start + f.pkLen.toInt - 1
  start_lt : f.start + 5 < f.stop
  stop_lt : f.stop < tmp.length
  size_lt : tmp.length < 2 ^ 31
  start : tmp[f.start]? = some pbStart
  pkLen : int32At tmp (f.start + 1) = f.pkLen
  stop : tmp[f.stop.toNat]? = some pbEnd
  msgId : FieldFits tmp 100 tmp.length 0 (msgIdLenIndex f)
  methodName : FieldFits tmp 512 tmp.length 0 (methodNameLenIndex tmp f)
  errInfo : FieldFits tmp 512 tmp.length 0 (errInfoLenIndex tmp f)
  pbData : 0 ≤ pbDataLen tmp f

variable {tmp : ByteString} {f : Frame} {k : ℕ} {m : TinyPBProtocol} {b b' : TcpBuffer}

/-- What is known about a frame whose message is delivered. -/
theorem delivers_of_iteration (hwf : b.WellFormed) {t : Taken}
    (ht : (iteration b).result = .ok (some t)) (hm : t.delivered = some m) :
    Delivers b.buffer t.frame ∧ m = message b.buffer t.frame := by
  obtain ⟨hfits, k, hk, hframe, rfl⟩ := (iteration_some_iff hwf).mp ht
  obtain ⟨-, -, -, h0, hlt, hstop⟩ := hk.bounds hwf hfits
  have hsize := hwf.write_le_size
  unfold takenAt parsed at hm
  dsimp only at hm
  -- A message is delivered only where every part starts in front of the end marker.
  split_ifs at hm with hreject
  obtain ⟨c₁, c₂, c₃, c₄⟩ := not_or.mp hreject |>.imp_right fun h =>
    not_or.mp h |>.imp_right fun h => not_or.mp h
  obtain ⟨h₁, hframe⟩ := hframe.resolve_left c₁
  obtain ⟨h₂, hframe⟩ := hframe.resolve_left c₂
  obtain ⟨-, hframe⟩ := hframe.resolve_left c₃
  obtain ⟨h₄, h₅⟩ := hframe.resolve_left c₄
  obtain ⟨hs, -, -, hend⟩ := hk.2.1
  have hstart : ((frameAt b.buffer k).start + 5 : ℤ) < (frameAt b.buffer k).stop := not_le.mp c₁
  exact ⟨⟨hstop, hstart, hstop.trans_lt (by omega), hwf.size_lt, hs.1, rfl, hend, h₁, h₂, h₄, h₅⟩,
    (Option.some.inj hm).symm⟩

theorem FieldFits.length_fieldBytes {capacity room : ℕ} {hi : ℤ} (hhi : hi ≤ tmp.length)
    (h : FieldFits tmp capacity hi room k) :
    ((fieldBytes tmp k).length : ℤ) = (int32At tmp k).toInt := by
  have h₁ := h.length_nonneg
  have h₂ := h.string_le
  rw [fieldBytes, length_slice_of_le (by omega)]
  omega

/-- The text of a string that fits leaves room for its terminator. -/
theorem FieldFits.length_fieldText_lt {capacity room : ℕ} {hi : ℤ} (hhi : hi ≤ tmp.length)
    (h : FieldFits tmp capacity hi room k) : (fieldText tmp k).length < capacity := by
  have hbytes := h.length_fieldBytes hhi
  have hcapacity := h.length_le
  have hle : (fieldText tmp k).length ≤ (fieldBytes tmp k).length :=
    (List.takeWhile_prefix _).length_le
  rcases h.terminated with hshort | hzero
  · omega
  · -- The text ends in front of a zero, so it is shorter than the string.
    have hne : (fieldText tmp k).length ≠ (fieldBytes tmp k).length := by
      intro heq
      have hall := (List.takeWhile_prefix _).eq_of_length heq
      exact takeWhile_ne_eq_iff.mp hall hzero
    omega

theorem zero_notMem_fieldText (tmp : ByteString) (k : ℕ) : 0 ∉ fieldText tmp k := by
  intro h
  simpa using List.mem_takeWhile_imp h

theorem message_methodName (tmp : ByteString) (f : Frame) :
    (message tmp f).methodName = fieldText tmp (methodNameLenIndex tmp f) := by
  simp only [message]

/-- **What the decoder delivers can be encoded**: its texts have passed through the arrays. -/
theorem Delivers.encodable (h : Delivers tmp f) : (message tmp f).Encodable where
  length_msgId := Nat.lt_succ_iff.mp (h.msgId.length_fieldText_lt le_rfl)
  length_methodName := by
    rw [message_methodName]
    exact Nat.lt_succ_iff.mp (h.methodName.length_fieldText_lt le_rfl)
  length_errInfo := Nat.lt_succ_iff.mp (h.errInfo.length_fieldText_lt le_rfl)
  msgId_nul := zero_notMem_fieldText _ _
  methodName_nul := by
    rw [message_methodName]
    exact zero_notMem_fieldText _ _
  errInfo_nul := zero_notMem_fieldText _ _

theorem Takes.encodable {ts : List Taken} (h : Takes b ts b') (hwf : b.WellFormed) :
    ∀ m ∈ messages ts, m.Encodable := by
  induction h with
  | nil b => simp
  | @cons b b' t ts ht hts ih =>
    have hwf' : t.rest.WellFormed := ((Takes.cons ht (.nil _)).wellFormed hwf).1
    intro m hm
    rw [messages_cons, List.mem_append, Option.mem_toList] at hm
    rcases hm with hdelivered | hm
    · obtain ⟨hdelivers, rfl⟩ := delivers_of_iteration hwf ht hdelivered
      exact hdelivers.encodable
    · exact ih hwf' m hm

/-- A string that fits is a text behind its length. -/
theorem FieldFits.holdsAt_text {capacity room : ℕ} {hi : ℤ} (hhi : hi ≤ tmp.length)
    (h : FieldFits tmp capacity hi room k) : HoldsAt tmp k (text (fieldBytes tmp k)) := by
  have hk := h.length_field
  rw [text, holdsAt_append, holdsAt_be32_iff (by omega), h.length_fieldBytes hhi,
    Int32.ofInt_toInt]
  refine ⟨rfl, ?_⟩
  rw [HoldsAt, length_be32]
  have hlen := h.length_fieldBytes hhi
  rw [show (fieldBytes tmp k).length = (int32At tmp k).toInt.toNat by omega]
  rfl

/-- The message of a frame with its texts as they are in the frame. -/
def untruncated (tmp : ByteString) (f : Frame) : TinyPBProtocol :=
  { message tmp f with
    msgId := fieldBytes tmp (msgIdLenIndex f)
    methodName := fieldBytes tmp (methodNameLenIndex tmp f)
    errInfo := fieldBytes tmp (errInfoLenIndex tmp f) }

theorem untruncated_methodName (tmp : ByteString) (f : Frame) :
    (untruncated tmp f).methodName = fieldBytes tmp (methodNameLenIndex tmp f) := by
  simp only [untruncated]

theorem untruncated_errCode (tmp : ByteString) (f : Frame) :
    (untruncated tmp f).errCode = int32At tmp (errCodeIndex tmp f) := by
  simp only [untruncated, message]

theorem untruncated_pbData (tmp : ByteString) (f : Frame) :
    (untruncated tmp f).pbData = slice tmp (pbDataIndex tmp f) (pbDataLen tmp f).toNat := by
  simp only [untruncated, message]

/-- Where the parts of a delivered frame are. -/
theorem Delivers.indices (h : Delivers tmp f) {m : TinyPBProtocol} (hm : m = untruncated tmp f) :
    methodNameLenIndex tmp f = f.start + 9 + m.msgId.length ∧
      errCodeIndex tmp f = f.start + 13 + m.msgId.length + m.methodName.length ∧
      errInfoLenIndex tmp f = f.start + 17 + m.msgId.length + m.methodName.length ∧
      pbDataIndex tmp f =
        f.start + 21 + m.msgId.length + m.methodName.length + m.errInfo.length ∧
      (m.pbData.length : ℤ) = pbDataLen tmp f ∧
      f.stop = f.start + m.frameLength - 1 := by
  subst hm
  have l₁ : ((untruncated tmp f).msgId.length : ℤ) = _ := h.msgId.length_fieldBytes le_rfl
  have l₂ : ((untruncated tmp f).methodName.length : ℤ) =
      (int32At tmp (methodNameLenIndex tmp f)).toInt := by
    rw [untruncated_methodName]
    exact h.methodName.length_fieldBytes le_rfl
  have l₃ : ((untruncated tmp f).errInfo.length : ℤ) = _ := h.errInfo.length_fieldBytes le_rfl
  have e₁ : (methodNameLenIndex tmp f : ℤ) = _ := h.msgId.fieldEnd_eq
  have e₂ : (errCodeIndex tmp f : ℤ) = _ := h.methodName.fieldEnd_eq
  have e₃ : (pbDataIndex tmp f : ℤ) = _ := h.errInfo.fieldEnd_eq
  have e₄ : msgIdLenIndex f = f.start + 5 := rfl
  have e₅ : errInfoLenIndex tmp f = errCodeIndex tmp f + 4 := rfl
  have hdata := h.pbData
  -- The payload and the checksum fill the frame up to its end marker.
  have hlast := pbDataIndex_add h.stop_eq h.msgId h.methodName h.errInfo
  have hstop_lt := h.stop_lt
  have l₄ : ((untruncated tmp f).pbData.length : ℤ) = pbDataLen tmp f := by
    rw [untruncated_pbData, length_slice_of_le (by omega)]
    omega
  refine ⟨by omega, by omega, by omega, by omega, l₄, ?_⟩
  unfold frameLength
  omega

/-- **Every byte of a delivered frame but its checksum is the one the encoder writes.** -/
theorem Delivers.layout_iff (h : Delivers tmp f) :
    Layout tmp f.start (untruncated tmp f) ↔ int32At tmp (f.stop - 4).toNat = 1 := by
  obtain ⟨i₁, i₂, i₃, i₄, i₅, hstop⟩ := h.indices rfl
  -- The declared length is that of the parts, because the payload is what they leave of it.
  have hlen : Int32.ofInt (untruncated tmp f).frameLength = f.pkLen := by
    have := h.stop_eq
    rw [show ((untruncated tmp f).frameLength : ℤ) = f.pkLen.toInt by omega, Int32.ofInt_toInt]
  have hcheck : (f.stop - 4).toNat = f.start + (untruncated tmp f).frameLength - 5 := by omega
  rw [hcheck]
  refine ⟨fun hl => hl.checkSum, fun hsum => ⟨h.start, h.pkLen.trans hlen.symm, ?_, ?_, ?_, ?_, ?_,
    hsum, ?_⟩⟩
  · exact h.msgId.holdsAt_text le_rfl
  · rw [← i₁, untruncated_methodName]
    exact h.methodName.holdsAt_text le_rfl
  · rw [← i₂, untruncated_errCode]
  · rw [← i₃]
    exact h.errInfo.holdsAt_text le_rfl
  · rw [← i₄, HoldsAt, show (untruncated tmp f).pbData.length = (pbDataLen tmp f).toNat by omega,
      untruncated_pbData]
  · have hend := h.stop
    rwa [show f.stop.toNat = f.start + (untruncated tmp f).frameLength - 1 by omega] at hend

/-- The bytes `encodeTinyPB` yields are those of a frame exactly if the vector holds them there. -/
theorem Delivers.encodeTinyPB_iff (h : Delivers tmp f) (m : TinyPBProtocol) :
    (encodeTinyPB m).map Prod.snd = .ok (frameBytes tmp f) ↔
      m.named.frameLength = f.pkLen.toInt ∧ Layout tmp f.start m.named := by
  have hstop := h.stop_eq
  have hstart := h.start_lt
  have hstop_lt := h.stop_lt
  have hsize := h.size_lt
  have hbytes : (frameBytes tmp f).length = (f.stop - f.start + 1).toNat :=
    length_slice_of_le (by omega)
  have hframe := length_frame m
  constructor
  · intro hencode
    unfold encodeTinyPB at hencode
    split_ifs at hencode with hlarge
    · -- A frame of that length does not fit a vector.
      cases hencode
    have heq : m.frame = frameBytes tmp f := Except.ok.inj hencode
    have hlen : m.named.frameLength = f.pkLen.toInt := by
      rw [← hframe, heq, hbytes]
      omega
    refine ⟨hlen, (holdsAt_fields_iff (by omega)).mp ?_⟩
    show HoldsAt tmp f.start m.frame
    rw [HoldsAt, heq, hbytes, frameBytes]
  · rintro ⟨hlen, hlayout⟩
    have hheld : HoldsAt tmp f.start m.frame := (holdsAt_fields_iff (by omega)).mpr hlayout
    rw [encodeTinyPB, if_neg (by omega), frameBytes, hheld.slice_eq (by omega)]
    rfl

/-- A frame whose message is laid out in it has an id of its own, and was not truncated. -/
theorem Delivers.fieldBytes_eq (h : Delivers tmp f)
    (hlen : (message tmp f).named.frameLength < 2 ^ 31)
    (hl : Layout tmp f.start (message tmp f).named) :
    (message tmp f).msgId ≠ [] ∧
      fieldBytes tmp (msgIdLenIndex f) = (message tmp f).msgId ∧
      fieldBytes tmp (methodNameLenIndex tmp f) = (message tmp f).methodName ∧
      fieldBytes tmp (errInfoLenIndex tmp f) = (message tmp f).errInfo := by
  obtain ⟨i₁, -, i₃, -⟩ := h.indices rfl
  have htext : (message tmp f).msgId = (fieldBytes tmp (msgIdLenIndex f)).takeWhile (· ≠ 0) := rfl
  unfold frameLength at hlen
  have hid : fieldBytes tmp (msgIdLenIndex f) = (message tmp f).named.msgId :=
    fieldBytes_text hl.msgId (by omega)
  have hne : (message tmp f).msgId ≠ [] := by
    intro hempty
    have hdefault : (message tmp f).named.msgId = defaultMsgId := by rw [named, if_pos hempty]
    -- The default id has no zero, so it would have been read as it is.
    rw [hid, hdefault] at htext
    exact absurd (htext.symm.trans hempty) (by decide)
  rw [named_of_ne_nil hne] at hl hid hlen
  have hid' : (untruncated tmp f).msgId = (message tmp f).msgId := hid
  have hname : fieldBytes tmp (methodNameLenIndex tmp f) = (message tmp f).methodName := by
    rw [i₁, hid']
    exact fieldBytes_text hl.methodName (by omega)
  have hname' : (untruncated tmp f).methodName = (message tmp f).methodName := by
    rw [untruncated_methodName, hname]
  refine ⟨hne, hid, hname, ?_⟩
  rw [i₃, hid', hname']
  exact fieldBytes_text hl.errInfo (by omega)

/-- The message of a frame encodes to the bytes of the frame exactly if the frame is canonical. -/
theorem Delivers.encode_message_iff (h : Delivers tmp f) :
    (encodeTinyPB (message tmp f)).map Prod.snd = .ok (frameBytes tmp f) ↔ Canonical tmp f := by
  obtain ⟨i₁, i₂, i₃, i₄, i₅, hstop⟩ := h.indices rfl
  rw [h.encodeTinyPB_iff]
  constructor
  · rintro ⟨hlen, hl⟩
    have hsize := h.size_lt
    have hstart := h.start_lt
    have hstop_lt := h.stop_lt
    have hstop' := h.stop_eq
    obtain ⟨hne, hid, hname, hinfo⟩ := h.fieldBytes_eq (by omega) hl
    -- Nothing was truncated, so the message is the one the frame holds.
    have hmessage : untruncated tmp f = message tmp f := by
      rw [untruncated, hid, hname, hinfo]
    rw [named_of_ne_nil hne, ← hmessage] at hl
    rw [message_methodName] at hname
    exact ⟨hid ▸ hne, takeWhile_ne_eq_iff.mp hid.symm, takeWhile_ne_eq_iff.mp hname.symm,
      takeWhile_ne_eq_iff.mp hinfo.symm, h.layout_iff.mp hl⟩
  · intro hc
    -- A text without a zero is read as it is.
    have hmessage : message tmp f = untruncated tmp f := by
      unfold untruncated message fieldText
      rw [takeWhile_ne_eq_iff.mpr hc.msgId_nul, takeWhile_ne_eq_iff.mpr hc.methodName_nul,
        takeWhile_ne_eq_iff.mpr hc.errInfo_nul]
    have hnamed : (untruncated tmp f).named = untruncated tmp f := named_of_ne_nil hc.msgId_ne
    have hstop' := h.stop_eq
    rw [hmessage, hnamed]
    exact ⟨by omega, h.layout_iff.mpr hc.checkSum⟩

/-- **A delivered message encodes to the bytes it was read from** exactly if its frame is
canonical. -/
theorem reencode_iff (hwf : b.WellFormed) {ts : List Taken} (hts : Takes b ts b') {t : Taken}
    (ht : (iteration b').result = .ok (some t)) (hm : t.delivered = some m) :
    (encodeTinyPB m).map Prod.snd = .ok (frameBytes b'.buffer t.frame) ↔
      Canonical b'.buffer t.frame := by
  obtain ⟨h, rfl⟩ := delivers_of_iteration (hts.wellFormed hwf).1 ht hm
  exact h.encode_message_iff

/-- A message with the id `"a"`, as it is encoded. -/
def checkedBuffer : TcpBuffer := ⟨fields { msgId := [0x61] } ++ [0], 0, 27⟩

theorem reencode_iff_checked : ∃ t m, (iteration checkedBuffer).result = .ok (some t) ∧
    t.delivered = some m ∧
    (encodeTinyPB m).map Prod.snd = .ok (frameBytes checkedBuffer.buffer t.frame) := by
  have htaken : (iteration checkedBuffer).result = .ok (some (takenAt checkedBuffer 0)) := by
    decide +kernel
  have hdelivered : (takenAt checkedBuffer 0).delivered =
      some (message checkedBuffer.buffer ⟨0, 26, 27⟩) := by decide
  refine ⟨_, _, htaken, hdelivered, ?_⟩
  exact (reencode_iff (by decide) (.nil _) htaken hdelivered).mpr
    ⟨by decide, by decide, by decide, by decide, by decide⟩

/-- A message with the id `"a"`, whose four checksum bytes are zero. -/
def uncheckedBuffer : TcpBuffer where
  buffer := [2] ++ be32 27 ++ be32 1 ++ [0x61] ++ be32 0 ++ be32 0 ++ be32 0 ++ be32 0 ++ [3, 0]
  readIndex := 0
  writeIndex := 27

/-- **A frame with another checksum is delivered**, and its message encodes to other bytes. -/
theorem not_reencode_checkSum : uncheckedBuffer.WellFormed ∧
    ∃ t m, (iteration uncheckedBuffer).result = .ok (some t) ∧ t.delivered = some m ∧
      (encodeTinyPB m).map Prod.snd ≠ .ok (frameBytes uncheckedBuffer.buffer t.frame) :=
  ⟨by decide, takenAt uncheckedBuffer 0, message uncheckedBuffer.buffer ⟨0, 26, 27⟩,
    by decide +kernel, by decide +kernel, by decide +kernel⟩

end TalonRPC.TinyPBCoder
