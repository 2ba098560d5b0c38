import TalonRPC.TinyPB.Scan

/-!
# The frame parser, read off the bytes

The fields `decode` reads from a frame, and the bounds its accesses respect, as properties of the
vector. The parser compares the start of every part with the end marker, and nothing else: that a
declared length is not negative, fits its array and ends inside the frame is a property of the
bytes it happens to read.

## Main definitions

* `fieldEnd`, `fieldBytes`, `fieldText`: the end, the bytes and the text of a string behind its
  length
* `FieldFits`, `FrameFits`: the bounds of a string, and of a whole frame
* `parsed`: the message of a frame

## Main results

* `parseFrame_all_iff`: the accesses to a frame stay within bounds exactly if it `FrameFits`
* `parseFrame_ok`: a parse within the vector yields the `parsed` message
-/

namespace TalonRPC.TinyPBCoder

open Bytes Machine TinyPBProtocol

/-- The index behind the string whose length is at `k`. -/
def fieldEnd (tmp : ByteString) (k : ℕ) : ℕ := k + 4 + (int32At tmp k).toInt.toNat

/-- The string whose length is at `k`. -/
def fieldBytes (tmp : ByteString) (k : ℕ) : ByteString :=
  slice tmp (k + 4) (int32At tmp k).toInt.toNat

/-- The string whose length is at `k`, up to its first zero. -/
def fieldText (tmp : ByteString) (k : ℕ) : ByteString := (fieldBytes tmp k).takeWhile (· ≠ 0)

/-- The length at `k` and the string behind it lie below `hi`, and the string leaves `room` bytes
of an array of `capacity` chars, with a terminator in it. -/
structure FieldFits (tmp : ByteString) (capacity : ℕ) (hi : ℤ) (room k : ℕ) : Prop where
  length_field : (k + 4 : ℤ) ≤ hi
  length_nonneg : 0 ≤ (int32At tmp k).toInt
  length_le : (int32At tmp k).toInt + room ≤ capacity
  string_le : k + 4 + (int32At tmp k).toInt ≤ hi
  terminated : (int32At tmp k).toInt < capacity ∨ 0 ∈ fieldBytes tmp k

instance (tmp : ByteString) (capacity : ℕ) (hi : ℤ) (room k : ℕ) :
    Decidable (FieldFits tmp capacity hi room k) :=
  decidable_of_iff
    ((k + 4 : ℤ) ≤ hi ∧ 0 ≤ (int32At tmp k).toInt ∧ (int32At tmp k).toInt + room ≤ capacity ∧
      k + 4 + (int32At tmp k).toInt ≤ hi ∧
      ((int32At tmp k).toInt < capacity ∨ 0 ∈ fieldBytes tmp k))
    ⟨fun ⟨h₁, h₂, h₃, h₄, h₅⟩ => ⟨h₁, h₂, h₃, h₄, h₅⟩,
      fun ⟨h₁, h₂, h₃, h₄, h₅⟩ => ⟨h₁, h₂, h₃, h₄, h₅⟩⟩

/-- Where the parts of a frame are, by the lengths before them. -/
def msgIdLenIndex (f : Frame) : ℕ := f.start + 5

def methodNameLenIndex (tmp : ByteString) (f : Frame) : ℕ := fieldEnd tmp (msgIdLenIndex f)

def errCodeIndex (tmp : ByteString) (f : Frame) : ℕ := fieldEnd tmp (methodNameLenIndex tmp f)

def errInfoLenIndex (tmp : ByteString) (f : Frame) : ℕ := errCodeIndex tmp f + 4

def pbDataIndex (tmp : ByteString) (f : Frame) : ℕ := fieldEnd tmp (errInfoLenIndex tmp f)

/-- The length left for the payload. -/
def pbDataLen (tmp : ByteString) (f : Frame) : ℤ :=
  f.pkLen.toInt - (int32At tmp (methodNameLenIndex tmp f)).toInt -
    (int32At tmp (msgIdLenIndex f)).toInt - (int32At tmp (errInfoLenIndex tmp f)).toInt - 2 - 24

/-- The accesses to a frame lie below `hi` and leave `room` bytes of every array: each part that
starts below the end marker fits, until one does not start there. -/
def FrameFits (tmp : ByteString) (hi : ℤ) (room : ℕ) (f : Frame) : Prop :=
  f.stop ≤ msgIdLenIndex f ∨
    FieldFits tmp 100 hi room (msgIdLenIndex f) ∧ (f.stop ≤ methodNameLenIndex tmp f ∨
      FieldFits tmp 512 hi room (methodNameLenIndex tmp f) ∧ (f.stop ≤ errCodeIndex tmp f ∨
        (errCodeIndex tmp f + 4 : ℤ) ≤ hi ∧ (f.stop ≤ errInfoLenIndex tmp f ∨
          FieldFits tmp 512 hi room (errInfoLenIndex tmp f) ∧ 0 ≤ pbDataLen tmp f)))

instance (tmp : ByteString) (hi : ℤ) (room : ℕ) (f : Frame) : Decidable (FrameFits tmp hi room f) :=
  inferInstanceAs (Decidable (_ ∨ _ ∧ (_ ∨ _ ∧ (_ ∨ _ ∧ (_ ∨ _ ∧ _)))))

/-- The message in the fields of a frame. -/
def message (tmp : ByteString) (f : Frame) : TinyPBProtocol where
  pkLen := f.pkLen
  msgIdLen := int32At tmp (msgIdLenIndex f)
  msgId := fieldText tmp (msgIdLenIndex f)
  methodNameLen := int32At tmp (methodNameLenIndex tmp f)
  methodName := fieldText tmp (methodNameLenIndex tmp f)
  errCode := int32At tmp (errCodeIndex tmp f)
  errInfoLen := int32At tmp (errInfoLenIndex tmp f)
  errInfo := fieldText tmp (errInfoLenIndex tmp f)
  pbData := slice tmp (pbDataIndex tmp f) (pbDataLen tmp f).toNat
  parseSuccess := true

/-- The message of a frame, unless a part of it starts at or behind the end marker. -/
def parsed (tmp : ByteString) (f : Frame) : Option TinyPBProtocol :=
  if f.stop ≤ msgIdLenIndex f ∨ f.stop ≤ methodNameLenIndex tmp f ∨ f.stop ≤ errCodeIndex tmp f ∨
      f.stop ≤ errInfoLenIndex tmp f then none
  else some (message tmp f)

variable {tmp : ByteString} {lo hi : ℤ} {room capacity k : ℕ} {f : Frame}

/-- The frames a scan finds end where their length says. -/
theorem Closes.stop_eq {w i : ℕ} (hw : w < 2 ^ 31) (h : Closes tmp w i) :
    endIndex tmp i = i + (int32At tmp (i + 1)).toInt - 1 := by
  obtain ⟨hs, hlt, h0, -⟩ := h
  obtain ⟨hl, hu⟩ := toInt_range (int32At tmp (i + 1))
  -- A sum that wrapped around would be negative: the end is not below 0.
  obtain ⟨k, hk⟩ := wrap32_eq (i + (int32At tmp (i + 1)).toInt - 1)
  have hi := hs.2
  unfold endIndex at *
  omega

/-! ## A string behind its length -/

theorem copyString_all_iff {index size : ℤ} (hi_le : hi ≤ tmp.length) (hlo : 0 ≤ lo)
    (hlo_i : lo ≤ index) (hindex : index ≤ hi) :
    (copyString tmp capacity index size).All (Access.Within lo hi room) ↔
      0 ≤ size ∧ size + room ≤ capacity ∧ index + size ≤ hi ∧
        (size < capacity ∨ 0 ∈ slice tmp index.toNat size.toNat) := by
  unfold copyString access
  rw [Traced.all_bind, Traced.all_perform]
  -- The first access that breaks a bound decides; the others are only reached behind it.
  by_cases hcopy : 0 ≤ size ∧ size + room ≤ capacity
  · obtain ⟨h0, hcap⟩ := hcopy
    have hcopy' : (Access.copy capacity size).Within lo hi room := ⟨h0, hcap⟩
    have hcopied : (Access.copy capacity size).Within 0 tmp.length 0 := ⟨h0, by push_cast; omega⟩
    simp only [hcopy', true_and, Traced.result_perform, if_pos hcopied, forall_const,
      Traced.all_bind, load_all, h0, hcap]
    by_cases hload : index + size ≤ hi
    · have hload' : (Access.load index size).Within lo hi room := ⟨h0, .inr ⟨hlo_i, hload⟩⟩
      have hlen : (slice tmp index.toNat size.toNat).length = size.toNat :=
        length_slice_of_le (by omega)
      have hok : (load tmp index size).result = _ := load_ok
        ⟨h0, .inr ⟨by omega, by omega⟩⟩
      have hterm :
          (Access.terminate capacity (slice tmp index.toNat size.toNat)).Within lo hi room ↔
            size < capacity ∨ 0 ∈ slice tmp index.toNat size.toNat :=
        or_congr_left (by omega)
      simp [hload, hload', hok, hterm]
    · have hload' : ¬ (Access.load index size).Within lo hi room := by
        rintro ⟨-, h | ⟨-, h⟩⟩ <;> omega
      simp [hload, hload']
  · have hcopy' : ¬ (Access.copy capacity size).Within lo hi room := hcopy
    simp only [hcopy', false_and, false_iff]
    exact fun h => hcopy ⟨h.1, h.2.1⟩

theorem copyString_ok {index size : ℤ} (h0 : 0 ≤ size) (hcap : size ≤ capacity)
    (hlo : 0 ≤ index) (hi_le : index + size ≤ tmp.length)
    (hterm : size < capacity ∨ 0 ∈ slice tmp index.toNat size.toNat) :
    (copyString tmp capacity index size).result =
      .ok ((slice tmp index.toNat size.toNat).takeWhile (· ≠ 0)) := by
  have hload : (load tmp index size).result = _ := load_ok ⟨h0, .inr ⟨hlo, hi_le⟩⟩
  have hlen : (slice tmp index.toNat size.toNat).length = size.toNat :=
    length_slice_of_le (by omega)
  unfold copyString access
  have hcopied : (Access.copy capacity size).Within 0 tmp.length 0 := ⟨h0, by push_cast; omega⟩
  have hfound : (Access.terminate capacity (slice tmp index.toNat size.toNat)).Within 0
      tmp.length 0 := hterm.imp (fun h => by omega) id
  rw [if_pos hcopied, Traced.result_bind_of_ok (Traced.result_perform _ _),
    Traced.result_bind_of_ok hload, if_pos hfound]
  rfl

theorem parseField_all_iff (hi_le : hi ≤ tmp.length) (hlen : tmp.length < 2 ^ 31) (hlo : 0 ≤ lo)
    (hlo_k : lo ≤ k) :
    (parseField tmp capacity k).All (Access.Within lo hi room) ↔
      FieldFits tmp capacity hi room k := by
  unfold parseField
  rw [Traced.all_bind, getInt32_all, within_load_iff (by decide)]
  by_cases hk : (k + 4 : ℤ) ≤ hi
  · have hwrap : wrap32 (k + 4) = (k + 4 : ℕ) := by
      rw [wrap32_of_range (by omega) (by omega)]
      rfl
    rw [getInt32_ok (by omega)]
    simp only [Except.ok.injEq, forall_eq', Traced.all_bind, Traced.all_pure, implies_true,
      and_true, hwrap]
    rw [copyString_all_iff hi_le hlo (by push_cast; omega) (by push_cast; omega)]
    rw [Int.toNat_natCast, show ((k + 4 : ℕ) : ℤ) = k + 4 from rfl]
    constructor
    · rintro ⟨-, h₁, h₂, h₃, h₄⟩
      exact ⟨hk, h₁, h₂, h₃, h₄⟩
    · rintro ⟨-, h₁, h₂, h₃, h₄⟩
      exact ⟨⟨hlo_k, hk⟩, h₁, h₂, h₃, h₄⟩
  · simp only [hk, and_false, false_and, false_iff]
    exact fun h => hk h.length_field

theorem FieldFits.fieldEnd_eq (h : FieldFits tmp capacity hi room k) :
    (fieldEnd tmp k : ℤ) = k + 4 + (int32At tmp k).toInt := by
  have := h.length_nonneg
  unfold fieldEnd
  push_cast
  omega

theorem parseField_ok (hi_le : hi ≤ tmp.length) (hlen : tmp.length < 2 ^ 31)
    (h : FieldFits tmp capacity hi room k) :
    (parseField tmp capacity k).result =
      .ok (int32At tmp k, fieldText tmp k, (fieldEnd tmp k : ℤ)) := by
  have h₁ := h.length_field
  have h₂ := h.length_nonneg
  have h₃ := h.length_le
  have h₄ := h.string_le
  have hwrap : wrap32 (k + 4) = (k + 4 : ℕ) := by
    rw [wrap32_of_range (by omega) (by omega)]
    rfl
  have hend : wrap32 ((k + 4 : ℕ) + (int32At tmp k).toInt) = fieldEnd tmp k := by
    rw [h.fieldEnd_eq, wrap32_of_range (by push_cast; omega) (by push_cast; omega)]
    push_cast
    rfl
  have hcopy : (copyString tmp capacity (k + 4 : ℕ) (int32At tmp k).toInt).result =
      .ok (fieldText tmp k) := by
    rw [copyString_ok h₂ (by omega) (by omega) (by push_cast; omega)
      (by simpa only [fieldBytes, Int.toNat_natCast] using h.terminated)]
    rw [Int.toNat_natCast]
    rfl
  unfold parseField
  rw [Traced.result_bind_of_ok (getInt32_ok (by omega))]
  simp only [hwrap]
  rw [Traced.result_bind_of_ok hcopy, hend]
  rfl

/-! ## A whole frame

Each part of a frame that does not fit ends the parse, so the accesses of the rest only matter
once it does. -/

theorem reject_all_iff {α : Type} {c : Prop} [Decidable c] {a : α} {x : Exec α}
    {P : Access → Prop} : (if c then pure a else x).All P ↔ c ∨ x.All P := by
  rw [Traced.all_ite, or_iff_not_imp_left]
  simp

theorem parseField_bind_all_iff {α : Type} {g : Int32 × ByteString × ℤ → Exec α}
    (hi_le : hi ≤ tmp.length) (hlen : tmp.length < 2 ^ 31) (hlo : 0 ≤ lo) (hlo_k : lo ≤ k) :
    (parseField tmp capacity k >>= g).All (Access.Within lo hi room) ↔
      FieldFits tmp capacity hi room k ∧
        (g (int32At tmp k, fieldText tmp k, fieldEnd tmp k)).All (Access.Within lo hi room) := by
  rw [Traced.all_bind, parseField_all_iff hi_le hlen hlo hlo_k]
  -- The rest of the parse is reached only when the string fits, and then it is known what was read.
  apply and_congr_right
  intro h
  simp [parseField_ok hi_le hlen h]

theorem getInt32_bind_all_iff {α : Type} {g : Int32 → Exec α} (hi_le : hi ≤ tmp.length)
    (hlo_k : lo ≤ k) :
    (getInt32FromNetByte tmp k >>= g).All (Access.Within lo hi room) ↔
      (k + 4 : ℤ) ≤ hi ∧ (g (int32At tmp k)).All (Access.Within lo hi room) := by
  rw [Traced.all_bind, getInt32_all, within_load_iff (by decide)]
  simp only [hlo_k, true_and]
  apply and_congr_right
  intro h
  have hok : (getInt32FromNetByte tmp k).result = _ := getInt32_ok (by omega)
  simp [hok]

theorem newString_all_iff {index size : ℤ} (hlo_i : lo ≤ index) (hindex : index + size ≤ hi) :
    (newString tmp index size).All (Access.Within lo hi room) ↔ 0 ≤ size := by
  unfold newString access
  rw [Traced.all_bind, Traced.all_perform]
  constructor
  · exact fun h => h.1
  · intro h0
    refine ⟨h0, fun _ _ => ?_⟩
    rw [load_all]
    exact ⟨h0, .inr ⟨hlo_i, hindex⟩⟩

theorem newString_ok {index size : ℤ} (h0 : 0 ≤ size) (hlo : 0 ≤ index)
    (hi_le : index + size ≤ tmp.length) :
    (newString tmp index size).result = .ok (slice tmp index.toNat size.toNat) := by
  unfold newString access
  have hconstructed : (Access.construct size).Within 0 tmp.length 0 := h0
  rw [if_pos hconstructed, Traced.result_bind_of_ok (Traced.result_perform _ _)]
  exact load_ok ⟨h0, .inr ⟨hlo, hi_le⟩⟩

/-- The indices of the parts of a frame, once their lengths are known not to be negative. -/
theorem pbDataIndex_add (hstop : f.stop = f.start + f.pkLen.toInt - 1)
    (h₁ : FieldFits tmp 100 hi room (msgIdLenIndex f))
    (h₂ : FieldFits tmp 512 hi room (methodNameLenIndex tmp f))
    (h₃ : FieldFits tmp 512 hi room (errInfoLenIndex tmp f)) :
    pbDataIndex tmp f + pbDataLen tmp f = f.stop - 4 := by
  have e₁ := h₁.fieldEnd_eq
  have e₂ := h₂.fieldEnd_eq
  have e₃ := h₃.fieldEnd_eq
  unfold pbDataIndex pbDataLen
  unfold errInfoLenIndex errCodeIndex methodNameLenIndex msgIdLenIndex at *
  push_cast at *
  omega

/-- The length left for the payload is in range. -/
theorem wrap32_pbDataLen (hstart : f.start < f.stop) (hstop : f.stop = f.start + f.pkLen.toInt - 1)
    (h₁ : FieldFits tmp 100 hi room (msgIdLenIndex f))
    (h₂ : FieldFits tmp 512 hi room (methodNameLenIndex tmp f))
    (h₃ : FieldFits tmp 512 hi room (errInfoLenIndex tmp f)) :
    wrap32 (f.pkLen.toInt - (int32At tmp (methodNameLenIndex tmp f)).toInt -
        (int32At tmp (msgIdLenIndex f)).toInt - (int32At tmp (errInfoLenIndex tmp f)).toInt -
        2 - 24) = pbDataLen tmp f := by
  have := h₁.length_le
  have := h₂.length_le
  have := h₃.length_le
  have := h₁.length_nonneg
  have := h₂.length_nonneg
  have := h₃.length_nonneg
  have := toInt_range f.pkLen
  exact wrap32_of_range (by omega) (by omega)

theorem wrap32_msgIdLenIndex (hlen : tmp.length < 2 ^ 31) (hstart : f.start + 5 ≤ tmp.length) :
    wrap32 (f.start + 1 + 4) = msgIdLenIndex f := by
  rw [wrap32_of_range (by omega) (by omega), msgIdLenIndex]
  omega

theorem wrap32_errInfoLenIndex (hlen : tmp.length < 2 ^ 31)
    (h : (errCodeIndex tmp f + 4 : ℤ) ≤ tmp.length) :
    wrap32 (errCodeIndex tmp f + 4) = errInfoLenIndex tmp f := by
  rw [wrap32_of_range (by omega) (by omega), errInfoLenIndex]
  push_cast
  rfl

theorem start_le_msgIdLenIndex (f : Frame) : f.start ≤ msgIdLenIndex f := Nat.le_add_right _ _

theorem le_fieldEnd (tmp : ByteString) (k : ℕ) : k ≤ fieldEnd tmp k := by
  unfold fieldEnd
  omega

theorem start_le_errInfoLenIndex (tmp : ByteString) (f : Frame) :
    f.start ≤ errInfoLenIndex tmp f :=
  (start_le_msgIdLenIndex f).trans <| (le_fieldEnd tmp _).trans <| (le_fieldEnd tmp _).trans <|
    Nat.le_add_right _ _

/-- **The accesses to a frame** stay between `lo` and `hi` exactly if it `FrameFits`. -/
theorem parseFrame_all_iff (hi_le : hi ≤ tmp.length) (hlen : tmp.length < 2 ^ 31) (hlo : 0 ≤ lo)
    (hlo_f : lo ≤ f.start) (hhi : f.stop < hi) (hstart : f.start + 5 ≤ tmp.length)
    (hstop : f.stop = f.start + f.pkLen.toInt - 1) :
    (parseFrame tmp f).All (Access.Within lo hi room) ↔ FrameFits tmp hi room f := by
  -- The lengths read so far are not negative, so the parts come one behind the other.
  have lo₁ : lo ≤ msgIdLenIndex f := hlo_f.trans (by exact_mod_cast start_le_msgIdLenIndex f)
  have lo₂ : lo ≤ methodNameLenIndex tmp f := lo₁.trans (by exact_mod_cast le_fieldEnd tmp _)
  have lo₃ : lo ≤ errCodeIndex tmp f := lo₂.trans (by exact_mod_cast le_fieldEnd tmp _)
  have lo₄ : lo ≤ errInfoLenIndex tmp f := lo₃.trans (by exact_mod_cast Nat.le_add_right _ _)
  have lo₅ : lo ≤ pbDataIndex tmp f := lo₄.trans (by exact_mod_cast le_fieldEnd tmp _)
  unfold parseFrame FrameFits
  rw [wrap32_msgIdLenIndex hlen hstart]
  rw [reject_all_iff, parseField_bind_all_iff hi_le hlen hlo lo₁]
  apply or_congr_right
  apply and_congr_right
  intro h₁
  rw [reject_all_iff, ← methodNameLenIndex, parseField_bind_all_iff hi_le hlen hlo lo₂]
  apply or_congr_right
  apply and_congr_right
  intro h₂
  rw [reject_all_iff, ← errCodeIndex, getInt32_bind_all_iff hi_le lo₃]
  apply or_congr_right
  apply and_congr_right
  intro h₃
  rw [wrap32_errInfoLenIndex hlen (h₃.trans hi_le)]
  rw [reject_all_iff, parseField_bind_all_iff hi_le hlen hlo lo₄]
  by_cases hend : f.stop ≤ errInfoLenIndex tmp f
  · simp only [hend, true_or]
  · apply or_congr_right
    apply and_congr_right
    intro h₄
    -- The payload ends in front of the checksum, so only its length can be wrong.
    have hlast := pbDataIndex_add hstop h₁ h₂ h₄
    have hfirst := start_le_errInfoLenIndex tmp f
    rw [← pbDataIndex]
    dsimp only
    rw [wrap32_pbDataLen (by omega) hstop h₁ h₂ h₄, Traced.all_bind,
      newString_all_iff lo₅ (by omega)]
    simp

theorem parseField_bind_ok {α : Type} {g : Int32 × ByteString × ℤ → Exec α}
    (hi_le : hi ≤ tmp.length) (hlen : tmp.length < 2 ^ 31)
    (h : FieldFits tmp capacity hi room k) :
    (parseField tmp capacity k >>= g).result =
      (g (int32At tmp k, fieldText tmp k, fieldEnd tmp k)).result :=
  Traced.result_bind_of_ok (parseField_ok hi_le hlen h) g

theorem getInt32_bind_ok {α : Type} {g : Int32 → Exec α} (h : (k + 4 : ℤ) ≤ tmp.length) :
    (getInt32FromNetByte tmp k >>= g).result = (g (int32At tmp k)).result :=
  Traced.result_bind_of_ok (getInt32_ok (by omega)) g

theorem reject_ok {α : Type} {c d : Prop} [Decidable c] [Decidable d] {a b : α} {x : Exec α}
    (h : ¬ c → x.result = .ok (if d then a else b)) :
    (if c then pure a else x).result = .ok (if c ∨ d then a else b) := by
  by_cases hc : c
  · simp [hc]
  · simp [hc, h hc]

/-- **A parse within the vector** yields the `parsed` message. -/
theorem parseFrame_ok (hlen : tmp.length < 2 ^ 31) (hstart : f.start + 5 ≤ tmp.length)
    (hend : f.stop < tmp.length) (hstop : f.stop = f.start + f.pkLen.toInt - 1)
    (h : FrameFits tmp tmp.length 0 f) :
    (parseFrame tmp f).result = .ok (parsed tmp f) := by
  rw [parseFrame, parsed, wrap32_msgIdLenIndex hlen hstart]
  -- One bound of `FrameFits` for each part that starts in front of the end marker.
  apply reject_ok
  intro c₁
  obtain ⟨h₁, h⟩ := h.resolve_left c₁
  rw [parseField_bind_ok le_rfl hlen h₁]
  apply reject_ok
  intro c₂
  obtain ⟨h₂, h⟩ := h.resolve_left c₂
  rw [← methodNameLenIndex, parseField_bind_ok le_rfl hlen h₂]
  apply reject_ok
  intro c₃
  obtain ⟨h₃, h⟩ := h.resolve_left c₃
  rw [← errCodeIndex, getInt32_bind_ok h₃, wrap32_errInfoLenIndex hlen h₃]
  by_cases c₄ : f.stop ≤ errInfoLenIndex tmp f
  · rw [if_pos c₄, if_pos c₄]
    rfl
  obtain ⟨h₄, h₅⟩ := h.resolve_left c₄
  have hlast := pbDataIndex_add hstop h₁ h₂ h₄
  have hfirst := start_le_errInfoLenIndex tmp f
  rw [if_neg c₄, parseField_bind_ok le_rfl hlen h₄, ← pbDataIndex]
  dsimp only
  rw [wrap32_pbDataLen (by omega) hstop h₁ h₂ h₄,
    Traced.result_bind_of_ok (newString_ok h₅ (by omega) (by omega)), if_neg c₄]
  rfl

theorem FieldFits.mono {hi' : ℤ} (h : FieldFits tmp capacity hi room k) (hhi : hi ≤ hi') :
    FieldFits tmp capacity hi' room k :=
  ⟨h.length_field.trans hhi, h.length_nonneg, h.length_le, h.string_le.trans hhi, h.terminated⟩

theorem FrameFits.mono {hi' : ℤ} (h : FrameFits tmp hi room f) (hhi : hi ≤ hi') :
    FrameFits tmp hi' room f := by
  apply h.imp_right
  rintro ⟨h₁, h⟩
  refine ⟨h₁.mono hhi, h.imp_right ?_⟩
  rintro ⟨h₂, h⟩
  refine ⟨h₂.mono hhi, h.imp_right ?_⟩
  rintro ⟨h₃, h⟩
  refine ⟨h₃.trans hhi, h.imp_right ?_⟩
  rintro ⟨h₄, h₅⟩
  exact ⟨h₄.mono hhi, h₅⟩

/-! ## The parse is guarded by its accesses -/

theorem guarded_copyString (index size : ℤ) :
    Traced.Guarded (Access.Within 0 tmp.length 0) (copyString tmp capacity index size) :=
  (guarded_access _ _ _).bind fun _ => (guarded_load _ _).bind fun _ => guarded_access _ _ _

theorem guarded_newString (index size : ℤ) :
    Traced.Guarded (Access.Within 0 tmp.length 0) (newString tmp index size) :=
  (guarded_access _ _ _).bind fun _ => guarded_load _ _

theorem guarded_parseField (lenIndex : ℤ) :
    Traced.Guarded (Access.Within 0 tmp.length 0) (parseField tmp capacity lenIndex) :=
  (guarded_getInt32 _).bind fun _ => (guarded_copyString _ _).bind fun _ => .pure _

theorem guarded_parseFrame (f : Frame) :
    Traced.Guarded (Access.Within 0 tmp.length 0) (parseFrame tmp f) := by
  rw [parseFrame]
  refine .ite (.pure _) ((guarded_parseField _).bind fun _ => ?_)
  refine .ite (.pure _) ((guarded_parseField _).bind fun _ => ?_)
  refine .ite (.pure _) ((guarded_getInt32 _).bind fun _ => ?_)
  refine .ite (.pure _) ((guarded_parseField _).bind fun _ => ?_)
  exact (guarded_newString _ _).bind fun _ => .pure _

/-- **What a parse returns**: within the vector, the `parsed` message; otherwise nothing. -/
theorem parseFrame_ok_iff (hlen : tmp.length < 2 ^ 31) (hstart : f.start + 5 ≤ tmp.length)
    (hend : f.stop < tmp.length) (hstop : f.stop = f.start + f.pkLen.toInt - 1)
    {delivered : Option TinyPBProtocol} :
    (parseFrame tmp f).result = .ok delivered ↔
      FrameFits tmp tmp.length 0 f ∧ delivered = parsed tmp f := by
  have hall : (parseFrame tmp f).All (Access.Within 0 tmp.length 0) ↔ _ :=
    parseFrame_all_iff le_rfl hlen le_rfl (by omega) hend hstart hstop
  constructor
  · intro h
    have hfits := hall.mp ((guarded_parseFrame f).mp ⟨_, h⟩)
    exact ⟨hfits, Except.ok.inj (h.symm.trans (parseFrame_ok hlen hstart hend hstop hfits))⟩
  · rintro ⟨hfits, rfl⟩
    exact parseFrame_ok hlen hstart hend hstop hfits

end TalonRPC.TinyPBCoder
