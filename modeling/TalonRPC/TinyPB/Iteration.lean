import TalonRPC.TinyPB.Parse

/-!
# One iteration, and the run of the decoder

What an iteration of `decode` does, said once: it returns when no frame closes, and otherwise
takes the first frame that closes, provided its scan and its parse stay within the vector. The
run of the decoder is the sequence of frames it takes.

## Main definitions

* `First`: the first index at which a frame closes
* `takenAt`: what an iteration that takes the frame at an index does
* `InVector`: iterations whose accesses stay within the vector and the arrays

## Main results

* `iteration_none_iff`, `iteration_some_iff`: what an iteration does
* `iteration_ok_iff_inVector`: when it does not fail
* `decodes_iff`: the decoder returns after taking its frames
-/

namespace TalonRPC.TinyPBCoder

open Bytes Machine TinyPBProtocol

/-- The first index from `i` on at which a frame closes. -/
def First (tmp : ByteString) (w i k : ℕ) : Prop :=
  i ≤ k ∧ Closes tmp w k ∧ ∀ k', i ≤ k' → k' < k → ¬ Closes tmp w k'

instance (tmp : ByteString) (w i k : ℕ) : Decidable (First tmp w i k) :=
  decidable_of_iff (i ≤ k ∧ Closes tmp w k ∧ ∀ k' < k, i ≤ k' → ¬ Closes tmp w k')
    ⟨fun ⟨hle, hc, hbefore⟩ => ⟨hle, hc, fun k' hik hlt => hbefore k' hlt hik⟩,
      fun ⟨hle, hc, hbefore⟩ => ⟨hle, hc, fun k' hlt hik => hbefore k' hik hlt⟩⟩

/-- The frames that close start below the write index. -/
instance (tmp : ByteString) (w i : ℕ) (P : ℕ → Prop) [DecidablePred P] :
    Decidable (∀ k, First tmp w i k → P k) :=
  decidable_of_iff (∀ k < w, First tmp w i k → P k)
    ⟨fun h k hk => h k (Nat.lt_of_succ_lt hk.2.1.1.2) hk, fun h k _ => h k⟩

/-- The frame an iteration on `b` takes starts at `k`. -/
abbrev Selects (b : TcpBuffer) (k : ℕ) : Prop := First b.buffer b.writeIndex b.readIndex k

/-- The length the start marker at `k` declares. -/
def lengthAt (b : TcpBuffer) (k : ℕ) : ℤ := (int32At b.buffer (k + 1)).toInt

/-- The scan of `b` stays within the vector. -/
abbrev ScanFits (b : TcpBuffer) : Prop :=
  Scannable b.buffer b.writeIndex 0 b.buffer.length b.readIndex

variable {b b' : TcpBuffer} {k : ℕ} {f : Frame}

theorem First.unique {tmp : ByteString} {w i k₁ k₂ : ℕ} (h₁ : First tmp w i k₁)
    (h₂ : First tmp w i k₂) : k₁ = k₂ := by
  have hle : ¬ k₁ < k₂ := fun hlt => h₂.2.2 k₁ h₁.1 hlt h₁.2.1
  have hge : ¬ k₂ < k₁ := fun hlt => h₁.2.2 k₂ h₂.1 hlt h₂.2.1
  omega

theorem finds_some_iff {tmp : ByteString} {w i : ℕ} :
    Finds tmp w i (some f) ↔ ∃ k, First tmp w i k ∧ f = frameAt tmp k := by
  constructor
  · rintro ⟨k, h₁, h₂, h₃, h₄⟩
    exact ⟨k, ⟨h₁, h₂, h₃⟩, h₄⟩
  · rintro ⟨k, ⟨h₁, h₂, h₃⟩, h₄⟩
    exact ⟨k, h₁, h₂, h₃, h₄⟩

/-- **What a scan returns.** -/
theorem scanBuffer_ok_iff (hwf : b.WellFormed) {r : Option Frame} :
    (scanBuffer b).result = .ok r ↔ ScanFits b ∧ Finds b.buffer b.writeIndex b.readIndex r := by
  have hw := hwf.write_le_size
  have hall : (scanBuffer b).All (Access.Within 0 b.buffer.length 0) ↔ _ :=
    scan_all_iff le_rfl le_rfl (by exact_mod_cast hw) (by omega) hwf.write_eq.symm
  constructor
  · intro h
    -- A scan that returns has stayed within the vector, and there it has one result.
    have hfits := hall.mp (guarded_scan.mp ⟨_, h⟩)
    obtain ⟨r', hr', hfinds⟩ := scan_finds hw hwf.write_eq.symm hfits
    obtain rfl := Except.ok.inj (h.symm.trans hr')
    exact ⟨hfits, hfinds⟩
  · rintro ⟨hfits, hfinds⟩
    obtain ⟨r', hr', hfinds'⟩ := scan_finds hw hwf.write_eq.symm hfits
    obtain rfl := hfinds.unique hfinds'
    exact hr'

/-- Where the frame an iteration takes lies. -/
theorem Selects.bounds (hwf : b.WellFormed) (hfits : ScanFits b) (h : Selects b k) :
    b.readIndex ≤ k ∧ k + 1 < b.writeIndex ∧ k + 5 ≤ b.buffer.length ∧ 0 ≤ k + lengthAt b k - 1 ∧
      k + lengthAt b k - 1 < b.writeIndex ∧ (frameAt b.buffer k).stop = k + lengthAt b k - 1 := by
  obtain ⟨hk, hc, hbefore⟩ := h
  have hstop : endIndex b.buffer k = k + lengthAt b k - 1 :=
    hc.stop_eq (hwf.write_le_size.trans_lt hwf.size_lt)
  have h5 := (hfits k hk hbefore hc.1).1
  obtain ⟨hs, hlt, h0, -⟩ := hc
  exact ⟨hk, hs.2, by exact_mod_cast h5, by omega, by omega, hstop⟩

/-- The two parts of an iteration. -/
theorem iteration_ok_iff {t : Option Taken} :
    (iteration b).result = .ok t ↔
      (scanBuffer b).result = .ok none ∧ t = none ∨
      ∃ f d, (scanBuffer b).result = .ok (some f) ∧ (parseFrame b.buffer f).result = .ok d ∧
        t = some ⟨f, b.moveReadIndex (f.stop - f.start + 1), d⟩ := by
  rw [iteration, Traced.result_bind_ok_iff]
  constructor
  · rintro ⟨r, hr, h⟩
    cases r with
    -- Without a frame the loop is left.
    | none => exact .inl ⟨hr, (Except.ok.inj h).symm⟩
    | some f =>
      dsimp only at h
      rw [Traced.result_bind_ok_iff] at h
      obtain ⟨d, hd, ht⟩ := h
      exact .inr ⟨f, d, hr, hd, (Except.ok.inj ht).symm⟩
  · rintro (⟨hr, rfl⟩ | ⟨f, d, hr, hd, rfl⟩)
    · exact ⟨none, hr, rfl⟩
    · refine ⟨some f, hr, ?_⟩
      dsimp only
      rw [Traced.result_bind_of_ok hd]
      rfl

/-- **An iteration returns** exactly if its scan stays within the vector and no frame closes. -/
theorem iteration_none_iff (hwf : b.WellFormed) :
    (iteration b).result = .ok none ↔
      ScanFits b ∧ ∀ k, b.readIndex ≤ k → ¬ Closes b.buffer b.writeIndex k := by
  rw [iteration_ok_iff, ← Finds, ← scanBuffer_ok_iff hwf]
  simp

/-- The parse of the frame an iteration takes, and the length it takes off the buffer. -/
theorem Selects.parse_ok_iff (hwf : b.WellFormed) (hfits : ScanFits b) (h : Selects b k)
    {d : Option TinyPBProtocol} :
    ((parseFrame b.buffer (frameAt b.buffer k)).result = .ok d ↔
        FrameFits b.buffer b.buffer.length 0 (frameAt b.buffer k) ∧
          d = parsed b.buffer (frameAt b.buffer k)) ∧
      (frameAt b.buffer k).stop - (frameAt b.buffer k).start + 1 = lengthAt b k := by
  obtain ⟨-, -, h5, h0, hlt, hstop⟩ := h.bounds hwf hfits
  have hw := hwf.write_le_size
  refine ⟨parseFrame_ok_iff hwf.size_lt h5 (by omega) hstop, ?_⟩
  -- The indices of the markers are as far apart as the length says.
  rw [hstop, show (frameAt b.buffer k).start = k from rfl]
  omega

/-- The frame at `k`, as an iteration on `b` takes it. -/
def takenAt (b : TcpBuffer) (k : ℕ) : Taken :=
  ⟨frameAt b.buffer k, b.moveReadIndex (lengthAt b k), parsed b.buffer (frameAt b.buffer k)⟩

/-- **An iteration continues** exactly if its scan stays within the vector, a frame closes, and
its parse stays within the vector; then it has taken the first frame that closes. -/
theorem iteration_some_iff (hwf : b.WellFormed) {t : Taken} :
    (iteration b).result = .ok (some t) ↔
      ScanFits b ∧ ∃ k, Selects b k ∧ FrameFits b.buffer b.buffer.length 0 (frameAt b.buffer k) ∧
        t = takenAt b k := by
  rw [iteration_ok_iff]
  constructor
  · rintro (⟨-, h⟩ | ⟨g, d, hr, hd, h⟩)
    · cases h
    · obtain rfl := Option.some.inj h
      obtain ⟨hfits, hfinds⟩ := (scanBuffer_ok_iff hwf).mp hr
      obtain ⟨k, hk, rfl⟩ := finds_some_iff.mp hfinds
      obtain ⟨hparse, hmove⟩ := Selects.parse_ok_iff hwf hfits hk (d := d)
      obtain ⟨hframe, rfl⟩ := hparse.mp hd
      exact ⟨hfits, k, hk, hframe, by rw [hmove, takenAt]⟩
  · rintro ⟨hfits, k, hk, hframe, rfl⟩
    obtain ⟨hparse, hmove⟩ := Selects.parse_ok_iff hwf hfits hk
    have hr := (scanBuffer_ok_iff hwf).mpr ⟨hfits, finds_some_iff.mpr ⟨k, hk, rfl⟩⟩
    exact .inr ⟨_, _, hr, hparse.mpr ⟨hframe, rfl⟩, by rw [hmove, takenAt]⟩

/-- The accesses of an iteration are those of its scan and of the parse of the frame it takes. -/
theorem iteration_all_iff {P : Access → Prop} :
    (iteration b).All P ↔ (scanBuffer b).All P ∧
      ∀ f, (scanBuffer b).result = .ok (some f) → (parseFrame b.buffer f).All P := by
  rw [iteration, Traced.all_bind]
  apply and_congr_right
  intro _
  constructor
  · intro h f hf
    have := h (some f) hf
    dsimp only at this
    rw [Traced.all_bind] at this
    exact this.1
  · intro h r hr
    cases r with
    | none => exact Traced.all_pure _
    | some f =>
      dsimp only
      rw [Traced.all_bind]
      exact ⟨h f hr, fun _ _ => Traced.all_pure _⟩

/-- **The accesses of an iteration** stay between `0` and `hi` if its scan and the frame it takes
fit. -/
theorem iteration_all_of_selects (hwf : b.WellFormed) {hi : ℤ} {room : ℕ}
    (hw : b.writeIndex ≤ hi) (hi_le : hi ≤ b.buffer.length)
    (hscan : Scannable b.buffer b.writeIndex 0 hi b.readIndex)
    (hframes : ∀ k, Selects b k → FrameFits b.buffer hi room (frameAt b.buffer k)) :
    (iteration b).All (Access.Within 0 hi room) := by
  rw [iteration_all_iff]
  refine ⟨(scan_all_iff hi_le le_rfl hw (by omega) hwf.write_eq.symm).mpr hscan, fun f hf => ?_⟩
  obtain ⟨hfits, hfinds⟩ := (scanBuffer_ok_iff hwf).mp hf
  obtain ⟨k, hk, rfl⟩ := finds_some_iff.mp hfinds
  obtain ⟨-, -, h5, h0, hlt, hstop⟩ := Selects.bounds hwf hfits hk
  exact (parseFrame_all_iff hi_le hwf.size_lt le_rfl (by omega) (by omega) h5 hstop).mpr
    (hframes k hk)

/-- Every access of the iteration on `b` stays within the vector and the arrays. -/
def InVector (b : TcpBuffer) : Prop :=
  ScanFits b ∧ ∀ k, Selects b k → FrameFits b.buffer b.buffer.length 0 (frameAt b.buffer k)

instance (b : TcpBuffer) : Decidable (InVector b) :=
  inferInstanceAs (Decidable (_ ∧ ∀ k, Selects b k → _))

/-- **An iteration does not fail** exactly if its accesses stay within the vector. -/
theorem iteration_ok_iff_inVector (hwf : b.WellFormed) :
    (∃ t, (iteration b).result = .ok t) ↔ InVector b := by
  constructor
  · rintro ⟨_ | t, ht⟩
    · obtain ⟨hfits, hnone⟩ := (iteration_none_iff hwf).mp ht
      exact ⟨hfits, fun k hk => absurd hk.2.1 (hnone k hk.1)⟩
    · -- The frame that was parsed is the only one the scan selects.
      obtain ⟨hfits, k, hk, hframe, -⟩ := (iteration_some_iff hwf).mp ht
      exact ⟨hfits, fun k' hk' => hk.unique hk' ▸ hframe⟩
  · rintro ⟨hfits, hframes⟩
    obtain ⟨r, -, hfinds⟩ := scan_finds hwf.write_le_size hwf.write_eq.symm hfits
    cases r with
    | none => exact ⟨none, (iteration_none_iff hwf).mpr ⟨hfits, hfinds⟩⟩
    | some f =>
      obtain ⟨k, hk, rfl⟩ := finds_some_iff.mp hfinds
      exact ⟨_, (iteration_some_iff hwf).mpr ⟨hfits, k, hk, hframes k hk, rfl⟩⟩

/-- Taking a frame keeps the buffer well-formed, and its size. -/
theorem Selects.wellFormed (hwf : b.WellFormed) (hfits : ScanFits b) (h : Selects b k) :
    (b.moveReadIndex (lengthAt b k)).WellFormed ∧
      (b.moveReadIndex (lengthAt b k)).buffer.length = b.buffer.length ∧
      (b.moveReadIndex (lengthAt b k)).writeIndex ≤ b.writeIndex := by
  obtain ⟨hk, -, -, -, hlt, -⟩ := h.bounds hwf hfits
  exact TcpBuffer.wellFormed_moveReadIndex hwf (by omega)

/-- A frame that moves the read index forward, within the vector, takes as many bytes off the front
of the readable ones as it declares. -/
theorem Selects.advance (hwf : b.WellFormed) (hfits : ScanFits b) (h : Selects b k)
    (hpos : 1 ≤ lengthAt b k) (hroom : b.readIndex + lengthAt b k < b.buffer.length) :
    (takenAt b k).rest.readable = b.readable.drop (lengthAt b k).toNat ∧
      ((takenAt b k).rest.readAble : ℤ) = b.readAble - lengthAt b k := by
  obtain ⟨hk, -, -, -, hlt, -⟩ := h.bounds hwf hfits
  have hw := hwf.write_eq
  obtain ⟨n, hn⟩ := Int.eq_ofNat_of_zero_le (show 0 ≤ lengthAt b k by omega)
  obtain ⟨-, hread, hreadAble, -⟩ :=
    TcpBuffer.moveReadIndex_of_le (k := n) hwf (by omega) (by omega)
  rw [takenAt, hn]
  refine ⟨hread, ?_⟩
  rw [hreadAble]
  omega

/-! ## The run of the decoder -/

theorem decodeStep_done_iff {out : List TinyPBProtocol} {r : List TinyPBProtocol × TcpBuffer} :
    decodeStep (out, b) = .done (.ok r) ↔ (iteration b).result = .ok none ∧ r = (out, b) := by
  unfold decodeStep
  rcases (iteration b).result with e | _ | t <;> simp [eq_comm]

theorem decodeStep_next_iff {out : List TinyPBProtocol} {s : List TinyPBProtocol × TcpBuffer} :
    decodeStep (out, b) = .next s ↔ ∃ t, (iteration b).result = .ok (some t) ∧
      s = (out ++ t.delivered.toList, t.rest) := by
  unfold decodeStep
  rcases (iteration b).result with e | _ | t <;> simp [eq_comm]

@[simp] theorem messages_nil : messages [] = [] := rfl

@[simp] theorem messages_cons (t : Taken) (ts : List Taken) :
    messages (t :: ts) = t.delivered.toList ++ messages ts := rfl

theorem messages_append (ts us : List Taken) : messages (ts ++ us) = messages ts ++ messages us :=
  List.flatMap_append

theorem Takes.reaches {ts : List Taken} (h : Takes b ts b') (out : List TinyPBProtocol) :
    Reaches decodeStep (out, b) (out ++ messages ts, b') := by
  induction h generalizing out with
  | nil b => rw [messages_nil, List.append_nil]
  | cons ht _ ih =>
    rw [messages_cons, ← List.append_assoc]
    -- Each frame taken is an iteration that continues.
    exact .head (decodeStep_next_iff.mpr ⟨_, ht, rfl⟩) (ih _)

theorem Takes.snoc_iff {ts : List Taken} {t : Taken} :
    Takes b (ts ++ [t]) b' ↔ ∃ c, Takes b ts c ∧ (iteration c).result = .ok (some t) ∧
      b' = t.rest := by
  induction ts generalizing b with
  | nil =>
    constructor
    · rintro (_ | ⟨ht, hrest⟩)
      cases hrest
      exact ⟨b, .nil b, ht, rfl⟩
    · rintro ⟨c, hc, ht, rfl⟩
      cases hc
      exact .cons ht (.nil _)
  | cons u ts ih =>
    constructor
    · rintro (_ | ⟨hu, hrest⟩)
      obtain ⟨c, hc, ht, rfl⟩ := ih.mp hrest
      exact ⟨c, .cons hu hc, ht, rfl⟩
    · rintro ⟨c, hc, ht, rfl⟩
      cases hc with
      | cons hu hc => exact .cons hu (ih.mpr ⟨c, hc, ht, rfl⟩)

theorem exists_takes_of_reaches {s s' : List TinyPBProtocol × TcpBuffer}
    (h : Reaches decodeStep s s') : ∃ ts, Takes s.2 ts s'.2 ∧ s'.1 = s.1 ++ messages ts := by
  refine h.invariant (I := fun s' => ∃ ts, Takes s.2 ts s'.2 ∧ s'.1 = s.1 ++ messages ts)
    ⟨[], .nil _, by simp⟩ ?_
  rintro ⟨out, c⟩ s' ⟨ts, hts, hout⟩ hs
  obtain ⟨t, ht, rfl⟩ := decodeStep_next_iff.mp hs
  refine ⟨ts ++ [t], Takes.snoc_iff.mpr ⟨c, hts, ht, rfl⟩, ?_⟩
  rw [messages_append, ← List.append_assoc, ← hout, messages_cons, messages_nil, List.append_nil]

/-- **The decoder returns** exactly if its iterations come to a buffer in which no frame closes. -/
theorem decodes_iff {ms : List TinyPBProtocol} : Decodes b ms b' ↔
    ∃ ts, Takes b ts b' ∧ (iteration b').result = .ok none ∧ ms = messages ts := by
  constructor
  · intro h
    -- The messages taken do not depend on those appended before, so none are.
    obtain ⟨s, hs, hdone⟩ := ends_iff_reaches.mp (h [])
    obtain ⟨ts, hts, hout⟩ := exists_takes_of_reaches hs
    obtain ⟨hnone, heq⟩ := decodeStep_done_iff.mp hdone
    obtain ⟨hms, rfl⟩ := Prod.mk.inj heq
    exact ⟨ts, hts, hnone, by simpa [hout] using hms⟩
  · rintro ⟨ts, hts, hnone, rfl⟩ out
    exact ends_iff_reaches.mpr ⟨_, hts.reaches out, decodeStep_done_iff.mpr ⟨hnone, rfl⟩⟩

/-- What the frames taken keep of the buffer. -/
theorem Takes.wellFormed {ts : List Taken} (h : Takes b ts b') (hwf : b.WellFormed) :
    b'.WellFormed ∧ b'.buffer.length = b.buffer.length ∧ b'.writeIndex ≤ b.writeIndex := by
  induction h with
  | nil b => exact ⟨hwf, rfl, le_rfl⟩
  | cons ht _ ih =>
    obtain ⟨hfits, k, hk, -, rfl⟩ := (iteration_some_iff hwf).mp ht
    obtain ⟨hwf', hlen, hwrite⟩ := hk.wellFormed hwf hfits
    obtain ⟨hwf'', hlen', hwrite'⟩ := ih hwf'
    exact ⟨hwf'', hlen'.trans hlen, hwrite'.trans hwrite⟩

/-- A run that has come to an end continues every run. -/
theorem Takes.extend {ts us : List Taken} {b'' : TcpBuffer} (h : Takes b ts b')
    (h' : Takes b us b'') (hnone : (iteration b'').result = .ok none) :
    ∃ vs, us = ts ++ vs ∧ Takes b' vs b'' := by
  induction h generalizing us with
  | nil b => exact ⟨us, rfl, h'⟩
  | cons ht _ ih =>
    cases h' with
    -- The decoder has returned where the other run goes on.
    | nil => cases ht.symm.trans hnone
    | cons hu hus =>
      -- An iteration has one result, so both runs take the same frame.
      obtain rfl := Option.some.inj (Except.ok.inj (ht.symm.trans hu))
      obtain ⟨vs, rfl, hvs⟩ := ih hus
      exact ⟨vs, rfl, hvs⟩

/-- A decoder that takes one frame and returns comes to two buffers. -/
theorem Takes.eq_or_of_single {ts : List Taken} {t : Taken} (h : Takes b ts b')
    (ht : (iteration b).result = .ok (some t)) (hend : (iteration t.rest).result = .ok none) :
    b' = b ∨ b' = t.rest := by
  cases h with
  | nil => exact .inl rfl
  | cons hu hus =>
    obtain rfl := Option.some.inj (Except.ok.inj (ht.symm.trans hu))
    cases hus with
    | nil => exact .inr rfl
    | cons hv _ => cases hv.symm.trans hend

theorem Decodes.unique {ms ms' : List TinyPBProtocol} {b'' : TcpBuffer} (h : Decodes b ms b')
    (h' : Decodes b ms' b'') : ms = ms' ∧ b' = b'' := by
  simpa using Ends.unique (h []) (h' [])

/-- The decoder returns from every buffer its iterations come to. -/
theorem Decodes.of_takes {ms : List TinyPBProtocol} {b'' : TcpBuffer} {ts : List Taken}
    (h : Decodes b ms b'') (hts : Takes b ts b') : ∃ ms', Decodes b' ms' b'' := by
  obtain ⟨us, hus, hnone, -⟩ := decodes_iff.mp h
  obtain ⟨vs, -, hvs⟩ := hts.extend hus hnone
  exact ⟨messages vs, decodes_iff.mpr ⟨vs, hvs, hnone, rfl⟩⟩

/-- Where the decoder returns from, the iteration it starts with does not fail. -/
theorem Decodes.iteration_ok {ms : List TinyPBProtocol} (h : Decodes b ms b') :
    ∃ t, (iteration b).result = .ok t := by
  obtain ⟨us, hus, hnone, -⟩ := decodes_iff.mp h
  cases hus with
  | nil => exact ⟨_, hnone⟩
  | cons hu _ => exact ⟨_, hu⟩

end TalonRPC.TinyPBCoder
