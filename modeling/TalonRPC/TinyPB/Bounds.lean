import TalonRPC.TinyPB.Iteration

/-!
# The bounds of the decoder's accesses

An iteration of `decode` should read the bytes between the two indices only, and once it has
chosen a frame, the bytes of that frame; no text should fill the array it is copied to. Nothing in
the code compares a length with these bounds, so they hold exactly where the lengths the decoder
happens to meet are small enough.

## Main definitions

* `InBounds`: the accesses of one iteration stay in bounds
* `LengthsFit`: the lengths an iteration meets are small enough, read off the bytes

## Main results

* `inBounds_iff`: the accesses of a whole run stay in bounds exactly if all lengths fit
* `not_inBounds_negative`: a start marker can declare an end below the vector
-/

namespace TalonRPC.TinyPBCoder

open Bytes Machine TinyPBProtocol

/-- The accesses of the iteration on `b` stay in bounds: those of the scan between the read and the
write index, and those of the parse within the frame that was found. Every text leaves room for
the terminator of its array, and the payload has no negative length. -/
def InBounds (b : TcpBuffer) : Prop :=
  (scanBuffer b).All (Access.Within b.readIndex b.writeIndex 1) ∧
    ∀ f, (scanBuffer b).result = .ok (some f) →
      (parseFrame b.buffer f).All (Access.Within f.start (f.stop + 1) 1)

/-- The lengths the iteration on `b` meets fit: behind every start marker up to the frame that is
taken, the length lies below the write index and declares no end below the read index; and in that
frame no length is negative, the texts have at most 99, 511 and 511 bytes and end inside the frame,
and they leave a length for the payload. -/
def LengthsFit (b : TcpBuffer) : Prop :=
  Scannable b.buffer b.writeIndex b.readIndex b.writeIndex b.readIndex ∧
    ∀ k, Selects b k →
      FrameFits b.buffer (endIndex b.buffer k + 1) 1 (frameAt b.buffer k)

instance (b : TcpBuffer) : Decidable (LengthsFit b) :=
  inferInstanceAs (Decidable (_ ∧ ∀ k, Selects b k → _))

variable {b : TcpBuffer}

/-- **The accesses of an iteration stay in bounds** exactly if the lengths it meets fit. -/
theorem inBounds_iff_lengthsFit (hwf : b.WellFormed) : InBounds b ↔ LengthsFit b := by
  have hw := hwf.write_le_size
  unfold InBounds LengthsFit
  rw [scanBuffer, scan_all_iff (by exact_mod_cast hw) (by omega) le_rfl le_rfl
    hwf.write_eq.symm, ← scanBuffer]
  apply and_congr_right
  intro hscan
  -- Bounds between the indices are bounds of the vector: the scan returns what it finds.
  have hfits : ScanFits b := hscan.mono (by omega) (by exact_mod_cast hw)
  have hparse : ∀ k, Selects b k →
      ((parseFrame b.buffer (frameAt b.buffer k)).All
        (Access.Within (frameAt b.buffer k).start ((frameAt b.buffer k).stop + 1) 1) ↔
      FrameFits b.buffer (endIndex b.buffer k + 1) 1 (frameAt b.buffer k)) := by
    intro k hk
    obtain ⟨-, -, h5, h0, hlt, hstop⟩ := hk.bounds hwf hfits
    exact parseFrame_all_iff (by omega) hwf.size_lt (by omega) le_rfl (by omega) h5 hstop
  constructor
  · intro h k hk
    exact (hparse k hk).mp
      (h _ ((scanBuffer_ok_iff hwf).mpr ⟨hfits, finds_some_iff.mpr ⟨k, hk, rfl⟩⟩))
  · intro h f hf
    obtain ⟨k, hk, rfl⟩ := finds_some_iff.mp ((scanBuffer_ok_iff hwf).mp hf).2
    exact (hparse k hk).mpr (h k hk)

/-- **The accesses of the decoder stay in bounds** exactly if all lengths its iterations meet
fit. -/
theorem inBounds_iff (hwf : b.WellFormed) :
    (∀ ts b', Takes b ts b' → InBounds b') ↔ ∀ ts b', Takes b ts b' → LengthsFit b' :=
  forall_congr' fun _ => forall_congr' fun _ => forall_congr' fun hts =>
    inBounds_iff_lengthsFit (hts.wellFormed hwf).1

/-- An empty frame, and what is left when it is taken. -/
theorem inBounds_iff_sample : InBounds ⟨[2, 0, 0, 0, 6, 3, 0, 0], 0, 6⟩ ∧
    InBounds (takenAt ⟨[2, 0, 0, 0, 6, 3, 0, 0], 0, 6⟩ 0).rest := by
  have htaken : (iteration ⟨[2, 0, 0, 0, 6, 3, 0, 0], 0, 6⟩).result =
      .ok (some (takenAt ⟨[2, 0, 0, 0, 6, 3, 0, 0], 0, 6⟩ 0)) := by decide
  have hall : ∀ ts b', Takes ⟨[2, 0, 0, 0, 6, 3, 0, 0], 0, 6⟩ ts b' → InBounds b' := by
    refine (inBounds_iff (by decide)).mpr fun ts b' hts => ?_
    rcases hts.eq_or_of_single htaken (by decide) with rfl | rfl
    · decide
    · decide
  exact ⟨hall _ _ (.nil _), hall _ _ (.cons htaken (.nil _))⟩

/-- **A start marker can declare an end below the vector**: the scan of these five bytes reads the
byte at the index `-1`. -/
theorem not_inBounds_negative :
    TcpBuffer.WellFormed ⟨[2, 0, 0, 0, 0, 0, 0, 0], 0, 5⟩ ∧
      ¬ ∀ ts b', Takes ⟨[2, 0, 0, 0, 0, 0, 0, 0], 0, 5⟩ ts b' → InBounds b' := by
  refine ⟨by decide, fun h => ?_⟩
  -- The declared length is zero, so its end marker would be in front of the start marker.
  have hread : Access.load (-1) 1 ∈ (scanBuffer ⟨[2, 0, 0, 0, 0, 0, 0, 0], 0, 5⟩).trace := by
    decide
  exact absurd ((h [] _ (.nil _)).1 _ hread) (by decide)

end TalonRPC.TinyPBCoder
