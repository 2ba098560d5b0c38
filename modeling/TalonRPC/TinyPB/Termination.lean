import TalonRPC.TinyPB.Iteration

/-!
# Termination of the decoder

The outer loop of `decode` is left when a scan finds no frame, and every iteration before that is
meant to take bytes off the buffer. It does so when the frame it takes declares a positive length
that leaves the read index below the size of the vector: `moveReadIndex` refuses to move to the
size itself, and the next iteration then starts where this one did.

## Main definitions

* `Terminates`: the decoder returns, and each of its iterations before that makes progress
* `Advances`: the frame an iteration takes moves the read index forward, within the vector

## Main results

* `terminates_iff`: the decoder terminates exactly if its iterations stay in the vector and advance
* `not_decodes_stuckBuffer`: an empty frame keeps it running for ever
-/

namespace TalonRPC.TinyPBCoder

open Bytes Machine TinyPBProtocol

/-- The decoder returns, and every iteration that does not return decreases the number of readable
bytes. -/
def Terminates (b : TcpBuffer) : Prop :=
  (∃ ms b', Decodes b ms b') ∧ ∀ ts b' t, Takes b ts b' → (iteration b').result = .ok (some t) →
    t.rest.readAble < b'.readAble

/-- The frame an iteration on `b` takes has a positive length, and ends below the size of the
vector when counted from the read index. -/
def Advances (b : TcpBuffer) : Prop :=
  ∀ k, Selects b k → 1 ≤ lengthAt b k ∧ b.readIndex + lengthAt b k < b.buffer.length

instance (b : TcpBuffer) : Decidable (Advances b) :=
  inferInstanceAs (Decidable (∀ k, Selects b k → _))

variable {b b' : TcpBuffer}

/-- An iteration that continues makes progress exactly if it advances. -/
theorem readAble_lt_iff (hwf : b.WellFormed) {t : Taken}
    (ht : (iteration b).result = .ok (some t)) :
    t.rest.readAble < b.readAble ↔ Advances b := by
  obtain ⟨hfits, k, hk, -, rfl⟩ := (iteration_some_iff hwf).mp ht
  obtain ⟨hle, -, -, -, hlt, -⟩ := hk.bounds hwf hfits
  rw [takenAt, TcpBuffer.readAble_moveReadIndex_lt_iff hwf (by omega)]
  constructor
  · intro h k' hk'
    rwa [← hk.unique hk']
  · intro h
    exact h k hk

theorem exists_decodes (hwf : b.WellFormed)
    (hgood : ∀ ts b', Takes b ts b' → InVector b' ∧ Advances b') : ∃ ms b', Decodes b ms b' := by
  have hdecrease : ∀ s, Reaches decodeStep ([], b) s → ∀ s', decodeStep s = .next s' →
      s'.2.readAble < s.2.readAble := by
    intro s hs s' hnext
    obtain ⟨ts, hts, -⟩ := exists_takes_of_reaches hs
    obtain ⟨t, ht, rfl⟩ := decodeStep_next_iff.mp hnext
    exact (readAble_lt_iff (hts.wellFormed hwf).1 ht).mpr (hgood ts _ hts).2
  -- The readable bytes are the measure.
  obtain ⟨r, hr⟩ := exists_ends_of_measure
    (μ := fun s : List TinyPBProtocol × TcpBuffer => s.2.readAble) hdecrease
  obtain ⟨s, hs, hdone⟩ := ends_iff_reaches.mp hr
  obtain ⟨ts, hts, -⟩ := exists_takes_of_reaches hs
  -- The iteration that leaves the loop does not fail.
  obtain ⟨t, ht⟩ := (iteration_ok_iff_inVector (hts.wellFormed hwf).1).mpr (hgood ts _ hts).1
  cases t with
  | none => exact ⟨messages ts, s.2, decodes_iff.mpr ⟨ts, hts, ht, rfl⟩⟩
  | some t => cases hdone.symm.trans (decodeStep_next_iff.mpr ⟨t, ht, rfl⟩)

/-- **The decoder terminates** exactly if all iterations it comes to stay within the vector and
advance. -/
theorem terminates_iff (hwf : b.WellFormed) :
    Terminates b ↔ ∀ ts b', Takes b ts b' → InVector b' ∧ Advances b' := by
  constructor
  · rintro ⟨⟨ms, b'', hdecodes⟩, hdecrease⟩ ts b' hts
    have hwf' := (hts.wellFormed hwf).1
    -- The decoder also returns from `b'`, so the iteration there does not fail.
    obtain ⟨ms', hdecodes'⟩ := hdecodes.of_takes hts
    obtain ⟨t, ht⟩ := hdecodes'.iteration_ok
    refine ⟨(iteration_ok_iff_inVector hwf').mp ⟨t, ht⟩, ?_⟩
    cases t with
    | none =>
      obtain ⟨-, hnone⟩ := (iteration_none_iff hwf').mp ht
      exact fun k hk => absurd hk.2.1 (hnone k hk.1)
    | some t => exact (readAble_lt_iff hwf' ht).mp (hdecrease ts b' t hts ht)
  · intro hgood
    refine ⟨exists_decodes hwf hgood, fun ts b' t hts ht => ?_⟩
    exact (readAble_lt_iff (hts.wellFormed hwf).1 ht).mpr (hgood ts b' hts).2

/-- A frame of length zero behind an end marker. -/
def stuckBuffer : TcpBuffer := ⟨[3, 2, 0, 0, 0, 0, 0, 0, 0, 0], 0, 6⟩

/-- An empty frame that is taken off the buffer. -/
theorem terminates_iff_sample : Terminates ⟨[2, 0, 0, 0, 6, 3, 0, 0], 0, 6⟩ := by
  refine (terminates_iff (by decide)).mpr fun ts b' hts => ?_
  rcases hts.eq_or_of_single (t := takenAt ⟨[2, 0, 0, 0, 6, 3, 0, 0], 0, 6⟩ 0) (by decide)
    (by decide) with rfl | rfl
  · decide
  · decide

/-- **The decoder does not return** from a frame of length zero: it takes nothing off the buffer,
for ever. -/
theorem not_decodes_stuckBuffer : stuckBuffer.WellFormed ∧ ¬ Terminates stuckBuffer := by
  refine ⟨by decide, fun h => ?_⟩
  obtain ⟨ms, b', hdecodes⟩ := h.1
  -- The frame is refused by the parser, and nothing is taken off the buffer.
  have hstays : ∀ s, s = ([], stuckBuffer) →
      ∃ s', decodeStep s = .next s' ∧ s' = ([], stuckBuffer) := by
    rintro _ rfl
    exact ⟨_, by decide, rfl⟩
  exact not_ends_of_invariant (I := fun s => s = ([], stuckBuffer)) rfl hstays (hdecodes [])

end TalonRPC.TinyPBCoder
