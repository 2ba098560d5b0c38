import Mathlib.Data.List.Pairwise
import TalonRPC.TinyPB.Image

/-!
# The bytes the decoder consumes

A scan may pass over bytes before it finds a frame, but the read index moves by the length of the
frame from where it was before. So a frame that does not start at the read index leaves its last
bytes to be read again. While a decoder runs, no byte is added, so a byte is known by its distance
to the write index, in all the buffers the decoder comes to.

## Main definitions

* `pieces`: the byte ranges of the frames taken, in the region that was readable at the start
* `ConsumesInOrder`: the frames are disjoint ranges from left to right, and what follows is left
* `Aligned`: the frame an iteration takes starts at the read index, and has a positive length

## Main results

* `consumesInOrder_iff`: frames are consumed in order exactly if all iterations are aligned
* `not_consumesInOrder_skipped`: a byte before a frame makes its end marker readable again
-/

namespace TalonRPC.TinyPBCoder

open Bytes Machine TinyPBProtocol

/-- A range of the region that was readable at the start, and the bytes of a frame. -/
structure Piece where
  first : ℤ
  behind : ℤ
  bytes : ByteString
  deriving DecidableEq, Repr

/-- The ranges of the frames `ts` that the iterations from the buffer `b` on take, in a region that
ends at the write index and has `n` bytes. -/
def pieces (n : ℤ) : TcpBuffer → List Taken → List Piece
  | _, [] => []
  | b, t :: ts =>
    { first := n - (b.writeIndex - t.frame.start)
      behind := n - (b.writeIndex - (t.frame.stop + 1))
      bytes := frameBytes b.buffer t.frame } :: pieces n t.rest ts

/-- The index behind the last of the pieces, or `d` if there is none. -/
def endOf (d : ℤ) : List Piece → ℤ
  | [] => d
  | p :: ps => endOf p.behind ps

theorem endOf_eq (d : ℤ) (ps : List Piece) : endOf d ps = d ∨ ∃ p ∈ ps, endOf d ps = p.behind := by
  induction ps generalizing d with
  | nil => exact .inl rfl
  | cons p ps ih =>
    rcases ih p.behind with h | ⟨q, hq, h⟩
    · exact .inr ⟨p, List.mem_cons_self .., h⟩
    · exact .inr ⟨q, List.mem_cons_of_mem _ hq, h⟩

/-- The frames `ts` taken from `b` are ranges of its readable bytes, pairwise disjoint and from left
to right, and `b'` holds the bytes behind the last of them. -/
structure ConsumesInOrder (b : TcpBuffer) (ts : List Taken) (b' : TcpBuffer) : Prop where
  within : ∀ p ∈ pieces b.readAble b ts, 0 ≤ p.first ∧ p.first < p.behind ∧
    p.behind ≤ b.readAble ∧ p.bytes = slice b.readable p.first.toNat (p.behind - p.first).toNat
  ordered : (pieces b.readAble b ts).Pairwise fun p q => p.behind ≤ q.first
  rest : b'.readable = b.readable.drop (endOf 0 (pieces b.readAble b ts)).toNat

/-- The frame an iteration on `b` takes starts at the read index, and has a positive length. -/
def Aligned (b : TcpBuffer) : Prop := ∀ k, Selects b k → k = b.readIndex ∧ 1 ≤ lengthAt b k

instance (b : TcpBuffer) : Decidable (Aligned b) :=
  inferInstanceAs (Decidable (∀ k, Selects b k → _))

variable {b b' c : TcpBuffer} {ts : List Taken} {k : ℕ} {n : ℤ}

/-- The range of the frame taken at `k`. -/
theorem piece_takenAt (hwf : b.WellFormed) (hfits : ScanFits b) (hk : Selects b k) :
    pieces n b (takenAt b k :: ts) =
      ⟨n - (b.writeIndex - k), n - (b.writeIndex - k) + lengthAt b k,
        slice b.buffer k (lengthAt b k).toNat⟩ :: pieces n (takenAt b k).rest ts := by
  obtain ⟨-, -, -, -, -, hstop⟩ := hk.bounds hwf hfits
  have hlen := (Selects.parse_ok_iff hwf hfits hk (d := none)).2
  rw [pieces]
  congr 1
  -- The last byte of the frame is one in front of `behind`.
  rw [Piece.mk.injEq]
  refine ⟨rfl, ?_, ?_⟩
  · rw [show (takenAt b k).frame = frameAt b.buffer k from rfl, hstop]
    omega
  · rw [show (takenAt b k).frame = frameAt b.buffer k from rfl, frameBytes, hlen]
    rfl

/-- A frame of positive length, wherever it starts, takes that many bytes off the front. -/
theorem advance_of_room (hwf : b.WellFormed) (hroom : b.writeIndex < b.buffer.length)
    (hfits : ScanFits b) (hk : Selects b k) (hpos : 1 ≤ lengthAt b k) :
    (takenAt b k).rest.WellFormed ∧
      (takenAt b k).rest.writeIndex < (takenAt b k).rest.buffer.length ∧
      (takenAt b k).rest.readable = b.readable.drop (lengthAt b k).toNat ∧
      ((takenAt b k).rest.readAble : ℤ) = b.readAble - lengthAt b k := by
  obtain ⟨hle, -, -, -, hlt, -⟩ := hk.bounds hwf hfits
  obtain ⟨hwf', hlen, hwrite⟩ := hk.wellFormed hwf hfits
  obtain ⟨hread, hreadAble⟩ := hk.advance hwf hfits hpos (by omega)
  refine ⟨hwf', ?_, hread, hreadAble⟩
  show (b.moveReadIndex (lengthAt b k)).writeIndex < (b.moveReadIndex (lengthAt b k)).buffer.length
  omega

/-! ## From aligned iterations to ranges in order -/

/-- The pieces of aligned iterations follow one another from the read index on. -/
theorem pieces_of_aligned (region : ByteString) (hwf : c.WellFormed)
    (hroom : c.writeIndex < c.buffer.length) (hts : Takes c ts b')
    (haligned : ∀ us c', Takes c us c' → Aligned c') {d : ℕ}
    (hread : c.readable = region.drop d) (hd : d + c.readAble = region.length) :
    (∀ p ∈ pieces region.length c ts, (d : ℤ) ≤ p.first ∧ p.first < p.behind ∧
        p.behind ≤ region.length ∧
        p.bytes = slice region p.first.toNat (p.behind - p.first).toNat) ∧
      (pieces region.length c ts).Pairwise (fun p q => p.behind ≤ q.first) ∧
      b'.readable = region.drop (endOf d (pieces region.length c ts)).toNat := by
  induction hts generalizing d with
  | nil c => simpa [pieces, endOf] using hread
  | @cons c b' t ts ht hts ih =>
    obtain ⟨hfits, k, hk, -, rfl⟩ := (iteration_some_iff hwf).mp ht
    -- The frame starts at the read index, at the distance `d` from the start of the region.
    obtain ⟨rfl, hpos⟩ := haligned [] c (.nil c) k hk
    obtain ⟨-, -, -, -, hlt, -⟩ := hk.bounds hwf hfits
    obtain ⟨hwf', hroom', hread', hreadAble'⟩ := advance_of_room hwf hroom hfits hk hpos
    have hw := hwf.write_eq
    obtain ⟨m, hm⟩ := Int.eq_ofNat_of_zero_le (show 0 ≤ lengthAt c c.readIndex by omega)
    obtain ⟨hpieces, hordered, hrest⟩ := @ih hwf' hroom'
      (fun us c' hus => haligned _ c' (.cons ht hus)) (d + m)
      (by rw [hread', hread, hm, List.drop_drop, Int.toNat_natCast]) (by omega)
    -- What is readable is a part of the region, so the frame has the bytes of the region.
    have hbytes : slice c.buffer c.readIndex m = slice region d m := calc
      slice c.buffer c.readIndex m = c.readable.take m := by
        rw [TcpBuffer.readable, slice, slice, List.take_take, Nat.min_eq_left (by omega)]
      _ = slice region d m := by rw [hread, slice]
    rw [piece_takenAt hwf hfits hk, hm, show (region.length - (c.writeIndex - c.readIndex) : ℤ) = d
      by omega]
    refine ⟨?_, List.pairwise_cons.mpr ⟨fun q hq => (hpieces q hq).1, hordered⟩, ?_⟩
    · intro p hp
      rcases List.mem_cons.mp hp with rfl | hp
      · refine ⟨le_rfl, by simp only; omega, by simp only; omega, ?_⟩
        simp only [Int.toNat_natCast, hbytes, add_sub_cancel_left]
      · obtain ⟨h₁, h₂, h₃, h₄⟩ := hpieces p hp
        exact ⟨by omega, h₂, h₃, h₄⟩
    · rw [endOf]
      exact_mod_cast hrest

/-! ## From ranges in order to aligned iterations -/

/-- **The gap rule**: how far a frame starts behind the read index can only grow from one frame to
the next if the ranges are in order, and it is zero for the last frame if nothing is left over. -/
theorem aligned_of_pieces (hwf : c.WellFormed) (hroom : c.writeIndex < c.buffer.length)
    (hts : Takes c ts b') (hend : (iteration b').result = .ok none)
    (hpos : ∀ p ∈ pieces n c ts, p.first < p.behind)
    (hordered : (pieces n c ts).Pairwise fun p q => p.behind ≤ q.first)
    (hrest : (b'.readAble : ℤ) = n - endOf (n - c.readAble) (pieces n c ts)) :
    ∀ us c', Takes c us c' → Aligned c' := by
  induction hts with
  | nil c =>
    intro us c' hus k hk
    obtain ⟨hfits, hnone⟩ := (iteration_none_iff hwf).mp hend
    cases hus with
    | nil => exact absurd hk.2.1 (hnone k hk.1)
    | cons hu _ => cases hu.symm.trans hend
  | @cons c b' t ts ht hts ih =>
    obtain ⟨hfits, k, hk, -, rfl⟩ := (iteration_some_iff hwf).mp ht
    have hw := hwf.write_eq
    rw [piece_takenAt hwf hfits hk] at hpos hordered hrest
    have hlength : 1 ≤ lengthAt c k := by
      have := hpos _ (List.mem_cons_self ..)
      dsimp only at this
      omega
    obtain ⟨hwf', hroom', -, hreadAble'⟩ := advance_of_room hwf hroom hfits hk hlength
    obtain ⟨hfirst, hordered⟩ := List.pairwise_cons.mp hordered
    rw [endOf] at hrest
    -- The bytes left over start behind the last frame, also for the rest of the run.
    have hrest' : (b'.readAble : ℤ) = n - endOf (n - (takenAt c k).rest.readAble)
        (pieces n (takenAt c k).rest ts) := by
      cases ts with
      | nil =>
        cases hts
        simp [pieces, endOf]
      | cons u ts => exact hrest
    -- The induction is on the run, so the next frame is known to start at its read index.
    have haligned := ih hwf' hroom' hend (fun p hp => hpos p (List.mem_cons_of_mem _ hp)) hordered
      hrest'
    -- The frame ends where the next one starts, or where the bytes left over start.
    have hnext : n - (c.writeIndex - k) + lengthAt c k ≤ n - (takenAt c k).rest.readAble := by
      cases hts with
      | nil =>
        simp only [pieces, endOf] at hrest
        omega
      | @cons _ _ u ts hu hus =>
        obtain ⟨hfits', k', hk', -, rfl⟩ := (iteration_some_iff hwf').mp hu
        obtain ⟨rfl, -⟩ := haligned [] _ (.nil _) k' hk'
        rw [piece_takenAt hwf' hfits' hk'] at hfirst
        have := hfirst _ (List.mem_cons_self ..)
        have hw' := hwf'.write_eq
        dsimp only at this
        omega
    have hle := hk.1
    intro us c' hus
    cases hus with
    | nil =>
      intro k' hk'
      obtain rfl := hk.unique hk'
      -- A frame that starts behind the read index would end behind that point.
      exact ⟨by omega, hlength⟩
    | cons hu hus =>
      obtain rfl := Option.some.inj (Except.ok.inj (hu.symm.trans ht))
      exact haligned _ c' hus

/-- **Frames are consumed in order** exactly if every iteration takes a frame that starts at the
read index and has a positive length. -/
theorem consumesInOrder_iff (hwf : b.WellFormed) (hroom : b.writeIndex < b.buffer.length)
    (hts : Takes b ts b') (hend : (iteration b').result = .ok none) :
    ConsumesInOrder b ts b' ↔ ∀ us c, Takes b us c → Aligned c := by
  have hlen := hwf.length_readable
  constructor
  · intro h
    refine aligned_of_pieces (n := b.readAble) hwf hroom hts hend (fun p hp => (h.within p hp).2.1)
      h.ordered ?_
    -- The last piece lies in the region, so what is dropped is no more than it has.
    have hbound : 0 ≤ endOf 0 (pieces b.readAble b ts) ∧
        endOf 0 (pieces b.readAble b ts) ≤ b.readAble := by
      rcases endOf_eq 0 (pieces b.readAble b ts) with h0 | ⟨p, hp, h0⟩
      · omega
      · have := h.within p hp
        omega
    rw [sub_self, ← (hts.wellFormed hwf).1.length_readable, h.rest, List.length_drop, hlen]
    omega
  · intro haligned
    obtain ⟨hwithin, hordered, hrest⟩ := pieces_of_aligned b.readable (d := 0) hwf hroom
      hts haligned (by simp) (by omega)
    rw [hlen] at hwithin hordered hrest
    exact ⟨hwithin, hordered, hrest⟩

/-- A message with the id `"a"`. -/
def alignedBuffer : TcpBuffer := ⟨fields { msgId := [0x61] } ++ [0, 0], 0, 27⟩

theorem consumesInOrder_iff_aligned :
    ConsumesInOrder alignedBuffer [takenAt alignedBuffer 0] (takenAt alignedBuffer 0).rest := by
  have htaken : (iteration alignedBuffer).result = .ok (some (takenAt alignedBuffer 0)) := by
    decide +kernel
  have hend : (iteration (takenAt alignedBuffer 0).rest).result = .ok none := by decide
  refine (consumesInOrder_iff (by decide) (by decide) (.cons htaken (.nil _)) hend).mpr ?_
  intro us c hus
  rcases hus.eq_or_of_single htaken hend with rfl | rfl
  · decide
  · decide

/-- A byte that is no marker, and behind it a message with the id `"a"`. -/
def skippedBuffer : TcpBuffer := ⟨[9] ++ fields { msgId := [0x61] } ++ [0, 0], 0, 28⟩

/-- **A byte before a message leaves the end marker of the message to be read again.** -/
theorem not_consumesInOrder_skipped : skippedBuffer.WellFormed ∧
    skippedBuffer.writeIndex < skippedBuffer.buffer.length ∧
    ∃ ts b', Takes skippedBuffer ts b' ∧ (iteration b').result = .ok none ∧
      ¬ ConsumesInOrder skippedBuffer ts b' := by
  refine ⟨by decide, by decide, [takenAt skippedBuffer 1], (takenAt skippedBuffer 1).rest,
    .cons (by decide +kernel) (.nil _), by decide +kernel, fun h => ?_⟩
  exact absurd h.rest (by decide)

end TalonRPC.TinyPBCoder
