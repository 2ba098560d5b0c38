import Mathlib.Algebra.Ring.Int.Defs
import Mathlib.Algebra.Ring.Nat
import Mathlib.Data.List.Basic
import Mathlib.Tactic.SplitIfs

/-!
# Network byte order

A 32-bit signed word as four bytes, most significant first, and back: `htonl` and `ntohl` around
a `memcpy`. Int arithmetic that leaves the 32-bit range wraps around.

## Main definitions

* `be32`, `ofBe32`: the four bytes of a word, and the word of four bytes
* `wrap32`: the value a 32-bit signed variable holds after an assignment

## Main results

* `ofBe32_be32`, `be32_ofBe32`: the two are inverse to each other
* `wrap32_of_range`: assignments in range keep their value
-/

namespace Bytes

/-- The four bytes of a word, most significant first. -/
def be32 (x : Int32) : List UInt8 :=
  [.ofBitVec (x.toBitVec.extractLsb' 24 8), .ofBitVec (x.toBitVec.extractLsb' 16 8),
    .ofBitVec (x.toBitVec.extractLsb' 8 8), .ofBitVec (x.toBitVec.extractLsb' 0 8)]

/-- The word whose bytes, most significant first, are the given four. -/
def ofBe32 : List UInt8 → Int32
  | [a, b, c, d] => .ofBitVec (a.toBitVec ++ b.toBitVec ++ c.toBitVec ++ d.toBitVec)
  | _ => 0

@[simp] theorem length_be32 (x : Int32) : (be32 x).length = 4 := rfl

@[simp] theorem ofBe32_be32 (x : Int32) : ofBe32 (be32 x) = x := by
  apply Int32.toBitVec_inj.mp
  simp only [be32, ofBe32, Int32.toBitVec_ofBitVec]
  rw [BitVec.extractLsb'_append_extractLsb'_eq_extractLsb' (show 24 = 16 + 8 from rfl),
    BitVec.extractLsb'_append_extractLsb'_eq_extractLsb' (show 16 = 8 + 8 from rfl),
    BitVec.extractLsb'_append_extractLsb'_eq_extractLsb' (show 8 = 0 + 8 from rfl)]
  exact BitVec.extractLsb'_eq_self

theorem be32_ofBe32 {l : List UInt8} (h : l.length = 4) : be32 (ofBe32 l) = l := by
  obtain ⟨a, b, c, d, rfl⟩ := List.length_eq_four.mp h
  simp only [be32, ofBe32, List.cons.injEq, and_true, Int32.toBitVec_ofBitVec]
  refine ⟨?_, ?_, ?_, ?_⟩ <;> apply UInt8.toBitVec_inj.mp <;> ext i hi <;> simp <;> grind

/-- The value of a 32-bit signed variable after `x` is assigned to it. -/
def wrap32 (x : ℤ) : ℤ := x.bmod (2 ^ 32)

theorem wrap32_of_range {x : ℤ} (hl : -2 ^ 31 ≤ x) (hu : x < 2 ^ 31) : wrap32 x = x :=
  Int.bmod_eq_of_le (by omega) (by omega)

theorem wrap32_range (x : ℤ) : -2 ^ 31 ≤ wrap32 x ∧ wrap32 x < 2 ^ 31 := by
  have hl := Int.le_bmod (x := x) (m := 2 ^ 32) (by decide)
  have hu := Int.bmod_lt (x := x) (m := 2 ^ 32) (by decide)
  unfold wrap32
  omega

/-- Wrapping adds a multiple of `2 ^ 32`. -/
theorem wrap32_eq (x : ℤ) : ∃ k : ℤ, wrap32 x = x + 2 ^ 32 * k := by
  simp only [wrap32, Int.bmod]
  split_ifs
  · exact ⟨-(x / 2 ^ 32), by omega⟩
  · exact ⟨-(x / 2 ^ 32) - 1, by omega⟩

theorem toInt_range (x : Int32) : -2 ^ 31 ≤ x.toInt ∧ x.toInt < 2 ^ 31 :=
  ⟨x.minValue_le_toInt, x.toInt_lt⟩

/-- The word of a length below `2 ^ 31` reads back as that length. -/
theorem toInt_ofNat {n : ℕ} (h : n < 2 ^ 31) : (Int32.ofInt n).toInt = n :=
  Int32.toInt_ofInt_of_le (by omega) (by omega)

example : be32 (-2) = [255, 255, 255, 254] := by decide

end Bytes
