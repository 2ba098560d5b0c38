import Mathlib.Data.List.Basic
import Mathlib.Tactic.SplitIfs

/-!
# Slices of a list

A slice is the run of `n` elements from index `i`. It is what a copy out of an array moves, and
what the part of an array between two indices holds.

## Main definitions

* `slice l i n`: the elements `i, …, i + n - 1` of `l`
* `HoldsAt l i q`: those elements, as many as `q` has, are `q`

## Main results

* `slice_middle`: the slice of a concatenation that is its middle part
* `slice_add`: cutting a slice in two
* `holdsAt_append`: a concatenation is held part by part
-/

namespace Bytes

variable {α : Type}

/-- The run of `n` elements of `l` from index `i`. -/
def slice (l : List α) (i n : ℕ) : List α := (l.drop i).take n

@[simp] theorem slice_zero_right (l : List α) (i : ℕ) : slice l i 0 = [] := by simp [slice]

theorem length_slice (l : List α) (i n : ℕ) : (slice l i n).length = min n (l.length - i) := by
  simp [slice]

theorem length_slice_of_le {l : List α} {i n : ℕ} (h : i + n ≤ l.length) :
    (slice l i n).length = n := by
  rw [length_slice]
  omega

/-- The slice that covers the middle part of a concatenation. -/
theorem slice_middle {p q r : List α} {i n : ℕ} (hi : p.length = i) (hn : q.length = n) :
    slice (p ++ (q ++ r)) i n = q := by
  subst hi hn
  rw [slice, List.drop_left, List.take_left]

/-- Cutting a slice in two. -/
theorem slice_add (l : List α) (i k m : ℕ) :
    slice l i (k + m) = slice l i k ++ slice l (i + k) m := by
  rw [slice, slice, slice, ← List.drop_drop, List.take_add]

/-- Dropping from the front of a slice. -/
theorem drop_slice (l : List α) (i n k : ℕ) :
    (slice l i n).drop k = slice l (i + k) (n - k) := by
  rw [slice, slice, List.drop_take, List.drop_drop]

/-! ## What a list holds at an index -/

/-- The list `l` holds `q` at the index `i`. -/
def HoldsAt (l : List α) (i : ℕ) (q : List α) : Prop := slice l i q.length = q

variable {l q r : List α} {i : ℕ}

theorem HoldsAt.slice_eq (h : HoldsAt l i q) {n : ℕ} (hn : n = q.length) : slice l i n = q :=
  hn ▸ h

/-- A concatenation is held where its parts are, one behind the other. -/
theorem holdsAt_append : HoldsAt l i (q ++ r) ↔ HoldsAt l i q ∧ HoldsAt l (i + q.length) r := by
  unfold HoldsAt
  rw [List.length_append, slice_add]
  constructor
  · intro h
    have hlen := congrArg List.length h
    simp only [List.length_append, length_slice] at hlen
    exact List.append_inj h (by rw [length_slice]; omega)
  · rintro ⟨h₁, h₂⟩
    rw [h₁, h₂]

theorem holdsAt_singleton {a : α} : HoldsAt l i [a] ↔ l[i]? = some a := by
  unfold HoldsAt
  rw [List.length_singleton, slice]
  cases h : l[i]? with
  | none => simp [List.drop_eq_nil_of_le (List.getElem?_eq_none_iff.mp h)]
  | some b =>
    obtain ⟨hlt, rfl⟩ := List.getElem?_eq_some_iff.mp h
    rw [List.drop_eq_getElem_cons hlt]
    simp only [List.take_succ_cons, List.take_zero, List.cons.injEq, and_true, Option.some.injEq]

end Bytes
