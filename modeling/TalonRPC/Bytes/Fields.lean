import Mathlib.Data.List.TakeWhile

/-!
# Fields of a text

A separator that occurs in a text cuts it, at its first place, into the field before it and the
rest. A field without the separator, written in front of one, is found again.

## Main results

* `takeWhile_ne_eq_iff`: a text is all in front of the separator exactly if it has none
* `takeWhile_ne_append`, `dropWhile_ne_append`: the field in front of a separator, and what follows
-/

namespace Bytes

variable {α : Type} [DecidableEq α] {c : α} {front rest : List α}

theorem takeWhile_ne_eq_iff : front.takeWhile (· ≠ c) = front ↔ c ∉ front := by
  rw [List.takeWhile_eq_self_iff]
  constructor
  · exact fun h hc => by simpa using h c hc
  · intro h a ha
    simpa using fun heq : a = c => h (heq ▸ ha)

theorem takeWhile_ne_append (h : c ∉ front) :
    (front ++ c :: rest).takeWhile (· ≠ c) = front := by
  have hne : ∀ a ∈ front, decide (a ≠ c) = true := by
    intro a ha
    exact decide_eq_true fun heq => h (heq ▸ ha)
  rw [List.takeWhile_append_of_pos hne, List.takeWhile_cons_of_neg (by simp), List.append_nil]

theorem dropWhile_ne_append (h : c ∉ front) :
    (front ++ c :: rest).dropWhile (· ≠ c) = c :: rest := by
  have hne : ∀ a ∈ front, decide (a ≠ c) = true := by
    intro a ha
    exact decide_eq_true fun heq => h (heq ▸ ha)
  rw [List.dropWhile_append_of_pos hne, List.dropWhile_cons_of_neg (by simp)]

end Bytes
