import Mathlib.Data.List.Basic
import Mathlib.Tactic.SplitIfs

/-!
# Lines and padding

A text is read line by line. A separator ends each line; the last one may do without, unless it is
empty. And a line may have padding around what it says, as a run of one element in front and
behind.

## Main definitions

* `lines sep text`: the lines of a text
* `Bare a s`: `s` has no padding `a` at its ends
* `padded a l r s`: `s` with padding around it

## Main results

* `lines_append_cons`, `lines_of_notMem`: one line is read
* `lines_flatMap`: reading gives the lines that a text was made of
* `exists_padded`: every list is a bare one with padding around it
-/

namespace Bytes

variable {α : Type} {sep a c : α} {line text s : List α} {l r : ℕ}

section Lines

variable [DecidableEq α]

/-- The lines of a text, when `line` has been read of the first one already. -/
def linesFrom (sep : α) (line : List α) : List α → List (List α)
  | [] => if line = [] then [] else [line]
  | c :: text => if c = sep then line :: linesFrom sep [] text else linesFrom sep (line ++ [c]) text

/-- The lines of a text. -/
def lines (sep : α) (text : List α) : List (List α) := linesFrom sep [] text

theorem linesFrom_append (h : sep ∉ s) :
    linesFrom sep line (s ++ text) = linesFrom sep (line ++ s) text := by
  induction s generalizing line with
  | nil => rw [List.nil_append, List.append_nil]
  | cons c s ih =>
    rw [List.mem_cons, not_or] at h
    obtain ⟨hc, hs⟩ := h
    rw [List.cons_append, linesFrom, if_neg (Ne.symm hc), ih hs, List.append_assoc]
    rfl

/-- A line with its separator. -/
theorem lines_append_cons (h : sep ∉ line) (text : List α) :
    lines sep (line ++ sep :: text) = line :: lines sep text := by
  rw [lines, linesFrom_append h, List.nil_append, linesFrom, if_pos rfl]
  rfl

/-- A last line without one. -/
theorem lines_of_notMem (h : sep ∉ line) : lines sep line = if line = [] then [] else [line] := by
  have hline : linesFrom sep [] (line ++ []) = linesFrom sep ([] ++ line) [] := linesFrom_append h
  rwa [List.append_nil] at hline

/-- **Reading gives the lines that a text was made of**, except a last one that is empty. -/
theorem lines_flatMap {ls : List (List α)} {last : List α} (hls : ∀ line ∈ ls, sep ∉ line)
    (hlast : sep ∉ last) :
    lines sep (ls.flatMap (· ++ [sep]) ++ last) = ls ++ if last = [] then [] else [last] := by
  induction ls with
  | nil => exact lines_of_notMem hlast
  | cons line ls ih =>
    rw [List.flatMap_cons, List.append_assoc, List.append_assoc, List.singleton_append,
      lines_append_cons (hls line (List.mem_cons_self ..)),
      ih fun line hline => hls line (List.mem_cons_of_mem _ hline)]
    rfl

end Lines

/-! ## Padding -/

/-- There is no `a` at either end of `s`. -/
structure Bare (a : α) (s : List α) : Prop where
  head : s.head? ≠ some a
  last : s.getLast? ≠ some a

/-- `s` with `l` times `a` in front and `r` times behind. -/
def padded (a : α) (l r : ℕ) (s : List α) : List α :=
  List.replicate l a ++ (s ++ List.replicate r a)

theorem exists_replicate_append (a : α) (s : List α) :
    ∃ l t, s = List.replicate l a ++ t ∧ t.head? ≠ some a := by
  induction s with
  | nil => exact ⟨0, [], rfl, nofun⟩
  | cons c s ih =>
    obtain ⟨l, t, rfl, ht⟩ := ih
    by_cases hc : c = a
    · exact ⟨l + 1, t, by rw [hc]; rfl, ht⟩
    · exact ⟨0, _, rfl, fun h => hc (Option.some.inj h)⟩

theorem exists_append_replicate (a : α) (s : List α) :
    ∃ r t, s = t ++ List.replicate r a ∧ t.getLast? ≠ some a := by
  obtain ⟨r, t, hs, ht⟩ := exists_replicate_append a s.reverse
  refine ⟨r, t.reverse, ?_, by rwa [List.getLast?_reverse]⟩
  rw [← List.reverse_reverse s, hs, List.reverse_append, List.reverse_replicate]

/-- **Every list is a bare one with padding around it.** -/
theorem exists_padded (a : α) (s : List α) : ∃ l r t, Bare a t ∧ s = padded a l r t := by
  obtain ⟨l, u, rfl, hu⟩ := exists_replicate_append a s
  obtain ⟨r, t, rfl, ht⟩ := exists_append_replicate a u
  refine ⟨l, r, t, ⟨fun h => hu ?_, ht⟩, rfl⟩
  rw [List.head?_append, h, Option.some_or]

theorem mem_padded_of_mem (h : c ∈ s) : c ∈ padded a l r s :=
  List.mem_append_right _ (List.mem_append_left _ h)

end Bytes
