import Mathlib.Data.List.Induction

/-!
# First in, first out

A queue takes items at its end and gives them up at its front. Whatever is done to it, the items it
has given up and the items it still holds are those it has taken, in their order.

## Main definitions

* `FifoEvent`: items are put in or taken out, or the queue is left alone
* `pending es`: what the queue holds after the events `es`
* `answers es`: what it has answered to the requests for items

## Main results

* `answered_append_pending`: what was given up and what is held are what was put in
-/

namespace Machine

variable {α : Type}

/-- What is done to a queue: items are put in, at most `n` items are asked for, or it is left
alone. -/
inductive FifoEvent (α : Type)
  | put (xs : List α)
  | take (n : ℕ)
  | keep
  deriving DecidableEq, Repr

namespace FifoEvent

/-- The queue after an event. -/
def apply (q : List α) : FifoEvent α → List α
  | .put xs => q ++ xs
  | .take n => q.drop n
  | .keep => q

/-- The answer to an event: a request is answered with the first items of the queue, if it has
any. -/
def answer (q : List α) : FifoEvent α → List (Option (List α))
  | .take n => if q = [] then [none] else [some (q.take n)]
  | _ => []

/-- The items that an event puts in. -/
def items : FifoEvent α → List α
  | .put xs => xs
  | _ => []

end FifoEvent

/-- What a queue, empty at first, holds after the events. -/
def pending (es : List (FifoEvent α)) : List α := es.foldl FifoEvent.apply []

/-- What a queue that holds `q` answers to the events. -/
def answersFrom (q : List α) : List (FifoEvent α) → List (Option (List α))
  | [] => []
  | e :: es => e.answer q ++ answersFrom (e.apply q) es

/-- What a queue, empty at first, answers to the events. -/
def answers (es : List (FifoEvent α)) : List (Option (List α)) := answersFrom [] es

/-- The items put in, in their order. -/
def put (es : List (FifoEvent α)) : List α := es.flatMap FifoEvent.items

variable {es : List (FifoEvent α)} {e : FifoEvent α}

theorem pending_snoc : pending (es ++ [e]) = e.apply (pending es) := by
  rw [pending, List.foldl_append]
  rfl

theorem answers_snoc : answers (es ++ [e]) = answers es ++ e.answer (pending es) := by
  have hfrom : ∀ q : List α,
      answersFrom q (es ++ [e]) = answersFrom q es ++ e.answer (es.foldl FifoEvent.apply q) := by
    induction es with
    | nil => simp [answersFrom]
    | cons e' es ih =>
      intro q
      rw [List.cons_append, answersFrom, answersFrom, ih, List.append_assoc]
      rfl
  exact hfrom []

theorem put_snoc : put (es ++ [e]) = put es ++ e.items := by
  simp [put]

/-- **First in, first out**: the items given up and those still held are the ones put in. -/
theorem answered_append_pending (es : List (FifoEvent α)) :
    ((answers es).flatMap fun a => a.getD []) ++ pending es = put es := by
  induction es using List.reverseRecOn with
  | nil => rfl
  | append_singleton es e ih =>
    rw [answers_snoc, pending_snoc, put_snoc, List.flatMap_append, ← ih]
    cases e with
    | put xs => simp [FifoEvent.apply, FifoEvent.answer, FifoEvent.items]
    | take n =>
      by_cases hq : pending es = []
      · simp [FifoEvent.apply, FifoEvent.answer, FifoEvent.items, hq]
      · simp [FifoEvent.apply, FifoEvent.answer, FifoEvent.items, hq]
    | keep => simp [FifoEvent.apply, FifoEvent.answer, FifoEvent.items]

end Machine
