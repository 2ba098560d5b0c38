import Mathlib.Data.Nat.Basic
import Mathlib.Logic.Relation

/-!
# Loops

A `while (true)` loop is a step function on its variables: an iteration either continues with
new values or leaves the loop with a result. A loop may run forever, so its result is that of a
run with enough iterations, if there is one.

## Main definitions

* `Verdict σ ρ`: an iteration continues or leaves the loop
* `iterate step n s`: the result within `n` iterations
* `Ends step s r`: the loop, entered at `s`, leaves with `r`
* `Reaches step s s'`: an iteration of the loop entered at `s` starts at `s'`

## Main results

* `ends_iff_reaches`: a loop ends with the result of the iteration that leaves it
* `Reaches.invariant`: the invariant rule
* `exists_ends_of_measure`: a measure every continuing iteration decreases ends the loop
* `not_ends_of_invariant`: an invariant that never leaves keeps the loop running
-/

namespace Machine

/-- What an iteration of a loop does: continue, or leave the loop. -/
inductive Verdict (σ ρ : Type)
  | next (s : σ)
  | done (r : ρ)
  deriving DecidableEq

section Loop

variable {σ ρ : Type} (step : σ → Verdict σ ρ)

/-- The result of the loop, if it leaves within `n` iterations. -/
def iterate : ℕ → σ → Option ρ
  | 0, _ => none
  | n + 1, s =>
    match step s with
    | .next s' => iterate n s'
    | .done r => some r

/-- The loop entered at `s` leaves with the result `r`. -/
def Ends (s : σ) (r : ρ) : Prop := ∃ n, iterate step n s = some r

/-- An iteration of the loop entered at `s` starts at `s'`. -/
abbrev Reaches : σ → σ → Prop := Relation.ReflTransGen fun s s' => step s = .next s'

variable {step} {s s' : σ} {r r' : ρ} {n m : ℕ}

theorem iterate_next (h : step s = .next s') : iterate step (n + 1) s = iterate step n s' := by
  simp only [iterate, h]

theorem iterate_done (h : step s = .done r) : iterate step (n + 1) s = some r := by
  simp only [iterate, h]

theorem iterate_mono (h : iterate step n s = some r) (hnm : n ≤ m) :
    iterate step m s = some r := by
  induction n generalizing s m with
  | zero => cases h
  | succ n ih =>
    -- More iterations than enough are enough: both runs make the first one.
    obtain ⟨m, rfl⟩ := Nat.exists_eq_add_of_le' (show 1 ≤ m by omega)
    cases hs : step s with
    | next s' =>
      rw [iterate_next hs] at h ⊢
      exact ih h (by omega)
    | done r' =>
      rw [iterate_done hs] at h ⊢
      exact h

theorem Ends.unique (h : Ends step s r) (h' : Ends step s r') : r = r' := by
  obtain ⟨n, hn⟩ := h
  obtain ⟨m, hm⟩ := h'
  have hn' := iterate_mono hn (Nat.le_max_left n m)
  have hm' := iterate_mono hm (Nat.le_max_right n m)
  exact Option.some.inj (hn'.symm.trans hm')

theorem Ends.done (h : step s = .done r) : Ends step s r := ⟨1, iterate_done h⟩

theorem ends_next_iff (h : step s = .next s') : Ends step s r ↔ Ends step s' r := by
  constructor
  · rintro ⟨n, hn⟩
    cases n with
    | zero => cases hn
    | succ n => exact ⟨n, by rwa [iterate_next h] at hn⟩
  · rintro ⟨n, hn⟩
    exact ⟨n + 1, by rwa [iterate_next h]⟩

theorem Reaches.ends_iff (h : Reaches step s s') : Ends step s r ↔ Ends step s' r := by
  induction h with
  | refl => rfl
  | tail _ hs ih => rw [ih, ends_next_iff hs]

/-- **A loop ends** with the result of the iteration that leaves it. -/
theorem ends_iff_reaches : Ends step s r ↔ ∃ s', Reaches step s s' ∧ step s' = .done r := by
  constructor
  · rintro ⟨n, hn⟩
    induction n generalizing s with
    | zero => cases hn
    | succ n ih =>
      cases hs : step s with
      | next s' =>
        rw [iterate_next hs] at hn
        obtain ⟨t, ht, hd⟩ := ih hn
        exact ⟨t, .head hs ht, hd⟩
      | done r' =>
        rw [iterate_done hs] at hn
        obtain rfl := Option.some.inj hn
        exact ⟨s, .refl, hs⟩
  · rintro ⟨s', hr, hd⟩
    exact hr.ends_iff.mpr (.done hd)

/-- **The invariant rule.** -/
theorem Reaches.invariant {I : σ → Prop} (h : Reaches step s s') (h0 : I s)
    (hI : ∀ s s', I s → step s = .next s' → I s') : I s' := by
  induction h with
  | refl => exact h0
  | tail _ hs ih => exact hI _ _ ih hs

/-- **The measure rule**: a loop whose continuing iterations all decrease a measure leaves, after
at most one iteration more than the measure at entry. -/
theorem exists_iterate_of_measure {μ : σ → ℕ}
    (hμ : ∀ t, Reaches step s t → ∀ t', step t = .next t' → μ t' < μ t) :
    ∃ r, iterate step (μ s + 1) s = some r := by
  -- Along a run the measure falls, so the rest of the run has fewer iterations.
  induction hn : μ s using Nat.strongRecOn generalizing s with
  | ind n ih =>
    cases hs : step s with
    | done r => exact ⟨r, iterate_done hs⟩
    | next s' =>
      have hlt := hμ s .refl s' hs
      obtain ⟨r, hr⟩ := ih (μ s') (by omega) (fun t ht => hμ t (.head hs ht)) rfl
      -- `iterate` gives the rest all that is left of the bound, which is more than it needs.
      refine ⟨r, ?_⟩
      rw [iterate_next hs]
      exact iterate_mono hr (by omega)

theorem exists_ends_of_measure {μ : σ → ℕ}
    (hμ : ∀ t, Reaches step s t → ∀ t', step t = .next t' → μ t' < μ t) :
    ∃ r, Ends step s r := by
  obtain ⟨r, hr⟩ := exists_iterate_of_measure hμ
  exact ⟨r, _, hr⟩

/-- An invariant under which every iteration continues keeps the loop running. -/
theorem not_ends_of_invariant {I : σ → Prop} (h0 : I s)
    (hI : ∀ s, I s → ∃ s', step s = .next s' ∧ I s') : ¬ Ends step s r := by
  rintro ⟨n, hn⟩
  induction n generalizing s with
  | zero => cases hn
  | succ n ih =>
    obtain ⟨s', hs, hi⟩ := hI s h0
    rw [iterate_next hs] at hn
    exact ih hi hn

end Loop

end Machine
