import Mathlib.Data.List.Basic

/-!
# Traced computations

A traced computation logs the events it performs, in order, and ends with a value or an error.
The log survives an error, so it also holds the event that caused it. A computation is guarded
by a property of events when it ends with a value exactly if all its events have the property.

## Main definitions

* `Traced ε τ α`: computations with events `τ`, errors `ε` and values `α`
* `Traced.perform e r`: the single event `e`, with the outcome `r`
* `Traced.All P x`: every event of `x` has the property `P`
* `Traced.Guarded D x`: `x` ends with a value exactly if all its events satisfy `D`

## Main results

* `Traced.result_bind_ok_iff`, `Traced.all_bind`: values and events of a sequence
* `Traced.Guarded.bind`, `Traced.Guarded.ite`: guarded computations compose
-/

namespace Machine

/-- A computation that logs events and ends with a value or an error. -/
structure Traced (ε τ α : Type) where
  trace : List τ
  result : Except ε α
  deriving DecidableEq

namespace Traced

variable {ε τ α β : Type}

/-- The computation `x`, and after it the one its value chooses. -/
protected def bind (x : Traced ε τ α) (f : α → Traced ε τ β) : Traced ε τ β :=
  match x.result with
  | .ok a => ⟨x.trace ++ (f a).trace, (f a).result⟩
  | .error e => ⟨x.trace, .error e⟩

instance : Monad (Traced ε τ) where
  pure a := ⟨[], .ok a⟩
  bind := Traced.bind

/-- The single event `e`, with the outcome `r`. -/
def perform (e : τ) (r : Except ε α) : Traced ε τ α := ⟨[e], r⟩

@[simp] theorem trace_pure (a : α) : (pure a : Traced ε τ α).trace = [] := rfl

@[simp] theorem result_pure (a : α) : (pure a : Traced ε τ α).result = .ok a := rfl

@[simp] theorem trace_perform (e : τ) (r : Except ε α) : (perform e r).trace = [e] := rfl

@[simp] theorem result_perform (e : τ) (r : Except ε α) : (perform e r).result = r := rfl

theorem bind_of_ok {x : Traced ε τ α} {a : α} (h : x.result = .ok a) (f : α → Traced ε τ β) :
    x >>= f = ⟨x.trace ++ (f a).trace, (f a).result⟩ := by
  show (match x.result with
    | .ok a => (⟨x.trace ++ (f a).trace, (f a).result⟩ : Traced ε τ β)
    | .error e => ⟨x.trace, .error e⟩) = _
  rw [h]

theorem bind_of_error {x : Traced ε τ α} {e : ε} (h : x.result = .error e)
    (f : α → Traced ε τ β) : x >>= f = ⟨x.trace, .error e⟩ := by
  show (match x.result with
    | .ok a => (⟨x.trace ++ (f a).trace, (f a).result⟩ : Traced ε τ β)
    | .error e => ⟨x.trace, .error e⟩) = _
  rw [h]

theorem result_bind_of_ok {x : Traced ε τ α} {a : α} (h : x.result = .ok a)
    (f : α → Traced ε τ β) : (x >>= f).result = (f a).result := by
  rw [bind_of_ok h]

/-- A sequence ends with a value when both parts do. -/
theorem result_bind_ok_iff {x : Traced ε τ α} {f : α → Traced ε τ β} {b : β} :
    (x >>= f).result = .ok b ↔ ∃ a, x.result = .ok a ∧ (f a).result = .ok b := by
  cases h : x.result with
  | ok a => simp [bind_of_ok h]
  | error e => simp [bind_of_error h]

/-- Every event of `x` has the property `P`. -/
def All (P : τ → Prop) (x : Traced ε τ α) : Prop := ∀ e ∈ x.trace, P e

instance (P : τ → Prop) [DecidablePred P] (x : Traced ε τ α) : Decidable (x.All P) :=
  inferInstanceAs (Decidable (∀ e ∈ x.trace, P e))

variable {P : τ → Prop}

@[simp] theorem all_pure (a : α) : (pure a : Traced ε τ α).All P := by simp [All]

@[simp] theorem all_perform (e : τ) (r : Except ε α) : (perform e r).All P ↔ P e := by
  simp [All]

/-- The events of a sequence are those of its first part, then those of the part it reaches. -/
theorem all_bind {x : Traced ε τ α} {f : α → Traced ε τ β} :
    (x >>= f).All P ↔ x.All P ∧ ∀ a, x.result = .ok a → (f a).All P := by
  cases h : x.result with
  | ok a => simp [All, bind_of_ok h, or_imp, forall_and]
  | error e => simp [All, bind_of_error h]

theorem all_ite {c : Prop} [Decidable c] {x y : Traced ε τ α} :
    (if c then x else y).All P ↔ (c → x.All P) ∧ (¬ c → y.All P) := by
  split_ifs with h <;> simp [h]

theorem All.mono {Q : τ → Prop} {x : Traced ε τ α} (h : x.All P) (hPQ : ∀ e, P e → Q e) :
    x.All Q := by
  intro e he
  exact hPQ e (h e he)

/-- `x` ends with a value exactly if all its events satisfy `D`. -/
def Guarded (D : τ → Prop) (x : Traced ε τ α) : Prop := (∃ a, x.result = .ok a) ↔ x.All D

variable {D : τ → Prop}

theorem Guarded.pure (a : α) : Guarded D (pure a : Traced ε τ α) := by simp [Guarded]

theorem Guarded.bind {x : Traced ε τ α} {f : α → Traced ε τ β} (hx : Guarded D x)
    (hf : ∀ a, Guarded D (f a)) : Guarded D (x >>= f) := by
  unfold Guarded
  simp only [result_bind_ok_iff, all_bind]
  constructor
  · rintro ⟨b, a, ha, hb⟩
    refine ⟨hx.mp ⟨a, ha⟩, fun a' ha' => ?_⟩
    -- The first part has one value, so the second part is the one that ran.
    obtain rfl : a = a' := Except.ok.inj (ha.symm.trans ha')
    exact (hf a).mp ⟨b, hb⟩
  · rintro ⟨hall, hrest⟩
    obtain ⟨a, ha⟩ := hx.mpr hall
    obtain ⟨b, hb⟩ := (hf a).mpr (hrest a ha)
    exact ⟨b, a, ha, hb⟩

theorem Guarded.ite {c : Prop} [Decidable c] {x y : Traced ε τ α} (hx : Guarded D x)
    (hy : Guarded D y) : Guarded D (if c then x else y) := by
  split_ifs
  · exact hx
  · exact hy

end Traced

end Machine
