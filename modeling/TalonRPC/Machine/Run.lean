import Mathlib.Data.List.Induction

/-!
# Runs of a machine

A machine steps from a state on an event, when the event can happen there. A run is the sequence
of its steps on a list of events.

## Main definitions

* `exec step s es`: the state after the events `es`, if each could happen when its turn came
* `outputs step out s es`: what the events `es` put out, each in the state it happens in
* `Along step Q s es`: each of the events has the property `Q` in the state it happens in

## Main results

* `exec_append`, `exec_snoc`: runs compose
* `exec_invariant`: what every step preserves holds after every run
* `outputs_append`: outputs compose
* `exec_history`: the same, for statements about the events so far and the state
* `Along.last`, `along_snoc`: the last event of a run has the property where it happens
* `Along.history`: `exec_history` for runs along which every event has a property
* `Along.progress`: a run goes through if what has happened lets every next step happen
* `Along.imp`: a property that keeps an invariant implies another one along a run
* `along_iff`: two properties that agree while an invariant lasts agree along a run
* `along_congr`: so do two that agree under an invariant of all steps, whether the run goes through
  or not
-/

namespace Machine

variable {σ ε : Type}

/-- The state after the events `es`, if each of them could happen when its turn came. -/
def exec (step : σ → ε → Option σ) : σ → List ε → Option σ
  | s, [] => some s
  | s, e :: es => (step s e).bind fun s' => exec step s' es

variable {step : σ → ε → Option σ} {s s' : σ} {e : ε} {es : List ε}

@[simp] theorem exec_nil (s : σ) : exec step s [] = some s := rfl

theorem exec_cons (s : σ) (e : ε) (es : List ε) :
    exec step s (e :: es) = (step s e).bind fun s' => exec step s' es := rfl

theorem exec_append (s : σ) (es fs : List ε) :
    exec step s (es ++ fs) = (exec step s es).bind fun s' => exec step s' fs := by
  induction es generalizing s with
  | nil => rfl
  | cons e es ih =>
    rw [List.cons_append, exec_cons, exec_cons]
    cases step s e with
    | none => rfl
    | some t => exact ih t

theorem exec_snoc : exec step s (es ++ [e]) = some s' ↔
    ∃ t, exec step s es = some t ∧ step t e = some s' := by
  rw [exec_append, Option.bind_eq_some_iff]
  simp [exec_cons]

/-- What every step preserves holds after every run. -/
theorem exec_invariant {I : σ → Prop} (hI : ∀ s e s', I s → step s e = some s' → I s')
    (h0 : I s) (h : exec step s es = some s') : I s' := by
  induction es generalizing s with
  | nil =>
    obtain rfl := Option.some.inj h
    exact h0
  | cons e es ih =>
    obtain ⟨t, ht, hrest⟩ := Option.bind_eq_some_iff.mp h
    exact ih (hI s e t h0 ht) hrest

/-- A statement about the events so far and the state, true at the start and kept by every
step, is true after every run. -/
theorem exec_history {I : List ε → σ → Prop} {s₀ : σ} (h0 : I [] s₀)
    (hI : ∀ es s e s', exec step s₀ es = some s → I es s → step s e = some s' → I (es ++ [e]) s')
    (h : exec step s₀ es = some s) : I es s := by
  -- The history grows at its end, so the run is taken apart from behind.
  induction es using List.reverseRecOn generalizing s with
  | nil =>
    obtain rfl := Option.some.inj h
    exact h0
  | append_singleton es e ih =>
    obtain ⟨t, ht, hs⟩ := exec_snoc.mp h
    exact hI es t e s ht (ih ht) hs

/-- What the events `es`, from `s` on, put out. -/
def outputs {τ : Type} (step : σ → ε → Option σ) (out : σ → ε → List τ) : σ → List ε → List τ
  | _, [] => []
  | s, e :: es =>
    out s e ++
      match step s e with
      | none => []
      | some s' => outputs step out s' es

theorem outputs_cons {τ : Type} {out : σ → ε → List τ} (h : step s e = some s') :
    outputs step out s (e :: es) = out s e ++ outputs step out s' es := by
  rw [outputs, h]

theorem outputs_append {τ : Type} {out : σ → ε → List τ} {fs : List ε}
    (h : exec step s es = some s') :
    outputs step out s (es ++ fs) = outputs step out s es ++ outputs step out s' fs := by
  induction es generalizing s with
  | nil =>
    obtain rfl := Option.some.inj h
    rfl
  | cons e es ih =>
    obtain ⟨t, ht, hrest⟩ := Option.bind_eq_some_iff.mp h
    rw [List.cons_append, outputs_cons ht, outputs_cons ht, ih hrest, List.append_assoc]

/-- Each of the events `es`, from `s` on, has the property `Q` in the state it happens in. -/
def Along (step : σ → ε → Option σ) (Q : σ → ε → Prop) : σ → List ε → Prop
  | _, [] => True
  | s, e :: es => Q s e ∧ ∀ s', step s e = some s' → Along step Q s' es

instance decidableAlong (Q : σ → ε → Prop) [∀ s e, Decidable (Q s e)] :
    ∀ s es, Decidable (Along step Q s es)
  | _, [] => .isTrue trivial
  | s, e :: es =>
    have : Decidable (∀ s', step s e = some s' → Along step Q s' es) :=
      match step s e with
      | none => .isTrue fun _ h => nomatch h
      | some s' =>
        match decidableAlong Q s' es with
        | .isTrue h => .isTrue fun _ heq => Option.some.inj heq ▸ h
        | .isFalse h => .isFalse fun hall => h (hall s' rfl)
    inferInstanceAs (Decidable (_ ∧ _))

/-- The last event of a run has the property in the state it happens in. -/
theorem Along.last {Q : σ → ε → Prop} (h : Along step Q s (es ++ [e]))
    (hexec : exec step s es = some s') : Q s' e := by
  induction es generalizing s with
  | nil =>
    obtain rfl := Option.some.inj hexec
    exact h.1
  | cons e' es ih =>
    obtain ⟨t, ht, hrest⟩ := Option.bind_eq_some_iff.mp hexec
    exact ih (h.2 t ht) hrest

theorem Along.left {Q : σ → ε → Prop} {fs : List ε} (h : Along step Q s (es ++ fs)) :
    Along step Q s es := by
  induction es generalizing s with
  | nil => trivial
  | cons e es ih => exact ⟨h.1, fun t ht => ih (h.2 t ht)⟩

theorem along_snoc {Q : σ → ε → Prop} (h : exec step s es = some s') :
    Along step Q s (es ++ [e]) ↔ Along step Q s es ∧ Q s' e := by
  refine ⟨fun hall => ⟨hall.left, hall.last h⟩, ?_⟩
  rintro ⟨hes, he⟩
  induction es generalizing s with
  | nil =>
    obtain rfl := Option.some.inj h
    exact ⟨he, fun _ _ => trivial⟩
  | cons e' es ih =>
    obtain ⟨t, ht, hrest⟩ := Option.bind_eq_some_iff.mp h
    refine ⟨hes.1, fun t' ht' => ?_⟩
    obtain rfl := Option.some.inj (ht.symm.trans ht')
    exact ih hrest (hes.2 t ht)

/-- A statement about the events so far and the state, true at the start and kept by every step
that has the property, is true after every run along which the steps have it. -/
theorem Along.history {Q : σ → ε → Prop} {I : List ε → σ → Prop} {s₀ : σ} (h0 : I [] s₀)
    (hI : ∀ es s e s', exec step s₀ es = some s → I es s → Q s e → step s e = some s' →
      I (es ++ [e]) s')
    (hQ : Along step Q s₀ es) (h : exec step s₀ es = some s) : I es s := by
  induction es using List.reverseRecOn generalizing s with
  | nil =>
    obtain rfl := Option.some.inj h
    exact h0
  | append_singleton es e ih =>
    obtain ⟨t, ht, hs⟩ := exec_snoc.mp h
    exact hI es t e s ht (ih hQ.left ht) (hQ.last ht) hs

/-- A statement about the events so far and the state, true at the start, that lets every step with
the property happen and is kept by it: the run goes through. -/
theorem Along.progress {Q : σ → ε → Prop} {I : List ε → σ → Prop} {s₀ : σ} (h0 : I [] s₀)
    (hI : ∀ fs s e, fs ++ [e] <+: es → exec step s₀ fs = some s → I fs s → Q s e →
      ∃ s', step s e = some s' ∧ I (fs ++ [e]) s')
    (hQ : Along step Q s₀ es) : ∃ s, exec step s₀ es = some s ∧ I es s := by
  induction es using List.reverseRecOn with
  | nil => exact ⟨s₀, rfl, h0⟩
  | append_singleton es e ih =>
    obtain ⟨s, hs, hIs⟩ := ih
      (fun fs s e hpre => hI fs s e (hpre.trans (List.prefix_append _ _))) hQ.left
    obtain ⟨s', hstep, hIs'⟩ := hI es s e List.prefix_rfl hs hIs (hQ.last hs)
    exact ⟨s', exec_snoc.mpr ⟨s, hs, hstep⟩, hIs'⟩

/-- A property of the events that keeps an invariant, and implies another one while it lasts. -/
theorem Along.imp {I : σ → Prop} {Q R : σ → ε → Prop} (h : Along step Q s es) (h0 : I s)
    (hQR : ∀ s e, I s → Q s e → R s e)
    (hI : ∀ s e s', I s → step s e = some s' → Q s e → I s') : Along step R s es := by
  induction es generalizing s with
  | nil => trivial
  | cons e es ih =>
    obtain ⟨hq, hrest⟩ := h
    exact ⟨hQR s e h0 hq, fun t ht => ih (hrest t ht) (hI s e t h0 ht hq)⟩

/-- Two properties that agree while an invariant lasts agree along a run, if the invariant lasts
as long as the first one holds. -/
theorem along_iff {I : σ → Prop} {Q R : σ → ε → Prop} (hrun : (exec step s es).isSome) (h0 : I s)
    (hQR : ∀ s e s', I s → step s e = some s' → (Q s e ↔ R s e))
    (hI : ∀ s e s', I s → step s e = some s' → Q s e → I s') :
    Along step Q s es ↔ Along step R s es := by
  induction es generalizing s with
  | nil => exact Iff.rfl
  | cons e es ih =>
    rw [exec_cons] at hrun
    cases hstep : step s e with
    | none => simp [hstep] at hrun
    | some t =>
      simp only [hstep, Option.bind_some] at hrun
      have hiff := hQR s e t h0 hstep
      simp only [Along, hstep, Option.some.injEq, forall_eq']
      constructor
      · rintro ⟨hq, hrest⟩
        exact ⟨hiff.mp hq, (ih hrun (hI s e t h0 hstep hq)).mp hrest⟩
      · rintro ⟨hr, hrest⟩
        -- The invariant lasts because the first property holds too.
        have hq := hiff.mpr hr
        exact ⟨hq, (ih hrun (hI s e t h0 hstep hq)).mpr hrest⟩

/-- Two properties that agree under an invariant of all steps agree along all events, whether they
can happen or not. -/
theorem along_congr {I : σ → Prop} {Q R : σ → ε → Prop} (h0 : I s)
    (hQR : ∀ s e, I s → (Q s e ↔ R s e))
    (hI : ∀ s e s', I s → step s e = some s' → I s') :
    Along step Q s es ↔ Along step R s es := by
  induction es generalizing s with
  | nil => exact Iff.rfl
  | cons e es ih =>
    exact and_congr (hQR s e h0) (forall₂_congr fun t ht => ih (hI s e t h0 ht))

end Machine
