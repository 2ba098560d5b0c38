import TalonRPC.Machine.Loop

/-!
# Loops that ask

A loop around a system call asks its environment in every iteration, and the answer decides
whether it goes on. Given the answers of the environment, one for every question, such a loop is
a function of where it is entered.

## Main definitions

* `Turn`: an iteration up to its question
* `converse turn as s`: the result of the loop entered at `s`, if it asks exactly as often as
  `as` answers
* `Leaves turn pre last s r`: the loop is left with `r`, when the answers are `pre` and then always
  `last`

## Main results

* `converse_next`, `converse_done`: the first answer decides
* `converse_invariant`: what holds on entry and is kept by every answer holds when it leaves
* `leaves_cons_next`, `leaves_cons_done`: the first answer decides
* `not_leaves`: an invariant under which the last answer continues keeps the loop running
-/

namespace Machine

/-- An iteration up to its question: it leaves before it asks, or the answer decides. -/
inductive Turn (σ α ρ : Type)
  | done (r : ρ)
  | ask (k : α → Verdict σ ρ)

section Dialogue

variable {σ α ρ : Type} (turn : σ → Turn σ α ρ)

/-- The result of the loop entered at `s`, if it asks exactly as often as `as` answers. -/
def converse : List α → σ → Option ρ
  | [], s =>
    match turn s with
    | .done r => some r
    | .ask _ => none
  | a :: as, s =>
    match turn s with
    | .done _ => none
    | .ask k =>
      match k a with
      | .next s' => converse as s'
      | .done r => if as = [] then some r else none

variable {turn} {s s' : σ} {k : α → Verdict σ ρ} {a : α} {as : List α} {r : ρ}

theorem converse_nil : converse turn [] s = some r ↔ turn s = .done r := by
  rw [converse]
  cases turn s with
  | done r' => simp
  | ask k => simp

/-- Where the loop leaves before it asks, there are no answers. -/
theorem converse_of_done (h : turn s = .done r) {r' : ρ} :
    converse turn as s = some r' ↔ as = [] ∧ r' = r := by
  cases as with
  | nil =>
    rw [converse_nil, h]
    simp [eq_comm]
  | cons a as =>
    rw [converse, h]
    simp

theorem converse_next (hask : turn s = .ask k) (h : k a = .next s') :
    converse turn (a :: as) s = converse turn as s' := by
  rw [converse, hask]
  dsimp only
  rw [h]

theorem converse_done (hask : turn s = .ask k) (h : k a = .done r) {r' : ρ} :
    converse turn (a :: as) s = some r' ↔ as = [] ∧ r' = r := by
  rw [converse, hask]
  dsimp only
  rw [h]
  simp [eq_comm]

/-- **The invariant rule** for a loop that asks. -/
theorem converse_invariant {I : σ → Prop} {P : ρ → Prop} (h : converse turn as s = some r)
    (h0 : I s)
    (hdone : ∀ s r, I s → turn s = .done r → P r)
    (hask : ∀ s k a, I s → turn s = .ask k →
      (∀ s', k a = .next s' → I s') ∧ ∀ r, k a = .done r → P r) : P r := by
  induction as generalizing s with
  | nil => exact hdone s r h0 (converse_nil.mp h)
  | cons a as ih =>
    -- An answer is left over, so the loop must ask.
    cases hturn : turn s with
    | done r' =>
      obtain ⟨hempty, -⟩ := (converse_of_done hturn).mp h
      cases hempty
    | ask k =>
      obtain ⟨hnext, hleave⟩ := hask s k a h0 hturn
      cases hk : k a with
      | next s' =>
        rw [converse_next hturn hk] at h
        exact ih h (hnext s' hk)
      | done r' =>
        obtain ⟨-, rfl⟩ := (converse_done hturn hk).mp h
        exact hleave r hk

/-! ## Endless answers -/

/-- The first `n` answers of an environment that answers `pre`, and then always `last`. -/
def firstAnswers : List α → α → ℕ → List α
  | _, _, 0 => []
  | [], last, n + 1 => last :: firstAnswers [] last n
  | a :: pre, last, n + 1 => a :: firstAnswers pre last n

variable (turn) in
/-- The loop entered at `s` is left with `r` after finitely many answers. -/
def Leaves (pre : List α) (last : α) (s : σ) (r : ρ) : Prop :=
  ∃ n, converse turn (firstAnswers pre last n) s = some r

variable {pre : List α} {last : α} {r' : ρ}

theorem leaves_of_done (h : turn s = .done r) : Leaves turn pre last s r' ↔ r' = r := by
  constructor
  · rintro ⟨n, hn⟩
    exact ((converse_of_done h).mp hn).2
  · rintro rfl
    exact ⟨0, converse_nil.mpr h⟩

/-- A loop that asks needs an answer. -/
theorem leaves_of_ask (h : turn s = .ask k) :
    Leaves turn pre last s r ↔ ∃ n, converse turn (firstAnswers pre last (n + 1)) s = some r := by
  constructor
  · rintro ⟨n, hn⟩
    cases n with
    | zero =>
      rw [firstAnswers, converse_nil, h] at hn
      cases hn
    | succ n => exact ⟨n, hn⟩
  · rintro ⟨n, hn⟩
    exact ⟨n + 1, hn⟩

theorem leaves_cons_next (hask : turn s = .ask k) (h : k a = .next s') :
    Leaves turn (a :: pre) last s r ↔ Leaves turn pre last s' r := by
  rw [leaves_of_ask hask]
  exact exists_congr fun n => by rw [firstAnswers, converse_next hask h]

theorem leaves_cons_done (hask : turn s = .ask k) (h : k a = .done r) :
    Leaves turn (a :: pre) last s r' ↔ r' = r := by
  rw [leaves_of_ask hask]
  constructor
  · rintro ⟨n, hn⟩
    exact ((converse_done hask h).mp hn).2
  · rintro rfl
    exact ⟨0, (converse_done hask h).mpr ⟨rfl, rfl⟩⟩

/-- The last answer comes first when there is no other. -/
theorem leaves_nil : Leaves turn [] last s r ↔ Leaves turn [last] last s r := by
  have hsame : ∀ n, firstAnswers [last] last n = firstAnswers [] last n := by
    intro n
    cases n with
    | zero => rfl
    | succ n => rfl
  exact exists_congr fun n => by rw [hsame]

/-- An invariant under which the last answer continues keeps the loop running. -/
theorem not_leaves {I : σ → Prop} (h0 : I s)
    (hI : ∀ s, I s → ∃ k s', turn s = .ask k ∧ k last = .next s' ∧ I s') :
    ¬ Leaves turn [] last s r := by
  rintro ⟨n, hn⟩
  induction n generalizing s with
  | zero =>
    obtain ⟨k, s', hask, -, -⟩ := hI s h0
    rw [firstAnswers, converse_nil, hask] at hn
    cases hn
  | succ n ih =>
    obtain ⟨k, s', hask, hnext, hs'⟩ := hI s h0
    rw [firstAnswers, converse_next hask hnext] at hn
    exact ih hs' hn

end Dialogue

end Machine
