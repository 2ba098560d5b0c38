import Mathlib.Logic.Function.Basic
import TalonRPC.Machine.Run

/-!
# ScopeMutex

A `ScopeMutex` locks a mutex when it is constructed, and unlocks it when it is destroyed. In between
its `unlock` may release the mutex early, which is how all queues of the library use it. But
`unlock` leaves `m_is_lock` as it is, and the destructor does not look: the mutex is unlocked a
second time, and whoever has locked it meanwhile loses it.

## Main definitions

* `Mutex`, `ScopeMutex`: the mutex with the thread that holds it, and the guards on it
* `ScopeEvent`, `scopeStep`: what the threads do with the guards on a shared mutex
* `IssuedByHolder`, `Exclusive`: unlocking is left to the holder, and critical sections exclude each
  other
* `Balanced`: no guard is unlocked or destroyed once it has released the mutex

## Main results

* `Guarded.step`: a balanced step keeps the guards in order
* `Guarded.not_issuedByHolder_destroy`: the surplus unlock is not issued by the holder
* `staysExclusive_of_balanced`: in a run of balanced steps the critical sections stay exclusive
-/

namespace TalonRPC

open Machine

variable {S T : Type}

/-- `Mutex`, with the thread that holds it. -/
structure Mutex (T : Type) where
  holder : Option T := none
  deriving DecidableEq, Repr

namespace Mutex

/-- `Mutex::lock`, which waits until the mutex is free. -/
def lock (m : Mutex T) (t : T) : Option (Mutex T) :=
  match m.holder with
  | none => some { m with holder := some t }
  | some _ => none

/-- `Mutex::unlock`, which frees the mutex whoever holds it. -/
def unlock (m : Mutex T) : Mutex T := { m with holder := none }

end Mutex

/-- `ScopeMutex`, with the thread whose scope it is in, and whether it is between an acquisition of
the mutex and the matching release. -/
structure ScopeMutex (T : Type) where
  thread : T
  isLock : Bool := false
  inside : Bool := false
  deriving DecidableEq, Repr

namespace ScopeMutex

/-- `ScopeMutex::ScopeMutex`. -/
def construct (m : Mutex T) (t : T) : Option (Mutex T × ScopeMutex T) :=
  (m.lock t).map fun m => (m, { thread := t, isLock := true, inside := true })

/-- `ScopeMutex::lock`, which leaves `m_is_lock` as it is. -/
def lock (m : Mutex T) (s : ScopeMutex T) : Option (Mutex T × ScopeMutex T) :=
  if ¬ s.isLock then (m.lock s.thread).map fun m => (m, { s with inside := true })
  else some (m, s)

/-- `ScopeMutex::unlock`, which leaves `m_is_lock` as it is. -/
def unlock (m : Mutex T) (s : ScopeMutex T) : Mutex T × ScopeMutex T :=
  if s.isLock then (m.unlock, { s with inside := false }) else (m, s)

/-- `ScopeMutex::~ScopeMutex`. -/
def destroy (m : Mutex T) : Mutex T := m.unlock

end ScopeMutex

/-- A mutex, and the guards on it. -/
structure Shared (S T : Type) where
  mutex : Mutex T := {}
  scopes : S → Option (ScopeMutex T) := fun _ => none

/-- **The critical sections are exclusive**: no guard that has the mutex would lock it, and all
threads between an acquisition and the matching release are the same. -/
structure Exclusive (st : Shared S T) : Prop where
  locked : ∀ x s, st.scopes x = some s → s.inside = true → s.isLock = true
  one : ∀ x y s s', st.scopes x = some s → st.scopes y = some s' → s.inside = true →
    s'.inside = true → s.thread = s'.thread

/-- The guards are in order: each is marked as locked, and one is inside exactly if the mutex is
held, by its thread. -/
structure Guarded (st : Shared S T) : Prop where
  isLock : ∀ x s, st.scopes x = some s → s.isLock = true
  holder : ∀ x s, st.scopes x = some s → s.inside = true → st.mutex.holder = some s.thread
  unique : ∀ x y s s', st.scopes x = some s → st.scopes y = some s' → s.inside = true →
    s'.inside = true → x = y
  held : ∀ t, st.mutex.holder = some t →
    ∃ x s, st.scopes x = some s ∧ s.inside = true ∧ s.thread = t

theorem Guarded.exclusive {st : Shared S T} (h : Guarded st) : Exclusive st where
  locked x s hs _ := h.isLock x s hs
  one x y s s' hs hs' hin hin' :=
    Option.some.inj ((h.holder x s hs hin).symm.trans (h.holder y s' hs' hin'))

/-- A step of a thread: it constructs a guard, calls `lock` or `unlock` of one of its guards, or
destroys it. -/
inductive ScopeEvent (S T : Type)
  | construct (t : T) (x : S)
  | lock (x : S)
  | unlock (x : S)
  | destroy (x : S)
  deriving DecidableEq, Repr

/-- Where the step unlocks the mutex, its thread holds it. The destructor always does. -/
def IssuedByHolder (st : Shared S T) : ScopeEvent S T → Prop
  | .unlock x => ∀ s, st.scopes x = some s → s.isLock = true → st.mutex.holder = some s.thread
  | .destroy x => ∀ s, st.scopes x = some s → st.mutex.holder = some s.thread
  | _ => True

/-- No guard is unlocked or destroyed once it has released the mutex. -/
def Balanced (st : Shared S T) : ScopeEvent S T → Prop
  | .unlock x => ∀ s, st.scopes x = some s → s.inside = true
  | .destroy x => ∀ s, st.scopes x = some s → s.inside = true
  | _ => True

instance (st : Shared S T) (e : ScopeEvent S T) : Decidable (Balanced st e) :=
  match e with
  | .construct _ _ | .lock _ => .isTrue trivial
  | .unlock x | .destroy x =>
    match h : st.scopes x with
    | none => .isTrue fun _ hs => nomatch h.symm.trans hs
    | some s =>
      if hin : s.inside = true then .isTrue fun _ hs' => Option.some.inj (h.symm.trans hs') ▸ hin
      else .isFalse fun hall => hin (hall s h)

variable [DecidableEq S]

/-- The guards with another entry for one of them. -/
def Shared.set (st : Shared S T) (x : S) (m : Mutex T) (s : Option (ScopeMutex T)) : Shared S T :=
  ⟨m, Function.update st.scopes x s⟩

/-- A step of a thread. It cannot be made while it waits for the mutex. -/
def scopeStep (st : Shared S T) : ScopeEvent S T → Option (Shared S T)
  | .construct t x =>
    match st.scopes x with
    | some _ => none
    | none => (ScopeMutex.construct st.mutex t).map fun p => st.set x p.1 (some p.2)
  | .lock x =>
    match st.scopes x with
    | none => none
    | some s => (s.lock st.mutex).map fun p => st.set x p.1 (some p.2)
  | .unlock x =>
    match st.scopes x with
    | none => none
    | some s => some (st.set x (s.unlock st.mutex).1 (some (s.unlock st.mutex).2))
  | .destroy x =>
    match st.scopes x with
    | none => none
    | some _ => some (st.set x (ScopeMutex.destroy st.mutex) none)

/-- The step leaves unlocking to the holder, and the critical sections exclusive. -/
def StaysExclusive (st : Shared S T) (e : ScopeEvent S T) : Prop :=
  IssuedByHolder st e ∧ ∀ st', scopeStep st e = some st' → Exclusive st'

/-! ## One step -/

section Step

variable {st st' : Shared S T} {e : ScopeEvent S T} {x y : S} {s s' : ScopeMutex T} {m m' : Mutex T}
  {t : T} {entry : Option (ScopeMutex T)}

theorem scopes_set (h : (st.set x m entry).scopes y = some s) :
    (y = x ∧ entry = some s) ∨ (y ≠ x ∧ st.scopes y = some s) := by
  unfold Shared.set at h
  dsimp only at h
  by_cases hy : y = x
  · subst hy
    rw [Function.update_self] at h
    exact .inl ⟨rfl, h⟩
  · rw [Function.update_of_ne hy] at h
    exact .inr ⟨hy, h⟩

/-- Locking succeeds where the mutex is free. -/
theorem lock_eq_some (h : m.lock t = some m') : m.holder = none ∧ m' = ⟨some t⟩ := by
  unfold Mutex.lock at h
  split at h
  · cases h
    exact ⟨‹_›, rfl⟩
  · cases h

/-- A guard that acquires the free mutex is the only one inside. -/
theorem Guarded.acquire (h : Guarded st) (hfree : st.mutex.holder = none) (t : T) (x : S) :
    Guarded (st.set x ⟨some t⟩ (some ⟨t, true, true⟩)) := by
  have houtside : ∀ y s, st.scopes y = some s → s.inside = true → False := by
    intro y s hs hin
    cases hfree.symm.trans (h.holder y s hs hin)
  refine ⟨fun y s hs => ?_, fun y s hs hin => ?_, fun y z s s' hs hs' hin hin' => ?_,
    fun t' ht' => ?_⟩
  · rcases scopes_set hs with ⟨-, hnew⟩ | ⟨-, hold⟩
    · cases hnew
      rfl
    · exact h.isLock y s hold
  · rcases scopes_set hs with ⟨-, hnew⟩ | ⟨-, hold⟩
    · cases hnew
      rfl
    · exact (houtside y s hold hin).elim
  · rcases scopes_set hs with ⟨rfl, -⟩ | ⟨-, hold⟩
    · rcases scopes_set hs' with ⟨rfl, -⟩ | ⟨-, hold'⟩
      · rfl
      · exact (houtside z s' hold' hin').elim
    · exact (houtside y s hold hin).elim
  · refine ⟨x, ⟨t, true, true⟩, ?_, rfl, Option.some.inj ht'⟩
    rw [Shared.set]
    exact Function.update_self _ _ _

/-- Where the guard inside releases the mutex, all guards are outside. -/
theorem Guarded.release (h : Guarded st) (hs : st.scopes x = some s) (hin : s.inside = true)
    (hentry : ∀ s', entry = some s' → s'.isLock = true ∧ s'.inside = false) :
    Guarded (st.set x st.mutex.unlock entry) := by
  have houtside : ∀ y s', (st.set x st.mutex.unlock entry).scopes y = some s' →
      s'.isLock = true ∧ s'.inside = false := by
    intro y s' hs'
    rcases scopes_set hs' with ⟨-, hnew⟩ | ⟨hy, hold⟩
    · exact hentry s' hnew
    · refine ⟨h.isLock y s' hold, ?_⟩
      by_contra hin'
      exact hy (h.unique y x s' s hold hs (by simpa using hin') hin)
  refine ⟨fun y s' hs' => (houtside y s' hs').1, fun y s' hs' hin' => ?_,
    fun y z s' s'' hs' _ hin' _ => ?_, fun t ht => ?_⟩
  · cases (houtside y s' hs').2.symm.trans hin'
  · cases (houtside y s' hs').2.symm.trans hin'
  · cases ht

omit [DecidableEq S] in
/-- A balanced step unlocks only for the holder. -/
theorem Guarded.issuedByHolder (h : Guarded st) (hbalanced : Balanced st e) :
    IssuedByHolder st e := by
  cases e with
  | construct t x => trivial
  | lock x => trivial
  | unlock x => exact fun s hs _ => h.holder x s hs (hbalanced s hs)
  | destroy x => exact fun s hs => h.holder x s hs (hbalanced s hs)

omit [DecidableEq S] in
/-- The surplus unlock is not issued by the holder, unless its thread is inside through another
guard. -/
theorem Guarded.not_issuedByHolder_destroy (h : Guarded st) (hs : st.scopes x = some s)
    (houtside : ∀ y s', st.scopes y = some s' → s'.inside = true → s'.thread ≠ s.thread) :
    ¬ IssuedByHolder st (.destroy x) := by
  intro hissued
  obtain ⟨y, s', hs', hin, hthread⟩ := h.held s.thread (hissued s hs)
  exact houtside y s' hs' hin hthread

/-- **A balanced step keeps the guards in order.** -/
theorem Guarded.step (h : Guarded st) (hbalanced : Balanced st e)
    (hstep : scopeStep st e = some st') : Guarded st' := by
  cases e with
  | construct t x =>
    rw [scopeStep] at hstep
    split at hstep
    · cases hstep
    obtain ⟨p, hp, rfl⟩ := Option.map_eq_some_iff.mp hstep
    obtain ⟨m, hm, rfl⟩ := Option.map_eq_some_iff.mp hp
    obtain ⟨hfree, rfl⟩ := lock_eq_some hm
    exact h.acquire hfree t x
  | lock x =>
    rw [scopeStep] at hstep
    split at hstep
    · cases hstep
    rename_i s hs
    obtain ⟨p, hp, rfl⟩ := Option.map_eq_some_iff.mp hstep
    -- A guard is always marked as locked, so that `lock` does nothing.
    rw [ScopeMutex.lock, if_neg (not_not_intro (h.isLock x s hs))] at hp
    cases hp
    have hsame : st.set x st.mutex (some s) = st := by
      rw [Shared.set, ← hs, Function.update_eq_self]
    rw [hsame]
    exact h
  | unlock x =>
    rw [scopeStep] at hstep
    split at hstep
    · cases hstep
    rename_i s hs
    cases hstep
    rw [ScopeMutex.unlock, if_pos (h.isLock x s hs)]
    refine h.release hs (hbalanced s hs) fun s' hs' => ?_
    cases hs'
    exact ⟨h.isLock x s hs, rfl⟩
  | destroy x =>
    rw [scopeStep] at hstep
    split at hstep
    · cases hstep
    rename_i s hs
    cases hstep
    refine h.release hs (hbalanced s hs) fun s' hs' => ?_
    cases hs'

end Step

/-! ## All steps -/

section Run

/-- No guard has been constructed yet. -/
def Shared.free : Shared S T := {}

omit [DecidableEq S] in
theorem guarded_free : Guarded (.free : Shared S T) where
  isLock _ _ h := by cases h
  holder _ _ h := by cases h
  unique _ _ _ _ h := by cases h
  held _ h := by cases h

/-- **The critical sections stay exclusive** where no guard is unlocked or destroyed once it has
released the mutex. -/
theorem staysExclusive_of_balanced (es : List (ScopeEvent S T))
    (hbalanced : Along scopeStep Balanced (.free : Shared S T) es) :
    Along scopeStep StaysExclusive (.free : Shared S T) es := by
  refine hbalanced.imp guarded_free ?_ fun st e st' h hstep hq => h.step hq hstep
  intro st e h hq
  exact ⟨h.issuedByHolder hq, fun st' hstep => (h.step hq hstep).exclusive⟩

/-- Two threads that let the destructor release the mutex. -/
theorem staysExclusive_of_balanced_destroyed :
    Along scopeStep StaysExclusive (.free : Shared ℕ ℕ)
      [.construct 0 0, .destroy 0, .construct 1 1, .unlock 1] :=
  staysExclusive_of_balanced _ (by decide)

/-- A guard on a queue releases the mutex early and is destroyed while another thread is inside; a
third one can enter. -/
theorem not_staysExclusive_unlocked :
    let es : List (ScopeEvent ℕ ℕ) :=
      [.construct 0 0, .unlock 0, .construct 1 1, .destroy 0, .construct 2 2]
    (∃ st, exec scopeStep (.free : Shared ℕ ℕ) es = some st ∧ ¬ Exclusive st) ∧
      ¬ Along scopeStep StaysExclusive (.free : Shared ℕ ℕ) es := by
  refine ⟨⟨_, rfl, fun h => ?_⟩, ?_⟩
  · cases h.one 1 2 ⟨1, true, true⟩ ⟨2, true, true⟩ rfl rfl rfl rfl
  · rintro ⟨-, h⟩
    obtain ⟨-, h⟩ := h _ rfl
    obtain ⟨-, h⟩ := h _ rfl
    obtain ⟨⟨hissued, -⟩, -⟩ := h _ rfl
    cases hissued _ rfl

end Run

end TalonRPC
