import TalonRPC.Timer.Firing

/-!
# Deleted events

A pass of the timer copies the callbacks of the events that have arrived and then runs them, one
after the other. An event that is deleted meanwhile, by one of these callbacks, is cancelled and
taken out of the multimap; but its callback has been copied, and runs. And a deletion erases one
entry under the arrive time of the event: of an event that was added twice, the other entry stays.

## Main definitions

* `TimerRun`: the timer, and the callbacks that passes have yet to run
* `TimerCall`, `timerRunStep`: a call from outside, from a callback or from the event loop, and the
  call of the next callback
* `Gone`: the event is not pending, and its callback is not about to run
* `StaysDeleted`: until it is added again, a deleted event is not pending, and is not run
* `Deletable`: the event is pending once at most, where it is looked for, and no pass has copied its
  callback

## Main results

* `Gone.step`: only an addition brings an event back
* `staysDeleted_iff`: deleted events stay deleted exactly if they are deletable
-/

namespace TalonRPC

open Machine

variable {E κ : Type}

/-- A timer, with the events whose callbacks are still to run in the passes under way. -/
structure TimerRun (E κ : Type) where
  timer : Timer E κ
  running : List E := []

/-- A call of the timer, at any point between or inside callbacks, a pass, or the next callback of
the passes under way. A pass that starts inside a callback runs its own callbacks first. -/
inductive TimerCall (E : Type)
  | addTimerEvent (e : E)
  | deleteTimerEvent (e : E)
  | onTimer
  | runTask
  deriving DecidableEq, Repr

/-- The events whose callbacks a pass copies; a null callback is not called. -/
def Timer.copied (clock : ℕ → ℤ) (t : Timer E κ) : List E :=
  ((t.drain clock).due (t.passTime clock)).filter fun e => (t.events e).task.isSome

variable [DecidableEq E]

/-- The state after a call, if it can happen. -/
def timerRunStep (clock : ℕ → ℤ) (st : TimerRun E κ) : TimerCall E → Option (TimerRun E κ)
  | .addTimerEvent e => some { st with timer := st.timer.addTimerEvent clock e }
  | .deleteTimerEvent e => some { st with timer := st.timer.deleteTimerEvent e }
  | .onTimer =>
    some ⟨st.timer.beforeCallbacks clock, st.timer.copied clock ++ st.running⟩
  | .runTask =>
    match st.running with
    | [] => none
    | _ :: running => some { st with running }

omit [DecidableEq E] in
/-- The event whose callback a call invokes. -/
def invoked (st : TimerRun E κ) : TimerCall E → List E
  | .runTask => st.running.take 1
  | _ => []

/-- Whatever happens, until the event is added again it is not pending, and its callback is not
invoked. -/
def Deleted (clock : ℕ → ℤ) (st : TimerRun E κ) (e : E) : Prop :=
  ∀ es st', .addTimerEvent e ∉ es → exec (timerRunStep clock) st es = some st' →
    ¬ st'.timer.Pending e ∧ e ∉ outputs (timerRunStep clock) invoked st es

/-- **A deleted event never fires.** -/
def StaysDeleted (clock : ℕ → ℤ) (st : TimerRun E κ) : TimerCall E → Prop
  | .deleteTimerEvent e => Deleted clock { st with timer := st.timer.deleteTimerEvent e } e
  | _ => True

omit [DecidableEq E] in
/-- The event is not pending, and its callback is not about to run. -/
structure Gone (st : TimerRun E κ) (e : E) : Prop where
  pending : ¬ st.timer.Pending e
  running : e ∉ st.running

/-- The event is pending once at most, under its arrive time, and no pass has copied its
callback. -/
structure Unshared (st : TimerRun E κ) (e : E) : Prop where
  running : e ∉ st.running
  keys : ∀ p ∈ st.timer.pendingEvents.entries, p.2 = e → p.1 = (st.timer.events e).arriveTime
  once : (st.timer.pendingEvents.entries.map Prod.snd).count e ≤ 1

/-- A deletion is of such an event. -/
def Deletable (st : TimerRun E κ) : TimerCall E → Prop
  | .deleteTimerEvent e => Unshared st e
  | _ => True

instance (st : TimerRun E κ) (e : E) : Decidable (Unshared st e) :=
  decidable_of_iff
    (e ∉ st.running ∧
      (∀ p ∈ st.timer.pendingEvents.entries, p.2 = e → p.1 = (st.timer.events e).arriveTime) ∧
      (st.timer.pendingEvents.entries.map Prod.snd).count e ≤ 1)
    ⟨fun ⟨h₁, h₂, h₃⟩ => ⟨h₁, h₂, h₃⟩, fun ⟨h₁, h₂, h₃⟩ => ⟨h₁, h₂, h₃⟩⟩

instance (st : TimerRun E κ) (c : TimerCall E) : Decidable (Deletable st c) :=
  match c with
  | .deleteTimerEvent e => inferInstanceAs (Decidable (Unshared st e))
  | .addTimerEvent _ | .onTimer | .runTask => .isTrue trivial

variable {clock : ℕ → ℤ} {t : Timer E κ} {st st' : TimerRun E κ} {c : TimerCall E}
  {es : List (TimerCall E)} {e f : E} {l : List E}

/-! ## What becomes pending -/

namespace Timer

theorem entries_deleteTimerEvent (t : Timer E κ) (e : E) :
    (t.deleteTimerEvent e).pendingEvents.entries =
      t.pendingEvents.entries.erase ((t.events e).arriveTime, e) := by
  unfold Timer.deleteTimerEvent
  dsimp only
  rw [Multimap.entries_eraseValue, Function.update_self]

omit [DecidableEq E] in
theorem pending_addTimerEvent_iff :
    (t.addTimerEvent clock e).Pending f ↔ f = e ∨ t.Pending f := by
  unfold Pending
  rw [(addTimerEvent_frame clock t e).1]
  simp [Multimap.mem_emplace, eq_comm]

omit [DecidableEq E] in
theorem pending_of_mem_due {n : ℤ} (h : e ∈ t.due n) : t.Pending e := by
  obtain ⟨p, hp, rfl⟩ := List.mem_map.mp h
  exact List.mem_map_of_mem (Multimap.mem_upTo.mp (List.mem_filter.mp hp).1).1

theorem pending_of_readd (h : (t.readd clock e).Pending f) : f = e ∨ t.Pending f := by
  unfold readd at h
  split_ifs at h
  · exact (pending_addTimerEvent_iff (t := t.resetEvent clock e)).mp h
  · exact .inr h

theorem pending_of_foldl_readd (h : (l.foldl (readd clock) t).Pending f) : f ∈ l ∨ t.Pending f := by
  induction l generalizing t with
  | nil => exact .inr h
  | cons e l ih =>
    rcases ih h with hf | hf
    · exact .inl (List.mem_cons_of_mem _ hf)
    · rcases pending_of_readd hf with rfl | hf
      · exact .inl (List.mem_cons_self ..)
      · exact .inr hf

omit [DecidableEq E] in
theorem pending_of_takeOut (h : (t.takeOut clock).Pending f) : t.Pending f := by
  unfold Pending at h ⊢
  rw [(takeOut_frame clock t).1, Multimap.entries_eraseUpTo] at h
  exact (List.filter_sublist.map _).subset h

/-- **A pass puts back only what was pending.** -/
theorem pending_of_beforeCallbacks (h : (t.beforeCallbacks clock).Pending f) : t.Pending f := by
  unfold Timer.beforeCallbacks Pending at h
  rw [(resetArriveTime_frame clock _).1, due_drain] at h
  rcases pending_of_foldl_readd h with hdue | hold
  · exact pending_of_mem_due hdue
  · exact pending_of_takeOut hold

omit [DecidableEq E] in
theorem pending_of_mem_copied (h : e ∈ t.copied clock) : t.Pending e := by
  rw [copied, due_drain] at h
  exact pending_of_mem_due (List.mem_filter.mp h).1

theorem pending_of_deleteTimerEvent (h : (t.deleteTimerEvent e).Pending f) : t.Pending f := by
  unfold Pending at h ⊢
  rw [entries_deleteTimerEvent] at h
  exact (List.erase_sublist.map _).subset h

/-- **A deletion takes the event out** exactly if it is pending once at most, under its arrive
time. -/
theorem not_pending_deleteTimerEvent_iff :
    ¬ (t.deleteTimerEvent e).Pending e ↔
      (∀ p ∈ t.pendingEvents.entries, p.2 = e → p.1 = (t.events e).arriveTime) ∧
        (t.pendingEvents.entries.map Prod.snd).count e ≤ 1 := by
  set k := (t.events e).arriveTime
  have hpending : (t.deleteTimerEvent e).Pending e ↔
      e ∈ (t.pendingEvents.entries.erase (k, e)).map Prod.snd := by
    rw [Pending, entries_deleteTimerEvent]
  rw [hpending]
  by_cases hmem : (k, e) ∈ t.pendingEvents.entries
  · have hcount : (t.pendingEvents.entries.map Prod.snd).count e =
        ((t.pendingEvents.entries.erase (k, e)).map Prod.snd).count e + 1 := by
      rw [((List.perm_cons_erase hmem).map Prod.snd).count_eq, List.map_cons,
        List.count_cons_self]
    rw [hcount, ← List.count_eq_zero]
    constructor
    · intro hzero
      refine ⟨fun p hp hpe => ?_, by omega⟩
      by_contra hkey
      -- Another entry of the event would be left.
      have hleft : p ∈ t.pendingEvents.entries.erase (k, e) := by
        refine (List.mem_erase_of_ne fun heq => hkey ?_).mpr hp
        rw [heq]
      exact List.count_eq_zero.mp hzero (List.mem_map.mpr ⟨p, hleft, hpe⟩)
    · rintro ⟨-, hle⟩
      omega
  · rw [List.erase_of_not_mem hmem]
    constructor
    · intro hnot
      refine ⟨fun p hp hpe => absurd (hpe ▸ List.mem_map_of_mem hp) hnot, ?_⟩
      rw [List.count_eq_zero.mpr hnot]
      exact Nat.zero_le _
    · rintro ⟨hkeys, -⟩ hin
      obtain ⟨p, hp, hpe⟩ := List.mem_map.mp hin
      refine hmem ?_
      rw [← hkeys p hp hpe, ← hpe]
      exact hp

end Timer

/-! ## What is gone -/

/-- **Only an addition brings an event back.** -/
theorem Gone.step (h : Gone st e) (hc : c ≠ .addTimerEvent e)
    (hstep : timerRunStep clock st c = some st') : Gone st' e ∧ e ∉ invoked st c := by
  cases c with
  | addTimerEvent f =>
    obtain rfl := Option.some.inj hstep
    refine ⟨⟨fun hp => ?_, h.running⟩, List.not_mem_nil⟩
    rcases Timer.pending_addTimerEvent_iff.mp hp with rfl | hp
    · exact hc rfl
    · exact h.pending hp
  | deleteTimerEvent f =>
    obtain rfl := Option.some.inj hstep
    exact ⟨⟨fun hp => h.pending (Timer.pending_of_deleteTimerEvent hp), h.running⟩,
      List.not_mem_nil⟩
  | onTimer =>
    obtain rfl := Option.some.inj hstep
    refine ⟨⟨fun hp => h.pending (Timer.pending_of_beforeCallbacks hp), ?_⟩, List.not_mem_nil⟩
    rw [List.mem_append, not_or]
    exact ⟨fun hmem => h.pending (Timer.pending_of_mem_copied hmem), h.running⟩
  | runTask =>
    have hrunning := h.running
    simp only [timerRunStep] at hstep
    split at hstep
    · cases hstep
    · rename_i f running hrun
      obtain rfl := Option.some.inj hstep
      rw [hrun, List.mem_cons, not_or] at hrunning
      exact ⟨⟨h.pending, hrunning.2⟩, by simpa [invoked, hrun] using hrunning.1⟩

theorem Gone.deleted (h : Gone st e) : Deleted clock st e := by
  intro es st' hnot hexec
  induction es generalizing st with
  | nil =>
    obtain rfl := Option.some.inj hexec
    exact ⟨h.pending, List.not_mem_nil⟩
  | cons c es ih =>
    rw [List.mem_cons, not_or] at hnot
    obtain ⟨st₁, hstep, hrest⟩ := Option.bind_eq_some_iff.mp hexec
    obtain ⟨hgone, hnow⟩ := h.step (Ne.symm hnot.1) hstep
    obtain ⟨hpending, hlater⟩ := ih hgone hnot.2 hrest
    refine ⟨hpending, ?_⟩
    rw [outputs_cons hstep, List.mem_append, not_or]
    exact ⟨hnow, hlater⟩

/-- The passes under way run all callbacks they have copied. -/
theorem exec_runTasks (clock : ℕ → ℤ) (st : TimerRun E κ) :
    exec (timerRunStep clock) st (List.replicate st.running.length .runTask) =
        some { st with running := [] } ∧
      outputs (timerRunStep clock) invoked st (List.replicate st.running.length .runTask) =
        st.running := by
  obtain ⟨t, running⟩ := st
  induction running with
  | nil => exact ⟨rfl, rfl⟩
  | cons e running ih =>
    have hstep : timerRunStep clock ⟨t, e :: running⟩ .runTask = some ⟨t, running⟩ := rfl
    rw [List.length_cons, List.replicate_succ, exec_cons, outputs_cons hstep, hstep]
    exact ⟨ih.1, by rw [ih.2]; rfl⟩

/-- An event that is pending, or whose callback is about to run, is not done with. -/
theorem deleted_iff : Deleted clock st e ↔ Gone st e := by
  refine ⟨fun h => ⟨(h [] st List.not_mem_nil rfl).1, fun hmem => ?_⟩, Gone.deleted⟩
  obtain ⟨hexec, houtputs⟩ := exec_runTasks clock st
  refine (h _ _ (fun hadd => ?_) hexec).2 (by rw [houtputs]; exact hmem)
  cases List.eq_of_mem_replicate hadd

/-- **Deleted events never fire**, in every run, exactly if each is deleted while it is pending once
at most, under its arrive time, and no pass has copied its callback. -/
theorem staysDeleted_iff (events : E → TimerEvent κ) (es : List (TimerCall E))
    (hrun : (exec (timerRunStep clock) ⟨.new events, []⟩ es).isSome) :
    Along (timerRunStep clock) (StaysDeleted clock) ⟨.new events, []⟩ es ↔
      Along (timerRunStep clock) Deletable ⟨.new events, []⟩ es := by
  refine along_iff (I := fun _ => True) hrun trivial ?_ fun _ _ _ _ _ _ => trivial
  intro st c st' _ _
  cases c with
  | deleteTimerEvent e =>
    rw [StaysDeleted, deleted_iff, Deletable]
    constructor
    · intro h
      obtain ⟨hkeys, honce⟩ := Timer.not_pending_deleteTimerEvent_iff.mp h.pending
      exact ⟨h.running, hkeys, honce⟩
    · intro h
      exact ⟨Timer.not_pending_deleteTimerEvent_iff.mpr ⟨h.keys, h.once⟩, h.running⟩
  | addTimerEvent _ | onTimer | runTask => exact Iff.rfl

/-- A repeating event deletes itself when its callback has been called, and is added again. -/
theorem staysDeleted_iff_itself :
    let clock : ℕ → ℤ := fun k => 100 * k
    let events : ℕ → TimerEvent ℕ := fun e =>
      { arriveTime := 100, interval := 50, isRepeated := true, task := some e }
    let es : List (TimerCall ℕ) :=
      [.addTimerEvent 0, .onTimer, .runTask, .deleteTimerEvent 0, .addTimerEvent 0]
    Along (timerRunStep clock) (StaysDeleted clock) ⟨.new events, []⟩ es :=
  (staysDeleted_iff _ _ (by decide)).mpr (by decide)

/-- Of two events that arrive together, the callback of the first deletes the second: it runs. -/
theorem not_staysDeleted_same_pass : ¬ ∀ (clock : ℕ → ℤ) (events : ℕ → TimerEvent ℕ)
    (es : List (TimerCall ℕ)), (exec (timerRunStep clock) ⟨.new events, []⟩ es).isSome →
      Along (timerRunStep clock) (StaysDeleted clock) ⟨.new events, []⟩ es := by
  intro h
  let clock : ℕ → ℤ := fun k => 100 * k
  let events : ℕ → TimerEvent ℕ := fun e => { arriveTime := 100, interval := 50, task := some e }
  let front : List (TimerCall ℕ) := [.addTimerEvent 0, .addTimerEvent 1, .onTimer, .runTask]
  have hrun : (exec (timerRunStep clock) ⟨.new events, []⟩ front).map (·.running) = some [1] := by
    decide
  have hall : Along (timerRunStep clock) (StaysDeleted clock) ⟨.new events, []⟩
      (front ++ [.deleteTimerEvent 1]) := h clock events _ (by decide)
  clear_value front
  obtain ⟨st, hst, hrunning⟩ := Option.map_eq_some_iff.mp hrun
  have hlast : StaysDeleted clock st (.deleteTimerEvent 1) := hall.last hst
  exact (deleted_iff.mp hlast).running (hrunning ▸ List.mem_singleton.mpr rfl)

end TalonRPC
