import Mathlib.Order.MinMax
import TalonRPC.Timer.Firing

/-!
# The timer descriptor

The descriptor is armed when an addition has become the earliest event, and at the end of a pass;
deleting and draining leave it as it is. That is enough: an event that is not the earliest arrives
no earlier than the one the descriptor is armed for, and a deletion only moves the earliest time
back. An event that has arrived already is waited for 100 ms, never 0, which would disarm the
descriptor.

## Main definitions

* `Wakes`: while events are pending, the descriptor expires in time for them

## Main results

* `timerfdSettime_eq`: a positive interval arms the descriptor
* `Valid.wakes_resetArriveTime`: arming the descriptor is in time for all pending events
* `wakes_exec`: in every run the descriptor expires in time
-/

namespace TalonRPC

open Machine

variable {E κ : Type}

namespace Timer

/-- **While events are pending, the descriptor is armed, or has expired and waits for the next
pass**: it expires, after it was armed, no later than any of them arrives or 100 ms after it was
armed. -/
def Wakes (t : Timer E κ) : Prop :=
  t.pendingEvents.entries ≠ [] → ∃ a, t.armed = some a ∧ a.armedAt < a.expiry ∧
    ∀ e, t.Pending e → a.expiry ≤ max (t.events e).arriveTime (a.armedAt + 100)

variable {clock : ℕ → ℤ} {t t' : Timer E κ} {e f : E}

/-- A positive interval arms the descriptor. -/
theorem timerfdSettime_eq {now interval : ℤ} (h : 0 < interval) :
    timerfdSettime now { sec := interval / 1000, nsec := interval % 1000 * 1000000 } =
      some { armedAt := now, expiry := now + interval } := by
  unfold timerfdSettime
  dsimp only
  have hnonzero : ¬ (interval / 1000 = 0 ∧ interval % 1000 * 1000000 = 0) := by omega
  have hexpiry : now + interval / 1000 * 1000 + interval % 1000 * 1000000 / 1000000 =
      now + interval := by omega
  rw [if_neg hnonzero, hexpiry]

/-- The first entry is that of the event that arrives first. -/
theorem Valid.arriveTime_le_of_head {k : ℤ} {l : List (ℤ × E)} (h : Valid t)
    (hhead : t.pendingEvents.entries = (k, e) :: l) (hf : t.Pending f) :
    (t.events e).arriveTime ≤ (t.events f).arriveTime := by
  have hkey : k = (t.events e).arriveTime := h.keys (k, e) (hhead ▸ List.mem_cons_self ..)
  rw [← hkey]
  exact Multimap.le_of_head hhead (h.mem_iff.mp hf)

/-- **Arming the descriptor is in time for all pending events.** -/
theorem Valid.wakes_resetArriveTime (h : Valid t) (clock : ℕ → ℤ) :
    Wakes (t.resetArriveTime clock) := by
  obtain ⟨hpending, hevents, -⟩ := resetArriveTime_frame clock t
  intro hne
  rw [hpending] at hne
  obtain ⟨⟨k, e⟩, l, hhead⟩ := List.exists_cons_of_ne_nil hne
  have harmed : (t.resetArriveTime clock).armed = some
      { armedAt := t.now clock, expiry := t.now clock +
        if t.now clock < (t.events e).arriveTime then (t.events e).arriveTime - t.now clock
        else 100 } := by
    unfold resetArriveTime
    rw [hhead]
    dsimp only
    refine timerfdSettime_eq ?_
    split_ifs with hlater
    · exact Int.sub_pos.mpr hlater
    · decide
  refine ⟨_, harmed, ?_, fun f hf => ?_⟩
  · dsimp only
    split_ifs with hlater
    · omega
    · omega
  · unfold Pending at hf
    rw [hpending] at hf
    rw [hevents]
    have hle := h.arriveTime_le_of_head hhead hf
    split_ifs with hlater
    · refine le_max_of_le_left (le_trans ?_ hle)
      dsimp only
      omega
    · exact le_max_right _ _

/-- What an addition does: the new event is the earliest, or the descriptor is in time for it. -/
theorem Wakes.addTimerEvent (h : Wakes t) (hvalid : Valid t) (hnot : ¬ t.Pending e) :
    Wakes (t.addTimerEvent clock e) := by
  have hadd : Valid (t.addTimerEvent clock e) := hvalid.addTimerEvent hnot
  obtain ⟨hpending, hevents, -⟩ := addTimerEvent_frame clock t e
  have hplaced : Valid
      { t with pendingEvents := t.pendingEvents.emplace (t.events e).arriveTime e } :=
    hadd.of_eq hpending.symm hevents.symm
  unfold Timer.addTimerEvent
  dsimp only
  split_ifs with hreset
  · exact hplaced.wakes_resetArriveTime clock
  · cases hentries : t.pendingEvents.entries with
    | nil =>
      rw [hentries] at hreset
      exact absurd rfl hreset
    | cons p l =>
      obtain ⟨k, first⟩ := p
      rw [hentries] at hreset
      have hfirst : (t.events first).arriveTime ≤ (t.events e).arriveTime := by
        simpa using hreset
      obtain ⟨a, harmed, hlater, hintime⟩ := h (hentries ▸ List.cons_ne_nil _ _)
      refine fun _ => ⟨a, harmed, hlater, fun f hf => ?_⟩
      rcases List.mem_map.mp hf with ⟨p, hp, rfl⟩
      rcases Multimap.mem_emplace.mp hp with rfl | hp
      · -- The new event arrives no earlier than the first one.
        refine (hintime first ?_).trans (max_le_max_right _ hfirst)
        exact List.mem_map.mpr ⟨(k, first), hentries ▸ List.mem_cons_self .., rfl⟩
      · exact hintime p.2 (List.mem_map_of_mem hp)

variable [DecidableEq E]

/-- A deletion leaves the descriptor as it is, and no new events pending. -/
theorem Wakes.deleteTimerEvent (h : Wakes t) (hvalid : Valid t) (e : E) :
    Wakes (t.deleteTimerEvent e) := by
  have hsub := (hvalid.deleteTimerEvent e).2
  intro hne
  obtain ⟨a, harmed, hlater, hintime⟩ :=
    h (List.ne_nil_of_mem (hsub.subset (List.head_mem hne)))
  refine ⟨a, harmed, hlater, fun f hf => ?_⟩
  rw [arriveTime_deleteTimerEvent]
  exact hintime f ((hsub.map _).subset hf)

/-- A pass ends with arming the descriptor, before the callbacks run. -/
theorem Valid.wakes_beforeCallbacks (h : Valid t) (clock : ℕ → ℤ) :
    Wakes (t.beforeCallbacks clock) := by
  have hput := (h.takeOut clock).putBack clock (h.nodup_due (t.passTime clock))
    fun e he => by
      unfold Pending
      rw [(takeOut_frame clock t).1]
      exact h.not_pending_of_due he
  unfold Timer.beforeCallbacks
  rw [due_drain]
  exact hput.valid.wakes_resetArriveTime clock

theorem Wakes.addAll {added : List E} (h : Wakes t) (hvalid : Valid t)
    (hadd : added.foldlM (Timer.add clock) t = some t') : Wakes t' := by
  induction added generalizing t with
  | nil =>
    obtain rfl := Option.some.inj hadd
    exact h
  | cons e added ih =>
    rw [List.foldlM_cons] at hadd
    obtain ⟨t₁, ht₁, hrest⟩ := Option.bind_eq_some_iff.mp hadd
    obtain ⟨hnot, rfl⟩ := add_eq_some ht₁
    exact ih (h.addTimerEvent hvalid hnot) (hvalid.addTimerEvent hnot) hrest

/-- **An operation keeps the descriptor in time.** -/
theorem Wakes.step {op : TimerOp E} (h : Wakes t) (hvalid : Valid t)
    (hstep : timerStep clock t op = some t') : Wakes t' := by
  cases op with
  | addTimerEvent e =>
    obtain ⟨hnot, rfl⟩ := add_eq_some hstep
    exact h.addTimerEvent hvalid hnot
  | deleteTimerEvent e =>
    cases hstep
    exact h.deleteTimerEvent hvalid e
  | onTimer added =>
    exact (hvalid.wakes_beforeCallbacks clock).addAll (hvalid.beforeCallbacks clock).valid hstep

end Timer

section Run

variable [DecidableEq E] {clock : ℕ → ℤ} {events : E → TimerEvent κ} {t : Timer E κ}
  {ops : List (TimerOp E)}

/-- **No wake-up is lost**: in every run, while events are pending, the descriptor expires in time
for them. -/
theorem wakes_exec (hrun : exec (timerStep clock) (.new events) ops = some t) : t.Wakes := by
  refine (exec_invariant (I := fun t => t.Valid ∧ t.Wakes) ?_ ⟨valid_new events, ?_⟩ hrun).2
  · rintro t op t' ⟨hvalid, hwakes⟩ hstep
    exact ⟨hvalid.step hstep, hwakes.step hvalid hstep⟩
  · exact fun hne => absurd rfl hne

/-- An event that arrives at 1000 is added at 0, and one that has arrived already at 50; the latter
is deleted. -/
theorem wakes_exec_deleted :
    let clock : ℕ → ℤ := fun k => 50 * k
    let events : ℕ → TimerEvent ℕ := fun e =>
      { arriveTime := if e = 0 then 1000 else -5, interval := 0, task := none }
    ∃ t, exec (timerStep clock) (.new events)
        [.addTimerEvent 0, .addTimerEvent 1, .deleteTimerEvent 1] = some t ∧
      t.armed = some ⟨50, 150⟩ ∧ t.Wakes := by
  intro clock events
  have hrun : (exec (timerStep clock) (.new events)
      [.addTimerEvent 0, .addTimerEvent 1, .deleteTimerEvent 1]).map Timer.armed =
        some (some ⟨50, 150⟩) := by decide
  obtain ⟨t, ht, harmed⟩ := Option.map_eq_some_iff.mp hrun
  exact ⟨t, ht, harmed, wakes_exec ht⟩

end Run

end TalonRPC
