import Mathlib.Data.Int.ConditionallyCompleteOrder
import Mathlib.Order.ConditionallyCompleteLattice.Basic
import TalonRPC.Timer.Timer

/-!
# When callbacks run

The entries of the multimap are filed under the times at which their events arrive, and stay so
because an event is only given a new time while it is not in the multimap. So a pass, which walks
the multimap from its beginning, finds the events that have arrived and no others.

## Main definitions

* `Valid`: each event is filed once, under its arrive time
* `PutBack`: what is left when the repeating ones of some events have been put back
* `FiresOnTime`: what holds of the passes of a run

## Main results

* `Valid.putBack`: putting events back one by one
* `Valid.step`: an operation keeps the timer valid
* `firesOnTime`: in every run, a pass runs the events that have arrived, and puts back the repeating
  ones
-/

namespace TalonRPC

open Machine

variable {E κ : Type}

namespace Timer

variable {clock : ℕ → ℤ} {t t' : Timer E κ} {e f : E} {n : ℤ} {l : List E}

/-! ## Arming changes no events -/

section Fields

theorem resetArriveTime_frame (clock : ℕ → ℤ) (t : Timer E κ) :
    (t.resetArriveTime clock).pendingEvents = t.pendingEvents ∧
      (t.resetArriveTime clock).events = t.events ∧ t.reads ≤ (t.resetArriveTime clock).reads := by
  unfold resetArriveTime
  split
  · exact ⟨rfl, rfl, le_rfl⟩
  · exact ⟨rfl, rfl, Nat.le_succ _⟩

theorem addTimerEvent_frame (clock : ℕ → ℤ) (t : Timer E κ) (e : E) :
    (t.addTimerEvent clock e).pendingEvents = t.pendingEvents.emplace (t.events e).arriveTime e ∧
      (t.addTimerEvent clock e).events = t.events ∧
        t.reads ≤ (t.addTimerEvent clock e).reads := by
  unfold addTimerEvent
  dsimp only
  split_ifs
  · exact resetArriveTime_frame clock _
  · exact ⟨rfl, rfl, le_rfl⟩

theorem drain_frame (clock : ℕ → ℤ) (t : Timer E κ) :
    (t.drain clock).pendingEvents = t.pendingEvents ∧ (t.drain clock).events = t.events := by
  unfold drain
  split
  · exact ⟨rfl, rfl⟩
  · exact ⟨rfl, rfl⟩

/-- Reading the descriptor does not change what is due. -/
theorem due_drain (clock : ℕ → ℤ) (t : Timer E κ) (n : ℤ) : (t.drain clock).due n = t.due n := by
  obtain ⟨hpending, hevents⟩ := drain_frame clock t
  unfold due
  rw [hpending, hevents]

end Fields

/-! ## The events of a pass -/

/-- **Each event is filed once, under its arrive time.** -/
structure Valid (t : Timer E κ) : Prop where
  keys : ∀ p ∈ t.pendingEvents.entries, p.1 = (t.events p.2).arriveTime
  once : (t.pendingEvents.entries.map Prod.snd).Nodup

theorem Valid.mem_iff (h : Valid t) :
    t.Pending e ↔ ((t.events e).arriveTime, e) ∈ t.pendingEvents.entries := by
  unfold Pending
  rw [List.mem_map]
  constructor
  · rintro ⟨p, hp, rfl⟩
    rwa [← h.keys p hp]
  · exact fun hp => ⟨_, hp, rfl⟩

/-- **A pass takes out exactly the pending events that have arrived and are not cancelled.** -/
theorem Valid.mem_due (h : Valid t) :
    e ∈ t.due n ↔ t.Pending e ∧ (t.events e).isCancled = false ∧ (t.events e).arriveTime ≤ n := by
  unfold due
  rw [List.mem_map]
  constructor
  · rintro ⟨p, hp, rfl⟩
    obtain ⟨hmem, hcancled⟩ := List.mem_filter.mp hp
    obtain ⟨hentry, hle⟩ := Multimap.mem_upTo.mp hmem
    refine ⟨List.mem_map_of_mem hentry, by simpa using hcancled, ?_⟩
    rwa [← h.keys p hentry]
  · rintro ⟨hpending, hcancled, hle⟩
    refine ⟨_, List.mem_filter.mpr ⟨Multimap.mem_upTo.mpr ⟨h.mem_iff.mp hpending, hle⟩, ?_⟩, rfl⟩
    simpa using hcancled

/-- Each of them once. -/
theorem Valid.nodup_due (h : Valid t) (n : ℤ) : (t.due n).Nodup :=
  h.once.sublist ((List.filter_sublist.trans (List.takeWhile_sublist _)).map _)

/-- In the order in which they arrive. -/
theorem Valid.sorted_due (h : Valid t) (n : ℤ) :
    (t.due n).Pairwise fun e f => (t.events e).arriveTime ≤ (t.events f).arriveTime := by
  unfold due
  refine List.pairwise_map.mpr (((t.pendingEvents.sorted_upTo n).sublist
    List.filter_sublist).imp_of_mem ?_)
  intro p q hp hq hle
  have hentry : ∀ {p}, p ∈ (t.pendingEvents.upTo n).filter
      (fun p => ¬ (t.events p.2).isCancled) → p.1 = (t.events p.2).arriveTime :=
    fun hp => h.keys _ (Multimap.mem_upTo.mp (List.mem_filter.mp hp).1).1
  rwa [hentry hp, hentry hq] at hle

/-- What runs are the callbacks of these events. -/
theorem callbacks_eq (clock : ℕ → ℤ) (t : Timer E κ) :
    t.callbacks clock = (t.due (t.passTime clock)).filterMap fun e => (t.events e).task := by
  unfold callbacks tasks
  rw [due_drain, (drain_frame clock t).2, List.filterMap_map]
  rfl

/-! ## Operations -/

/-- Only the multimap and the events matter. -/
theorem Valid.of_eq (h : Valid t) (hpending : t'.pendingEvents = t.pendingEvents)
    (hevents : t'.events = t.events) : Valid t' := by
  constructor
  · rw [hpending, hevents]
    exact h.keys
  · rw [hpending]
    exact h.once

/-- What an addition does. -/
theorem Valid.addTimerEvent (h : Valid t) (hnot : ¬ t.Pending e) :
    Valid (t.addTimerEvent clock e) := by
  obtain ⟨hpending, hevents, -⟩ := addTimerEvent_frame clock t e
  constructor
  · rw [hpending, hevents]
    intro p hp
    rcases Multimap.mem_emplace.mp hp with rfl | hp
    · rfl
    · exact h.keys p hp
  · rw [hpending, ((Multimap.emplace_perm _ _ _).map _).nodup_iff, List.map_cons, List.nodup_cons]
    exact ⟨hnot, h.once⟩

theorem Valid.eraseUpTo (h : Valid t) (n : ℤ) :
    Valid { t with pendingEvents := t.pendingEvents.eraseUpTo n } := by
  have hsub : (t.pendingEvents.eraseUpTo n).entries.Sublist t.pendingEvents.entries :=
    List.dropWhile_sublist _
  exact ⟨fun p hp => h.keys p (hsub.subset hp), h.once.sublist (hsub.map _)⟩

/-- An event that is taken out is not among those that remain. -/
theorem Valid.not_pending_of_due (h : Valid t) (he : e ∈ t.due n) :
    ¬ Pending { t with pendingEvents := t.pendingEvents.eraseUpTo n } e := by
  have honce := h.once
  rw [← t.pendingEvents.upTo_append_eraseUpTo n, List.map_append, List.nodup_append] at honce
  intro hremains
  obtain ⟨p, hp, rfl⟩ := List.mem_map.mp he
  exact honce.2.2 _ (List.mem_map_of_mem (List.mem_filter.mp hp).1) _ hremains rfl

variable [DecidableEq E]

theorem events_resetEvent_self (clock : ℕ → ℤ) (t : Timer E κ) (e : E) :
    (t.resetEvent clock e).events e =
      { t.events e with arriveTime := clock t.reads + (t.events e).interval } :=
  Function.update_self ..

theorem events_resetEvent_of_ne (h : f ≠ e) (clock : ℕ → ℤ) :
    (t.resetEvent clock e).events f = t.events f := Function.update_of_ne h ..

/-- An event gets its new time while it is not in the multimap. -/
theorem Valid.resetEvent (h : Valid t) (hnot : ¬ t.Pending e) : Valid (t.resetEvent clock e) where
  keys p hp := by
    have hpe : p.2 ≠ e := by
      rintro rfl
      exact hnot (List.mem_map_of_mem hp)
    rw [events_resetEvent_of_ne hpe]
    exact h.keys p hp
  once := h.once

/-- A repeating event is put back, once and with a new time. -/
theorem Valid.readd (h : Valid t) (clock : ℕ → ℤ) (hnot : ¬ t.Pending e)
    (hrepeated : (t.events e).isRepeated = true) :
    Valid (t.readd clock e) ∧ t.reads ≤ (t.readd clock e).reads ∧
      (t.readd clock e).events e =
        { t.events e with arriveTime := clock t.reads + (t.events e).interval } ∧
      (∀ f, f ≠ e → (t.readd clock e).events f = t.events f) ∧
      (t.readd clock e).pendingEvents.entries.Perm
        ((((t.readd clock e).events e).arriveTime, e) :: t.pendingEvents.entries) := by
  have hreadd : t.readd clock e = (t.resetEvent clock e).addTimerEvent clock e := if_pos hrepeated
  obtain ⟨hpending, hevents, hreads⟩ := addTimerEvent_frame clock (t.resetEvent clock e) e
  rw [← hreadd] at hpending hevents hreads
  refine ⟨?_, (Nat.le_succ _).trans hreads, ?_, fun f hf => ?_, ?_⟩
  · rw [hreadd]
    exact (h.resetEvent hnot).addTimerEvent hnot
  · rw [hevents, events_resetEvent_self]
  · rw [hevents, events_resetEvent_of_ne hf]
  · rw [hpending, hevents]
    exact Multimap.emplace_perm _ _ _

/-- What is left when the repeating ones of the events `l` have been put back. -/
structure PutBack (clock : ℕ → ℤ) (t : Timer E κ) (l : List E) (t' : Timer E κ) : Prop where
  valid : Valid t'
  reads : t.reads ≤ t'.reads
  others : ∀ e, ¬ (e ∈ l ∧ (t.events e).isRepeated = true) → t'.events e = t.events e
  renewed : ∀ e ∈ l, (t.events e).isRepeated = true → ∃ k, t.reads ≤ k ∧
    t'.events e = { t.events e with arriveTime := clock k + (t.events e).interval }
  entries : t'.pendingEvents.entries.Perm (t.pendingEvents.entries ++
    (l.filter fun e => (t.events e).isRepeated).map fun e => ((t'.events e).arriveTime, e))

omit [DecidableEq E] in
/-- An event that does not repeat is not put back. -/
theorem PutBack.skip (honeShot : ¬ (t.events e).isRepeated = true) (h : PutBack clock t l t') :
    PutBack clock t (e :: l) t' := by
  refine ⟨h.valid, h.reads, fun f hf => ?_, fun f hf hf' => ?_, ?_⟩
  · exact h.others f fun hboth => hf ⟨List.mem_cons_of_mem _ hboth.1, hboth.2⟩
  · rcases List.mem_cons.mp hf with rfl | hf
    · exact absurd hf' honeShot
    · exact h.renewed f hf hf'
  · rw [List.filter_cons_of_neg (p := fun f => (t.events f).isRepeated) honeShot]
    exact h.entries

/-- A repeating event is put back before the others. -/
theorem PutBack.cons (hvalid : Valid t) (hnot : ¬ t.Pending e)
    (hrepeated : (t.events e).isRepeated = true) (hel : e ∉ l)
    (h : PutBack clock (t.readd clock e) l t') : PutBack clock t (e :: l) t' := by
  obtain ⟨-, hreads, hself, hother, hentries⟩ := hvalid.readd clock hnot hrepeated
  have hsame : ∀ f ∈ l, (t.readd clock e).events f = t.events f := by
    intro f hf
    refine hother f ?_
    rintro rfl
    exact hel hf
  -- Putting the others back does not touch the event.
  have hlast : t'.events e = (t.readd clock e).events e := h.others e fun hboth => hel hboth.1
  refine ⟨h.valid, hreads.trans h.reads, fun f hf => ?_, fun f hf hf' => ?_, ?_⟩
  · have hfe : f ≠ e := by
      rintro rfl
      exact hf ⟨List.mem_cons_self .., hrepeated⟩
    rw [h.others f ?_, hother f hfe]
    rw [hother f hfe]
    exact fun hboth => hf ⟨List.mem_cons_of_mem _ hboth.1, hboth.2⟩
  · rcases List.mem_cons.mp hf with rfl | hf
    · exact ⟨t.reads, le_rfl, hlast.trans hself⟩
    · obtain ⟨k, hk, heq⟩ := h.renewed f hf (by rwa [hsame f hf])
      refine ⟨k, hreads.trans hk, ?_⟩
      rw [heq, hsame f hf]
  · have hfilter : (l.filter fun f => ((t.readd clock e).events f).isRepeated) =
        l.filter fun f => (t.events f).isRepeated :=
      List.filter_congr fun f hf => by rw [hsame f hf]
    have hperm := h.entries
    rw [hfilter] at hperm
    rw [List.filter_cons_of_pos (p := fun f => (t.events f).isRepeated) hrepeated,
      List.map_cons, hlast]
    refine hperm.trans ((hentries.append_right _).trans ?_)
    rw [List.cons_append]
    exact List.perm_middle.symm

/-- **Putting events back one by one**, none of which is pending. -/
theorem Valid.putBack (h : Valid t) (clock : ℕ → ℤ) (hl : l.Nodup)
    (hnot : ∀ e ∈ l, ¬ t.Pending e) :
    PutBack clock t l (l.foldl (Timer.readd clock) t) := by
  induction l generalizing t with
  | nil =>
    refine ⟨h, le_rfl, fun _ _ => rfl, ?_, ?_⟩
    · rintro e ⟨⟩
    · simp
  | cons e l ih =>
    obtain ⟨hel, hl⟩ := List.nodup_cons.mp hl
    have hnote := hnot e (List.mem_cons_self ..)
    have hnot' := fun f hf => hnot f (List.mem_cons_of_mem _ hf)
    rw [List.foldl_cons]
    by_cases hrepeated : (t.events e).isRepeated = true
    · obtain ⟨hvalid, -, -, -, hentries⟩ := h.readd clock hnote hrepeated
      refine .cons h hnote hrepeated hel (ih hvalid hl fun f hf => ?_)
      unfold Pending
      rw [(hentries.map _).mem_iff, List.map_cons, List.mem_cons, not_or]
      refine ⟨?_, hnot' f hf⟩
      rintro rfl
      exact hel hf
    · have hreadd : t.readd clock e = t := if_neg hrepeated
      rw [hreadd]
      exact .skip hrepeated (ih h hl hnot')

/-! ## A pass -/

omit [DecidableEq E] in
theorem takeOut_frame (clock : ℕ → ℤ) (t : Timer E κ) :
    (t.takeOut clock).pendingEvents = t.pendingEvents.eraseUpTo (t.passTime clock) ∧
      (t.takeOut clock).events = t.events ∧
        t.passTime clock = clock (t.drain clock).reads ∧
          (t.takeOut clock).reads = (t.drain clock).reads + 1 := by
  obtain ⟨hpending, hevents⟩ := drain_frame clock t
  refine ⟨?_, hevents, rfl, rfl⟩
  unfold takeOut tick
  dsimp only
  rw [hpending]

omit [DecidableEq E] in
theorem Valid.takeOut (h : Valid t) (clock : ℕ → ℤ) : Valid (t.takeOut clock) := by
  obtain ⟨hpending, hevents, -⟩ := takeOut_frame clock t
  exact (h.eraseUpTo (t.passTime clock)).of_eq hpending hevents

omit [DecidableEq E] in
/-- Arming the descriptor changes nothing of what has been put back. -/
theorem PutBack.resetArriveTime (h : PutBack clock t l t') :
    PutBack clock t l (t'.resetArriveTime clock) := by
  obtain ⟨hpending, hevents, hreads⟩ := resetArriveTime_frame clock t'
  refine ⟨h.valid.of_eq hpending hevents, h.reads.trans hreads, ?_, ?_, ?_⟩
  · rw [hevents]
    exact h.others
  · rw [hevents]
    exact h.renewed
  · rw [hpending, hevents]
    exact h.entries

/-- **Before the callbacks run**, the events that have arrived have been taken out, and the
repeating ones put back. -/
theorem Valid.beforeCallbacks (h : Valid t) (clock : ℕ → ℤ) :
    PutBack clock (t.takeOut clock) (t.due (t.passTime clock)) (t.beforeCallbacks clock) := by
  obtain ⟨hpending, hevents, -⟩ := takeOut_frame clock t
  have hput := (h.takeOut clock).putBack clock (h.nodup_due (t.passTime clock))
    fun e he => ?_
  · unfold Timer.beforeCallbacks
    rw [due_drain]
    exact hput.resetArriveTime
  · unfold Pending
    rw [hpending]
    exact h.not_pending_of_due he

/-- What an addition on behalf of a caller does. -/
theorem add_eq_some (h : t.add clock e = some t') :
    ¬ t.Pending e ∧ t' = t.addTimerEvent clock e := by
  unfold add at h
  split_ifs at h with hpending
  cases h
  exact ⟨hpending, rfl⟩

/-- The callbacks of a pass add events one after the other. -/
theorem Valid.addAll {added : List E} (h : Valid t)
    (hadd : added.foldlM (Timer.add clock) t = some t') :
    Valid t' ∧ t'.events = t.events ∧
      (t'.pendingEvents.entries.map Prod.snd).Perm
        (added ++ t.pendingEvents.entries.map Prod.snd) := by
  induction added generalizing t with
  | nil =>
    obtain rfl := Option.some.inj hadd
    exact ⟨h, rfl, List.Perm.refl _⟩
  | cons e added ih =>
    rw [List.foldlM_cons] at hadd
    obtain ⟨t₁, ht₁, hrest⟩ := Option.bind_eq_some_iff.mp hadd
    obtain ⟨hnot, rfl⟩ := add_eq_some ht₁
    obtain ⟨hpending, hevents, -⟩ := addTimerEvent_frame clock t e
    obtain ⟨hvalid, hevents', hperm⟩ := ih (h.addTimerEvent hnot) hrest
    refine ⟨hvalid, hevents'.trans hevents, hperm.trans ?_⟩
    rw [hpending]
    refine (((Multimap.emplace_perm _ _ _).map _).append_left _).trans ?_
    rw [List.map_cons, List.cons_append]
    exact List.perm_middle

/-- Deleting leaves all arrive times as they are. -/
theorem arriveTime_deleteTimerEvent (t : Timer E κ) (e f : E) :
    ((t.deleteTimerEvent e).events f).arriveTime = (t.events f).arriveTime := by
  unfold deleteTimerEvent
  dsimp only
  by_cases hf : f = e
  · subst hf
    rw [Function.update_self]
  · rw [Function.update_of_ne hf]

/-- A deletion erases at most the entry of the event. -/
theorem Valid.deleteTimerEvent (h : Valid t) (e : E) :
    Valid (t.deleteTimerEvent e) ∧
      (t.deleteTimerEvent e).pendingEvents.entries.Sublist t.pendingEvents.entries := by
  have hentries : (t.deleteTimerEvent e).pendingEvents.entries =
      t.pendingEvents.entries.erase ((t.events e).arriveTime, e) := by
    unfold Timer.deleteTimerEvent
    dsimp only
    rw [Multimap.entries_eraseValue, Function.update_self]
  have hsub : (t.deleteTimerEvent e).pendingEvents.entries.Sublist t.pendingEvents.entries := by
    rw [hentries]
    exact List.erase_sublist
  refine ⟨⟨fun p hp => ?_, h.once.sublist (hsub.map _)⟩, hsub⟩
  rw [arriveTime_deleteTimerEvent]
  exact h.keys p (hsub.subset hp)

/-- **An operation keeps the timer valid.** -/
theorem Valid.step {op : TimerOp E} (h : Valid t) (hstep : timerStep clock t op = some t') :
    Valid t' := by
  cases op with
  | addTimerEvent e =>
    obtain ⟨hnot, rfl⟩ := add_eq_some hstep
    exact h.addTimerEvent hnot
  | deleteTimerEvent e =>
    cases hstep
    exact (h.deleteTimerEvent e).1
  | onTimer added => exact ((h.beforeCallbacks clock).valid.addAll hstep).1

/-! ## What becomes of an event -/

omit [DecidableEq E] in
/-- Putting events back changes nothing but arrive times. -/
theorem PutBack.flags (h : PutBack clock t l t') (e : E) :
    (t'.events e).isRepeated = (t.events e).isRepeated ∧
      (t'.events e).isCancled = (t.events e).isCancled := by
  by_cases he : e ∈ l ∧ (t.events e).isRepeated = true
  · obtain ⟨k, -, heq⟩ := h.renewed e he.1 he.2
    rw [heq]
    exact ⟨rfl, rfl⟩
  · rw [h.others e he]
    exact ⟨rfl, rfl⟩

/-- No operation changes whether an event repeats, and none revokes a cancellation. -/
theorem Valid.flags {op : TimerOp E} (h : Valid t) (hstep : timerStep clock t op = some t')
    (e : E) : (t'.events e).isRepeated = (t.events e).isRepeated ∧
      ((t.events e).isCancled = true → (t'.events e).isCancled = true) := by
  cases op with
  | addTimerEvent f =>
    obtain ⟨-, rfl⟩ := add_eq_some hstep
    rw [(addTimerEvent_frame clock t f).2.1]
    exact ⟨rfl, id⟩
  | deleteTimerEvent f =>
    cases hstep
    unfold Timer.deleteTimerEvent
    dsimp only
    by_cases he : e = f
    · subst he
      rw [Function.update_self]
      exact ⟨rfl, fun _ => rfl⟩
    · rw [Function.update_of_ne he]
      exact ⟨rfl, id⟩
  | onTimer added =>
    have hput := h.beforeCallbacks clock
    obtain ⟨hrepeated, hcancled⟩ := hput.flags e
    obtain ⟨-, hevents, -⟩ := hput.valid.addAll hstep
    rw [(takeOut_frame clock t).2.1] at hrepeated hcancled
    rw [hevents, hrepeated, hcancled]
    exact ⟨rfl, id⟩

/-- **A one-shot event runs at the cost of an addition**: when an operation runs it, it is not
pending any more. -/
theorem Valid.count_step {op : TimerOp E} (h : Valid t) (hstep : timerStep clock t op = some t')
    (honeShot : (t.events e).isRepeated = false) :
    (fired clock t op).count e + (t'.pendingEvents.entries.map Prod.snd).count e ≤
      (t.pendingEvents.entries.map Prod.snd).count e + op.added.count e := by
  cases op with
  | addTimerEvent f =>
    obtain ⟨-, rfl⟩ := add_eq_some hstep
    rw [(addTimerEvent_frame clock t f).1, ((Multimap.emplace_perm _ _ _).map _).count_eq,
      List.map_cons, List.count_cons, fired, TimerOp.added, List.count_nil, List.count_singleton,
      Nat.zero_add]
  | deleteTimerEvent f =>
    cases hstep
    have hsub := (h.deleteTimerEvent f).2.map Prod.snd
    rw [fired, List.count_nil, TimerOp.added, List.count_nil, Nat.zero_add]
    exact hsub.count_le e
  | onTimer added =>
    have hput := h.beforeCallbacks clock
    obtain ⟨hpending, hevents, -⟩ := takeOut_frame clock t
    obtain ⟨-, -, hperm⟩ := hput.valid.addAll hstep
    have hentries := (hput.entries.map Prod.snd).count_eq e
    rw [hpending, hevents, List.map_append, List.count_append, List.map_map] at hentries
    -- It is not among the events that have been put back.
    have hnone : (((t.due (t.passTime clock)).filter fun e => (t.events e).isRepeated).map
        (Prod.snd ∘ fun e =>
          (((t.beforeCallbacks clock).events e).arriveTime, e))).count e = 0 := by
      refine List.count_eq_zero_of_not_mem fun hmem => ?_
      obtain ⟨f, hf, rfl⟩ := List.mem_map.mp hmem
      cases honeShot.symm.trans (List.mem_filter.mp hf).2
    have hdue : (t.due (t.passTime clock)).count e ≤
        ((t.pendingEvents.upTo (t.passTime clock)).map Prod.snd).count e :=
      (List.filter_sublist.map _).count_le e
    have hall := congrArg (fun l => (l.map Prod.snd).count e)
      (t.pendingEvents.upTo_append_eraseUpTo (t.passTime clock))
    rw [List.map_append, List.count_append] at hall
    rw [hperm.count_eq, List.count_append, fired, due_drain, TimerOp.added]
    omega

/-- A cancelled event never runs again. -/
theorem Valid.notMem_outputs {ops : List (TimerOp E)} (h : Valid t)
    (hcancled : (t.events e).isCancled = true) :
    e ∉ outputs (timerStep clock) (fired clock) t ops := by
  induction ops generalizing t with
  | nil => exact List.not_mem_nil
  | cons op ops ih =>
    have hnow : e ∉ fired clock t op := by
      cases op with
      | addTimerEvent f => exact List.not_mem_nil
      | deleteTimerEvent f => exact List.not_mem_nil
      | onTimer added =>
        rw [fired, due_drain]
        intro hmem
        cases hcancled.symm.trans (h.mem_due.mp hmem).2.1
    cases hstep : timerStep clock t op with
    | none =>
      rw [outputs, hstep, List.append_nil]
      exact hnow
    | some t' =>
      rw [outputs_cons hstep, List.mem_append, not_or]
      exact ⟨hnow, ih (h.step hstep) ((h.flags hstep e).2 hcancled)⟩

end Timer

/-! ## All passes -/

/-- **The passes of a run.** In the state `t` that the operations `ops` lead to, each entry is filed
under its arrive time. A pass then runs exactly the pending events that have arrived and are not
cancelled, each once, in the order of their arrive times; before the callbacks run, those that
have not arrived are pending, and the repeating ones, once and with a new time. So far no one-shot
event has run more often than it has been added, and none after it had been deleted. -/
structure FiresOnTime [DecidableEq E] (clock : ℕ → ℤ) (events : E → TimerEvent κ)
    (ops : List (TimerOp E)) (t : Timer E κ) : Prop where
  keys : ∀ p ∈ t.pendingEvents.entries, p.1 = (t.events p.2).arriveTime
  exact : ∀ e, e ∈ t.due (t.passTime clock) ↔ t.Pending e ∧ (t.events e).isCancled = false ∧
    (t.events e).arriveTime ≤ t.passTime clock
  once : (t.due (t.passTime clock)).Nodup
  ordered : (t.due (t.passTime clock)).Pairwise fun e f =>
    (t.events e).arriveTime ≤ (t.events f).arriveTime
  callbacks : t.callbacks clock = (t.due (t.passTime clock)).filterMap fun e => (t.events e).task
  before : (t.beforeCallbacks clock).pendingEvents.entries.Perm
    ((t.pendingEvents.entries.filter fun p => t.passTime clock < p.1) ++
      ((t.due (t.passTime clock)).filter fun e => (t.events e).isRepeated).map fun e =>
        (((t.beforeCallbacks clock).events e).arriveTime, e))
  renewed : ∀ e ∈ t.due (t.passTime clock), (t.events e).isRepeated = true →
    t.passTime clock + (t.events e).interval ≤ ((t.beforeCallbacks clock).events e).arriveTime
  others : ∀ e, ¬ (e ∈ t.due (t.passTime clock) ∧ (t.events e).isRepeated = true) →
    (t.beforeCallbacks clock).events e = t.events e
  atMostOnce : ∀ e, (events e).isRepeated = false →
    (outputs (timerStep clock) (fired clock) (.new events) ops).count e ≤
      (ops.flatMap TimerOp.added).count e
  deleted : ∀ e pre post s, ops = pre ++ .deleteTimerEvent e :: post →
    exec (timerStep clock) (.new events) (pre ++ [.deleteTimerEvent e]) = some s →
      e ∉ outputs (timerStep clock) (fired clock) s post

section Run

variable [DecidableEq E] {clock : ℕ → ℤ} {events : E → TimerEvent κ} {t : Timer E κ}
  {ops : List (TimerOp E)}

omit [DecidableEq E] in
theorem valid_new (events : E → TimerEvent κ) : (Timer.new events).Valid where
  keys _ h := by cases h
  once := List.nodup_nil

theorem valid_exec (hrun : exec (timerStep clock) (.new events) ops = some t) : t.Valid :=
  exec_invariant (fun _ _ _ h hstep => h.step hstep) (valid_new events) hrun

/-- In a run, a one-shot event has been added as often as it has run and is pending. -/
theorem count_outputs_le (e : E) (honeShot : (events e).isRepeated = false)
    (hrun : exec (timerStep clock) (.new events) ops = some t) :
    (t.events e).isRepeated = false ∧
      (outputs (timerStep clock) (fired clock) (.new events) ops).count e +
          (t.pendingEvents.entries.map Prod.snd).count e ≤ (ops.flatMap TimerOp.added).count e := by
  refine exec_history (I := fun ops t => (t.events e).isRepeated = false ∧
    (outputs (timerStep clock) (fired clock) (.new events) ops).count e +
      (t.pendingEvents.entries.map Prod.snd).count e ≤ (ops.flatMap TimerOp.added).count e)
    ?_ ?_ hrun
  · exact ⟨honeShot, le_rfl⟩
  rintro ops t op t' hexec ⟨hrepeated, hcount⟩ hstep
  have hvalid := valid_exec hexec
  have hnext := hvalid.count_step hstep hrepeated
  refine ⟨(hvalid.flags hstep e).1.trans hrepeated, ?_⟩
  have hlast : outputs (timerStep clock) (fired clock) t [op] = fired clock t op := by
    rw [outputs_cons hstep, outputs, List.append_nil]
  rw [outputs_append hexec, hlast, List.count_append, List.flatMap_append, List.count_append,
    List.flatMap_singleton]
  omega

/-- **Timers fire on time**: with a clock that does not go back, in every run. -/
theorem firesOnTime (hclock : Monotone clock)
    (hrun : exec (timerStep clock) (.new events) ops = some t) :
    FiresOnTime clock events ops t := by
  have hvalid := valid_exec hrun
  have hput := hvalid.beforeCallbacks clock
  obtain ⟨hpending, hevents, htime, hreads⟩ := Timer.takeOut_frame clock t
  refine ⟨hvalid.keys, fun e => hvalid.mem_due, hvalid.nodup_due _, hvalid.sorted_due _,
    Timer.callbacks_eq clock t, ?_, fun e he hrepeated => ?_, fun e he => ?_, fun e honeShot => ?_,
    ?_⟩
  · have hentries := hput.entries
    rwa [hpending, hevents, Multimap.entries_eraseUpTo] at hentries
  · obtain ⟨k, hk, heq⟩ := hput.renewed e he (hevents ▸ hrepeated)
    rw [hreads] at hk
    rw [heq, hevents, htime]
    -- The clock has been read again since the pass began.
    have hlater : (t.drain clock).reads ≤ k := (Nat.le_succ _).trans hk
    exact Int.add_le_add_right (hclock hlater) _
  · rw [hput.others e (hevents ▸ he), hevents]
  · exact (Nat.le_add_right _ _).trans (count_outputs_le e honeShot hrun).2
  · rintro e pre post s - hpre
    obtain ⟨t₀, -, hdelete⟩ := exec_snoc.mp hpre
    refine (valid_exec hpre).notMem_outputs ?_
    cases hdelete
    unfold Timer.deleteTimerEvent
    dsimp only
    rw [Function.update_self]

/-- A repeating event and a one-shot event run, and a callback adds the latter again; the repeating
event is deleted before it runs a second time. -/
theorem firesOnTime_deleted :
    let clock : ℕ → ℤ := fun k => 100 * k
    let events : ℕ → TimerEvent ℕ := fun e =>
      { arriveTime := 100, interval := 50, isRepeated := e = 0, task := some e }
    let ops : List (TimerOp ℕ) :=
      [.addTimerEvent 1, .addTimerEvent 0, .onTimer [1], .deleteTimerEvent 0, .onTimer []]
    ∃ t, exec (timerStep clock) (.new events) ops = some t ∧
      outputs (timerStep clock) (fired clock) (.new events) ops = [1, 0, 1] ∧
        FiresOnTime clock events ops t := by
  intro clock events ops
  have hclock : Monotone clock := fun j k hjk => by
    have hle : (j : ℤ) ≤ k := Int.ofNat_le.mpr hjk
    exact Int.mul_le_mul_of_nonneg_left hle (by decide)
  obtain ⟨t, ht⟩ := Option.isSome_iff_exists.mp
    (show (exec (timerStep clock) (.new events) ops).isSome = true by decide)
  exact ⟨t, ht, by decide, firesOnTime hclock ht⟩

end Run

end TalonRPC
