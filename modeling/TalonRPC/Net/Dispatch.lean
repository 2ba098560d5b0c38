import Mathlib.Algebra.Ring.Parity
import TalonRPC.Net.Isolation

/-!
# What an epoll result enqueues

An `Fd_Event` is listened on for reading and for writing, with a callback for each and one for
errors, and `Eventloop::loop` adds the callbacks of the bits it finds set. The callback for errors
is not the last one supplied: every `listen` that finds one there takes it away. And where there is
one, the loop adds the callback for writing in its place.

## Main definitions

* `FdEventCall`, `after`: the calls on an `Fd_Event`, and what they leave
* `lastCallback`, `lastError`, `listening`: the callback registered last, the last error callback
  supplied, and whether a direction is listened on
* `suppliedInARow`: how many of the last calls of `listen` supplied an error callback
* `Matches`: an epoll result enqueues what was registered, and the mask is what is listened on

## Main results

* `after_errorCallback`: the error callback is there after an odd number of calls in a row
* `matches_iff`: all is as registered exactly if no error is reported, or none of the calls supplied
  an error callback, or the callback for writing is that for errors and the number is odd
-/

namespace TalonRPC.Net

variable {κ : Type}

/-- A call on an `Fd_Event`. -/
inductive FdEventCall (κ : Type)
  | listen (eventType : TriggerEvent) (callback : κ) (errorCallback : Option κ)
  | cancle (eventType : TriggerEvent)
  deriving DecidableEq, Repr

namespace FdEventCall

/-- The `Fd_Event` after a call. -/
def run (ev : FdEvent κ) : FdEventCall κ → FdEvent κ
  | listen eventType callback errorCallback => ev.listen eventType callback errorCallback
  | cancle eventType => ev.cancle eventType

/-- The `Fd_Event` of a descriptor after calls. -/
def after (fd : ℕ) (calls : List (FdEventCall κ)) : FdEvent κ := calls.foldl run { fd }

/-- What an `Fd_Event` is listened on for. -/
inductive Direction
  | reading
  | writing
  deriving DecidableEq, Repr

/-- The direction of an event: `listen` and `cancle` take all but `IN_EVENT` for writing. -/
def direction : TriggerEvent → Direction
  | .inEvent => .reading
  | .outEvent => .writing
  | .errorEvent => .writing

/-- The callback a call registers for a direction. -/
def registers (d : Direction) : FdEventCall κ → Option κ
  | listen eventType callback _ => if direction eventType = d then some callback else none
  | cancle _ => none

/-- The callback registered last for a direction. -/
def lastCallback (d : Direction) (calls : List (FdEventCall κ)) : Option κ :=
  (calls.filterMap (registers d)).getLast?

/-- The error callback a call of `listen` supplies, which may be null. -/
def supplies : FdEventCall κ → Option (Option κ)
  | listen _ _ errorCallback => some errorCallback
  | cancle _ => none

/-- The last error callback supplied that is not null. -/
def lastError (calls : List (FdEventCall κ)) : Option κ :=
  ((calls.filterMap supplies).filterMap id).getLast?

/-- How many of the last calls of `listen` supplied an error callback that is not null. -/
def suppliedInARow (calls : List (FdEventCall κ)) : ℕ :=
  ((calls.filterMap supplies).reverse.takeWhile Option.isSome).length

/-- What a call does to the interest in a direction. -/
def interests (d : Direction) : FdEventCall κ → Option Bool
  | listen eventType _ _ => if direction eventType = d then some true else none
  | cancle eventType => if direction eventType = d then some false else none

/-- The direction is listened on, and not cancelled since. -/
def listening (d : Direction) (calls : List (FdEventCall κ)) : Bool :=
  (calls.filterMap (interests d)).getLast? = some true

end FdEventCall

open FdEventCall

/-- The bits of a mask that `Eventloop::loop` looks at: `EPOLLIN`, `EPOLLOUT` and `EPOLLERR`. -/
def Trigger.ofEvents (events : UInt32) : Trigger :=
  ⟨events &&& 0x001 ≠ 0, events &&& 0x004 ≠ 0, events &&& 0x008 ≠ 0⟩

/-- The tasks `Eventloop::loop` adds for an epoll result on an `Fd_Event`. -/
def addedTasks (ev : FdEvent κ) (trigger : Trigger) : List (Option κ) :=
  (if trigger.inEvent then [ev.handler .inEvent] else []) ++
    (if trigger.outEvent then [ev.handler .outEvent] else []) ++
      if trigger.error ∧ (ev.handler .errorEvent).isSome then [ev.handler .outEvent] else []

/-- The tasks that were asked for: the callbacks of the bits that are set, as they were registered
last, and the last error callback, if one was supplied. -/
def wantedTasks (calls : List (FdEventCall κ)) (trigger : Trigger) : List (Option κ) :=
  (if trigger.inEvent then [lastCallback .reading calls] else []) ++
    (if trigger.outEvent then [lastCallback .writing calls] else []) ++
      if trigger.error then (lastError calls).toList.map some else []

/-- **An epoll result enqueues what was registered**, and the mask is what is listened on. -/
structure Matches (fd : ℕ) (calls : List (FdEventCall κ)) (events : UInt32) : Prop where
  tasks : addedTasks (after fd calls) (.ofEvents events) = wantedTasks calls (.ofEvents events)
  mask : (after fd calls).listenEvent = ⟨listening .reading calls, listening .writing calls⟩

variable {fd : ℕ} {calls : List (FdEventCall κ)} {c : FdEventCall κ} {e : TriggerEvent} {f : κ}
  {err : Option κ} {d : Direction}

/-- The tasks are those of a process whose callbacks name their connection. -/
theorem addedTasks_eq_epollTasks {C : Type} (ev : FdEvent (Callback C)) (trigger : Trigger) :
    addedTasks ev trigger = epollTasks ev trigger := rfl

/-! ## After one more call -/

theorem after_snoc (fd : ℕ) (calls : List (FdEventCall κ)) (c : FdEventCall κ) :
    after fd (calls ++ [c]) = c.run (after fd calls) := List.foldl_concat ..

theorem lastCallback_snoc : lastCallback d (calls ++ [c]) =
    (c.registers d).or (lastCallback d calls) := by
  rw [lastCallback, List.filterMap_append, List.getLast?_append]
  cases h : c.registers d <;> simp [h, lastCallback]

theorem listening_snoc : listening d (calls ++ [c]) =
    (c.interests d).getD (listening d calls) := by
  rw [listening, List.filterMap_append, List.getLast?_append]
  cases h : c.interests d <;> simp [h, listening]

theorem lastError_snoc : lastError (calls ++ [.listen e f err]) = err.or (lastError calls) := by
  rw [lastError, List.filterMap_append, List.filterMap_append, List.getLast?_append]
  cases err <;> simp [supplies, lastError]

theorem suppliedInARow_snoc : suppliedInARow (calls ++ [.listen e f err]) =
    if err.isSome then suppliedInARow calls + 1 else 0 := by
  cases err <;> simp [suppliedInARow, supplies]

/-- A call of `cancle` supplies nothing. -/
theorem filterMap_supplies_cancle :
    (calls ++ [FdEventCall.cancle e]).filterMap supplies = calls.filterMap supplies := by
  rw [List.filterMap_append]
  exact List.append_nil _

theorem lastError_cancle : lastError (calls ++ [.cancle e]) = lastError calls := by
  rw [lastError, filterMap_supplies_cancle, lastError]

theorem suppliedInARow_cancle : suppliedInARow (calls ++ [.cancle e]) = suppliedInARow calls := by
  rw [suppliedInARow, filterMap_supplies_cancle, suppliedInARow]

/-! ## After all calls -/

/-- The callbacks for reading and writing are the last ones registered. -/
theorem after_callbacks (fd : ℕ) (calls : List (FdEventCall κ)) :
    (after fd calls).readCallback = lastCallback .reading calls ∧
      (after fd calls).writeCallback = lastCallback .writing calls := by
  induction calls using List.reverseRecOn with
  | nil => exact ⟨rfl, rfl⟩
  | append_singleton calls c ih =>
    obtain ⟨hread, hwrite⟩ := ih
    rw [after_snoc, lastCallback_snoc, lastCallback_snoc, ← hread, ← hwrite]
    cases c with
    | listen e f err => cases e <;> exact ⟨rfl, rfl⟩
    | cancle e => cases e <;> exact ⟨rfl, rfl⟩

/-- **The mask is what is listened on.** -/
theorem after_listenEvent (fd : ℕ) (calls : List (FdEventCall κ)) :
    (after fd calls).listenEvent = ⟨listening .reading calls, listening .writing calls⟩ := by
  induction calls using List.reverseRecOn with
  | nil => rfl
  | append_singleton calls c ih =>
    rw [after_snoc, listening_snoc, listening_snoc]
    cases c with
    | listen e f err => cases e <;> simp [run, FdEvent.listen, ih, interests, direction]
    | cancle e => cases e <;> simp [run, FdEvent.cancle, ih, interests, direction]

/-- **The error callback is the last one supplied** after an odd number of calls in a row that
supplied one, and else there is none. -/
theorem after_errorCallback (fd : ℕ) (calls : List (FdEventCall κ)) :
    (after fd calls).errorCallback =
        (if Odd (suppliedInARow calls) then lastError calls else none) ∧
      (Odd (suppliedInARow calls) → (lastError calls).isSome) := by
  induction calls using List.reverseRecOn with
  | nil => exact ⟨rfl, fun h => absurd h Nat.not_odd_zero⟩
  | append_singleton calls c ih =>
    obtain ⟨herror, hsome⟩ := ih
    rw [after_snoc]
    cases c with
    | cancle e =>
      rw [lastError_cancle, suppliedInARow_cancle]
      refine ⟨?_, hsome⟩
      rw [← herror]
      cases e <;> rfl
    | listen e f err =>
      rw [lastError_snoc, suppliedInARow_snoc]
      have hslot : ((FdEventCall.listen e f err).run (after fd calls)).errorCallback =
          if (after fd calls).errorCallback.isNone then err else none := by
        cases e <;> rfl
      rw [hslot, herror]
      cases err with
      | none => simp
      | some g =>
        -- One more in a row: there is one now exactly if there was none.
        by_cases hodd : Odd (suppliedInARow calls)
        · have hnot : ¬ Odd (suppliedInARow calls + 1) := by
            rw [Nat.odd_add_one]
            exact not_not_intro hodd
          obtain ⟨g', hg'⟩ := Option.isSome_iff_exists.mp (hsome hodd)
          simp [hodd, hnot, hg']
        · have hnow : Odd (suppliedInARow calls + 1) := Nat.odd_add_one.mpr hodd
          simp [hodd, hnow]

/-- **An epoll result enqueues what was registered** exactly if it reports no error, or no error
callback was ever supplied, or an odd number of the last calls of `listen` supplied one, and the
last one is the callback for writing too. -/
theorem matches_iff (fd : ℕ) (calls : List (FdEventCall κ)) (events : UInt32) :
    Matches fd calls events ↔ (events &&& 0x008 ≠ 0 → lastError calls = none ∨
      Odd (suppliedInARow calls) ∧ lastCallback .writing calls = lastError calls) := by
  obtain ⟨hread, hwrite⟩ := after_callbacks fd calls
  obtain ⟨herror, hsome⟩ := after_errorCallback fd calls
  have htasks : Matches fd calls events ↔
      addedTasks (after fd calls) (.ofEvents events) = wantedTasks calls (.ofEvents events) :=
    ⟨Matches.tasks, fun h => ⟨h, after_listenEvent fd calls⟩⟩
  rw [htasks, addedTasks, wantedTasks]
  simp only [FdEvent.handler, hread, hwrite, herror, List.append_assoc, List.append_cancel_left_eq]
  by_cases herr : events &&& 0x008 ≠ 0
  swap
  · simp [Trigger.ofEvents, herr]
  have hbit : (Trigger.ofEvents events).error = true := by simpa [Trigger.ofEvents] using herr
  simp only [hbit, true_and, if_true, herr, ne_eq, not_false_eq_true, true_implies]
  -- What is added for the error is the callback for writing, where the error callback is kept.
  cases hlast : lastError calls with
  | none => simp
  | some g =>
    by_cases hodd : Odd (suppliedInARow calls)
    · simp [hodd]
    · simp [hodd]

/-- An error callback is supplied, and the callback for writing enqueued. -/
theorem not_matches_error :
    ¬ ∀ (fd : ℕ) (calls : List (FdEventCall ℕ)) (events : UInt32), Matches fd calls events := by
  intro h
  have htasks := (h 5 [.listen .outEvent 0 none, .listen .inEvent 1 (some 2)] 0x008).tasks
  revert htasks
  decide

end TalonRPC.Net
