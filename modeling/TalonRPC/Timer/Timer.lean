import Mathlib.Data.Int.Order.Basic
import TalonRPC.Machine.Run
import TalonRPC.Timer.Multimap

/-!
# Timer

The timer of an event loop keeps its pending events in a multimap by the time at which they arrive,
and has one timer descriptor that expires for the earliest of them. When it does, all events that
have arrived are taken out, the repeating ones are put back with a new time, and then the callbacks
run.

The clock is a sequence of readings; each `get_now_ms` takes the next one.

## Main definitions

* `TimerEvent`, `Timer`: the events, which are shared, and the timer with its descriptor
* `addTimerEvent`, `deleteTimerEvent`, `beforeCallbacks`, `callbacks`: the operations
* `timerStep`: a run of the timer, one operation at a time
-/

namespace TalonRPC

variable {E κ : Type}

/-- `TimerEvent`, with a callback that may be null. -/
structure TimerEvent (κ : Type) where
  arriveTime : ℤ
  interval : ℤ
  isRepeated : Bool := false
  isCancled : Bool := false
  task : Option κ
  deriving DecidableEq, Repr

/-- `timespec`. -/
structure Timespec where
  sec : ℤ
  nsec : ℤ
  deriving DecidableEq, Repr

/-- What a timer descriptor is armed for: when `timerfd_settime` was called, and when it expires. -/
structure Armed where
  armedAt : ℤ
  expiry : ℤ
  deriving DecidableEq, Repr

/-- `timerfd_settime` with a relative one-shot value: a zero value disarms. -/
def timerfdSettime (now : ℤ) (value : Timespec) : Option Armed :=
  if value.sec = 0 ∧ value.nsec = 0 then none
  else some { armedAt := now, expiry := now + value.sec * 1000 + value.nsec / 1000000 }

/-- `Timer`. The pending events are shared objects, so that their contents are kept beside the
multimap. `reads` counts the readings of the clock. -/
structure Timer (E κ : Type) where
  pendingEvents : Multimap ℤ E := ∅
  events : E → TimerEvent κ
  armed : Option Armed := none
  reads : ℕ := 0

namespace Timer

variable (clock : ℕ → ℤ)

/-- The clock is read. -/
def tick (t : Timer E κ) : Timer E κ := { t with reads := t.reads + 1 }

/-- `get_now_ms`: the next reading. -/
def now (t : Timer E κ) : ℤ := clock t.reads

/-- `Timer::resetArriveTime`: the descriptor is armed for the earliest event, or for 100 ms if that
one has arrived already. -/
def resetArriveTime (t : Timer E κ) : Timer E κ :=
  match t.pendingEvents.entries with
  | [] => t
  | (_, e) :: _ =>
    let now := t.now clock
    let arriveTime := (t.events e).arriveTime
    let interval := if now < arriveTime then arriveTime - now else 100
    { t.tick with
      armed := timerfdSettime now { sec := interval / 1000, nsec := interval % 1000 * 1000000 } }

/-- `Timer::addTimerEvent`. -/
def addTimerEvent (t : Timer E κ) (e : E) : Timer E κ :=
  let isResetTimerfd :=
    match t.pendingEvents.entries with
    | [] => true
    | (_, first) :: _ => decide ((t.events e).arriveTime < (t.events first).arriveTime)
  let t := { t with pendingEvents := t.pendingEvents.emplace (t.events e).arriveTime e }
  if isResetTimerfd then t.resetArriveTime clock else t

/-- Reading the descriptor until there is nothing to read: an expiry is handled. -/
def drain (t : Timer E κ) : Timer E κ :=
  match t.armed with
  | none => t.tick
  | some a => { t.tick with armed := if a.expiry ≤ t.now clock then none else some a }

/-- The events a pass at `now` takes out to run: those that have arrived and are not cancelled. -/
def due (t : Timer E κ) (now : ℤ) : List E :=
  ((t.pendingEvents.upTo now).filter fun p => ¬ (t.events p.2).isCancled).map Prod.snd

/-- The callbacks of a pass, with the times they were due at. -/
def tasks (t : Timer E κ) (now : ℤ) : List (ℤ × Option κ) :=
  (t.due now).map fun e => ((t.events e).arriveTime, (t.events e).task)

variable [DecidableEq E]

/-- `TimerEvent::resetArriveTime`. -/
def resetEvent (t : Timer E κ) (e : E) : Timer E κ :=
  { t.tick with
    events := Function.update t.events e
      { t.events e with arriveTime := t.now clock + (t.events e).interval } }

/-- A repeating event is put back with a new time. -/
def readd (t : Timer E κ) (e : E) : Timer E κ :=
  if (t.events e).isRepeated then (t.resetEvent clock e).addTimerEvent clock e else t

/-- The clock value of a pass: that after the descriptor has been read. -/
def passTime (t : Timer E κ) : ℤ := (t.drain clock).now clock

/-- `Timer::onTimer` up to where it erases the events that have arrived. -/
def takeOut (t : Timer E κ) : Timer E κ :=
  let now := t.passTime clock
  let t := (t.drain clock).tick
  { t with pendingEvents := t.pendingEvents.eraseUpTo now }

/-- `Timer::onTimer` up to where it runs the callbacks. -/
def beforeCallbacks (t : Timer E κ) : Timer E κ :=
  let tmps := (t.drain clock).due (t.passTime clock)
  (tmps.foldl (readd clock) (t.takeOut clock)).resetArriveTime clock

/-- The callbacks `Timer::onTimer` runs. -/
def callbacks (t : Timer E κ) : List κ :=
  ((t.drain clock).tasks (t.passTime clock)).filterMap Prod.snd

/-- `Timer::deleteTimerEvent`. -/
def deleteTimerEvent (t : Timer E κ) (e : E) : Timer E κ :=
  let t := { t with
    events := Function.update t.events e { t.events e with isCancled := true } }
  { t with pendingEvents := t.pendingEvents.eraseValue (t.events e).arriveTime e }

/-- A timer without pending events, and the events as they have been constructed. -/
def new (events : E → TimerEvent κ) : Timer E κ := { events }

/-- The event is pending. -/
def Pending (t : Timer E κ) (e : E) : Prop := e ∈ t.pendingEvents.entries.map Prod.snd

instance (t : Timer E κ) (e : E) : Decidable (t.Pending e) :=
  inferInstanceAs (Decidable (_ ∈ _))

/-- An addition by a caller, of an event that is not pending. -/
def add (t : Timer E κ) (e : E) : Option (Timer E κ) :=
  if t.Pending e then none else some (t.addTimerEvent clock e)

end Timer

/-- An operation on the timer. A pass comes with what its callbacks add, one after the other. -/
inductive TimerOp (E : Type)
  | addTimerEvent (e : E)
  | deleteTimerEvent (e : E)
  | onTimer (added : List E)
  deriving DecidableEq, Repr

/-- The events an operation adds, on behalf of callers. -/
def TimerOp.added : TimerOp E → List E
  | .addTimerEvent e => [e]
  | .deleteTimerEvent _ => []
  | .onTimer added => added

variable [DecidableEq E]

/-- An operation on the timer. The callbacks of a pass run after the repeating events have been put
back and the descriptor has been armed; what they do is add events. -/
def timerStep (clock : ℕ → ℤ) (t : Timer E κ) : TimerOp E → Option (Timer E κ)
  | .addTimerEvent e => t.add clock e
  | .deleteTimerEvent e => some (t.deleteTimerEvent e)
  | .onTimer added => added.foldlM (Timer.add clock) (t.beforeCallbacks clock)

omit [DecidableEq E] in
/-- The events whose callbacks an operation runs. -/
def fired (clock : ℕ → ℤ) (t : Timer E κ) : TimerOp E → List E
  | .addTimerEvent _ => []
  | .deleteTimerEvent _ => []
  | .onTimer _ => (t.drain clock).due (t.passTime clock)

end TalonRPC
