import Mathlib.Data.List.GetD
import TalonRPC.Net.Eventloop

/-!
# Fd_Event and FdEventGroup

An `Fd_Event` holds what a descriptor is listened on for, and the callbacks that an epoll result
enqueues. All connections of a process take their `Fd_Event` from one group, by the number of the
descriptor. The group makes more of them when a number is beyond its end; an `Fd_Event` it has
already is handed out as its last user left it.

## Main definitions

* `FdEvent`, with `handler`, `listen` and `cancle`
* `FdEventGroup`, `getFdEvent`: the group, and how it grows
* `FdEventGroup.event`: the `Fd_Event` with a number

## Main results

* `lt_length_getFdEvent`: the number asked for is inside the group afterwards
* `event_getFdEvent`: growing leaves each `Fd_Event` as it is
-/

namespace TalonRPC.Net

variable {κ : Type}

/-- `Fd_Event::TriggerEvent`. -/
inductive TriggerEvent
  | inEvent
  | outEvent
  | errorEvent
  deriving DecidableEq, Repr

/-- `Fd_Event`. -/
structure FdEvent (κ : Type) where
  fd : ℕ
  listenEvent : EventMask := {}
  readCallback : Option κ := none
  writeCallback : Option κ := none
  errorCallback : Option κ := none
  deriving DecidableEq, Repr

namespace FdEvent

/-- `Fd_Event::handler`. -/
def handler (ev : FdEvent κ) : TriggerEvent → Option κ
  | .inEvent => ev.readCallback
  | .outEvent => ev.writeCallback
  | .errorEvent => ev.errorCallback

/-- `Fd_Event::listen`. Every second call resets the error callback. -/
def listen (ev : FdEvent κ) (eventType : TriggerEvent) (callback : κ)
    (errorCallback : Option κ := none) : FdEvent κ :=
  let ev := match eventType with
    | .inEvent =>
      { ev with listenEvent.inEvent := true, readCallback := some callback }
    | _ =>
      { ev with listenEvent.outEvent := true, writeCallback := some callback }
  { ev with errorCallback := if ev.errorCallback.isNone then errorCallback else none }

/-- `Fd_Event::cancle`, which leaves the callback where it is. -/
def cancle (ev : FdEvent κ) : TriggerEvent → FdEvent κ
  | .inEvent => { ev with listenEvent.inEvent := false }
  | _ => { ev with listenEvent.outEvent := false }

/-- The callbacks an `Fd_Event` holds. -/
def callbacks (ev : FdEvent κ) : List κ :=
  ev.readCallback.toList ++ ev.writeCallback.toList ++ ev.errorCallback.toList

variable {ev : FdEvent κ} {e : TriggerEvent} {f g : κ}

theorem mem_callbacks : f ∈ ev.callbacks ↔
    ev.readCallback = some f ∨ ev.writeCallback = some f ∨ ev.errorCallback = some f := by
  simp only [callbacks, List.mem_append, Option.mem_toList, or_assoc]

@[simp] theorem callbacks_new (fd : ℕ) : ({ fd } : FdEvent κ).callbacks = [] := rfl

@[simp] theorem callbacks_cancle (ev : FdEvent κ) (e : TriggerEvent) :
    (ev.cancle e).callbacks = ev.callbacks := by
  cases e <;> rfl

/-- What a handler returns is one of the callbacks. -/
theorem mem_callbacks_of_handler (h : ev.handler e = some f) : f ∈ ev.callbacks := by
  rw [mem_callbacks]
  cases e with
  | inEvent => exact .inl h
  | outEvent => exact .inr (.inl h)
  | errorEvent => exact .inr (.inr h)

/-- Listening registers the callback. -/
theorem mem_callbacks_listen (ev : FdEvent κ) (e : TriggerEvent) (f : κ) :
    f ∈ (ev.listen e f).callbacks := by
  rw [mem_callbacks]
  cases e with
  | inEvent => exact .inl rfl
  | outEvent => exact .inr (.inl rfl)
  | errorEvent => exact .inr (.inl rfl)

/-- All others have been there before. -/
theorem callbacks_listen (h : g ∈ (ev.listen e f).callbacks) : g = f ∨ g ∈ ev.callbacks := by
  rw [mem_callbacks] at h ⊢
  have herror : (ev.listen e f).errorCallback ≠ some g := by
    cases e <;> · simp [listen]
  rcases h with hread | hwrite | h
  · cases e with
    | inEvent => exact .inl (Option.some.inj hread).symm
    | outEvent => exact .inr (.inl hread)
    | errorEvent => exact .inr (.inl hread)
  · cases e with
    | inEvent => exact .inr (.inr (.inl hwrite))
    | outEvent => exact .inl (Option.some.inj hwrite).symm
    | errorEvent => exact .inl (Option.some.inj hwrite).symm
  · exact absurd h herror

theorem listenEvent_cancle (h : ev.listenEvent = {}) : (ev.cancle e).listenEvent = {} := by
  cases e <;> · simp [cancle, h]

end FdEvent

/-- `FdEventGroup`. -/
structure FdEventGroup (κ : Type) where
  fdGroup : List (FdEvent κ)
  size_le : 128 ≤ fdGroup.length

namespace FdEventGroup

/-- `FdEventGroup::FdEventGroup`, with the size of `GetFdEventGroup`. -/
def new : FdEventGroup κ where
  fdGroup := (List.range 128).map fun i => { fd := i }
  size_le := by simp

/-- `FdEventGroup::getFdEvent`: the group afterwards. -/
def getFdEvent (g : FdEventGroup κ) (fd : ℕ) : FdEventGroup κ :=
  if fd < g.fdGroup.length then g
  else
    let newSize := fd * 3 / 2
    { fdGroup := g.fdGroup ++
        (List.range' g.fdGroup.length (newSize - g.fdGroup.length)).map fun i => { fd := i },
      size_le := g.size_le.trans (by simp) }

/-- `m_fd_group[fd]`. One that has not been made yet is as it will be made. -/
def event (g : FdEventGroup κ) (fd : ℕ) : FdEvent κ := g.fdGroup.getD fd { fd }

/-- The group after a call of one of its `Fd_Event`s. -/
def update (g : FdEventGroup κ) (fd : ℕ) (f : FdEvent κ → FdEvent κ) : FdEventGroup κ where
  fdGroup := g.fdGroup.modify fd f
  size_le := by simpa using g.size_le

variable {g : FdEventGroup κ} {fd n : ℕ} {f : FdEvent κ → FdEvent κ}

@[simp] theorem event_new (fd : ℕ) : (new : FdEventGroup κ).event fd = { fd } := by
  unfold event new
  by_cases h : fd < 128
  · simp [h]
  · simp [h]

@[simp] theorem length_update (g : FdEventGroup κ) (fd : ℕ) (f : FdEvent κ → FdEvent κ) :
    (g.update fd f).fdGroup.length = g.fdGroup.length := List.length_modify ..

theorem event_update_self (h : fd < g.fdGroup.length) :
    (g.update fd f).event fd = f (g.event fd) := by
  simp [event, update, h]

theorem event_update_of_ne (h : n ≠ fd) : (g.update fd f).event n = g.event n := by
  simp [event, update, h.symm]

/-- **The number asked for is inside the group**, as half of the numbers from 128 on is enough for
one more. -/
theorem lt_length_getFdEvent (g : FdEventGroup κ) (fd : ℕ) :
    fd < (g.getFdEvent fd).fdGroup.length := by
  unfold getFdEvent
  split_ifs with hlt
  · exact hlt
  · have hsize := g.size_le
    simp only [List.length_append, List.length_map, List.length_range']
    omega

theorem length_le_getFdEvent (g : FdEventGroup κ) (fd : ℕ) :
    g.fdGroup.length ≤ (g.getFdEvent fd).fdGroup.length := by
  unfold getFdEvent
  split_ifs
  · exact le_rfl
  · simp

/-- **Growing leaves each `Fd_Event` as it is.** -/
@[simp] theorem event_getFdEvent (g : FdEventGroup κ) (fd n : ℕ) :
    (g.getFdEvent fd).event n = g.event n := by
  unfold getFdEvent
  split_ifs with hlt
  · rfl
  unfold event
  dsimp only
  rcases lt_or_ge n g.fdGroup.length with hold | hnew
  · rw [List.getD_append _ _ _ _ hold]
  · rw [List.getD_append_right _ _ _ _ hnew, List.getD_eq_default _ _ hnew]
    -- The new ones carry their own number.
    rcases lt_or_ge (n - g.fdGroup.length) (fd * 3 / 2 - g.fdGroup.length) with hmade | hbeyond
    · rw [List.getD_eq_getElem _ _ (by simpa using hmade)]
      simp [hnew]
    · rw [List.getD_eq_default _ _ (by simpa using hbeyond)]

end FdEventGroup

end TalonRPC.Net
