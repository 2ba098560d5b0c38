import TalonRPC.Net.FdEvent
import TalonRPC.Tcp.Connection

/-!
# Descriptors and their owners

All connections of a process share the `FdEventGroup`, and the number of a closed descriptor comes
back with the next connection. Nothing resets an `Fd_Event` in between: `cancle` clears a bit and
leaves the callback, a `TcpClient` that is destroyed does not even cancel, and a connect that was
refused goes on with another descriptor and the old `Fd_Event`. So the connection that takes the
number over finds the callbacks of the one before, and, where a bit is left, an epoll result
enqueues them.

## Main definitions

* `Process`, `processStep`: the loops, the group and the connections of a process
* `Isolated`: the `Fd_Event` that a new owner is handed has no bits and no foreign callbacks, and an
  epoll result enqueues only what the owner of the descriptor has registered
* `Undisturbed`: nobody has listened on a number that is handed out, or on one with an epoll result,
  but its owner
* `Separate`, `Unheard`: the same, also for the descriptors that replace those of refused connects

## Main results

* `Kept.step`: what holds as long as nobody has listened on the numbers that are handed out
* `isolated_iff`: connections are isolated exactly if they are undisturbed
* `separate_iff`: they are separate exactly if no number gets a new owner after somebody has
  listened on it
-/

namespace TalonRPC.Net

open Machine Epoll

variable {L C : Type}

/-- What the callbacks of a connection do. -/
inductive Task
  | onRead
  | onWrite
  | onConnect
  deriving DecidableEq, Repr

/-- The event a callback is registered for by `listenRead`, `listenWrite` and `connect`. -/
def Task.trigger : Task → TriggerEvent
  | .onRead => .inEvent
  | .onWrite => .outEvent
  | .onConnect => .outEvent

/-- A callback, with the connection that it is about. -/
structure Callback (C : Type) where
  owner : C
  task : Task
  deriving DecidableEq, Repr

/-- A connection: not made yet, in use with its `m_fd` and the number of its `m_fd_event`, or
destroyed. The two numbers differ once a connect has been refused. -/
inductive Endpoint
  | unborn
  | live (type : TcpConnectionType) (fd : Option ℕ) (event : ℕ)
  | ended
  deriving DecidableEq, Repr

/-- The bits of an epoll result. -/
structure Trigger where
  inEvent : Bool := false
  outEvent : Bool := false
  error : Bool := false
  deriving DecidableEq, Repr

/-- A process, with who got each descriptor number last, and who has listened on which. -/
structure Process (L C : Type) where
  group : FdEventGroup (Callback C)
  loops : L → Eventloop
  opened : Finset ℕ
  connections : C → Endpoint
  owner : ℕ → Option C
  listened : List (C × ℕ)

namespace Process

/-- A process without connections, with other descriptors open. -/
def new (opened : Finset ℕ) : Process L C where
  group := .new
  loops := fun _ => .new opened
  opened := opened
  connections := fun _ => .unborn
  owner := fun _ => none
  listened := []

/-- A descriptor is opened: all loops can watch it. -/
def opens (st : Process L C) (fd : ℕ) : Process L C :=
  { st with
    opened := insert fd st.opened
    loops := fun l => { st.loops l with kernel := (st.loops l).kernel.opens fd } }

/-- `close`, which fails on a descriptor that is not there. -/
def close (st : Process L C) : Option ℕ → Process L C
  | none => st
  | some fd =>
    { st with
      opened := st.opened.erase fd
      loops := fun l => { st.loops l with kernel := (st.loops l).kernel.close fd } }

end Process

/-- The tasks `Eventloop::loop` adds for an epoll result on an `Fd_Event`. On an error it adds the
write callback, if there is an error callback. -/
def epollTasks (ev : FdEvent (Callback C)) (trigger : Trigger) : List (Option (Callback C)) :=
  (if trigger.inEvent then [ev.handler .inEvent] else []) ++
    (if trigger.outEvent then [ev.handler .outEvent] else []) ++
      if trigger.error ∧ (ev.handler .errorEvent).isSome then [ev.handler .outEvent] else []

/-- What happens in a process. A new connection has its descriptor from `socket` or from `accept`,
and takes its `Fd_Event` from the group; it listens and cancels. A loop adds or deletes an event
on its own thread, or later when another thread has asked it to. A connect that was refused closes
the descriptor and opens another one. A server destroys a connection and leaves the descriptor
open, a `TcpClient` closes it. -/
inductive ProcessEvent (L C : Type)
  | getFdEvent (c : C) (type : TcpConnectionType) (fd : ℕ)
  | listen (c : C) (task : Task)
  | cancle (c : C) (eventType : TriggerEvent)
  | add (l : L) (fd : ℕ)
  | delete (l : L) (fd : ℕ)
  | reconnect (c : C) (fd : Option ℕ)
  | reap (c : C)
  | destroy (c : C)
  | report (l : L) (fd : ℕ) (trigger : Trigger)
  deriving DecidableEq, Repr

/-- The descriptor is watched by the loop for what the epoll result says. Errors are always
reported. -/
def Reportable (l : Eventloop) (fd : ℕ) (trigger : Trigger) : Prop :=
  ∃ mask, l.kernel.interest fd = some mask ∧ (trigger.inEvent = true → mask.inEvent = true) ∧
    (trigger.outEvent = true → mask.outEvent = true)

instance (l : Eventloop) (fd : ℕ) (trigger : Trigger) : Decidable (Reportable l fd trigger) :=
  match h : l.kernel.interest fd with
  | none => .isFalse fun ⟨_, hmask, _⟩ => nomatch h.symm.trans hmask
  | some mask =>
    decidable_of_iff ((trigger.inEvent = true → mask.inEvent = true) ∧
        (trigger.outEvent = true → mask.outEvent = true))
      ⟨fun hbits => ⟨mask, h, hbits⟩,
        fun ⟨_, hmask, hbits⟩ => Option.some.inj (h.symm.trans hmask) ▸ hbits⟩

variable [DecidableEq L] [DecidableEq C]

/-- The process with another value of one of its loops. -/
def Process.setLoop (st : Process L C) (l : L) (loop : Eventloop) : Process L C :=
  { st with loops := Function.update st.loops l loop }

/-- The process with another value of one of its connections. -/
def Process.setConnection (st : Process L C) (c : C) (e : Endpoint) : Process L C :=
  { st with connections := Function.update st.connections c e }

/-- The process after a descriptor has been opened for a connection. -/
def Process.give (st : Process L C) (c : C) (fd : ℕ) : Process L C :=
  { st.opens fd with owner := Function.update st.owner fd (some c) }

/-- A step of the process. -/
def processStep (st : Process L C) : ProcessEvent L C → Option (Process L C)
  | .getFdEvent c type fd =>
    if st.connections c ≠ .unborn ∨ fd ∈ st.opened then none
    else
      -- A `TcpClient` asks twice, for itself and for its `TcpConnection`.
      some { (st.give c fd).setConnection c (.live type (some fd) fd) with
        group := st.group.getFdEvent fd }
  | .listen c task =>
    match st.connections c with
    | .live _ _ n =>
      some { st with
        group := st.group.update n fun ev => ev.listen task.trigger ⟨c, task⟩
        listened := (c, n) :: st.listened }
    | _ => none
  | .cancle c eventType =>
    match st.connections c with
    | .live _ _ n => some { st with group := st.group.update n fun ev => ev.cancle eventType }
    | _ => none
  | .add l fd =>
    some (st.setLoop l ((st.loops l).addEpollEvent fd (st.group.event fd).listenEvent))
  | .delete l fd => some (st.setLoop l ((st.loops l).deleteEpollEvent fd))
  | .reconnect c fd' =>
    match st.connections c with
    | .live .byClient fd n =>
      -- The callback of `connect` has been registered; the event is deleted after this.
      if (c, n) ∉ st.listened then none
      else
        match fd' with
        | none => some ((st.close fd).setConnection c (.live .byClient none n))
        | some fd' =>
          if fd' ∈ (st.close fd).opened then none
          else some (((st.close fd).give c fd').setConnection c (.live .byClient (some fd') n))
    | _ => none
  | .reap c =>
    match st.connections c with
    | .live .byServer _ _ => some (st.setConnection c .ended)
    | _ => none
  | .destroy c =>
    match st.connections c with
    | .live .byClient fd _ => some ((st.close (fd.filter (0 < ·))).setConnection c .ended)
    | _ => none
  | .report l fd trigger =>
    if ¬ Reportable (st.loops l) fd trigger then none
    else if trigger.error then some (st.setLoop l ((st.loops l).deleteEpollEvent fd))
    else some st

omit [DecidableEq L] [DecidableEq C] in
/-- No bit is set, and no callback is from another connection than `c`. -/
def CleanFor (c : C) (ev : FdEvent (Callback C)) : Prop :=
  ev.listenEvent = {} ∧ ∀ f ∈ ev.callbacks, f.owner = c

instance (c : C) (ev : FdEvent (Callback C)) : Decidable (CleanFor c ev) :=
  inferInstanceAs (Decidable (_ ∧ _))

omit [DecidableEq L] [DecidableEq C] in
/-- The connection that takes a number over with the event, and the number: that of its new
descriptor, unless it is the one its `Fd_Event` has already. -/
def takenOver (st : Process L C) : ProcessEvent L C → Option (C × ℕ)
  | .getFdEvent c _ fd => some (c, fd)
  | .reconnect c (some fd') =>
    match st.connections c with
    | .live _ _ n => if fd' = n then none else some (c, fd')
    | _ => none
  | _ => none

/-- **The event leaves connections isolated**: the `Fd_Event` that a new owner of a number is handed
is clean, and the callbacks an epoll result enqueues are those of the current owner. -/
def Isolated (st : Process L C) (e : ProcessEvent L C) : Prop :=
  (∀ c type fd, e = .getFdEvent c type fd → CleanFor c ((st.group.getFdEvent fd).event fd)) ∧
    ∀ l fd trigger, e = .report l fd trigger →
      ∀ f, some f ∈ epollTasks (st.group.event fd) trigger → st.owner fd = some f.owner

/-- The event leaves connections separate: also the `Fd_Event` with the number of a descriptor that
replaces that of a refused connect is clean. -/
def Separate (st : Process L C) (e : ProcessEvent L C) : Prop :=
  (∀ p ∈ takenOver st e, CleanFor p.1 ((st.group.getFdEvent p.2).event p.2)) ∧
    ∀ l fd trigger, e = .report l fd trigger →
      ∀ f, some f ∈ epollTasks (st.group.event fd) trigger → st.owner fd = some f.owner

omit [DecidableEq L] [DecidableEq C] in
/-- A callback is registered for a bit of the epoll result. -/
def Heeds (ev : FdEvent (Callback C)) (trigger : Trigger) : Prop :=
  (trigger.inEvent = true ∧ ev.readCallback.isSome) ∨
    (trigger.outEvent = true ∧ ev.writeCallback.isSome) ∨
      (trigger.error = true ∧ ev.errorCallback.isSome ∧ ev.writeCallback.isSome)

/-- Nobody has listened on a number that is handed out, nor on one with an epoll result for which a
callback is registered, except for the owner of that one. -/
def Undisturbed (st : Process L C) (e : ProcessEvent L C) : Prop :=
  (∀ c type fd, e = .getFdEvent c type fd → ∀ q ∈ st.listened, q.2 ≠ fd) ∧
    ∀ l fd trigger, e = .report l fd trigger → Heeds (st.group.event fd) trigger →
      ∀ q ∈ st.listened, q.2 = fd → st.owner fd = some q.1

/-- Nobody has listened on a number that is taken over. -/
def Unheard (st : Process L C) (e : ProcessEvent L C) : Prop :=
  ∀ p ∈ takenOver st e, ∀ q ∈ st.listened, q.2 ≠ p.2

/-! ## What the steps do -/

section Steps

variable {st st' : Process L C} {c : C} {type : TcpConnectionType} {fd : Option ℕ} {n : ℕ}
  {l : L} {task : Task}

theorem getFdEvent_eq_some (hstep : processStep st (.getFdEvent c type n) = some st') :
    st.connections c = .unborn ∧ n ∉ st.opened ∧
      st' = { (st.give c n).setConnection c (.live type (some n) n) with
        group := st.group.getFdEvent n } := by
  rw [processStep] at hstep
  split_ifs at hstep with hnot
  obtain ⟨hunborn, hclosed⟩ := not_or.mp hnot
  exact ⟨not_not.mp hunborn, hclosed, (Option.some.inj hstep).symm⟩

theorem listen_eq_some (hstep : processStep st (.listen c task) = some st') :
    ∃ type fd n, st.connections c = .live type fd n ∧ st' = { st with
      group := st.group.update n fun ev => ev.listen task.trigger ⟨c, task⟩
      listened := (c, n) :: st.listened } := by
  rw [processStep] at hstep
  split at hstep
  · rename_i type fd n hc
    exact ⟨type, fd, n, hc, (Option.some.inj hstep).symm⟩
  · cases hstep

theorem cancle_eq_some {eventType : TriggerEvent}
    (hstep : processStep st (.cancle c eventType) = some st') :
    ∃ type fd n, st.connections c = .live type fd n ∧
      st' = { st with group := st.group.update n fun ev => ev.cancle eventType } := by
  rw [processStep] at hstep
  split at hstep
  · rename_i type fd n hc
    exact ⟨type, fd, n, hc, (Option.some.inj hstep).symm⟩
  · cases hstep

/-- A refused connect gives the old descriptor up, and may be given another one. -/
theorem reconnect_eq_some (hstep : processStep st (.reconnect c fd) = some st') :
    ∃ old n, st.connections c = .live .byClient old n ∧ (c, n) ∈ st.listened ∧
      ((fd = none ∧ st' = (st.close old).setConnection c (.live .byClient none n)) ∨
        ∃ m, fd = some m ∧ m ∉ (st.close old).opened ∧
          st' = ((st.close old).give c m).setConnection c (.live .byClient (some m) n)) := by
  rw [processStep] at hstep
  split at hstep
  · rename_i old n hc
    split_ifs at hstep with hlistened
    refine ⟨old, n, hc, hlistened, ?_⟩
    cases fd with
    | none => exact .inl ⟨rfl, (Option.some.inj hstep).symm⟩
    | some m =>
      dsimp only at hstep
      split_ifs at hstep with hopen
      exact .inr ⟨m, rfl, hopen, (Option.some.inj hstep).symm⟩
  · cases hstep

theorem reap_eq_some (hstep : processStep st (.reap c) = some st') :
    ∃ fd n, st.connections c = .live .byServer fd n ∧ st' = st.setConnection c .ended := by
  rw [processStep] at hstep
  split at hstep
  · rename_i fd n hc
    exact ⟨fd, n, hc, (Option.some.inj hstep).symm⟩
  · cases hstep

theorem destroy_eq_some (hstep : processStep st (.destroy c) = some st') :
    ∃ fd n, st.connections c = .live .byClient fd n ∧
      st' = (st.close (fd.filter (0 < ·))).setConnection c .ended := by
  rw [processStep] at hstep
  split at hstep
  · rename_i fd n hc
    exact ⟨fd, n, hc, (Option.some.inj hstep).symm⟩
  · cases hstep

/-- An epoll result is on what is watched, and an error ends the watching. -/
theorem report_eq_some {trigger : Trigger}
    (hstep : processStep st (.report l n trigger) = some st') :
    Reportable (st.loops l) n trigger ∧
      (st' = st ∨ st' = st.setLoop l ((st.loops l).deleteEpollEvent n)) := by
  rw [processStep] at hstep
  split_ifs at hstep with hreportable herror
  · exact ⟨hreportable, .inr (Option.some.inj hstep).symm⟩
  · exact ⟨hreportable, .inl (Option.some.inj hstep).symm⟩

omit [DecidableEq L] [DecidableEq C] in
theorem mem_opened_close : n ∈ (st.close fd).opened ↔ n ∈ st.opened ∧ fd ≠ some n := by
  cases fd with
  | none => simp [Process.close]
  | some m => simp [Process.close, and_comm, eq_comm]

omit [DecidableEq L] [DecidableEq C] in
/-- Closing touches only the open descriptors and the loops. -/
theorem close_frame (st : Process L C) (fd : Option ℕ) :
    (st.close fd).group = st.group ∧ (st.close fd).connections = st.connections ∧
      (st.close fd).owner = st.owner ∧ (st.close fd).listened = st.listened := by
  cases fd <;> exact ⟨rfl, rfl, rfl, rfl⟩

omit [DecidableEq L] in
/-- A connection in use is the changed one or one from before. -/
theorem connections_setConnection {d : C} {end₁ end₂ : Endpoint}
    (h : (st.setConnection c end₁).connections d = end₂) :
    (d = c ∧ end₁ = end₂) ∨ (d ≠ c ∧ st.connections d = end₂) := by
  unfold Process.setConnection at h
  dsimp only at h
  by_cases hd : d = c
  · subst hd
    rw [Function.update_self] at h
    exact .inl ⟨rfl, h⟩
  · rw [Function.update_of_ne hd] at h
    exact .inr ⟨hd, h⟩

omit [DecidableEq L] [DecidableEq C] in
theorem owner_give_self (st : Process L C) (c : C) (n : ℕ) : (st.give c n).owner n = some c :=
  Function.update_self ..

omit [DecidableEq L] [DecidableEq C] in
theorem owner_give_of_ne {k : ℕ} (h : k ≠ n) : (st.give c n).owner k = st.owner k :=
  Function.update_of_ne h ..

end Steps

/-! ## What holds while nobody has listened on what is handed out -/

/-- Each connection has its `Fd_Event` for itself: the number is not free before it has listened,
nobody else ever listens on it, and all callbacks there are its own. Its number may become the
descriptor of another connection, once it has listened. -/
structure Kept (st : Process L C) : Prop where
  inRange : ∀ c type fd n, st.connections c = .live type fd n → n < st.group.fdGroup.length
  taken : ∀ c type fd n, st.connections c = .live type fd n →
    n ∈ st.opened ∨ (c, n) ∈ st.listened
  opened : ∀ c type fd n, st.connections c = .live type (some fd) n → fd ∈ st.opened
  apart : ∀ c d type type' fd n n', st.connections c = .live type (some fd) n →
    st.connections d = .live type' (some fd) n' → c = d
  lent : ∀ c d type type' fd fd' n, st.connections c = .live type (some fd) n →
    st.connections d = .live type' fd' fd → c = d ∨ (d, fd) ∈ st.listened
  alone : ∀ c d type type' fd fd' n, st.connections c = .live type fd n →
    st.connections d = .live type' fd' n → c = d
  single : ∀ c d type fd n, st.connections c = .live type fd n → (d, n) ∈ st.listened → d = c
  unique : ∀ c d n, (c, n) ∈ st.listened → (d, n) ∈ st.listened → c = d
  heard : ∀ c n, (c, n) ∈ st.listened → ∃ f, f ∈ (st.group.event n).callbacks
  own : ∀ n f, f ∈ (st.group.event n).callbacks → (f.owner, n) ∈ st.listened
  quiet : ∀ n, (∀ c, (c, n) ∉ st.listened) → (st.group.event n).listenEvent = {}
  known : ∀ c n, (c, n) ∈ st.listened →
    st.connections c = .ended ∨ ∃ type fd, st.connections c = .live type fd n

section Kept

variable {st st' : Process L C} {c d : C} {e : ProcessEvent L C} {fd fd' : Option ℕ} {m n k : ℕ}
  {type type' : TcpConnectionType} {l : L} {p : C × ℕ}

omit [DecidableEq C] in
theorem Kept.setLoop (h : Kept st) (l : L) (loop : Eventloop) : Kept (st.setLoop l loop) :=
  ⟨h.inRange, h.taken, h.opened, h.apart, h.lent, h.alone, h.single, h.unique, h.heard, h.own,
    h.quiet, h.known⟩

/-! ### Who has listened -/

omit [DecidableEq L] [DecidableEq C] in
/-- A connection in use has listened on its own number only. -/
theorem Kept.eq_of_listened (h : Kept st) (hc : st.connections c = .live type fd n)
    (hmem : (c, m) ∈ st.listened) : m = n := by
  rcases h.known c m hmem with hended | ⟨type', fd', hlive⟩
  · cases hended.symm.trans hc
  · cases hlive.symm.trans hc
    rfl

omit [DecidableEq L] [DecidableEq C] in
/-- One that has not been made yet has not listened. -/
theorem Kept.notMem_of_unborn (h : Kept st) (hc : st.connections c = .unborn) :
    (c, m) ∉ st.listened := by
  intro hmem
  rcases h.known c m hmem with hended | ⟨type', fd', hlive⟩
  · cases hended.symm.trans hc
  · cases hlive.symm.trans hc

omit [DecidableEq L] in
/-- Who has listened stays known when a connection changes and keeps its number. -/
theorem Kept.known_update (h : Kept st) {after : Endpoint}
    (hafter : ∀ k, (c, k) ∈ st.listened → after = .ended ∨ ∃ type fd, after = .live type fd k)
    (hmem : (d, k) ∈ st.listened) :
    Function.update st.connections c after d = .ended ∨
      ∃ type fd, Function.update st.connections c after d = .live type fd k := by
  by_cases hd : d = c
  · subst hd
    rw [Function.update_self]
    exact hafter k hmem
  · rw [Function.update_of_ne hd]
    exact h.known d k hmem

/-! ### Giving a descriptor up -/

omit [DecidableEq L] [DecidableEq C] in
/-- What is closed for a connection is not the descriptor of another, and the number of another only
if that has listened. -/
theorem Kept.ne_of_closed (h : Kept st) {old : Option ℕ} (hc : st.connections c = .live type old n)
    (hfd : ∀ m, fd = some m → old = some m) (hd : d ≠ c)
    (hlive : st.connections d = .live type' fd' m) :
    (fd ≠ some m ∨ (d, m) ∈ st.listened) ∧ ∀ k, fd' = some k → fd ≠ some k := by
  constructor
  · by_cases hm : fd = some m
    · obtain rfl := hfd m hm
      exact .inr ((h.lent c d _ _ _ _ _ hc hlive).resolve_left (Ne.symm hd))
    · exact .inl hm
  · rintro k rfl rfl
    obtain rfl := hfd k rfl
    exact hd (h.apart c d _ _ _ _ _ hc hlive).symm

omit [DecidableEq L] in
/-- The connections in use afterwards are the others, and this one if it has not ended. -/
theorem live_of_giveUp {after : Endpoint}
    (hafter : after = .ended ∨ after = .live type none n ∧ (c, n) ∈ st.listened)
    (hlive : ((st.close fd).setConnection c after).connections d = .live type' fd' m) :
    (d = c ∧ type' = type ∧ fd' = none ∧ m = n ∧ (c, n) ∈ st.listened) ∨
      (d ≠ c ∧ st.connections d = .live type' fd' m) := by
  rcases connections_setConnection hlive with ⟨rfl, hnew⟩ | ⟨hd, hold⟩
  · rcases hafter with rfl | ⟨rfl, hmem⟩
    · cases hnew
    · cases hnew
      exact .inl ⟨rfl, rfl, rfl, rfl, hmem⟩
  · exact .inr ⟨hd, (close_frame st fd).2.1 ▸ hold⟩

omit [DecidableEq L] in
/-- A connection gives its descriptor up: it is closed or has ended. -/
theorem Kept.giveUp (h : Kept st) {old : Option ℕ} (hc : st.connections c = .live type old n)
    (hfd : ∀ m, fd = some m → old = some m) {after : Endpoint}
    (hafter : after = .ended ∨ after = .live type none n ∧ (c, n) ∈ st.listened) :
    Kept ((st.close fd).setConnection c after) := by
  obtain ⟨hgroup, hconnections, -, hlistened⟩ := close_frame st fd
  -- Whoever is in use afterwards has had the same number before.
  have hbefore : ∀ {d type' fd' n'},
      ((st.close fd).setConnection c after).connections d = .live type' fd' n' →
        ∃ fd'', st.connections d = .live type' fd'' n' := by
    intro d type' fd' n' hlive
    rcases live_of_giveUp hafter hlive with ⟨rfl, rfl, -, rfl, -⟩ | ⟨-, hold⟩
    · exact ⟨_, hc⟩
    · exact ⟨_, hold⟩
  refine
    { inRange := ?inRange, taken := ?taken, opened := ?opened, apart := ?apart, lent := ?lent,
      alone := ?alone, single := ?single, unique := ?unique, heard := ?heard, own := ?own,
      quiet := ?quiet, known := ?known }
  case inRange =>
    intro d type' fd' n' hlive
    change n' < (st.close fd).group.fdGroup.length
    obtain ⟨fd'', hold⟩ := hbefore hlive
    rw [hgroup]
    exact h.inRange _ _ _ _ hold
  case taken =>
    intro d type' fd' n' hlive
    change n' ∈ (st.close fd).opened ∨ (d, n') ∈ (st.close fd).listened
    rw [mem_opened_close, hlistened]
    rcases live_of_giveUp hafter hlive with ⟨rfl, -, -, rfl, hmem⟩ | ⟨hd, hold⟩
    · exact .inr hmem
    · rcases (h.ne_of_closed hc hfd hd hold).1 with hne | hmem
      · exact (h.taken _ _ _ _ hold).imp_left fun hopen => ⟨hopen, hne⟩
      · exact .inr hmem
  case opened =>
    intro d type' m n' hlive
    change m ∈ (st.close fd).opened
    rw [mem_opened_close]
    rcases live_of_giveUp hafter hlive with ⟨-, -, hnone, -, -⟩ | ⟨hd, hold⟩
    · cases hnone
    · exact ⟨h.opened _ _ _ _ hold, (h.ne_of_closed hc hfd hd hold).2 m rfl⟩
  case apart =>
    intro d d' type' type'' m n' n'' hlive hlive'
    rcases live_of_giveUp hafter hlive with ⟨-, -, hnone, -, -⟩ | ⟨hd, hold⟩
    · cases hnone
    · rcases live_of_giveUp hafter hlive' with ⟨-, -, hnone, -, -⟩ | ⟨-, hold'⟩
      · cases hnone
      · exact h.apart _ _ _ _ _ _ _ hold hold'
  case lent =>
    intro d d' type' type'' m fd'' n' hlive hlive'
    change d = d' ∨ (d', m) ∈ (st.close fd).listened
    rw [hlistened]
    rcases live_of_giveUp hafter hlive with ⟨-, -, hnone, -, -⟩ | ⟨hd, hold⟩
    · cases hnone
    · obtain ⟨fd₁, hold'⟩ := hbefore hlive'
      exact h.lent _ _ _ _ _ _ _ hold hold'
  case alone =>
    intro d d' type' type'' fd₁ fd₂ n' hlive hlive'
    obtain ⟨_, hold⟩ := hbefore hlive
    obtain ⟨_, hold'⟩ := hbefore hlive'
    exact h.alone _ _ _ _ _ _ _ hold hold'
  case single =>
    intro d d' type' fd₁ n' hlive hmem
    obtain ⟨_, hold⟩ := hbefore hlive
    exact h.single _ _ _ _ _ hold (hlistened ▸ hmem)
  case unique =>
    intro d d' n' hmem hmem'
    exact h.unique d d' n' (hlistened ▸ hmem) (hlistened ▸ hmem')
  case heard =>
    intro d n' hmem
    change ∃ f, f ∈ ((st.close fd).group.event n').callbacks
    rw [hgroup]
    exact h.heard d n' (hlistened ▸ hmem)
  case own =>
    intro n' f hf
    change (f.owner, n') ∈ (st.close fd).listened
    rw [hlistened]
    exact h.own n' f (hgroup ▸ hf)
  case quiet =>
    intro n' hnone
    change ((st.close fd).group.event n').listenEvent = {}
    rw [hgroup]
    exact h.quiet n' fun d => hlistened ▸ hnone d
  case known =>
    intro d n' hmem
    change Function.update (st.close fd).connections c after d = _ ∨
      ∃ type' fd', Function.update (st.close fd).connections c after d = _
    rw [hconnections]
    refine h.known_update (fun k hk => ?_) (hlistened ▸ hmem)
    obtain rfl := h.eq_of_listened hc hk
    exact hafter.imp_right fun hlive => ⟨_, _, hlive.1⟩

/-! ### Being given one -/

omit [DecidableEq L] [DecidableEq C] in
/-- A free descriptor is not that of a connection, and its number only if that has listened. -/
theorem Kept.ne_of_free (h : Kept st) (hfree : m ∉ st.opened)
    (hlive : st.connections d = .live type' fd' k) :
    (k = m → (d, m) ∈ st.listened) ∧ fd' ≠ some m := by
  constructor
  · rintro rfl
    exact (h.taken _ _ _ _ hlive).resolve_left hfree
  · rintro rfl
    exact hfree (h.opened _ _ _ _ hlive)

omit [DecidableEq L] in
/-- The connections in use afterwards are the others, and this one. -/
theorem live_of_give
    (hlive : ((st.give c m).setConnection c (.live type (some m) n)).connections d =
      .live type' fd' k) :
    (d = c ∧ type' = type ∧ fd' = some m ∧ k = n) ∨
      (d ≠ c ∧ st.connections d = .live type' fd' k) := by
  rcases connections_setConnection hlive with ⟨rfl, hnew⟩ | ⟨hd, hold⟩
  · cases hnew
    exact .inl ⟨rfl, rfl, rfl, rfl⟩
  · exact .inr ⟨hd, hold⟩

omit [DecidableEq L] in
/-- A connection without descriptor is given one. If it is handed the `Fd_Event` with it, nobody has
listened on that. -/
theorem Kept.give (h : Kept st) {g : FdEventGroup (Callback C)}
    (hc : (st.connections c = .unborn ∧ n = m ∧ ∀ d, (d, m) ∉ st.listened) ∨
      st.connections c = .live type none n)
    (hfree : m ∉ st.opened) (hrange : n < g.fdGroup.length)
    (hlength : st.group.fdGroup.length ≤ g.fdGroup.length)
    (hevent : ∀ k, g.event k = st.group.event k) :
    Kept { (st.give c m).setConnection c (.live type (some m) n) with group := g } := by
  -- Nobody else has this number, and nobody else has listened on it.
  have halone : ∀ {d type' fd'}, d ≠ c → st.connections d ≠ .live type' fd' n := by
    intro d type' fd' hd hlive
    rcases hc with ⟨-, rfl, hunheard⟩ | hc
    · exact hunheard d ((h.ne_of_free hfree hlive).1 rfl)
    · exact hd (h.alone _ _ _ _ _ _ _ hlive hc)
  have hsingle : ∀ {d}, (d, n) ∈ st.listened → d = c := by
    intro d hmem
    rcases hc with ⟨-, rfl, hunheard⟩ | hc
    · exact absurd hmem (hunheard d)
    · exact h.single _ _ _ _ _ hc hmem
  refine
    { inRange := ?inRange, taken := ?taken, opened := ?opened, apart := ?apart, lent := ?lent,
      alone := ?alone, single := ?single, unique := h.unique, heard := ?heard, own := ?own,
      quiet := ?quiet, known := ?known }
  case inRange =>
    intro d type' fd' n' hlive
    rcases live_of_give hlive with ⟨-, -, -, rfl⟩ | ⟨-, hold⟩
    · exact hrange
    · exact (h.inRange _ _ _ _ hold).trans_le hlength
  case taken =>
    intro d type' fd' n' hlive
    change n' ∈ insert m st.opened ∨ (d, n') ∈ st.listened
    rw [Finset.mem_insert]
    rcases live_of_give hlive with ⟨rfl, -, -, rfl⟩ | ⟨-, hold⟩
    · rcases hc with ⟨-, rfl, -⟩ | hc
      · exact .inl (.inl rfl)
      · exact (h.taken _ _ _ _ hc).imp_left .inr
    · exact (h.taken _ _ _ _ hold).imp_left .inr
  case opened =>
    intro d type' fd' n' hlive
    change fd' ∈ insert m st.opened
    rw [Finset.mem_insert]
    rcases live_of_give hlive with ⟨-, -, hfd', -⟩ | ⟨-, hold⟩
    · exact .inl (Option.some.inj hfd')
    · exact .inr (h.opened _ _ _ _ hold)
  case apart =>
    intro d d' type' type'' fd₁ n' n'' hlive hlive'
    rcases live_of_give hlive with ⟨rfl, -, hfd, -⟩ | ⟨hd, hold⟩ <;>
      rcases live_of_give hlive' with ⟨rfl, -, hfd', -⟩ | ⟨hd', hold'⟩
    · rfl
    · cases hfd
      exact absurd rfl (h.ne_of_free hfree hold').2
    · cases hfd'
      exact absurd rfl (h.ne_of_free hfree hold).2
    · exact h.apart _ _ _ _ _ _ _ hold hold'
  case lent =>
    intro d d' type' type'' fd₁ fd₂ n' hlive hlive'
    change d = d' ∨ (d', fd₁) ∈ st.listened
    rcases live_of_give hlive with ⟨rfl, -, hfd, -⟩ | ⟨hd, hold⟩ <;>
      rcases live_of_give hlive' with ⟨rfl, -, -, hn⟩ | ⟨hd', hold'⟩
    · exact .inl rfl
    · cases hfd
      exact .inr ((h.ne_of_free hfree hold').1 rfl)
    · subst hn
      rcases hc with ⟨-, rfl, -⟩ | hc
      · exact absurd rfl (h.ne_of_free hfree hold).2
      · exact h.lent _ _ _ _ _ _ _ hold hc
    · exact h.lent _ _ _ _ _ _ _ hold hold'
  case alone =>
    intro d d' type' type'' fd₁ fd₂ n' hlive hlive'
    rcases live_of_give hlive with ⟨rfl, -, -, rfl⟩ | ⟨hd, hold⟩ <;>
      rcases live_of_give hlive' with ⟨rfl, -, -, hn⟩ | ⟨hd', hold'⟩
    · rfl
    · exact absurd hold' (halone hd')
    · subst hn
      exact absurd hold (halone hd)
    · exact h.alone _ _ _ _ _ _ _ hold hold'
  case single =>
    intro d d' type' fd₁ n' hlive hmem
    rcases live_of_give hlive with ⟨rfl, -, -, rfl⟩ | ⟨-, hold⟩
    · exact hsingle hmem
    · exact h.single _ _ _ _ _ hold hmem
  case heard =>
    intro d k hmem
    change ∃ f, f ∈ (g.event k).callbacks
    rw [hevent]
    exact h.heard d k hmem
  case own =>
    intro k f hf
    exact h.own k f (hevent k ▸ hf)
  case quiet =>
    intro k hnone
    change (g.event k).listenEvent = {}
    rw [hevent]
    exact h.quiet k hnone
  case known =>
    intro d k hmem
    refine h.known_update (fun k' hk' => .inr ?_) hmem
    rcases hc with ⟨hunborn, -⟩ | hc
    · exact absurd hk' (h.notMem_of_unborn hunborn)
    · obtain rfl := h.eq_of_listened hc hk'
      exact ⟨_, _, rfl⟩

/-! ### Listening and cancelling -/

omit [DecidableEq L] [DecidableEq C] in
/-- A connection calls a function of its `Fd_Event` that registers at most a callback of its own. -/
theorem Kept.update (h : Kept st) {old : Option ℕ} (hc : st.connections c = .live type old n)
    {f : FdEvent (Callback C) → FdEvent (Callback C)} {heard : List (C × ℕ)}
    (hheard : heard = (c, n) :: st.listened ∨ heard = st.listened)
    (hold : ∀ k, k ∈ (st.group.event n).callbacks → ∃ k', k' ∈ (f (st.group.event n)).callbacks)
    (hnew : heard = (c, n) :: st.listened → ∃ k, k ∈ (f (st.group.event n)).callbacks)
    (hown : ∀ k, k ∈ (f (st.group.event n)).callbacks →
      k ∈ (st.group.event n).callbacks ∨ k.owner = c ∧ heard = (c, n) :: st.listened)
    (hquiet : heard = st.listened → (st.group.event n).listenEvent = {} →
      (f (st.group.event n)).listenEvent = {}) :
    Kept { st with group := st.group.update n f, listened := heard } := by
  have hself : (st.group.update n f).event n = f (st.group.event n) :=
    FdEventGroup.event_update_self (h.inRange _ _ _ _ hc)
  have hother : ∀ {k}, k ≠ n → (st.group.update n f).event k = st.group.event k :=
    FdEventGroup.event_update_of_ne
  have hsub : ∀ {q}, q ∈ st.listened → q ∈ heard := by
    intro q hq
    rcases hheard with rfl | rfl
    · exact List.mem_cons_of_mem _ hq
    · exact hq
  have hsplit : ∀ {q}, q ∈ heard →
      (q = (c, n) ∧ heard = (c, n) :: st.listened) ∨ q ∈ st.listened := by
    intro q hq
    rcases hheard with rfl | rfl
    · exact (List.mem_cons.mp hq).imp_left fun h => ⟨h, rfl⟩
    · exact .inr hq
  refine
    { inRange := ?inRange, taken := ?taken, opened := h.opened, apart := h.apart, lent := ?lent,
      alone := h.alone, single := ?single, unique := ?unique, heard := ?heard, own := ?own,
      quiet := ?quiet, known := ?known }
  case inRange =>
    intro d type' fd' n' hlive
    change n' < (st.group.update n f).fdGroup.length
    rw [FdEventGroup.length_update]
    exact h.inRange _ _ _ _ hlive
  case taken =>
    intro d type' fd' n' hlive
    exact (h.taken _ _ _ _ hlive).imp_right hsub
  case lent =>
    intro d d' type' type'' fd₁ fd₂ n' hlive hlive'
    exact (h.lent _ _ _ _ _ _ _ hlive hlive').imp_right hsub
  case single =>
    intro d d' type' fd' n' hlive hmem
    rcases hsplit hmem with ⟨hq, -⟩ | hbefore
    · cases hq
      exact h.alone _ _ _ _ _ _ _ hc hlive
    · exact h.single _ _ _ _ _ hlive hbefore
  case unique =>
    intro d d' k hmem hmem'
    rcases hsplit hmem with ⟨hq, -⟩ | hbefore <;> rcases hsplit hmem' with ⟨hq', -⟩ | hbefore'
    · cases hq
      cases hq'
      rfl
    · cases hq
      exact (h.single _ _ _ _ _ hc hbefore').symm
    · cases hq'
      exact h.single _ _ _ _ _ hc hbefore
    · exact h.unique _ _ _ hbefore hbefore'
  case heard =>
    intro d k hmem
    change ∃ f', f' ∈ ((st.group.update n f).event k).callbacks
    rcases hsplit hmem with ⟨hq, hcons⟩ | hbefore
    · cases hq
      rw [hself]
      exact hnew hcons
    · obtain ⟨k', hk'⟩ := h.heard d k hbefore
      by_cases hk : k = n
      · subst hk
        rw [hself]
        exact hold k' hk'
      · rw [hother hk]
        exact ⟨k', hk'⟩
  case own =>
    intro k f' hf'
    change (f'.owner, k) ∈ heard
    change f' ∈ ((st.group.update n f).event k).callbacks at hf'
    by_cases hk : k = n
    · subst hk
      rw [hself] at hf'
      rcases hown f' hf' with hbefore | ⟨rfl, rfl⟩
      · exact hsub (h.own _ _ hbefore)
      · exact List.mem_cons_self ..
    · rw [hother hk] at hf'
      exact hsub (h.own _ _ hf')
  case quiet =>
    intro k hnone
    change ((st.group.update n f).event k).listenEvent = {}
    have hbefore : ∀ d, (d, k) ∉ st.listened := fun d hd => hnone d (hsub hd)
    by_cases hk : k = n
    · subst hk
      rw [hself]
      rcases hheard with rfl | hsame
      · exact absurd (List.mem_cons_self ..) (hnone c)
      · exact hquiet hsame (h.quiet k hbefore)
    · rw [hother hk]
      exact h.quiet k hbefore
  case known =>
    intro d k hmem
    rcases hsplit hmem with ⟨hq, -⟩ | hbefore
    · cases hq
      exact .inr ⟨_, _, hc⟩
    · exact h.known d k hbefore

omit [DecidableEq L] [DecidableEq C] in
theorem Kept.listen (h : Kept st) {old : Option ℕ} (hc : st.connections c = .live type old n)
    (task : Task) :
    Kept { st with
      group := st.group.update n fun ev => ev.listen task.trigger ⟨c, task⟩
      listened := (c, n) :: st.listened } := by
  have hnew := FdEvent.mem_callbacks_listen (st.group.event n) task.trigger ⟨c, task⟩
  refine h.update hc (.inl rfl) (fun _ _ => ⟨_, hnew⟩) (fun _ => ⟨_, hnew⟩) ?_ ?_
  · intro k hk
    rcases FdEvent.callbacks_listen hk with rfl | hold
    · exact .inr ⟨rfl, rfl⟩
    · exact .inl hold
  · intro hsame
    exact absurd hsame (List.cons_ne_self _ _)

omit [DecidableEq L] [DecidableEq C] in
theorem Kept.cancle (h : Kept st) {old : Option ℕ} (hc : st.connections c = .live type old n)
    (eventType : TriggerEvent) :
    Kept { st with group := st.group.update n fun ev => ev.cancle eventType } := by
  refine h.update hc (.inr rfl) (fun k hk => ⟨k, ?_⟩) ?_ (fun k hk => .inl ?_) ?_
  · rwa [FdEvent.callbacks_cancle]
  · exact fun hsame => absurd hsame.symm (List.cons_ne_self _ _)
  · rwa [FdEvent.callbacks_cancle] at hk
  · exact fun _ => FdEvent.listenEvent_cancle

/-! ### The steps -/

/-- A refused connect: first the old descriptor is given up, and then the new one is given. -/
theorem Kept.reconnect (h : Kept st) (hstep : processStep st (.reconnect c fd) = some st') :
    Kept st' := by
  obtain ⟨old, n, hc, hlistened, hnew⟩ := reconnect_eq_some hstep
  obtain ⟨hgroup, -, -, -⟩ := close_frame st old
  have hclosed : Kept ((st.close old).setConnection c (.live .byClient none n)) :=
    h.giveUp hc (fun m hm => hm) (.inr ⟨rfl, hlistened⟩)
  rcases hnew with ⟨-, rfl⟩ | ⟨m, rfl, hfree, rfl⟩
  · exact hclosed
  have hrange : n < (st.close old).group.fdGroup.length := hgroup ▸ h.inRange _ _ _ _ hc
  have hgive := hclosed.give (.inr (Function.update_self c _ _)) hfree hrange le_rfl fun _ => rfl
  rw [Process.setConnection, Process.setConnection] at hgive
  dsimp only [Process.give, Process.opens] at hgive
  rw [Function.update_idem] at hgive
  exact hgive

/-- **A step keeps each `Fd_Event` with its connection** if nobody has listened on a number that is
handed out. -/
theorem Kept.step (h : Kept st)
    (hunheard : ∀ c type fd, e = .getFdEvent c type fd → ∀ q ∈ st.listened, q.2 ≠ fd)
    (hstep : processStep st e = some st') : Kept st' := by
  cases e with
  | getFdEvent c type n =>
    obtain ⟨hunborn, hclosed, rfl⟩ := getFdEvent_eq_some hstep
    refine h.give (.inl ⟨hunborn, rfl, fun d hd => ?_⟩) hclosed
      (FdEventGroup.lt_length_getFdEvent ..) (FdEventGroup.length_le_getFdEvent ..)
      (FdEventGroup.event_getFdEvent _ _)
    exact absurd rfl (hunheard c type n rfl (d, n) hd)
  | listen c task =>
    obtain ⟨type, fd, n, hc, rfl⟩ := listen_eq_some hstep
    exact h.listen hc task
  | cancle c eventType =>
    obtain ⟨type, fd, n, hc, rfl⟩ := cancle_eq_some hstep
    exact h.cancle hc eventType
  | add l n =>
    cases hstep
    exact h.setLoop l _
  | delete l n =>
    cases hstep
    exact h.setLoop l _
  | reconnect c fd => exact h.reconnect hstep
  | reap c =>
    obtain ⟨fd, n, hc, rfl⟩ := reap_eq_some hstep
    have hkept : Kept ((st.close none).setConnection c .ended) :=
      h.giveUp hc (fun m hm => absurd hm.symm (Option.some_ne_none m)) (.inl rfl)
    exact hkept
  | destroy c =>
    obtain ⟨fd, n, hc, rfl⟩ := destroy_eq_some hstep
    exact h.giveUp hc (fun m hm => (Option.filter_eq_some_iff.mp hm).1) (.inl rfl)
  | report l n trigger =>
    obtain ⟨-, rfl | rfl⟩ := report_eq_some hstep
    · exact h
    · exact h.setLoop l _

/-! ## Connections are isolated -/

omit [DecidableEq L] [DecidableEq C] in
/-- The `Fd_Event` with a number is clean for one that has not listened on it exactly if nobody
has. -/
theorem Kept.cleanFor_iff (h : Kept st) (hc : (c, n) ∉ st.listened) :
    CleanFor c ((st.group.getFdEvent n).event n) ↔ ∀ q ∈ st.listened, q.2 ≠ n := by
  rw [FdEventGroup.event_getFdEvent]
  constructor
  · rintro ⟨-, hcallbacks⟩ ⟨d, n'⟩ hmem hn
    obtain rfl : n' = n := hn
    -- Whoever has listened has left a callback there, and it is not from the new owner.
    obtain ⟨f, hf⟩ := h.heard d n' hmem
    have hown := h.own n' f hf
    rw [hcallbacks f hf] at hown
    exact hc hown
  · intro hunheard
    refine ⟨h.quiet n fun d hd => hunheard _ hd rfl, fun f hf => ?_⟩
    exact absurd rfl (hunheard (f.owner, n) (h.own n f hf))

omit [DecidableEq L] [DecidableEq C] in
/-- What an epoll result enqueues is one of the callbacks. -/
theorem mem_callbacks_of_mem_epollTasks {ev : FdEvent (Callback C)} {trigger : Trigger}
    {f : Callback C} (h : some f ∈ epollTasks ev trigger) : f ∈ ev.callbacks := by
  have hone : ∀ {b : Prop} [Decidable b] {eventType : TriggerEvent},
      some f ∈ (if b then [ev.handler eventType] else []) → f ∈ ev.callbacks := by
    intro b _ eventType hmem
    split_ifs at hmem with hb
    · exact FdEvent.mem_callbacks_of_handler (List.mem_singleton.mp hmem).symm
    · cases hmem
  rcases List.mem_append.mp h with hin | herror
  · rcases List.mem_append.mp hin with hin | hout
    · exact hone hin
    · exact hone hout
  · exact hone herror

omit [DecidableEq L] [DecidableEq C] in
/-- An epoll result enqueues a callback exactly if one is registered for a bit of it. -/
theorem exists_mem_epollTasks_iff {ev : FdEvent (Callback C)} {trigger : Trigger} :
    (∃ f, some f ∈ epollTasks ev trigger) ↔ Heeds ev trigger := by
  have hone : ∀ {b : Prop} [Decidable b] {o : Option (Callback C)},
      (∃ f, some f ∈ if b then [o] else []) ↔ b ∧ o.isSome := by
    intro b _ o
    cases o with
    | none => split_ifs <;> simp
    | some f => split_ifs with hb <;> simp [hb]
  unfold epollTasks Heeds
  simp only [List.mem_append, exists_or, or_assoc]
  rw [hone, hone, hone, and_assoc]
  rfl

omit [DecidableEq L] [DecidableEq C] in
/-- An epoll result enqueues callbacks of the owner only, exactly if nobody else has listened on the
number, or no callback is registered for the result. -/
theorem Kept.report_iff (h : Kept st) (trigger : Trigger) :
    (∀ f, some f ∈ epollTasks (st.group.event n) trigger → st.owner n = some f.owner) ↔
      (Heeds (st.group.event n) trigger → ∀ q ∈ st.listened, q.2 = n → st.owner n = some q.1) := by
  constructor
  · rintro howner hheeds ⟨d, n'⟩ hmem hn
    obtain rfl : n' = n := hn
    obtain ⟨f, hf⟩ := exists_mem_epollTasks_iff.mpr hheeds
    have hown := h.own n' f (mem_callbacks_of_mem_epollTasks hf)
    rw [howner f hf, h.unique _ _ _ hmem hown]
  · intro howner f hf
    have hown := h.own n f (mem_callbacks_of_mem_epollTasks hf)
    exact howner (exists_mem_epollTasks_iff.mp ⟨f, hf⟩) _ hown rfl

/-- **A step leaves connections isolated** exactly if they are undisturbed. -/
theorem Kept.isolated_step_iff (h : Kept st) (hstep : processStep st e = some st') :
    Isolated st e ↔ Undisturbed st e := by
  refine and_congr ?_ ?_
  · refine forall_congr' fun c => forall_congr' fun type => forall_congr' fun n =>
      forall_congr' fun he => h.cleanFor_iff ?_
    subst he
    exact h.notMem_of_unborn (getFdEvent_eq_some hstep).1
  · exact forall_congr' fun l => forall_congr' fun n => forall_congr' fun trigger =>
      forall_congr' fun _ => h.report_iff trigger

/-! ## The descriptors of refused connects -/

/-- Also the numbers of the new descriptors after refused connects are kept apart: each connection
is the last that got its number, and so is everybody who has listened. -/
structure Allotted (st : Process L C) : Prop where
  kept : Kept st
  owns : ∀ c type fd n, st.connections c = .live type fd n → st.owner n = some c
  heard : ∀ c n, (c, n) ∈ st.listened → st.owner n = some c

omit [DecidableEq L] in
/-- Giving a descriptor up leaves the numbers where they are. -/
theorem Allotted.giveUp (h : Allotted st) {old : Option ℕ} {after : Endpoint}
    (hkept : Kept ((st.close fd).setConnection c after))
    (hc : st.connections c = .live type old n)
    (hafter : after = .ended ∨ after = .live type none n) :
    Allotted ((st.close fd).setConnection c after) := by
  obtain ⟨-, hconnections, howner, hlistened⟩ := close_frame st fd
  refine ⟨hkept, fun d type' fd' n' hlive => ?_, fun d k hmem => ?_⟩
  · change (st.close fd).owner n' = some d
    rw [howner]
    rcases connections_setConnection hlive with ⟨rfl, hnew⟩ | ⟨-, hold⟩
    · rcases hafter with rfl | rfl
      · cases hnew
      · cases hnew
        exact h.owns _ _ _ _ hc
    · exact h.owns _ _ _ _ (hconnections ▸ hold)
  · change (st.close fd).owner k = some d
    rw [howner]
    exact h.heard d k (hlistened ▸ hmem)

/-- Who takes a number over has not listened on it before. -/
theorem Kept.notMem_listened (h : Kept st) (hstep : processStep st e = some st')
    (hp : takenOver st e = some (c, n)) : (c, n) ∉ st.listened := by
  cases e with
  | getFdEvent c' type fd =>
    cases hp
    exact h.notMem_of_unborn (getFdEvent_eq_some hstep).1
  | reconnect c' fd =>
    obtain ⟨old, n', hc, -, -⟩ := reconnect_eq_some hstep
    cases fd with
    | none => cases hp
    | some m =>
      rw [takenOver, hc] at hp
      dsimp only at hp
      split_ifs at hp with hne
      cases hp
      exact fun hmem => hne (h.eq_of_listened hc hmem)
  | _ => cases hp

omit [DecidableEq L] [DecidableEq C] in
/-- What is handed out is taken over. -/
theorem Unheard.getFdEvent (h : Unheard st e) :
    ∀ c type fd, e = .getFdEvent c type fd → ∀ q ∈ st.listened, q.2 ≠ fd := by
  rintro c type fd rfl
  exact h (c, fd) rfl

/-- A refused connect moves on to a descriptor that nobody else has listened on. -/
theorem Allotted.reconnect (h : Allotted st) (hunheard : Unheard st (.reconnect c fd))
    (hstep : processStep st (.reconnect c fd) = some st') (hkept : Kept st') : Allotted st' := by
  obtain ⟨old, n, hc, hlistened, hnew⟩ := reconnect_eq_some hstep
  rcases hnew with ⟨-, rfl⟩ | ⟨m, rfl, hfree, rfl⟩
  · exact h.giveUp hkept hc (.inr rfl)
  -- Nobody else has listened on the new number.
  have hnobody : ∀ d, (d, m) ∈ st.listened → d = c := by
    intro d hd
    by_cases hm : m = n
    · exact h.kept.unique d c n (hm ▸ hd) hlistened
    · refine absurd rfl (hunheard (c, m) ?_ (d, m) hd)
      rw [takenOver, hc]
      exact if_neg hm
  obtain ⟨-, hconnections, howner, hlist⟩ := close_frame st old
  have hclosed : Kept ((st.close old).setConnection c (.live .byClient none n)) :=
    h.kept.giveUp hc (fun k hk => hk) (.inr ⟨rfl, hlistened⟩)
  refine ⟨hkept, fun d type' fd' n' hlive => ?_, fun d k hmem => ?_⟩
  · change ((st.close old).give c m).owner n' = some d
    rcases live_of_give hlive with ⟨rfl, -, -, rfl⟩ | ⟨hd, hold⟩
    · by_cases hn : n' = m
      · rw [hn]
        exact owner_give_self ..
      · rw [owner_give_of_ne hn, howner]
        exact h.owns _ _ _ _ hc
    · have hn : n' ≠ m := fun hn => hd (hnobody d (hlist ▸
        (hclosed.ne_of_free hfree ((Function.update_of_ne hd ..).trans hold)).1 hn))
      rw [owner_give_of_ne hn, howner]
      exact h.owns _ _ _ _ (hconnections ▸ hold)
  · change ((st.close old).give c m).owner k = some d
    have hbefore : (d, k) ∈ st.listened := hlist ▸ hmem
    by_cases hk : k = m
    · subst hk
      rw [hnobody d hbefore]
      exact owner_give_self ..
    · rw [owner_give_of_ne hk, howner]
      exact h.heard d k hbefore

/-- **A step keeps each number with its connection** if nobody has listened on a number that is
taken over. -/
theorem Allotted.step (h : Allotted st) (hunheard : Unheard st e)
    (hstep : processStep st e = some st') : Allotted st' := by
  have hkept := h.kept.step hunheard.getFdEvent hstep
  cases e with
  | getFdEvent c type n =>
    obtain ⟨-, hclosed, rfl⟩ := getFdEvent_eq_some hstep
    have hnobody : ∀ d, (d, n) ∉ st.listened := fun d hd => hunheard (c, n) rfl (d, n) hd rfl
    refine ⟨hkept, fun d type' fd' n' hlive => ?_, fun d k hmem => ?_⟩
    · change (st.give c n).owner n' = some d
      rcases live_of_give hlive with ⟨rfl, -, -, rfl⟩ | ⟨-, hold⟩
      · exact owner_give_self ..
      · rw [owner_give_of_ne fun hn => hnobody d ((h.kept.ne_of_free hclosed hold).1 hn)]
        exact h.owns _ _ _ _ hold
    · change (st.give c n).owner k = some d
      have hk : k ≠ n := by
        rintro rfl
        exact hnobody d hmem
      rw [owner_give_of_ne hk]
      exact h.heard d k hmem
  | listen c task =>
    obtain ⟨type, fd, n, hc, rfl⟩ := listen_eq_some hstep
    refine ⟨hkept, h.owns, fun d k hmem => ?_⟩
    rcases List.mem_cons.mp hmem with hq | hbefore
    · cases hq
      exact h.owns _ _ _ _ hc
    · exact h.heard d k hbefore
  | cancle c eventType =>
    obtain ⟨type, fd, n, -, rfl⟩ := cancle_eq_some hstep
    exact ⟨hkept, h.owns, h.heard⟩
  | add l n | delete l n =>
    cases hstep
    exact ⟨hkept, h.owns, h.heard⟩
  | reconnect c fd => exact h.reconnect hunheard hstep hkept
  | reap c =>
    obtain ⟨fd, n, hc, rfl⟩ := reap_eq_some hstep
    have hallotted : Allotted ((st.close none).setConnection c .ended) :=
      h.giveUp hkept hc (.inl rfl)
    exact hallotted
  | destroy c =>
    obtain ⟨fd, n, hc, rfl⟩ := destroy_eq_some hstep
    exact h.giveUp hkept hc (.inl rfl)
  | report l n trigger =>
    obtain ⟨-, rfl | rfl⟩ := report_eq_some hstep
    · exact h
    · exact ⟨hkept, h.owns, h.heard⟩

/-- **A step leaves connections separate** exactly if nobody has listened on a number that is taken
over. -/
theorem Allotted.separate_step_iff (h : Allotted st) (hstep : processStep st e = some st') :
    Separate st e ↔ Unheard st e := by
  have hiff : ∀ p ∈ takenOver st e, CleanFor p.1 ((st.group.getFdEvent p.2).event p.2) ↔
      ∀ q ∈ st.listened, q.2 ≠ p.2 :=
    fun _ hp => h.kept.cleanFor_iff (h.kept.notMem_listened hstep hp)
  constructor
  · rintro ⟨hclean, -⟩ p hp
    exact (hiff p hp).mp (hclean p hp)
  · intro hunheard
    refine ⟨fun p hp => (hiff p hp).mpr (hunheard p hp), ?_⟩
    rintro l fd trigger rfl f hf
    exact h.heard _ _ (h.kept.own fd f (mem_callbacks_of_mem_epollTasks hf))

end Kept

/-! ## All steps -/

section Run

omit [DecidableEq L] [DecidableEq C] in
theorem kept_new (opened : Finset ℕ) : Kept (.new opened : Process L C) where
  inRange _ _ _ _ h := by cases h
  taken _ _ _ _ h := by cases h
  opened _ _ _ _ h := by cases h
  apart _ _ _ _ _ _ _ h := by cases h
  lent _ _ _ _ _ _ _ h := by cases h
  alone _ _ _ _ _ _ _ h := by cases h
  single _ _ _ _ _ h := by cases h
  unique _ _ _ h := by cases h
  heard _ _ h := by cases h
  own n f h := by
    change f ∈ ((FdEventGroup.new : FdEventGroup (Callback C)).event n).callbacks at h
    rw [FdEventGroup.event_new, FdEvent.callbacks_new] at h
    cases h
  quiet n _ := by
    change ((FdEventGroup.new : FdEventGroup (Callback C)).event n).listenEvent = {}
    rw [FdEventGroup.event_new]
  known _ _ h := by cases h

/-- **Connections are isolated** exactly if nobody has listened on a number that is handed out, and
nobody but the owner on one with an epoll result. -/
theorem isolated_iff (opened : Finset ℕ) (es : List (ProcessEvent L C))
    (hrun : (exec processStep (.new opened) es).isSome) :
    Along processStep Isolated (.new opened) es ↔
      Along processStep Undisturbed (.new opened) es := by
  refine along_iff hrun (kept_new opened) ?_ ?_
  · exact fun st e st' h hstep => h.isolated_step_iff hstep
  · exact fun st e st' h hstep hiso => h.step ((h.isolated_step_iff hstep).mp hiso).1 hstep

omit [DecidableEq L] [DecidableEq C] in
instance (ev : FdEvent (Callback C)) (trigger : Trigger) : Decidable (Heeds ev trigger) :=
  inferInstanceAs (Decidable (_ ∨ _ ∨ _))

instance (st : Process L C) : DecidablePred (Undisturbed st)
  | .getFdEvent c type fd =>
    decidable_of_iff (∀ q ∈ st.listened, q.2 ≠ fd) (by simp [Undisturbed])
  | .report l fd trigger =>
    decidable_of_iff (Heeds (st.group.event fd) trigger →
      ∀ q ∈ st.listened, q.2 = fd → st.owner fd = some q.1) (by simp [Undisturbed])
  | .listen .. | .cancle .. | .add .. | .delete .. | .reconnect .. | .reap .. | .destroy .. =>
    .isTrue ⟨nofun, nofun⟩

/-- A client is destroyed before it has listened, and the next one listens. -/
theorem isolated_unused :
    Along processStep Isolated (.new ∅ : Process ℕ ℕ)
      [.getFdEvent 0 .byClient 5, .destroy 0, .getFdEvent 1 .byClient 5, .listen 1 .onRead,
        .add 0 5, .report 0 5 { inEvent := true }] :=
  (isolated_iff ∅ _ (by decide +kernel)).mpr (by decide +kernel)

/-- **The second client gets the events of the first one**: it only waits for its connect, on
another loop, and the bytes that come are read for the client that is gone. -/
theorem not_isolated_reused :
    let es : List (ProcessEvent ℕ ℕ) :=
      [.getFdEvent 0 .byClient 5, .listen 0 .onRead, .add 0 5, .destroy 0,
        .getFdEvent 1 .byClient 5, .listen 1 .onConnect, .add 1 5]
    ¬ Along processStep Isolated (.new ∅) es ∧
      ∃ st, exec processStep (.new ∅) es = some st ∧ Reportable (st.loops 1) 5 { inEvent := true } ∧
        epollTasks (st.group.event 5) { inEvent := true } = [some ⟨0, .onRead⟩] ∧
        st.owner 5 = some 1 := by
  refine ⟨fun h => ?_, _, rfl, by decide +kernel, by decide +kernel, by decide +kernel⟩
  have hfifth := (((((h.2 _ rfl).2 _ rfl).2 _ rfl).2 _ rfl).1).1 1 .byClient 5 rfl
  revert hfifth
  decide +kernel

omit [DecidableEq L] [DecidableEq C] in
theorem allotted_new (opened : Finset ℕ) : Allotted (.new opened : Process L C) where
  kept := kept_new opened
  owns _ _ _ _ h := by cases h
  heard _ _ h := by cases h

/-- **Connections are separate** exactly if no number is taken over after somebody has listened on
it. -/
theorem separate_iff (opened : Finset ℕ) (es : List (ProcessEvent L C))
    (hrun : (exec processStep (.new opened) es).isSome) :
    Along processStep Separate (.new opened) es ↔ Along processStep Unheard (.new opened) es := by
  refine along_iff hrun (allotted_new opened) ?_ ?_
  · exact fun st e st' h hstep => h.separate_step_iff hstep
  · exact fun st e st' h hstep hsep => h.step ((h.separate_step_iff hstep).mp hsep) hstep

end Run

end TalonRPC.Net
