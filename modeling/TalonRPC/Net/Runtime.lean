import Mathlib.Data.Fintype.Basic
import TalonRPC.Net.Isolation

/-!
# Queues of tasks

What an epoll result enqueues are the callbacks of connections, by reference, and they run later:
after the tasks before them, and after whatever else happens to the connection in between. A task
may start its loop again, and tasks queued later then come first: here the tasks of a queue may
change places at any time, which is more than a loop does with them. A server gives a connection up
once it is `Closed`, which its own `onRead` brings about; a `TcpClient` gives it up when it is
destroyed, while the loop it has used may be stopped with tasks left in the queue.

## Main definitions

* `Runtime`, `runtimeStep`: the process with the queues of its loops and the states of its
  connections
* `Runtime.calls`: what an event does to the loops and to the `Fd_Event`s
* `Alive`: a task that is run captures a connection that has not been destroyed
* `Orderly`: no connection is destroyed that a queued task captures, and who acts, or is called
  back, is the last that got the number

## Main results

* `Attached.step`: what a loop watches, and how a step changes it
* `Owned.step`: the descriptor of a connection in use is the open one it got last
-/

namespace TalonRPC.Net

open Machine Epoll

variable {L C : Type}

/-- A task in the queue of a loop: a callback, or `addEpollEvent` for another thread. -/
inductive Queued (C : Type)
  | callback (f : Option (Callback C))
  | add (fd : ℕ)
  deriving DecidableEq, Repr

/-- The connection that a task captures. -/
def Queued.captured : Queued C → Option C
  | .callback (some f) => some f.owner
  | _ => none

/-- A process with the tasks its loops have not run yet, the states of its connections and the
loops they are on. The tasks of a queue are those of the running `tmp_tasks` and of
`m_pending_tasks`, in the order in which they would be run. -/
structure Runtime (L C : Type) where
  process : Process L C
  queue : L → List (Queued C)
  state : C → TcpState
  home : C → Option L
  looping : L → Bool

/-- What comes of a task: nothing more, the peer has closed, requests have been answered, all bytes
have been written, the connect has succeeded, or it was refused and there is another socket. -/
inductive Outcome
  | nothing
  | closed
  | replied
  | written
  | connected
  | refused (fd : Option ℕ)
  deriving DecidableEq, Repr

/-- What happens: a server accepts a connection for one of its loops, a `TcpClient` is constructed
on the thread of a loop, `setState` is called, a client connects, writes or reads, an epoll result
is handled, a task is run, tasks change places because the loop is entered again or left, the
server's timer drops a connection, a client is destroyed, a loop is entered or left. -/
inductive RuntimeEvent (L C : Type)
  | accept (c : C) (l : L) (fd : ℕ)
  | create (c : C) (l : L) (fd : ℕ)
  | setState (c : C)
  | request (c : C) (task : Task)
  | report (l : L) (fd : ℕ) (trigger : Trigger)
  | run (l : L) (outcome : Outcome)
  | reorder (l : L) (queue : List (Queued C))
  | reap (c : C)
  | destroy (c : C)
  | loop (l : L)
  | exit (l : L)
  deriving DecidableEq, Repr

/-- The `m_fd` of a connection in use. -/
def Endpoint.fd : Endpoint → Option ℕ
  | .live _ fd _ => fd
  | _ => none

/-- The number of the `m_fd_event` of a connection in use. -/
def Endpoint.event : Endpoint → Option ℕ
  | .live _ _ n => some n
  | _ => none

/-- The connection is in use. -/
def Endpoint.isLive : Endpoint → Bool
  | .live _ _ _ => true
  | _ => false

namespace Runtime

/-- Nothing has happened yet. -/
def new (opened : Finset ℕ) : Runtime L C where
  process := .new opened
  queue := fun _ => []
  state := fun _ => .notConnected
  home := fun _ => none
  looping := fun _ => false

/-- What a callback does to the loops and to its `Fd_Event`. On a connection that has been destroyed
anything could happen; the task is dropped then. -/
def taskCalls (st : Runtime L C) (f : Callback C) (outcome : Outcome) : List (ProcessEvent L C) :=
  match st.process.connections f.owner, st.home f.owner with
  | .live type _ n, some l =>
    match f.task, outcome with
    | .onRead, .closed =>
      -- `clear`
      if st.state f.owner = .connected then
        [.cancle f.owner .inEvent, .cancle f.owner .outEvent, .delete l n]
      else []
    | .onRead, .replied =>
      if st.state f.owner = .connected ∧ type = .byServer then
        [.listen f.owner .onWrite, .add l n]
      else []
    | .onWrite, .written =>
      if st.state f.owner = .connected then [.cancle f.owner .outEvent, .add l n] else []
    | .onConnect, .connected => [.delete l n]
    | .onConnect, .refused fd => [.reconnect f.owner fd, .delete l n]
    | _, _ => []
  | _, _ => []

/-- The state of the connection after a callback. -/
def taskState (st : Runtime L C) (f : Callback C) : Outcome → TcpState
  | .closed =>
    if f.task = .onRead ∧ st.state f.owner = .connected then .closed else st.state f.owner
  | .connected => if f.task = .onConnect then .connected else st.state f.owner
  | _ => st.state f.owner

/-- What an event does to the loops and to the `Fd_Event`s. -/
def calls (st : Runtime L C) : RuntimeEvent L C → List (ProcessEvent L C)
  | .accept c _ fd => [.getFdEvent c .byServer fd, .listen c .onRead]
  | .create c _ fd => [.getFdEvent c .byClient fd]
  | .request c task =>
    match st.process.connections c, st.home c with
    | .live .byClient _ n, some l => [.listen c task, .add l n]
    | _, _ => []
  | .report l fd trigger => [.report l fd trigger]
  | .run l outcome =>
    match st.queue l with
    | .add fd :: _ => [.add l fd]
    | .callback (some f) :: _ => st.taskCalls f outcome
    | _ => []
  | .reap c => [.reap c]
  | .destroy c => [.destroy c]
  | _ => []

/-- The event can happen: a loop is running that works, no task is lost or new where tasks change
places, a connection is in use that is set to `Connected`, and the server's timer finds a connection
`Closed`. -/
def Enabled (st : Runtime L C) : RuntimeEvent L C → Prop
  | .setState c => (st.process.connections c).isLive = true ∧ st.state c = .notConnected
  | .report l _ _ => st.looping l = true
  | .run l _ => st.looping l = true ∧ st.queue l ≠ []
  | .reorder l queue => st.looping l = true ∧ queue.Perm (st.queue l)
  | .reap c => st.state c = .closed
  | _ => True

instance [DecidableEq C] (st : Runtime L C) : DecidablePred st.Enabled
  | .setState _ => inferInstanceAs (Decidable (_ ∧ _))
  | .report _ _ _ => inferInstanceAs (Decidable (_ = _))
  | .run _ _ => inferInstanceAs (Decidable (_ ∧ _))
  | .reorder l queue =>
    inferInstanceAs (Decidable (st.looping l = true ∧ queue.Perm (st.queue l)))
  | .reap _ => inferInstanceAs (Decidable (_ = _))
  | .accept _ _ _ | .create _ _ _ | .request _ _ | .destroy _ | .loop _ | .exit _ => .isTrue trivial

variable [DecidableEq L] [DecidableEq C]

/-- The queues after an event. The constructor of an accepted connection runs on the thread of the
server, so that the loop is asked to add the event. -/
def queueAfter (st : Runtime L C) : RuntimeEvent L C → L → List (Queued C)
  | .accept _ l fd => Function.update st.queue l (st.queue l ++ [.add fd])
  | .report l fd trigger =>
    Function.update st.queue l
      (st.queue l ++ (epollTasks (st.process.group.event fd) trigger).map .callback)
  | .run l _ => Function.update st.queue l (st.queue l).tail
  | .reorder l queue => Function.update st.queue l queue
  | _ => st.queue

/-- The states of the connections after an event. `setState` ignores its argument. -/
def stateAfter (st : Runtime L C) : RuntimeEvent L C → C → TcpState
  | .accept c _ _ | .create c _ _ => Function.update st.state c .notConnected
  | .setState c => Function.update st.state c .connected
  | .run l outcome =>
    match st.queue l with
    | .callback (some f) :: _ => Function.update st.state f.owner (st.taskState f outcome)
    | _ => st.state
  | _ => st.state

/-- The loops of the connections after an event. -/
def homeAfter (st : Runtime L C) : RuntimeEvent L C → C → Option L
  | .accept c l _ | .create c l _ => Function.update st.home c (some l)
  | _ => st.home

/-- Which loops are running after an event. -/
def loopingAfter (st : Runtime L C) : RuntimeEvent L C → L → Bool
  | .loop l => Function.update st.looping l true
  | .exit l => Function.update st.looping l false
  | _ => st.looping

end Runtime

variable [DecidableEq L] [DecidableEq C]

/-- A step. -/
def runtimeStep (st : Runtime L C) (e : RuntimeEvent L C) : Option (Runtime L C) :=
  if ¬ st.Enabled e then none
  else
    (exec processStep st.process (st.calls e)).map fun process =>
      { process
        queue := st.queueAfter e
        state := st.stateAfter e
        home := st.homeAfter e
        looping := st.loopingAfter e }

/-- **A task that is run captures a connection that has not been destroyed.** -/
def Alive (st : Runtime L C) (e : RuntimeEvent L C) : Prop :=
  ∀ l outcome f rest, e = .run l outcome → st.queue l = .callback (some f) :: rest →
    ∃ type fd n, st.process.connections f.owner = .live type fd n

/-- No queued task captures the connection. -/
def Spared (st : Runtime L C) (c : C) : Prop := ∀ l, ∀ t ∈ st.queue l, t.captured ≠ some c

/-- If the connection is in use, it is the last that got the number of its `Fd_Event`. -/
def Holds (st : Process L C) (c : C) : Prop :=
  ∀ n ∈ (st.connections c).event, st.owner n = some c

/-- No connection is destroyed that a queued task captures: the destructor of a `TcpClient` would
not close descriptor 0. An epoll result enqueues callbacks of the last that got the number, and who
adds an event is the last that got the number of its `Fd_Event`. -/
def Orderly (st : Runtime L C) : RuntimeEvent L C → Prop
  | .reap c => Spared st c
  | .destroy c => Spared st c ∧ (st.process.connections c).fd ≠ some 0
  | .report _ fd trigger =>
    ∀ t ∈ epollTasks (st.process.group.event fd) trigger, ∀ f ∈ t,
      st.process.owner fd = some f.owner
  | .request c _ => Holds st.process c
  | .run l _ => ∀ t ∈ (st.queue l).head?, ∀ c ∈ t.captured, Holds st.process c
  | _ => True

instance [Fintype L] (st : Runtime L C) (c : C) : Decidable (Spared st c) :=
  inferInstanceAs (Decidable (∀ l, ∀ t ∈ st.queue l, t.captured ≠ some c))

instance (st : Process L C) (c : C) : Decidable (Holds st c) :=
  inferInstanceAs (Decidable (∀ n ∈ (st.connections c).event, st.owner n = some c))

instance [Fintype L] (st : Runtime L C) : DecidablePred (Orderly st)
  | .reap _ => inferInstanceAs (Decidable (Spared _ _))
  | .destroy _ => inferInstanceAs (Decidable (_ ∧ _))
  | .report _ fd trigger =>
    inferInstanceAs (Decidable (∀ t ∈ epollTasks (st.process.group.event fd) trigger, ∀ f ∈ t,
      st.process.owner fd = some f.owner))
  | .request _ _ => inferInstanceAs (Decidable (Holds _ _))
  | .run l _ =>
    inferInstanceAs (Decidable (∀ t ∈ (st.queue l).head?, ∀ c ∈ t.captured, Holds st.process c))
  | .accept _ _ _ | .create _ _ _ | .setState _ | .reorder _ _ | .loop _ | .exit _ =>
    .isTrue trivial

omit [DecidableEq L] [DecidableEq C] in
theorem Holds.owner {st : Process L C} {c : C} (h : Holds st c) {type : TcpConnectionType}
    {fd : Option ℕ} {n : ℕ} (hc : st.connections c = .live type fd n) : st.owner n = some c :=
  h n (by rw [hc]; rfl)

omit [DecidableEq L] [DecidableEq C] in
/-- In an orderly run, the connection whose callback is next is the last that got its number. -/
theorem Orderly.holds {st : Runtime L C} {l : L} {outcome : Outcome} {f : Callback C}
    {rest : List (Queued C)} (h : Orderly st (.run l outcome))
    (hhead : st.queue l = .callback (some f) :: rest) : Holds st.process f.owner :=
  h (.callback (some f)) (by rw [hhead]; rfl) f.owner rfl

/-! ## What a loop watches -/

omit [DecidableEq L] [DecidableEq C] in
/-- Each loop has the open descriptors of the process, registers only these, and has in its set
what it registers. -/
structure Attached (st : Process L C) : Prop where
  sound : ∀ l, (st.loops l).kernel.Sound
  opened : ∀ l, (st.loops l).kernel.opened = st.opened
  listed : ∀ l fd, (st.loops l).kernel.Registered fd → fd ∈ (st.loops l).listenFds

section Attached

variable {st st' : Process L C} {l : L} {e : ProcessEvent L C} {fd n : ℕ}

omit [DecidableEq L] [DecidableEq C] in
/-- A loop watches no closed descriptor. -/
theorem Attached.not_registered (h : Attached st) (hclosed : n ∉ st.opened) :
    ¬ (st.loops l).kernel.Registered n := by
  intro hregistered
  exact hclosed (h.opened l ▸ h.sound l n hregistered)

/-- What adding does, whatever the set of the loop has too much. -/
theorem addEpollEvent_spec {loop : Eventloop} (fd : ℕ) (mask : EventMask)
    (hsound : loop.kernel.Sound) (hlisted : ∀ n, loop.kernel.Registered n → n ∈ loop.listenFds) :
    (loop.addEpollEvent fd mask).kernel.Sound ∧
      (loop.addEpollEvent fd mask).kernel.opened = loop.kernel.opened ∧
      (∀ n, (loop.addEpollEvent fd mask).kernel.Registered n → loop.kernel.Registered n ∨ n = fd) ∧
      ∀ n, (loop.addEpollEvent fd mask).kernel.Registered n →
        n ∈ (loop.addEpollEvent fd mask).listenFds := by
  -- The call watches the descriptor or fails.
  have hkernel : (loop.addEpollEvent fd mask).kernel = loop.kernel ∨
      fd ∈ loop.kernel.opened ∧
        (loop.addEpollEvent fd mask).kernel = loop.kernel.watch fd (some mask) := by
    by_cases hopen : fd ∈ loop.kernel.opened
    · by_cases hregistered : loop.kernel.Registered fd
      · have hsame := iff_of_true (hlisted fd hregistered) hregistered
        rw [addEpollEvent_of_open hsame hopen]
        exact .inr ⟨hopen, rfl⟩
      · by_cases hlisten : fd ∈ loop.listenFds
        · unfold Eventloop.addEpollEvent
          dsimp only
          rw [if_pos hlisten, Kernel.epollCtl_mod_of_unregistered hregistered]
          exact .inl rfl
        · rw [addEpollEvent_of_open (iff_of_false hlisten hregistered) hopen]
          exact .inr ⟨hopen, rfl⟩
    · rw [addEpollEvent_of_closed hopen]
      exact .inl rfl
  have hfds : (loop.addEpollEvent fd mask).listenFds = insert fd loop.listenFds := rfl
  rw [hfds]
  rcases hkernel with hkernel | ⟨hopen, hkernel⟩
  · rw [hkernel]
    exact ⟨hsound, rfl, fun n hn => .inl hn, fun n hn => Finset.mem_insert_of_mem (hlisted n hn)⟩
  · rw [hkernel]
    have hsplit : ∀ n, (loop.kernel.watch fd (some mask)).Registered n →
        loop.kernel.Registered n ∨ n = fd := by
      intro n hn
      rcases (Kernel.registered_watch _ _).mp hn with ⟨heq, -⟩ | ⟨-, hold⟩
      · exact .inr heq
      · exact .inl hold
    refine ⟨hsound.watch hopen _, rfl, hsplit, fun n hn => ?_⟩
    rcases hsplit n hn with hold | rfl
    · exact Finset.mem_insert_of_mem (hlisted n hold)
    · exact Finset.mem_insert_self ..

omit [DecidableEq C] in
theorem loops_setLoop_self (st : Process L C) (l : L) (loop : Eventloop) :
    (st.setLoop l loop).loops l = loop := Function.update_self ..

omit [DecidableEq C] in
theorem loops_setLoop_of_ne {l' : L} (h : l' ≠ l) (loop : Eventloop) :
    (st.setLoop l loop).loops l' = st.loops l' := Function.update_of_ne h ..

omit [DecidableEq C] in
/-- A loop may take another value in which its kernel has the same open descriptors. -/
theorem Attached.setLoop (h : Attached st) {loop : Eventloop} (hsound : loop.kernel.Sound)
    (hopened : loop.kernel.opened = (st.loops l).kernel.opened)
    (hlisted : ∀ n, loop.kernel.Registered n → n ∈ loop.listenFds) :
    Attached (st.setLoop l loop) := by
  refine ⟨fun l' => ?_, fun l' => ?_, fun l' => ?_⟩ <;> by_cases hl : l' = l
  · rw [hl, loops_setLoop_self]
    exact hsound
  · rw [loops_setLoop_of_ne hl]
    exact h.sound l'
  · rw [hl, loops_setLoop_self]
    exact hopened.trans (h.opened l)
  · rw [loops_setLoop_of_ne hl]
    exact h.opened l'
  · rw [hl, loops_setLoop_self]
    exact hlisted
  · rw [loops_setLoop_of_ne hl]
    exact h.listed l'

omit [DecidableEq C] in
/-- Deleting leaves a loop attached, and it watches the descriptor no longer. -/
theorem Attached.delete (h : Attached st) (l : L) (fd : ℕ) :
    Attached (st.setLoop l ((st.loops l).deleteEpollEvent fd)) ∧
      (∀ l' n, ((st.setLoop l ((st.loops l).deleteEpollEvent fd)).loops l').kernel.Registered n →
        (st.loops l').kernel.Registered n ∧ ¬ (l' = l ∧ n = fd)) := by
  obtain ⟨hsound, hregistered, hlisten⟩ :=
    deleteEpollEvent_spec (h.sound l) (h.listed l fd)
  constructor
  · refine h.setLoop hsound ?_ fun n hn => ?_
    · unfold Eventloop.deleteEpollEvent
      split_ifs
      · dsimp only
        by_cases hfd : (st.loops l).kernel.Registered fd
        · rw [Kernel.epollCtl_del (h.sound l fd hfd) hfd]
          rfl
        · rw [Kernel.epollCtl_del_of_unregistered hfd]
          rfl
      · rfl
    · obtain ⟨hne, hn⟩ := (hregistered n).mp hn
      exact (hlisten n).mpr ⟨hne, h.listed l n hn⟩
  · intro l' n hn
    by_cases hl : l' = l
    · subst hl
      rw [loops_setLoop_self] at hn
      obtain ⟨hne, hn⟩ := (hregistered n).mp hn
      exact ⟨hn, fun hboth => hne hboth.2⟩
    · rw [loops_setLoop_of_ne hl] at hn
      exact ⟨hn, fun hboth => hl hboth.1⟩

omit [DecidableEq L] [DecidableEq C] in
theorem Attached.opens (h : Attached st) (fd : ℕ) : Attached (st.opens fd) where
  sound l := (h.sound l).opens fd
  opened l := congrArg (insert fd) (h.opened l)
  listed l := h.listed l

omit [DecidableEq L] [DecidableEq C] in
/-- Closing leaves the loops attached, and they watch nothing new. -/
theorem Attached.close (h : Attached st) (fd : Option ℕ) :
    Attached (st.close fd) ∧
      ∀ l n, ((st.close fd).loops l).kernel.Registered n → (st.loops l).kernel.Registered n := by
  cases fd with
  | none => exact ⟨h, fun _ _ hn => hn⟩
  | some fd =>
    have hsub : ∀ l n, ((st.close (some fd)).loops l).kernel.Registered n →
        (st.loops l).kernel.Registered n :=
      fun l n hn => ((Kernel.registered_close _).mp hn).2
    exact ⟨⟨fun l => (h.sound l).close fd, fun l => congrArg (fun s => s.erase fd) (h.opened l),
      fun l n hn => h.listed l n (hsub l n hn)⟩, hsub⟩

/-- **A step leaves the loops attached, and a loop watches what it has watched before or adds
now.** -/
theorem Attached.step (h : Attached st) (hstep : processStep st e = some st') :
    Attached st' ∧ ∀ l n, (st'.loops l).kernel.Registered n →
      (st.loops l).kernel.Registered n ∨ e = .add l n := by
  -- Where the loops and the open descriptors are as before, there is nothing to show.
  have hsame : ∀ {st'' : Process L C}, Attached st'' →
      (∀ l n, (st''.loops l).kernel.Registered n → (st.loops l).kernel.Registered n) →
        Attached st'' ∧ ∀ l n, (st''.loops l).kernel.Registered n →
          (st.loops l).kernel.Registered n ∨ e = .add l n :=
    fun hattached hsub => ⟨hattached, fun l n hn => .inl (hsub l n hn)⟩
  cases e with
  | getFdEvent c type fd =>
    obtain ⟨-, -, rfl⟩ := getFdEvent_eq_some hstep
    have hopens := h.opens fd
    exact hsame ⟨hopens.1, hopens.2, hopens.3⟩ fun _ _ hn => hn
  | listen c task =>
    obtain ⟨_, _, _, -, rfl⟩ := listen_eq_some hstep
    exact hsame ⟨h.1, h.2, h.3⟩ fun _ _ hn => hn
  | cancle c eventType =>
    obtain ⟨_, _, _, -, rfl⟩ := cancle_eq_some hstep
    exact hsame ⟨h.1, h.2, h.3⟩ fun _ _ hn => hn
  | add l fd =>
    cases hstep
    obtain ⟨hsound, hopened, hregistered, hlisted⟩ :=
      addEpollEvent_spec fd (st.group.event fd).listenEvent (h.sound l) (h.listed l)
    refine ⟨h.setLoop hsound hopened hlisted, fun l' n hn => ?_⟩
    by_cases hl : l' = l
    · subst hl
      rw [loops_setLoop_self] at hn
      rcases hregistered n hn with hold | rfl
      · exact .inl hold
      · exact .inr rfl
    · rw [loops_setLoop_of_ne hl] at hn
      exact .inl hn
  | delete l fd =>
    cases hstep
    obtain ⟨hattached, hsub⟩ := h.delete l fd
    exact hsame hattached fun l' n hn => (hsub l' n hn).1
  | reconnect c fd =>
    obtain ⟨old, n, -, -, hnew⟩ := reconnect_eq_some hstep
    obtain ⟨hattached, hsub⟩ := h.close old
    rcases hnew with ⟨-, rfl⟩ | ⟨m, -, -, rfl⟩
    · exact hsame ⟨hattached.1, hattached.2, hattached.3⟩ hsub
    · have hopens := hattached.opens m
      exact hsame ⟨hopens.1, hopens.2, hopens.3⟩ hsub
  | reap c =>
    obtain ⟨_, _, -, rfl⟩ := reap_eq_some hstep
    exact hsame ⟨h.1, h.2, h.3⟩ fun _ _ hn => hn
  | destroy c =>
    obtain ⟨fd, n, -, rfl⟩ := destroy_eq_some hstep
    obtain ⟨hattached, hsub⟩ := h.close (fd.filter (0 < ·))
    exact hsame ⟨hattached.1, hattached.2, hattached.3⟩ hsub
  | report l fd trigger =>
    obtain ⟨-, rfl | rfl⟩ := report_eq_some hstep
    · exact hsame h fun _ _ hn => hn
    · obtain ⟨hattached, hsub⟩ := h.delete l fd
      exact hsame hattached fun l' n hn => (hsub l' n hn).1

/-- So do several steps. -/
theorem Attached.exec {es : List (ProcessEvent L C)} (h : Attached st)
    (hexec : exec processStep st es = some st') :
    Attached st' ∧ ∀ l n, (st'.loops l).kernel.Registered n →
      (st.loops l).kernel.Registered n ∨ .add l n ∈ es := by
  refine exec_history (I := fun es t => Attached t ∧ ∀ l n, (t.loops l).kernel.Registered n →
    (st.loops l).kernel.Registered n ∨ .add l n ∈ es) ⟨h, fun _ _ hn => .inl hn⟩ ?_ hexec
  rintro es t e t' - ⟨hattached, hbefore⟩ hstep
  obtain ⟨hattached', hafter⟩ := hattached.step hstep
  refine ⟨hattached', fun l n hn => ?_⟩
  rcases hafter l n hn with hold | rfl
  · exact (hbefore l n hold).imp_right (List.mem_append_left _)
  · exact .inr (List.mem_append_right _ (List.mem_singleton_self _))

/-- After a last step that deletes an event, the loop does not watch it. -/
theorem Attached.not_registered_deleted {es : List (ProcessEvent L C)} (h : Attached st)
    (hexec : Machine.exec processStep st (es ++ [.delete l n]) = some st') :
    ¬ (st'.loops l).kernel.Registered n := by
  obtain ⟨t, ht, hlast⟩ := exec_snoc.mp hexec
  cases hlast
  intro hn
  exact (((h.exec ht).1.delete l n).2 l n hn).2 ⟨rfl, rfl⟩

/-- After a refused connect, no loop watches the new descriptor: it is free once the old one has
been closed. -/
theorem Attached.not_registered_reconnect {c : C} (h : Attached st)
    (hstep : processStep st (.reconnect c (some n)) = some st') :
    ¬ (st'.loops l).kernel.Registered n := by
  obtain ⟨old, k, -, -, hnew⟩ := reconnect_eq_some hstep
  rcases hnew with ⟨⟨⟩, -⟩ | ⟨m, hm, hfree, rfl⟩
  obtain rfl := Option.some.inj hm
  exact (h.close old).1.not_registered hfree

end Attached

/-! ## What the steps do to the connections -/

section Frame

variable {st st' : Process L C} {c : C} {type : TcpConnectionType} {fd fd' : Option ℕ} {l : L}
  {n : ℕ} {e : ProcessEvent L C} {es : List (ProcessEvent L C)} {task : Task}

omit [DecidableEq L] [DecidableEq C] in
/-- The step neither makes nor destroys a connection, nor gives it another descriptor. -/
def ProcessEvent.Minor : ProcessEvent L C → Prop
  | .getFdEvent _ _ _ | .reconnect _ _ | .reap _ | .destroy _ => False
  | _ => True

/-- Listening, cancelling and what the loops do leave the connections and the descriptors as they
are. -/
theorem processStep_minor (hminor : e.Minor) (hstep : processStep st e = some st') :
    st'.connections = st.connections ∧ st'.opened = st.opened ∧ st'.owner = st.owner := by
  cases e with
  | getFdEvent c type fd => exact hminor.elim
  | reconnect c fd' => exact hminor.elim
  | reap c => exact hminor.elim
  | destroy c => exact hminor.elim
  | listen c task =>
    obtain ⟨_, _, _, -, rfl⟩ := listen_eq_some hstep
    exact ⟨rfl, rfl, rfl⟩
  | cancle c eventType =>
    obtain ⟨_, _, _, -, rfl⟩ := cancle_eq_some hstep
    exact ⟨rfl, rfl, rfl⟩
  | add l fd =>
    cases hstep
    exact ⟨rfl, rfl, rfl⟩
  | delete l fd =>
    cases hstep
    exact ⟨rfl, rfl, rfl⟩
  | report l fd trigger =>
    obtain ⟨-, rfl | rfl⟩ := report_eq_some hstep
    · exact ⟨rfl, rfl, rfl⟩
    · exact ⟨rfl, rfl, rfl⟩

theorem exec_minor (hminor : ∀ e ∈ es, e.Minor) (hexec : exec processStep st es = some st') :
    st'.connections = st.connections ∧ st'.opened = st.opened ∧ st'.owner = st.owner := by
  refine exec_history (I := fun es t => (∀ e ∈ es, e.Minor) → t.connections = st.connections ∧
    t.opened = st.opened ∧ t.owner = st.owner) (fun _ => ⟨rfl, rfl, rfl⟩) ?_ hexec hminor
  rintro es t e t' - hbefore hstep hall
  obtain ⟨hconnections, hopened, howner⟩ :=
    hbefore fun e' he' => hall e' (List.mem_append_left _ he')
  obtain ⟨hconnections', hopened', howner'⟩ :=
    processStep_minor (hall e (List.mem_append_right _ (List.mem_singleton_self _))) hstep
  exact ⟨hconnections'.trans hconnections, hopened'.trans hopened, howner'.trans howner⟩

/-- A refused connect closes the descriptor, and the connection owns the new one, which was free. -/
theorem reconnect_frame (hstep : processStep st (.reconnect c fd') = some st') :
    ∃ fd n, st.connections c = .live .byClient fd n ∧
      st'.connections = Function.update st.connections c (.live .byClient fd' n) ∧
        (∀ m, m ∈ st'.opened ↔ fd' = some m ∨ m ∈ st.opened ∧ fd ≠ some m) ∧
          (∀ m, fd' = some m → (m ∉ st.opened ∨ fd = some m) ∧ st'.owner m = some c) ∧
            ∀ m, fd' ≠ some m → st'.owner m = st.owner m := by
  obtain ⟨fd, n, hc, -, hnew⟩ := reconnect_eq_some hstep
  obtain ⟨-, hconnections, howner, -⟩ := close_frame st fd
  refine ⟨fd, n, hc, ?_⟩
  rcases hnew with ⟨rfl, rfl⟩ | ⟨m, rfl, hfree, rfl⟩
  · refine ⟨?_, fun k => ?_, fun _ hk => ?_, fun k _ => congrFun howner k⟩
    · rw [Process.setConnection, hconnections]
    · rw [or_iff_right (Option.some_ne_none k).symm]
      exact mem_opened_close
    · cases hk
  · refine ⟨?_, fun k => ?_, fun k hk => ?_, fun k hk => ?_⟩
    · change Function.update (st.close fd).connections c _ = _
      rw [hconnections]
    · change k ∈ insert m (st.close fd).opened ↔ _
      rw [Finset.mem_insert, mem_opened_close, Option.some_inj, eq_comm]
    · obtain rfl := Option.some.inj hk
      rw [mem_opened_close, not_and_not_right] at hfree
      exact ⟨Decidable.not_or_of_imp hfree, owner_give_self ..⟩
    · have hkm : k ≠ m := fun heq => hk (congrArg some heq.symm)
      exact (owner_give_of_ne hkm).trans (congrFun howner k)

/-- A refused connect leaves each connection with its number. -/
theorem live_reconnect (hstep : processStep st (.reconnect c fd') = some st') (d : C)
    (type : TcpConnectionType) (m : ℕ) :
    (∃ fd, st'.connections d = .live type fd m) ↔ ∃ fd, st.connections d = .live type fd m := by
  obtain ⟨old, n, hc, hconnections, -⟩ := reconnect_frame hstep
  rw [hconnections]
  by_cases hd : d = c
  · subst hd
    rw [Function.update_self, hc]
    constructor
    · rintro ⟨_, heq⟩
      cases heq
      exact ⟨_, rfl⟩
    · rintro ⟨_, heq⟩
      cases heq
      exact ⟨_, rfl⟩
  · rw [Function.update_of_ne hd]

theorem destroy_frame (hstep : processStep st (.destroy c) = some st') :
    ∃ fd n, st.connections c = .live .byClient fd n ∧
      st'.connections = Function.update st.connections c .ended ∧
        (∀ m, m ∈ st'.opened ↔ m ∈ st.opened ∧ fd.filter (0 < ·) ≠ some m) ∧
          st'.owner = st.owner := by
  obtain ⟨fd, n, hc, rfl⟩ := destroy_eq_some hstep
  obtain ⟨-, hconnections, howner, -⟩ := close_frame st (fd.filter (0 < ·))
  refine ⟨fd, n, hc, ?_, fun m => mem_opened_close, howner⟩
  rw [Process.setConnection, hconnections]

end Frame

/-! ## Who has a descriptor -/

omit [DecidableEq L] [DecidableEq C] in
/-- The descriptor of a connection in use is the open one that it got last. That of a server's
connection has the number of its `Fd_Event`. -/
structure Owned (st : Process L C) : Prop where
  born : ∀ c n, st.owner n = some c → st.connections c ≠ .unborn
  held : ∀ c type fd n, st.connections c = .live type fd n →
    ∀ m, fd = some m ↔ m ∈ st.opened ∧ st.owner m = some c
  server : ∀ c fd n, st.connections c = .live .byServer fd n → fd = some n

section Owned

variable {st st' : Process L C} {c d : C} {type : TcpConnectionType} {fd : Option ℕ} {m n : ℕ}
  {e : ProcessEvent L C}

omit [DecidableEq L] [DecidableEq C] in
/-- A server's connection is the last that got its number. -/
theorem Owned.of_server (h : Owned st) (hc : st.connections c = .live .byServer fd n) :
    n ∈ st.opened ∧ st.owner n = some c :=
  (h.held c _ fd n hc n).mp (h.server c fd n hc)

omit [DecidableEq L] [DecidableEq C] in
/-- The descriptor of a connection is not one that another connection got last. -/
theorem Owned.ne_of_owner (h : Owned st) (hc : st.connections c = .live type fd n) (hd : d ≠ c)
    (howner : st.owner m = some d) : fd ≠ some m := by
  intro hfd
  have hself := ((h.held c type fd n hc m).mp hfd).2
  exact hd (Option.some.inj (howner.symm.trans hself))

omit [DecidableEq L] in
/-- One connection changes, and the others have their descriptors as before. -/
theorem Owned.change (h : Owned st) {after : Endpoint}
    (hconnections : st'.connections = Function.update st.connections c after)
    (halive : after ≠ .unborn)
    (hborn : ∀ d m, d ≠ c → st'.owner m = some d → st.owner m = some d)
    (hothers : ∀ d m, d ≠ c →
      (m ∈ st'.opened ∧ st'.owner m = some d ↔ m ∈ st.opened ∧ st.owner m = some d))
    (hheld : ∀ type fd n, after = .live type fd n →
      ∀ m, fd = some m ↔ m ∈ st'.opened ∧ st'.owner m = some c)
    (hserver : ∀ fd n, after = .live .byServer fd n → fd = some n) : Owned st' := by
  have hself : st'.connections c = after := hconnections ▸ Function.update_self ..
  have hother : ∀ d, d ≠ c → st'.connections d = st.connections d :=
    fun d hd => hconnections ▸ Function.update_of_ne hd ..
  refine ⟨fun d m hm => ?_, fun d type fd n hd m => ?_, fun d fd n hd => ?_⟩
  all_goals by_cases hdc : d = c
  · exact hdc ▸ hself ▸ halive
  · rw [hother d hdc]
    exact h.born d m (hborn d m hdc hm)
  · subst hdc
    exact hheld type fd n (hself.symm.trans hd) m
  · rw [hother d hdc] at hd
    exact (h.held d type fd n hd m).trans (hothers d m hdc).symm
  · subst hdc
    exact hserver fd n (hself.symm.trans hd)
  · rw [hother d hdc] at hd
    exact h.server d fd n hd

omit [DecidableEq L] in
/-- A connection gives its descriptor up, if it has one, and may get a free one. -/
theorem Owned.give (h : Owned st) (old fd : Option ℕ) {after : Endpoint}
    (hconnections : st'.connections = Function.update st.connections c after)
    (halive : after ≠ .unborn)
    (hold : ∀ m, old = some m ↔ m ∈ st.opened ∧ st.owner m = some c)
    (hopened : ∀ m, m ∈ st'.opened ↔ fd = some m ∨ m ∈ st.opened ∧ old ≠ some m)
    (hfree : ∀ m, fd = some m → (m ∉ st.opened ∨ old = some m) ∧ st'.owner m = some c)
    (hkeep : ∀ m, fd ≠ some m → st'.owner m = st.owner m)
    (hafter : ∀ type fd' n, after = .live type fd' n → fd' = fd)
    (hserver : ∀ fd n, after = .live .byServer fd n → fd = some n) : Owned st' := by
  refine h.change hconnections halive (fun d m hd hm => ?_) (fun d m hd => ?_) ?_ hserver
  · by_cases hfd : fd = some m
    · exact absurd (Option.some.inj (hm.symm.trans (hfree m hfd).2)) hd
    · exact hkeep m hfd ▸ hm
  · have hother : st.owner m = some d → old ≠ some m := by
      intro hm hmo
      exact hd (Option.some.inj (hm.symm.trans ((hold m).mp hmo).2))
    by_cases hfd : fd = some m
    · obtain ⟨hnotOpen, howner⟩ := hfree m hfd
      refine iff_of_false (fun hm => ?_) (fun hm => ?_)
      · exact hd (Option.some.inj (hm.2.symm.trans howner))
      · exact hnotOpen.elim (fun hnot => hnot hm.1) (hother hm.2)
    · rw [hkeep m hfd, hopened, or_iff_right hfd]
      exact and_congr_left fun hm => and_iff_left (hother hm)
  · intro type fd' n hlive m
    rw [hafter type fd' n hlive, hopened]
    constructor
    · exact fun hfd => ⟨.inl hfd, (hfree m hfd).2⟩
    · rintro ⟨hfd | ⟨hopen, hne⟩, hm⟩
      · exact hfd
      · by_contra hfd
        exact hne ((hold m).mpr ⟨hopen, hkeep m hfd ▸ hm⟩)

/-- **Every step keeps the descriptors with their connections.** -/
theorem Owned.step (h : Owned st) (hstep : processStep st e = some st') : Owned st' := by
  by_cases hminor : e.Minor
  · obtain ⟨hconnections, hopened, howner⟩ := processStep_minor hminor hstep
    refine ⟨?_, ?_, ?_⟩
    · rw [hconnections, howner]
      exact h.born
    · rw [hconnections, howner, hopened]
      exact h.held
    · rw [hconnections]
      exact h.server
  cases e with
  | getFdEvent c type n =>
    obtain ⟨hunborn, hclosed, rfl⟩ := getFdEvent_eq_some hstep
    refine h.give (c := c) none (some n) rfl nofun (fun m => ?_) (fun m => ?_) ?_ ?_ ?_ ?_
    · refine iff_of_false nofun fun hm => h.born c m hm.2 hunborn
    · change m ∈ insert n st.opened ↔ _
      rw [Finset.mem_insert, Option.some_inj, eq_comm, and_iff_left nofun]
    · rintro m ⟨⟩
      exact ⟨.inl hclosed, owner_give_self ..⟩
    · exact fun m hm => owner_give_of_ne fun heq => hm (congrArg some heq.symm)
    · rintro _ _ _ ⟨⟩
      rfl
    · rintro _ _ ⟨⟩
      rfl
  | reconnect c fd' =>
    obtain ⟨fd, n, hc, hconnections, hopened, hfree, hkeep⟩ := reconnect_frame hstep
    refine h.give fd fd' hconnections nofun (h.held c _ fd n hc) hopened hfree hkeep ?_ nofun
    rintro _ _ _ ⟨⟩
    rfl
  | reap c =>
    obtain ⟨fd, n, -, rfl⟩ := reap_eq_some hstep
    exact h.change rfl nofun (fun _ _ _ h => h) (fun _ _ _ => .rfl) nofun nofun
  | destroy c =>
    obtain ⟨fd, n, hc, hconnections, hopened, howner⟩ := destroy_frame hstep
    refine h.change hconnections nofun (fun d m _ => howner ▸ id) (fun d m hd => ?_) nofun nofun
    rw [howner, hopened]
    refine and_congr_left fun hm => and_iff_left ?_
    exact fun hfd => h.ne_of_owner hc hd hm (Option.filter_eq_some_iff.mp hfd).1
  | _ => exact absurd trivial hminor

/-- So do several steps. -/
theorem Owned.exec {es : List (ProcessEvent L C)} (h : Owned st)
    (hexec : exec processStep st es = some st') : Owned st' :=
  exec_invariant (fun _ _ _ h hstep => h.step hstep) h hexec

omit [DecidableEq L] [DecidableEq C] in
theorem owned_new (opened : Finset ℕ) : Owned (.new opened : Process L C) where
  born _ _ h := nomatch h
  held _ _ _ _ h := nomatch h
  server _ _ _ h := nomatch h

end Owned

end TalonRPC.Net
