import Mathlib.Data.List.Range
import TalonRPC.Machine.Run

/-!
# The tasks of an event loop

An event loop takes all pending tasks at once and runs them one after the other. A task may start
the loop again: `stop` and the constructor of a client clear the flag that says that the loop is
looping, and `connect` then calls `loop`. The inner loop takes the tasks queued meanwhile and runs
them, while the outer one still has older tasks to run.

## Main definitions

* `TaskLoop`: the flags of a loop, its pending tasks and the activations of `Eventloop::loop`
* `TaskLoopEvent`, `taskLoopStep`: what other threads, the tasks and the activations do
* `TasksInOrder`: the executed tasks are those queued first, in order, and none is lost
* `Unovertaken`: no task is run while an outer activation has tasks left

## Main results

* `taskLoopStep_cases`: a step queues a task, executes one, or moves tasks only
* `tasks_conserved`: no task is lost or executed twice, whatever the tasks do
* `tasksInOrder_iff`: the tasks are executed in order exactly if none is overtaken
-/

namespace TalonRPC

open Machine

/-- An activation of `Eventloop::loop`: before the test of `m_stop_flag`, before the swap, between
two tasks of `tmp_tasks`, in a task, or adding the tasks of the results of `epoll_wait`. -/
inductive Activation
  | test
  | swap
  | batch (tmpTasks : List ℕ)
  | task (tmpTasks : List ℕ)
  | results
  deriving DecidableEq, Repr

/-- The tasks that the activation has still to run. -/
def Activation.tasks : Activation → List ℕ
  | .batch tmpTasks | .task tmpTasks => tmpTasks
  | _ => []

/-- `Eventloop`, with the activations of `loop`, the innermost first. A task is its number in the
order in which the tasks are queued; `queued` and `executed` count and record them. -/
structure TaskLoop where
  stopFlag : Bool := false
  isLooping : Bool := false
  pendingTasks : List ℕ := []
  stack : List Activation := []
  queued : ℕ := 0
  executed : List ℕ := []
  deriving DecidableEq, Repr

namespace TaskLoop

/-- The thread of the loop runs a task, or is not in the loop. -/
def Yields (l : TaskLoop) : Prop :=
  match l.stack with
  | [] | .task _ :: _ => True
  | _ => False

instance (l : TaskLoop) : Decidable l.Yields := by
  unfold Yields
  split <;> infer_instance

/-- `Eventloop::addTask`. -/
def addTask (l : TaskLoop) : TaskLoop :=
  { l with pendingTasks := l.pendingTasks ++ [l.queued], queued := l.queued + 1 }

/-- `Eventloop::stop`. The call of `wakeup` only makes `epoll_wait` return. -/
def stop (l : TaskLoop) : TaskLoop := { l with stopFlag := true, isLooping := false }

/-- The constructor of `TcpClient`, as far as it concerns the loop of its thread. -/
def tcpClient (l : TaskLoop) : TaskLoop :=
  if l.stopFlag then { l with stopFlag := false, isLooping := false } else l

/-- The call of `Eventloop::loop`. -/
def loop (l : TaskLoop) : TaskLoop := { l with isLooping := true, stack := .test :: l.stack }

/-- `TcpClient::connect` when the connection is in progress. -/
def connect (l : TaskLoop) : TaskLoop := if l.isLooping then l else l.loop

end TaskLoop

/-- What happens to a loop: a task is queued, by any thread or from a result of `epoll_wait`, or the
loop is stopped; the thread of the loop, in a task or outside of the loop, constructs a `TcpClient`
or connects one, or calls `loop`; or the innermost activation goes on. -/
inductive TaskLoopEvent
  | addTask
  | stop
  | tcpClient
  | connect
  | loop
  | test
  | swap
  | run
  | finish
  | epollWait
  | again
  deriving DecidableEq, Repr

/-- The state after an event, if it can happen. A null task is taken like one that does nothing. -/
def taskLoopStep (l : TaskLoop) : TaskLoopEvent → Option TaskLoop
  | .addTask => some l.addTask
  | .stop => some l.stop
  | .tcpClient => if l.Yields then some l.tcpClient else none
  | .connect => if l.Yields then some l.connect else none
  | .loop => if l.stack = [] then some l.loop else none
  | .test =>
    match l.stack with
    | .test :: outer => some { l with stack := if l.stopFlag then outer else .swap :: outer }
    | _ => none
  | .swap =>
    match l.stack with
    | .swap :: outer =>
      some { l with stack := .batch l.pendingTasks :: outer, pendingTasks := [] }
    | _ => none
  | .run =>
    match l.stack with
    | .batch (cb :: tmpTasks) :: outer =>
      some { l with stack := .task tmpTasks :: outer, executed := l.executed ++ [cb] }
    | _ => none
  | .finish =>
    match l.stack with
    | .task tmpTasks :: outer => some { l with stack := .batch tmpTasks :: outer }
    | _ => none
  | .epollWait =>
    match l.stack with
    | .batch [] :: outer => some { l with stack := .results :: outer }
    | _ => none
  | .again =>
    match l.stack with
    | .results :: outer => some { l with stack := .test :: outer }
    | _ => none

/-- The tasks of running batches, those of the outermost activation first. -/
def inBatches (stack : List Activation) : List ℕ := stack.reverse.flatMap Activation.tasks

/-- **The tasks run in order, once each**: the executed ones are those queued first, and with those
in batches and the pending ones they are all that were queued. -/
structure TasksInOrder (l : TaskLoop) : Prop where
  once : l.executed.Nodup
  order : l.executed = List.range l.executed.length
  all : (l.executed ++ inBatches l.stack ++ l.pendingTasks).Perm (List.range l.queued)

/-- The step leads to a state in which the tasks have run in order. -/
def KeepsTaskOrder (l : TaskLoop) (e : TaskLoopEvent) : Prop :=
  ∀ l', taskLoopStep l e = some l' → TasksInOrder l'

/-- No task is run while an outer activation has tasks left. -/
def Unovertaken (l : TaskLoop) : TaskLoopEvent → Prop
  | .run => ∀ a ∈ l.stack.tail, a.tasks = []
  | _ => True

instance (l : TaskLoop) : DecidablePred (Unovertaken l)
  | .run => inferInstanceAs (Decidable (∀ a ∈ l.stack.tail, a.tasks = []))
  | .addTask | .stop | .tcpClient | .connect | .loop | .test | .swap | .finish | .epollWait
  | .again => .isTrue trivial

variable {l l' : TaskLoop} {e : TaskLoopEvent} {es : List TaskLoopEvent} {a : Activation}
  {outer : List Activation}

/-! ## What a step does to the tasks -/

/-- The tasks that are still to be executed, in the order in which the activations take them. -/
def TaskLoop.waiting (l : TaskLoop) : List ℕ := inBatches l.stack ++ l.pendingTasks

@[simp] theorem inBatches_cons : inBatches (a :: outer) = inBatches outer ++ a.tasks := by
  simp [inBatches]

theorem inBatches_eq_nil_iff : inBatches outer = [] ↔ ∀ a ∈ outer, a.tasks = [] := by
  simp [inBatches]

/-- What a step leaves of the tasks, apart from moving them between the queue and the batches. -/
structure MovesTasks (l l' : TaskLoop) : Prop where
  executed : l'.executed = l.executed
  waiting : l'.waiting = l.waiting
  queued : l'.queued = l.queued

theorem movesTasks_loop (l : TaskLoop) : MovesTasks l l.loop :=
  ⟨rfl, by simp [TaskLoop.waiting, TaskLoop.loop, Activation.tasks], rfl⟩

/-- The innermost activation goes on, and has of the tasks what it and the queue had. -/
theorem movesTasks_goOn {b : Activation} {pendingTasks : List ℕ} (hstack : l.stack = a :: outer)
    (htasks : b.tasks ++ pendingTasks = a.tasks ++ l.pendingTasks) :
    MovesTasks l { l with stack := b :: outer, pendingTasks } :=
  ⟨rfl, by simp [TaskLoop.waiting, hstack, htasks], rfl⟩

/-- **A step queues a task, executes one, or moves tasks only.** -/
theorem taskLoopStep_cases (h : taskLoopStep l e = some l') :
    (e = .addTask ∧ l' = l.addTask) ∨
      (e = .run ∧ ∃ cb tmpTasks outer, l.stack = .batch (cb :: tmpTasks) :: outer ∧
        l' = { l with stack := .task tmpTasks :: outer, executed := l.executed ++ [cb] }) ∨
      (e ≠ .addTask ∧ e ≠ .run ∧ MovesTasks l l') := by
  cases e with
  | addTask => exact .inl ⟨rfl, (Option.some.inj h).symm⟩
  | stop =>
    obtain rfl := Option.some.inj h
    exact .inr (.inr ⟨nofun, nofun, rfl, rfl, rfl⟩)
  | tcpClient =>
    rw [taskLoopStep] at h
    split_ifs at h
    obtain rfl := Option.some.inj h
    refine .inr (.inr ⟨nofun, nofun, ?_⟩)
    unfold TaskLoop.tcpClient
    split_ifs
    · exact ⟨rfl, rfl, rfl⟩
    · exact ⟨rfl, rfl, rfl⟩
  | connect =>
    rw [taskLoopStep] at h
    split_ifs at h
    obtain rfl := Option.some.inj h
    refine .inr (.inr ⟨nofun, nofun, ?_⟩)
    unfold TaskLoop.connect
    split_ifs
    · exact ⟨rfl, rfl, rfl⟩
    · exact movesTasks_loop l
  | loop =>
    rw [taskLoopStep] at h
    split_ifs at h
    obtain rfl := Option.some.inj h
    exact .inr (.inr ⟨nofun, nofun, movesTasks_loop l⟩)
  | test =>
    simp only [taskLoopStep] at h
    split at h
    · rename_i outer hstack
      obtain rfl := Option.some.inj h
      refine .inr (.inr ⟨nofun, nofun, ?_⟩)
      split_ifs
      · exact ⟨rfl, by simp [TaskLoop.waiting, hstack, Activation.tasks], rfl⟩
      · exact movesTasks_goOn hstack rfl
    · cases h
  | swap =>
    simp only [taskLoopStep] at h
    split at h
    · rename_i outer hstack
      obtain rfl := Option.some.inj h
      exact .inr (.inr ⟨nofun, nofun, movesTasks_goOn hstack (List.append_nil _)⟩)
    · cases h
  | run =>
    simp only [taskLoopStep] at h
    split at h
    · rename_i cb tmpTasks outer hstack
      exact .inr (.inl ⟨rfl, cb, tmpTasks, outer, hstack, (Option.some.inj h).symm⟩)
    · cases h
  | finish | epollWait | again =>
    simp only [taskLoopStep] at h
    split at h
    · rename_i hstack
      obtain rfl := Option.some.inj h
      exact .inr (.inr ⟨nofun, nofun, movesTasks_goOn hstack rfl⟩)
    · cases h

theorem waiting_addTask : l.addTask.waiting = l.waiting ++ [l.queued] :=
  (List.append_assoc ..).symm

/-! ## No task is lost -/

/-- The tasks executed and those waiting are the ones queued. -/
def Conserved (l : TaskLoop) : Prop := (l.executed ++ l.waiting).Perm (List.range l.queued)

theorem Conserved.step (h : Conserved l) (hstep : taskLoopStep l e = some l') : Conserved l' := by
  unfold Conserved at h ⊢
  obtain ⟨-, rfl⟩ | ⟨-, cb, tmpTasks, outer, hstack, rfl⟩ | ⟨-, -, hmoves⟩ :=
    taskLoopStep_cases hstep
  · have hqueued : l.addTask.queued = l.queued + 1 := rfl
    rw [waiting_addTask, hqueued, List.range_succ, ← List.append_assoc]
    exact h.append_right _
  · -- The task moves from the middle of the waiting ones to the executed ones.
    refine .trans ?_ h
    simp only [TaskLoop.waiting, hstack, inBatches_cons, Activation.tasks, List.append_assoc,
      List.cons_append, List.nil_append]
    exact (List.perm_middle.symm).append_left _
  · rw [hmoves.executed, hmoves.waiting, hmoves.queued]
    exact h

/-- **No task is lost or executed twice**, whatever the tasks do. -/
theorem tasks_conserved (h : exec taskLoopStep {} es = some l) :
    l.executed.Nodup ∧
      (l.executed ++ inBatches l.stack ++ l.pendingTasks).Perm (List.range l.queued) := by
  have hnew : Conserved {} := List.Perm.refl []
  have hconserved : Conserved l := exec_invariant (fun _ _ _ hl => hl.step) hnew h
  refine ⟨?_, by rw [List.append_assoc]; exact hconserved⟩
  exact (List.nodup_append.mp (hconserved.nodup_iff.mpr List.nodup_range)).1

/-! ## The order of the tasks -/

/-- The tasks executed and those waiting are the ones queued, in their order. -/
def Ordered (l : TaskLoop) : Prop := l.executed ++ l.waiting = List.range l.queued

theorem Ordered.executed (h : Ordered l) : l.executed = List.range l.executed.length := by
  have hlen := congrArg List.length h
  rw [List.length_append, List.length_range] at hlen
  calc l.executed = (l.executed ++ l.waiting).take l.executed.length := List.take_left.symm
    _ = (List.range l.queued).take l.executed.length := by rw [h]
    _ = List.range l.executed.length := by rw [List.take_range, min_eq_left (by omega)]

/-- The first task that waits is the next one, and those behind it are later ones. -/
theorem Ordered.next {t : ℕ} {ts : List ℕ} (h : Ordered l) (hwaiting : l.waiting = t :: ts) :
    t = l.executed.length ∧ ∀ s ∈ ts, l.executed.length < s := by
  have hlen := congrArg List.length h
  rw [hwaiting, List.length_append, List.length_cons, List.length_range] at hlen
  have hrange : t :: ts = List.range' l.executed.length (ts.length + 1) := by
    calc t :: ts = (l.executed ++ l.waiting).drop l.executed.length := by
          rw [List.drop_left, hwaiting]
      _ = (List.range l.queued).drop l.executed.length := by rw [h]
      _ = List.range' l.executed.length (ts.length + 1) := by
          rw [List.range_eq_range', List.drop_range', ← hlen]
          simp
  rw [List.range'_succ] at hrange
  obtain ⟨rfl, hts⟩ := List.cons.inj hrange
  refine ⟨rfl, fun s hs => ?_⟩
  rw [hts, List.mem_range'_1] at hs
  omega

theorem Ordered.tasksInOrder (h : Ordered l) : TasksInOrder l where
  once := h.executed ▸ List.nodup_range
  order := h.executed
  all := by
    rw [List.append_assoc]
    exact .of_eq h

/-- The first task of the innermost batch is the next one exactly if the outer batches are done. -/
theorem Ordered.next_iff {cb : ℕ} {tmpTasks : List ℕ} (h : Ordered l)
    (hstack : l.stack = .batch (cb :: tmpTasks) :: outer) :
    cb = l.executed.length ↔ ∀ a ∈ outer, a.tasks = [] := by
  have hwaiting : l.waiting = inBatches outer ++ cb :: (tmpTasks ++ l.pendingTasks) := by
    simp [TaskLoop.waiting, hstack, Activation.tasks]
  rw [← inBatches_eq_nil_iff]
  constructor
  · intro hcb
    cases houter : inBatches outer with
    | nil => rfl
    | cons t ts =>
      rw [houter, List.cons_append] at hwaiting
      have hlater := (h.next hwaiting).2 cb (by simp)
      omega
  · intro houter
    rw [houter, List.nil_append] at hwaiting
    exact (h.next hwaiting).1

theorem Ordered.step (h : Ordered l) (hstep : taskLoopStep l e = some l')
    (hunovertaken : Unovertaken l e) : Ordered l' := by
  unfold Ordered at h ⊢
  obtain ⟨-, rfl⟩ | ⟨rfl, cb, tmpTasks, outer, hstack, rfl⟩ | ⟨-, -, hmoves⟩ :=
    taskLoopStep_cases hstep
  · have hqueued : l.addTask.queued = l.queued + 1 := rfl
    rw [waiting_addTask, hqueued, List.range_succ, ← List.append_assoc, ← h]
    rfl
  · have houter : inBatches outer = [] := by
      rw [Unovertaken, hstack] at hunovertaken
      exact inBatches_eq_nil_iff.mpr hunovertaken
    rw [← h]
    simp [TaskLoop.waiting, hstack, houter, Activation.tasks]
  · rw [hmoves.executed, hmoves.waiting, hmoves.queued]
    exact h

/-- **A step keeps the order** exactly if it overtakes no task. -/
theorem Ordered.keeps_iff (h : Ordered l) (hstep : taskLoopStep l e = some l') :
    KeepsTaskOrder l e ↔ Unovertaken l e := by
  constructor
  · intro hkeeps
    cases e with
    | run =>
      obtain ⟨⟨⟩, -⟩ | ⟨-, cb, tmpTasks, outer, hstack, rfl⟩ | ⟨-, hrun, -⟩ :=
        taskLoopStep_cases hstep
      · rw [Unovertaken, hstack]
        apply (h.next_iff hstack).mp
        -- The executed tasks are the first ones, so the one behind them is the next.
        have horder := (hkeeps _ hstep).order
        dsimp only at horder
        rw [List.length_append, List.length_singleton, List.range_succ, ← h.executed] at horder
        simpa using horder
      · exact absurd rfl hrun
    | addTask | stop | tcpClient | connect | loop | test | swap | finish | epollWait | again =>
      trivial
  · intro hunovertaken l'' hstep''
    exact (h.step hstep'' hunovertaken).tasksInOrder

/-- **The tasks run in order, once each**, in every run, exactly if no task is run while an outer
activation has tasks left. -/
theorem tasksInOrder_iff (es : List TaskLoopEvent) (hrun : (exec taskLoopStep {} es).isSome) :
    Along taskLoopStep KeepsTaskOrder {} es ↔ Along taskLoopStep Unovertaken {} es := by
  refine along_iff (I := Ordered) hrun rfl (fun _ _ _ h hstep => h.keeps_iff hstep) ?_
  intro l e l' h hstep hkeeps
  exact h.step hstep ((h.keeps_iff hstep).mp hkeeps)

/-- A callback of the last task of a batch stops the loop, and connects another client. -/
theorem tasksInOrder_lastOfBatch :
    Along taskLoopStep KeepsTaskOrder {}
      [.addTask, .loop, .test, .swap, .run, .stop, .addTask, .tcpClient, .connect, .test, .swap,
        .run, .finish, .epollWait, .stop, .again, .test, .finish, .epollWait, .again, .test] :=
  (tasksInOrder_iff _ (by decide)).mpr (by decide)

/-- A callback of the first of two tasks does: a task queued later is executed before the second
one. -/
theorem not_tasksInOrder_nested : ¬ ∀ es : List TaskLoopEvent,
    (exec taskLoopStep {} es).isSome → Along taskLoopStep KeepsTaskOrder {} es := by
  intro h
  let front : List TaskLoopEvent := [.addTask, .addTask, .loop, .test, .swap, .run, .stop, .addTask,
    .tcpClient, .connect, .test, .swap, .run, .finish, .epollWait, .stop, .again, .test, .finish]
  have hrun : (exec taskLoopStep {} (front ++ [.run])).map (·.executed) = some [0, 2, 1] := by
    decide
  have hall : Along taskLoopStep KeepsTaskOrder {} (front ++ [.run]) := h _ (by decide)
  clear_value front
  obtain ⟨l', hexec, hexecuted⟩ := Option.map_eq_some_iff.mp hrun
  obtain ⟨l, hl, hstep⟩ := exec_snoc.mp hexec
  have horder := (hall.last hl l' hstep).order
  rw [hexecuted] at horder
  cases horder

end TalonRPC
