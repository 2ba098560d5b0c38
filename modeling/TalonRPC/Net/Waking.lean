import Mathlib.Algebra.Group.Nat.Defs
import TalonRPC.Net.TaskOrder

/-!
# Waking an event loop

A thread that queues a task for the loop of another one pushes it, and then writes to the wake-up
descriptor of the loop, so that `epoll_wait` returns. The loop does not read the descriptor where it
returns: it queues the callback that does, behind the tasks that are pending, and takes them all at
once. A task that is pushed while this batch runs, and whose write comes before the callback, has
its wake-up read away by the callback. It stays in the queue, and the loop may sleep with it.

Nothing worse can happen: `epoll_wait` returns at its timeout, and the task is taken then. How often
it returns before depends only on how many activations of `Eventloop::loop` are under way.

## Main definitions

* `WakingLoop`: a loop with its wake-up descriptor and the writes to it that are still to come
* `WakingEvent`, `wakingStep`: a step, which is one of `taskLoopStep` as far as tasks go
* `Awake`: the descriptor can be read while a task is pending whose wake-up has been written
* `ReadsInTime`: the callback reads while no such task is pending

## Main results

* `Numbered.step`, `Awake.step_iff`: what one step does to the numbers of tasks and to the wake-ups
* `awake_iff`: no wake-up is lost, in a run, exactly if the callback reads in time
* `taken_after`: how often the loop returns from `epoll_wait` before it takes a task
-/

namespace TalonRPC

open Machine

/-- An `Eventloop` with its wake-up descriptor. The tasks are numbers (`TaskLoop`): `callbacks` are
those that are the callback of the descriptor; `waking` those that have been pushed with
`is_wake_up` and not been followed by their write yet; `awaited` those whose write has been made.
`stops` counts the calls of `stop` that have still to write. -/
structure WakingLoop where
  tasks : TaskLoop := {}
  counter : ℕ := 0
  callbacks : List ℕ := []
  waking : List ℕ := []
  awaited : List ℕ := []
  stops : ℕ := 0
  /-- The descriptor is among the results of `epoll_wait` that have still to be handled. -/
  woken : Bool := false
  /-- The thread of the loop is in the callback of the descriptor. -/
  reading : Bool := false
  deriving DecidableEq, Repr

/-- What happens: a task is pushed, a thread calls `wakeup` for a task it has pushed, or in `stop`;
the callback reads the descriptor, after which `errno` may be `EAGAIN`; `epoll_wait` returns with
results or at its timeout; the result for the descriptor is handled; or the thread of the loop goes
on otherwise. -/
inductive WakingEvent
  | addTask (isWakeUp : Bool)
  | wakeup (task : ℕ)
  | stop
  | stopWakeup
  | read (again : Bool)
  | epollWait (woken : Bool)
  | timeout
  | wakeupResult
  | thread (e : TaskLoopEvent)
  deriving DecidableEq, Repr

/-- `WakeUpFdEvent::wakeup`. The number that is written begins with the byte of an `a`; a write that
would take the counter of the descriptor to its maximum fails, which is only logged. -/
def wakeUpFdEvent (counter : ℕ) : ℕ :=
  if counter + 97 < 2 ^ 64 - 1 then counter + 97 else counter

namespace WakingEvent

/-- The event, for the tasks of the loop. -/
def taskEvents : WakingEvent → List TaskLoopEvent
  | .addTask _ | .wakeupResult => [.addTask]
  | .stop => [.stop]
  | .epollWait _ | .timeout => [.epollWait]
  | .thread e => [e]
  | .wakeup _ | .stopWakeup | .read _ => []

/-- `epoll_wait` returns. -/
def isWait : WakingEvent → Bool
  | .epollWait _ | .timeout => true
  | _ => false

end WakingEvent

namespace WakingLoop

/-- The event can happen. A read of an empty descriptor sets `errno` to `EAGAIN`; `epoll_wait`
reports the descriptor only if it can be read, though not always when other descriptors are ready
too, and sleeps through its timeout only if it cannot. -/
def Enabled (w : WakingLoop) : WakingEvent → Prop
  | .addTask _ | .stop => True
  | .wakeup t => t ∈ w.waking
  | .stopWakeup => 0 < w.stops
  | .read again => w.reading = true ∧ (w.counter = 0 → again = true)
  | .epollWait woken => woken = true → 0 < w.counter
  | .timeout => w.counter = 0
  | .wakeupResult => w.woken = true ∧ w.tasks.stack.head? = some .results
  | .thread e =>
    w.reading = false ∧ (e = .again → w.woken = false) ∧ e ≠ .addTask ∧ e ≠ .stop ∧
      e ≠ .epollWait

instance (w : WakingLoop) : DecidablePred w.Enabled
  | .addTask _ | .stop => .isTrue trivial
  | .wakeup _ => inferInstanceAs (Decidable (_ ∈ _))
  | .stopWakeup => inferInstanceAs (Decidable (_ < _))
  | .read _ => inferInstanceAs (Decidable (_ ∧ _))
  | .epollWait _ => inferInstanceAs (Decidable (_ → _))
  | .timeout => inferInstanceAs (Decidable (_ = _))
  | .wakeupResult => inferInstanceAs (Decidable (_ ∧ _))
  | .thread _ => inferInstanceAs (Decidable (_ ∧ _))

/-- The state after an event, when the tasks are `tasks` after it. -/
def after (w : WakingLoop) (tasks : TaskLoop) : WakingEvent → WakingLoop
  | .addTask isWakeUp =>
    { w with tasks, waking := if isWakeUp then w.tasks.queued :: w.waking else w.waking }
  | .wakeup t =>
    { w with
      tasks
      waking := w.waking.erase t
      awaited := t :: w.awaited
      counter := wakeUpFdEvent w.counter }
  | .stop => { w with tasks, stops := w.stops + 1 }
  | .stopWakeup => { w with tasks, stops := w.stops - 1, counter := wakeUpFdEvent w.counter }
  -- The callback reads until a read fails, or until `errno` is `EAGAIN`, which it may have been
  -- from an earlier call.
  | .read again => { w with tasks, counter := 0, reading := !again }
  | .epollWait woken => { w with tasks, woken }
  | .timeout => { w with tasks, woken := false }
  | .wakeupResult =>
    { w with tasks, callbacks := w.tasks.queued :: w.callbacks, woken := false }
  | .thread .run => { w with tasks, reading := tasks.executed.getLast?.any (· ∈ w.callbacks) }
  | .thread _ => { w with tasks }

end WakingLoop

/-- A step. -/
def wakingStep (w : WakingLoop) (e : WakingEvent) : Option WakingLoop :=
  if w.Enabled e then (exec taskLoopStep w.tasks e.taskEvents).map fun tasks => w.after tasks e
  else none

/-- **No wake-up is lost**: while a task is pending whose wake-up has been written, the descriptor
can be read. -/
def Awake (w : WakingLoop) : Prop :=
  ∀ t ∈ w.awaited, t ∈ w.tasks.pendingTasks → 0 < w.counter

/-- The step leads to a state in which no wake-up is lost. -/
def KeepsAwake (w : WakingLoop) (e : WakingEvent) : Prop :=
  ∀ w', wakingStep w e = some w' → Awake w'

/-- The callback reads while no task is pending whose wake-up has been written. -/
def ReadsInTime (w : WakingLoop) : WakingEvent → Prop
  | .read _ => ∀ t ∈ w.awaited, t ∉ w.tasks.pendingTasks
  | _ => True

instance (w : WakingLoop) : DecidablePred (ReadsInTime w)
  | .read _ => inferInstanceAs (Decidable (∀ t ∈ w.awaited, t ∉ w.tasks.pendingTasks))
  | .addTask _ | .wakeup _ | .stop | .stopWakeup | .epollWait _ | .timeout | .wakeupResult
  | .thread _ => .isTrue trivial

/-- The activations that have taken a batch and not yet returned from `epoll_wait`. -/
def Activation.underWay : Activation → Bool
  | .batch _ | .task _ => true
  | _ => false

variable {l l' : TaskLoop} {w w' : WakingLoop} {e : WakingEvent} {es fs : List WakingEvent} {t : ℕ}

/-! ## What a step does to the queue -/

@[simp] theorem TaskLoop.pendingTasks_tcpClient : l.tcpClient.pendingTasks = l.pendingTasks := by
  unfold TaskLoop.tcpClient
  split_ifs <;> rfl

@[simp] theorem TaskLoop.stack_tcpClient : l.tcpClient.stack = l.stack := by
  unfold TaskLoop.tcpClient
  split_ifs <;> rfl

@[simp] theorem TaskLoop.pendingTasks_connect : l.connect.pendingTasks = l.pendingTasks := by
  unfold TaskLoop.connect
  split_ifs <;> rfl

/-- **A task gets into the queue by being pushed, and leaves it only with all others.** -/
theorem pendingTasks_step {e : TaskLoopEvent} (h : taskLoopStep l e = some l') :
    e = .swap ∧ l'.pendingTasks = [] ∨
      e ≠ .swap ∧ l'.pendingTasks = l.pendingTasks ++ if e = .addTask then [l.queued] else [] := by
  cases e with
  | addTask =>
    obtain rfl := Option.some.inj h
    exact .inr ⟨by simp, rfl⟩
  | stop =>
    obtain rfl := Option.some.inj h
    exact .inr ⟨by simp, (List.append_nil _).symm⟩
  | tcpClient | connect | loop =>
    simp only [taskLoopStep] at h
    split_ifs at h
    obtain rfl := Option.some.inj h
    simp [TaskLoop.loop]
  | swap =>
    simp only [taskLoopStep] at h
    split at h
    · obtain rfl := Option.some.inj h
      exact .inl ⟨rfl, rfl⟩
    · cases h
  | test | run | finish | epollWait | again =>
    simp only [taskLoopStep] at h
    split at h
    · obtain rfl := Option.some.inj h
      exact .inr ⟨by simp, (List.append_nil _).symm⟩
    · cases h

/-- How many activations of `loop` have taken a batch and not yet returned from `epoll_wait`. -/
def TaskLoop.underWay (l : TaskLoop) : ℕ := l.stack.countP Activation.underWay

@[simp] theorem TaskLoop.underWay_loop : l.loop.underWay = l.underWay := rfl

@[simp] theorem TaskLoop.underWay_connect : l.connect.underWay = l.underWay := by
  unfold TaskLoop.connect
  split_ifs <;> rfl

/-- **Only `epoll_wait` takes an activation out of those under way**, as long as none takes a
batch. -/
theorem underWay_step {e : TaskLoopEvent} (h : taskLoopStep l e = some l') (hswap : e ≠ .swap) :
    l'.underWay + [e].count .epollWait = l.underWay := by
  cases e with
  | addTask | stop =>
    obtain rfl := Option.some.inj h
    rfl
  | connect | loop =>
    simp only [taskLoopStep] at h
    split_ifs at h
    obtain rfl := Option.some.inj h
    simp
  | tcpClient =>
    simp only [taskLoopStep] at h
    split_ifs at h
    obtain rfl := Option.some.inj h
    simp [TaskLoop.underWay]
  | swap => exact absurd rfl hswap
  | test =>
    simp only [taskLoopStep] at h
    split at h
    · rename_i outer hstack
      obtain rfl := Option.some.inj h
      unfold TaskLoop.underWay
      rw [hstack]
      -- The activation ends or goes on to its batch, and is not under way either way.
      cases l.stopFlag <;> rfl
    · cases h
  | run | finish | epollWait | again =>
    simp only [taskLoopStep] at h
    split at h
    · rename_i hstack
      obtain rfl := Option.some.inj h
      unfold TaskLoop.underWay
      rw [hstack]
      simp [List.countP_cons, Activation.underWay]
    · cases h

/-- **A task that is still pending after a run has been so all along**, and each return from
`epoll_wait` has taken an activation out of those under way. -/
theorem stillPending {es : List TaskLoopEvent} (h : exec taskLoopStep l es = some l') :
    l.queued ≤ l'.queued ∧ (t ∈ l'.pendingTasks → t < l.queued →
      t ∈ l.pendingTasks ∧ l'.underWay + es.count .epollWait = l.underWay) := by
  induction es generalizing l with
  | nil =>
    obtain rfl := Option.some.inj h
    exact ⟨le_rfl, fun ht _ => ⟨ht, rfl⟩⟩
  | cons e es ih =>
    obtain ⟨v, hv, hrest⟩ := Option.bind_eq_some_iff.mp h
    obtain ⟨hle, hstill⟩ := ih hrest
    have hqueued : l.queued ≤ v.queued := by
      obtain ⟨-, rfl⟩ | ⟨-, cb, tmpTasks, outer, -, rfl⟩ | ⟨-, -, hmoves⟩ := taskLoopStep_cases hv
      · exact Nat.le_succ _
      · exact le_rfl
      · exact hmoves.queued.ge
    refine ⟨hqueued.trans hle, fun ht hlt => ?_⟩
    obtain ⟨hpending, hcount⟩ := hstill ht (hlt.trans_le hqueued)
    rcases pendingTasks_step hv with ⟨-, hempty⟩ | ⟨hswap, hpush⟩
    · rw [hempty] at hpending
      cases hpending
    · have hstep := underWay_step hv hswap
      constructor
      · -- Its number is not that of a new task.
        rw [hpush] at hpending
        rcases List.mem_append.mp hpending with hold | hnew
        · exact hold
        · split_ifs at hnew
          · exact absurd (List.mem_singleton.mp hnew) hlt.ne
          · cases hnew
      · rw [List.count_cons, ← hstep, ← hcount, List.count_singleton]
        omega

/-- A step can happen if it is enabled and its events for the tasks can. -/
theorem wakingStep_eq_some : wakingStep w e = some w' ↔
    w.Enabled e ∧ ∃ tasks, exec taskLoopStep w.tasks e.taskEvents = some tasks ∧
      w.after tasks e = w' := by
  unfold wakingStep
  split_ifs with henabled
  · rw [Option.map_eq_some_iff]
    exact (and_iff_right henabled).symm
  · exact iff_of_false nofun fun h => henabled h.1

@[simp] theorem tasks_after {tasks : TaskLoop} : (w.after tasks e).tasks = tasks := by
  cases e with
  | thread e => cases e <;> rfl
  | _ => rfl

/-- **The tasks of a run** are those of a run of the loop without its descriptor. -/
theorem tasks_of_exec (h : exec wakingStep w es = some w') :
    exec taskLoopStep w.tasks (es.flatMap WakingEvent.taskEvents) = some w'.tasks := by
  induction es generalizing w with
  | nil =>
    obtain rfl := Option.some.inj h
    rfl
  | cons e es ih =>
    obtain ⟨v, hv, hrest⟩ := Option.bind_eq_some_iff.mp h
    obtain ⟨-, tasks, htasks, rfl⟩ := wakingStep_eq_some.mp hv
    have hes := ih hrest
    rw [tasks_after] at hes
    rw [List.flatMap_cons, exec_append, htasks]
    exact hes

/-- A pending task has been pushed. -/
theorem lt_queued_of_pending (h : exec wakingStep {} es = some w)
    (ht : t ∈ w.tasks.pendingTasks) : t < w.tasks.queued := by
  obtain ⟨-, hperm⟩ := tasks_conserved (tasks_of_exec h)
  exact List.mem_range.mp (hperm.subset (List.mem_append_right _ ht))

/-- A task that is pending after a step has been so before, unless it is a new one. -/
theorem pending_step (h : wakingStep w e = some w') :
    w.tasks.queued ≤ w'.tasks.queued ∧
      (t ∈ w'.tasks.pendingTasks → t < w.tasks.queued → t ∈ w.tasks.pendingTasks) := by
  obtain ⟨-, tasks, htasks, rfl⟩ := wakingStep_eq_some.mp h
  rw [tasks_after]
  obtain ⟨hqueued, hpending⟩ := stillPending (t := t) htasks
  exact ⟨hqueued, fun ht hlt => (hpending ht hlt).1⟩

/-! ## What a step does to the wake-ups -/

/-- The tasks with a wake-up to come or written have been pushed. -/
structure Numbered (w : WakingLoop) : Prop where
  waking : ∀ t ∈ w.waking, t < w.tasks.queued
  awaited : ∀ t ∈ w.awaited, t < w.tasks.queued

theorem Numbered.step (h : Numbered w) (hstep : wakingStep w e = some w') : Numbered w' := by
  have hqueued := (pending_step (t := 0) hstep).1
  obtain ⟨henabled, tasks, htasks, rfl⟩ := wakingStep_eq_some.mp hstep
  rw [tasks_after] at hqueued
  have hwaking : ∀ t ∈ w.waking, t < tasks.queued := fun t ht => (h.waking t ht).trans_le hqueued
  have hawaited : ∀ t ∈ w.awaited, t < tasks.queued := fun t ht => (h.awaited t ht).trans_le hqueued
  cases e with
  | addTask isWakeUp =>
    refine ⟨fun t ht => ?_, hawaited⟩
    obtain rfl : tasks = w.tasks.addTask := (Option.some.inj htasks).symm
    cases isWakeUp with
    | false => exact hwaking t ht
    | true =>
      rcases List.mem_cons.mp ht with rfl | hold
      · exact Nat.lt_succ_self _
      · exact hwaking t hold
  | wakeup t =>
    refine ⟨fun s hs => hwaking s (List.mem_of_mem_erase hs), fun s hs => ?_⟩
    rcases List.mem_cons.mp hs with rfl | hold
    · exact hwaking s henabled
    · exact hawaited s hold
  | thread e => cases e <;> exact ⟨hwaking, hawaited⟩
  | stop | stopWakeup | read again | epollWait woken | timeout | wakeupResult =>
    exact ⟨hwaking, hawaited⟩

/-- After a call of `wakeup` the descriptor can be read, whether its write has succeeded or not. -/
theorem wakeUpFdEvent_pos (counter : ℕ) : 0 < wakeUpFdEvent counter := by
  unfold wakeUpFdEvent
  split_ifs <;> omega

/-- A step that neither reads the descriptor nor makes another task awaited loses no wake-up. -/
theorem Awake.of_pending (h : Awake w) (hnumbered : Numbered w) (hstep : wakingStep w e = some w')
    (hawaited : w'.awaited = w.awaited) (hcounter : w'.counter = w.counter) : Awake w' := by
  intro t ht hpending
  rw [hawaited] at ht
  rw [hcounter]
  exact h t ht ((pending_step hstep).2 hpending (hnumbered.awaited t ht))

/-- **A step loses no wake-up** exactly if it is no read with an awaited task in the queue. -/
theorem Awake.step_iff (h : Awake w) (hnumbered : Numbered w) (hstep : wakingStep w e = some w') :
    Awake w' ↔ ReadsInTime w e := by
  have hquiet := h.of_pending hnumbered hstep
  obtain ⟨-, tasks, htasks, rfl⟩ := wakingStep_eq_some.mp hstep
  cases e with
  | read again =>
    obtain rfl := Option.some.inj htasks
    refine ⟨fun hawake t ht hpending => ?_, fun hread t ht hpending => ?_⟩
    · exact absurd (hawake t ht hpending) (lt_irrefl 0)
    · exact absurd hpending (hread t ht)
  | wakeup t | stopWakeup =>
    exact iff_of_true (fun _ _ _ => wakeUpFdEvent_pos _) trivial
  | thread e =>
    apply iff_of_true _ trivial
    cases e <;> exact hquiet rfl rfl
  | addTask isWakeUp | stop | epollWait woken | timeout | wakeupResult =>
    exact iff_of_true (hquiet rfl rfl) trivial

/-! ## All steps -/

theorem numbered_new : Numbered {} := by
  constructor <;> simp

theorem awake_new : Awake {} := by
  simp [Awake]

theorem numbered_of_exec (h : exec wakingStep {} es = some w) : Numbered w :=
  exec_invariant (fun _ _ _ h hstep => h.step hstep) numbered_new h

theorem awake_of_readsInTime (h : exec wakingStep {} es = some w)
    (hreads : Along wakingStep ReadsInTime {} es) : Awake w := by
  refine hreads.history (I := fun _ w => Awake w) awake_new ?_ h
  intro fs v e v' hv hawake hread hstep
  exact (hawake.step_iff (numbered_of_exec hv) hstep).mpr hread

/-- **No wake-up is lost, in any run of the threads and the loop, exactly if the callback reads in
time.** -/
theorem awake_iff (es : List WakingEvent) (hrun : (exec wakingStep {} es).isSome) :
    Along wakingStep KeepsAwake {} es ↔ Along wakingStep ReadsInTime {} es := by
  have hkeeps : ∀ w e w', Awake w → Numbered w → wakingStep w e = some w' →
      (KeepsAwake w e ↔ Awake w') := by
    intro w e w' _ _ hstep
    refine ⟨fun h => h w' hstep, fun h v hv => ?_⟩
    obtain rfl := Option.some.inj (hstep.symm.trans hv)
    exact h
  refine along_iff (I := fun w => Awake w ∧ Numbered w) hrun ⟨awake_new, numbered_new⟩ ?_ ?_
  · rintro w e w' ⟨hawake, hnumbered⟩ hstep
    rw [hkeeps w e w' hawake hnumbered hstep, hawake.step_iff hnumbered hstep]
  · rintro w e w' ⟨-, hnumbered⟩ hstep hq
    exact ⟨hq w' hstep, hnumbered.step hstep⟩

/-- The loop runs a task of another thread, and goes to sleep with an empty queue. -/
theorem awake_iff_idle :
    Along wakingStep KeepsAwake {}
      [.thread .loop, .thread .test, .thread .swap, .addTask true, .wakeup 0, .epollWait true,
        .wakeupResult, .thread .again, .thread .test, .thread .swap, .thread .run, .thread .finish,
        .thread .run, .read true, .thread .finish, .timeout] :=
  (awake_iff _ (by decide)).mpr (by decide)

/-- **A task that is pushed while the batch runs** has its wake-up read away, and the loop sleeps
through its timeout with it. -/
theorem not_awake_late :
    ∃ w, exec wakingStep {}
        [.thread .loop, .thread .test, .thread .swap, .addTask true, .wakeup 0, .epollWait true,
          .wakeupResult, .thread .again, .thread .test, .thread .swap, .thread .run,
          .thread .finish, .addTask true, .wakeup 2, .thread .run, .read true, .thread .finish,
          .timeout] = some w ∧ ¬ Awake w :=
  ⟨_, rfl, fun h => absurd (h 2 (by decide) (by decide)) (by decide)⟩

/-- Among the events for the tasks are all returns from `epoll_wait`. -/
theorem countP_isWait_le (fs : List WakingEvent) :
    fs.countP WakingEvent.isWait ≤ (fs.flatMap WakingEvent.taskEvents).count .epollWait := by
  induction fs with
  | nil => exact le_rfl
  | cons e fs ih =>
    rw [List.countP_cons, List.flatMap_cons, List.count_append, Nat.add_comm]
    apply Nat.add_le_add _ ih
    cases e with
    | thread e => exact Nat.zero_le _
    | addTask _ | wakeup _ | stop | stopWakeup | read _ | epollWait _ | timeout | wakeupResult =>
      exact le_rfl

/-- An awaited task stays so. -/
theorem awaited_step (h : wakingStep w e = some w') (ht : t ∈ w.awaited) : t ∈ w'.awaited := by
  obtain ⟨-, tasks, -, rfl⟩ := wakingStep_eq_some.mp h
  cases e with
  | wakeup s => exact List.mem_cons_of_mem _ ht
  | thread e => cases e <;> exact ht
  | addTask _ | stop | stopWakeup | read _ | epollWait _ | timeout | wakeupResult => exact ht

/-- The loop does not sleep while an awaited task is pending, if the callback has read in time. -/
theorem timeout_notMem (h : exec wakingStep {} es = some w) (hawaited : t ∈ w.awaited)
    (hrun : exec wakingStep w fs = some w') (hstill : t ∈ w'.tasks.pendingTasks)
    (hreads : Along wakingStep ReadsInTime {} (es ++ fs)) : .timeout ∉ fs := by
  have hall : Along wakingStep ReadsInTime {} (es ++ fs) → t ∈ w'.tasks.pendingTasks →
      t ∈ w'.awaited ∧ .timeout ∉ fs := by
    refine exec_history (I := fun fs w' => Along wakingStep ReadsInTime {} (es ++ fs) →
      t ∈ w'.tasks.pendingTasks → t ∈ w'.awaited ∧ .timeout ∉ fs) ?_ ?_ hrun
    · exact fun _ _ => ⟨hawaited, List.not_mem_nil⟩
    intro fs v e v' hv ih hstep hreads ht
    rw [← List.append_assoc] at hreads
    have hreach : exec wakingStep {} (es ++ fs) = some v := by
      rw [exec_append, h]
      exact hv
    have hqueued := (stillPending (t := t) (tasks_of_exec hv)).1
    have hlt : t < v.tasks.queued := ((numbered_of_exec h).awaited t hawaited).trans_le hqueued
    have hpending := (pending_step hstep).2 ht hlt
    obtain ⟨hv', hfs⟩ := ih hreads.left hpending
    refine ⟨awaited_step hstep hv', fun hmem => ?_⟩
    rcases List.mem_append.mp hmem with hold | hnew
    · exact hfs hold
    · -- At a timeout the descriptor is empty.
      obtain rfl := List.mem_singleton.mp hnew
      have hempty : v.counter = 0 := (wakingStep_eq_some.mp hstep).1
      have hpos := awake_of_readsInTime hreach hreads.left t hv' hpending
      omega
  exact (hall hreads hstill).2

/-- **A pending task is taken after at most as many returns from `epoll_wait` as there were
activations under way**, whatever the threads do; and if the callback reads in time, the loop does
not sleep through a timeout once the wake-up of the task has been written. -/
theorem taken_after (es fs : List WakingEvent) (h : exec wakingStep {} es = some w)
    (ht : t ∈ w.tasks.pendingTasks) (hrun : exec wakingStep w fs = some w')
    (hstill : t ∈ w'.tasks.pendingTasks) :
    fs.countP WakingEvent.isWait + w'.tasks.underWay ≤ w.tasks.underWay ∧
      (t ∈ w.awaited → Along wakingStep ReadsInTime {} (es ++ fs) → .timeout ∉ fs) := by
  constructor
  · obtain ⟨-, hcount⟩ := (stillPending (tasks_of_exec hrun)).2 hstill (lt_queued_of_pending h ht)
    have hwaits := countP_isWait_le fs
    omega
  · exact fun hawaited hreads => timeout_notMem h hawaited hrun hstill hreads

/-- A task that is pushed after the batch has been taken waits for the next one. -/
theorem taken_after_once :
    let es : List WakingEvent :=
      [.thread .loop, .thread .test, .thread .swap, .addTask true, .wakeup 0]
    let fs : List WakingEvent := [.epollWait true, .wakeupResult, .thread .again]
    ∃ w w', exec wakingStep {} es = some w ∧ exec wakingStep w fs = some w' ∧
      fs.countP WakingEvent.isWait + w'.tasks.underWay ≤ w.tasks.underWay ∧ .timeout ∉ fs := by
  intro es fs
  have hreads : Along wakingStep ReadsInTime {} (es ++ fs) := by decide
  obtain ⟨hwaits, htimeout⟩ :=
    taken_after (t := 0) es fs rfl (by decide) rfl (by decide)
  exact ⟨_, _, rfl, rfl, hwaits, htimeout (by decide) hreads⟩

end TalonRPC
