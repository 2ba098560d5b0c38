import Mathlib.Algebra.BigOperators.Group.Finset.Basic
import TalonRPC.Tcp.Accept

/-!
# Starting a server

The constructor of an `IOThread` creates the thread and waits for its first semaphore, which the
thread posts once it has made its event loop. The thread then waits for the second one, which
`start` posts. A server constructs its threads one after the other, starts them, and enters its main
loop, in which it accepts; the threads enter their loops when they come to it, some of them perhaps
after the first clients have been given to them.

The two semaphores are all that orders these steps. They are enough for a client never to be given
to a thread without an event loop, and for no loop to be entered before all threads have been
constructed. And no schedule gets stuck, as long as threads and event loops can be created.

## Main definitions

* `IOThread`, `Startup`: a thread with its semaphores, and a server with all of them
* `StartupEvent`, `startupStep`: a step of the server or of one of the threads
* `ThreadStage`, `IOThread.At`: how far the server is with a thread, and what the thread is like
  then
* `Startup.left`: how many steps there are to come

## Main results

* `Staged.step`: every step keeps all threads at their stages
* `left_step`: every step but an accept leaves one step less
* `served_in_turn`: the clients are given in turn to threads that have an event loop
* `startup_completes`: whatever the schedule, the server gets to its loop and all threads to theirs
-/

namespace TalonRPC

open Machine

/-- Where `IOThread::Main` is: not created, before it makes the event loop, before it posts the
first semaphore, before it waits for the second one, or in the loop. -/
inductive MainPoint
  | notCreated
  | entered
  | loopMade
  | initPosted
  | looping
  deriving DecidableEq, Repr

/-- `IOThread`, with whether `m_event_loop` is set, and its semaphores. -/
structure IOThread where
  main : MainPoint := .notCreated
  eventLoop : Bool := false
  initSemaphore : ℕ := 0
  startSemaphore : ℕ := 0
  deriving DecidableEq, Repr

/-- Where the server is: before the construction of the `i`-th thread, waiting for its first
semaphore, before posting its second one, or in its main loop. -/
inductive ServerPoint
  | constructing (i : ℕ)
  | waiting (i : ℕ)
  | starting (i : ℕ)
  | looping
  deriving DecidableEq, Repr

/-- A `TcpServer` with its `IOThreadGroup`, the threads of the group, and those that clients have
been given to. `exited` is set when a thread has ended the process. -/
structure Startup where
  server : ServerPoint := .constructing 0
  group : IOThreadGroup
  thread : ℕ → IOThread := fun _ => {}
  served : List ℕ := []
  exited : Bool := false

/-- A step. Of the server: it creates a thread, if that succeeds; returns from the wait in the
constructor; calls `start` of the server; posts the second semaphore of the next thread; enters its
loop; or accepts. Of a thread: it makes its event loop, if that succeeds; posts the first semaphore;
or returns from the wait for the second one and enters its loop. -/
inductive StartupEvent
  | create (ok : Bool)
  | constructed
  | start
  | post
  | loop
  | accept
  | makeLoop (i : ℕ) (ok : Bool)
  | postInit (i : ℕ)
  | enter (i : ℕ)
  deriving DecidableEq, Repr

namespace Startup

/-- A group that has still to construct its `size` threads. -/
def new (size : ℕ) : Startup := { group := { size } }

/-- The server gets to another point, and the `i`-th thread takes another value. -/
def set (st : Startup) (server : ServerPoint) (i : ℕ) (t : IOThread) : Startup :=
  { st with server, thread := Function.update st.thread i t }

end Startup

/-- The state after a step, if it can be made. -/
def startupStep (st : Startup) (e : StartupEvent) : Option Startup :=
  if st.exited then none
  else
    match e, st.server with
    | .create ok, .constructing i =>
      if i < st.group.size then
        -- A failure is not noticed: the constructor waits all the same.
        some (st.set (.waiting i) i { main := if ok then .entered else .notCreated })
      else none
    | .constructed, .waiting i =>
      if 0 < (st.thread i).initSemaphore then
        some (st.set (.constructing (i + 1)) i { st.thread i with
          initSemaphore := (st.thread i).initSemaphore - 1 })
      else none
    | .start, .constructing i =>
      if i < st.group.size then none else some { st with server := .starting 0 }
    | .post, .starting i =>
      if i < st.group.size then
        some (st.set (.starting (i + 1)) i { st.thread i with
          startSemaphore := (st.thread i).startSemaphore + 1 })
      else none
    | .loop, .starting i => if i < st.group.size then none else some { st with server := .looping }
    | .accept, .looping =>
      match st.group.getIOThread with
      | .ok (i, group) => some { st with group, served := st.served ++ [i] }
      | .error _ => none
    | .makeLoop i ok, _ =>
      if (st.thread i).main = .entered then
        if ok then
          some (st.set st.server i { st.thread i with main := .loopMade, eventLoop := true })
        -- The constructor of `Eventloop` exits.
        else some { st with exited := true }
      else none
    | .postInit i, _ =>
      if (st.thread i).main = .loopMade then
        some (st.set st.server i { st.thread i with
          main := .initPosted, initSemaphore := (st.thread i).initSemaphore + 1 })
      else none
    | .enter i, _ =>
      if (st.thread i).main = .initPosted ∧ 0 < (st.thread i).startSemaphore then
        some (st.set st.server i { st.thread i with
          main := .looping, startSemaphore := (st.thread i).startSemaphore - 1 })
      else none
    | _, _ => none

/-- The step does not fail to create a thread or an event loop. -/
def StartupEvent.Succeeds : StartupEvent → Prop
  | .create ok | .makeLoop _ ok => ok = true
  | _ => True

instance : DecidablePred StartupEvent.Succeeds
  | .create _ | .makeLoop _ _ => inferInstanceAs (Decidable (_ = _))
  | .constructed | .start | .post | .loop | .accept | .postInit _ | .enter _ => .isTrue trivial

/-- The step is one of the start. -/
def StartupEvent.starts : StartupEvent → Bool
  | .accept => false
  | _ => true

/-! ## The stages of a thread -/

/-- How far the server is with a thread: before its creation, in its constructor, past it, or past
its `start`. -/
inductive ThreadStage
  | absent
  | underConstruction
  | constructed
  | started
  deriving DecidableEq, Repr

/-- The stage of the `i`-th thread. -/
def ServerPoint.stage (i : ℕ) : ServerPoint → ThreadStage
  | .constructing j => if i < j then .constructed else .absent
  | .waiting j => if i < j then .constructed else if i = j then .underConstruction else .absent
  | .starting j => if i < j then .started else .constructed
  | .looping => .started

/-- **A thread is at a stage**: it is as far as the server and its semaphores let it be. -/
def IOThread.At (t : IOThread) : ThreadStage → Prop
  | .absent => t = {}
  | .underConstruction =>
    t = {} ∨ t = { main := .entered } ∨ t = { main := .loopMade, eventLoop := true } ∨
      t = { main := .initPosted, eventLoop := true, initSemaphore := 1 }
  | .constructed => t = { main := .initPosted, eventLoop := true }
  | .started =>
    t = { main := .initPosted, eventLoop := true, startSemaphore := 1 } ∨
      t = { main := .looping, eventLoop := true }

/-- The steps that are to come with a thread. -/
def IOThread.left (t : IOThread) : ThreadStage → ℕ
  | .absent => 6
  | .underConstruction =>
    match t.main with
    | .notCreated | .entered => 5
    | .loopMade => 4
    | .initPosted | .looping => 3
  | .constructed => 2
  | .started => if t.main = .looping then 0 else 1

/-- The steps of the server that concern no thread. -/
def ServerPoint.left : ServerPoint → ℕ
  | .constructing _ | .waiting _ => 2
  | .starting _ => 1
  | .looping => 0

/-- The server does not get ahead of its threads. -/
def ServerPoint.Within (size : ℕ) : ServerPoint → Prop
  | .constructing i | .starting i => i ≤ size
  | .waiting i => i < size
  | .looping => True

namespace Startup

/-- The steps of the start that are to come. -/
def left (st : Startup) : ℕ :=
  ∑ i ∈ Finset.range st.group.size, (st.thread i).left (st.server.stage i) + st.server.left

end Startup

/-- **All threads are at their stages**, and those behind the end of the group are untouched. -/
structure Staged (st : Startup) : Prop where
  within : st.server.Within st.group.size
  at_stage : ∀ i < st.group.size, (st.thread i).At (st.server.stage i)
  behind : ∀ i, st.group.size ≤ i → st.thread i = {}

section Step

variable {st st' : Startup} {e : StartupEvent} {i j : ℕ} {t : IOThread} {p : ServerPoint}

/-- A sum of which one term gets less by one. -/
theorem sum_range_less {f g : ℕ → ℕ} {n : ℕ} (hj : j < n) (hother : ∀ i, i ≠ j → g i = f i)
    (hless : g j + 1 = f j) : ∑ i ∈ Finset.range n, g i + 1 = ∑ i ∈ Finset.range n, f i := by
  have hmem : j ∈ Finset.range n := Finset.mem_range.mpr hj
  rw [← Finset.add_sum_erase _ f hmem, ← Finset.add_sum_erase _ g hmem, ← hless]
  have hsame : ∑ i ∈ (Finset.range n).erase j, g i = ∑ i ∈ (Finset.range n).erase j, f i :=
    Finset.sum_congr rfl fun i hi => hother i (Finset.ne_of_mem_erase hi)
  rw [hsame]
  omega

/-- **One thread goes on**, or the server with it: the others are at the stages they were at, and
there is a step less to come. -/
theorem Staged.advance (h : Staged st) (hj : j < st.group.size) (hwithin : p.Within st.group.size)
    (hother : ∀ i, i ≠ j → p.stage i = st.server.stage i) (hat : t.At (p.stage j))
    (hserver : p.left = st.server.left)
    (hless : t.left (p.stage j) + 1 = (st.thread j).left (st.server.stage j)) :
    Staged (st.set p j t) ∧ (st.set p j t).left + 1 = st.left := by
  have hself : (st.set p j t).thread j = t := Function.update_self ..
  have hrest : ∀ i, i ≠ j → (st.set p j t).thread i = st.thread i :=
    fun i hi => Function.update_of_ne hi ..
  refine ⟨⟨hwithin, fun i hi => ?_, fun i hi => ?_⟩, ?_⟩
  · change IOThread.At _ (p.stage i)
    by_cases hij : i = j
    · rw [hij, hself]
      exact hat
    · rw [hrest i hij, hother i hij]
      exact h.at_stage i hi
  · have hij : i ≠ j := (hj.trans_le hi).ne'
    exact (hrest i hij).trans (h.behind i hi)
  · have hsum := sum_range_less (f := fun i => (st.thread i).left (st.server.stage i))
      (g := fun i => ((st.set p j t).thread i).left (p.stage i)) hj
      (fun i hi => by rw [hrest i hi, hother i hi]) (by rw [hself]; exact hless)
    unfold Startup.left
    dsimp only [Startup.set] at hsum ⊢
    omega

/-- The server goes on by itself. -/
theorem Staged.serve (h : Staged st) (hwithin : p.Within st.group.size)
    (hstage : ∀ i < st.group.size, p.stage i = st.server.stage i) :
    Staged { st with server := p } ∧
      Startup.left { st with server := p } + st.server.left = st.left + p.left := by
  refine ⟨⟨hwithin, fun i hi => ?_, h.behind⟩, ?_⟩
  · rw [hstage i hi]
    exact h.at_stage i hi
  · unfold Startup.left
    have hsum : ∑ i ∈ Finset.range st.group.size, (st.thread i).left (p.stage i) =
        ∑ i ∈ Finset.range st.group.size, (st.thread i).left (st.server.stage i) :=
      Finset.sum_congr rfl fun i hi => by rw [hstage i (Finset.mem_range.mp hi)]
    dsimp only
    omega

/-! ### Threads and their stages -/

@[simp] theorem stage_constructing_self : (ServerPoint.constructing j).stage j = .absent := by
  simp [ServerPoint.stage]

@[simp] theorem stage_waiting_self : (ServerPoint.waiting j).stage j = .underConstruction := by
  simp [ServerPoint.stage]

@[simp] theorem stage_constructing_succ :
    (ServerPoint.constructing (j + 1)).stage j = .constructed := by
  simp [ServerPoint.stage]

@[simp] theorem stage_starting_self : (ServerPoint.starting j).stage j = .constructed := by
  simp [ServerPoint.stage]

@[simp] theorem stage_starting_succ : (ServerPoint.starting (j + 1)).stage j = .started := by
  simp [ServerPoint.stage]

theorem stage_waiting_of_ne (h : i ≠ j) :
    (ServerPoint.waiting j).stage i = (ServerPoint.constructing j).stage i := by
  simp [ServerPoint.stage, h]

theorem stage_constructing_succ_of_ne (h : i ≠ j) :
    (ServerPoint.constructing (j + 1)).stage i = (ServerPoint.waiting j).stage i := by
  have hlt : i < j + 1 ↔ i < j := by omega
  simp [ServerPoint.stage, h, hlt]

theorem stage_starting_succ_of_ne (h : i ≠ j) :
    (ServerPoint.starting (j + 1)).stage i = (ServerPoint.starting j).stage i := by
  have hlt : i < j + 1 ↔ i < j := by omega
  simp [ServerPoint.stage, hlt]

variable {s : ThreadStage}

/-- A thread that has not posted its first semaphore is under construction. -/
theorem IOThread.At.of_main (h : t.At s) :
    (t.main = .entered → s = .underConstruction ∧ t = { main := .entered }) ∧
      (t.main = .loopMade →
        s = .underConstruction ∧ t = { main := .loopMade, eventLoop := true }) := by
  cases s with
  | absent =>
    obtain rfl : t = {} := h
    exact ⟨nofun, nofun⟩
  | underConstruction => rcases h with rfl | rfl | rfl | rfl <;> simp
  | constructed =>
    obtain rfl : t = { main := .initPosted, eventLoop := true } := h
    exact ⟨nofun, nofun⟩
  | started => rcases h with rfl | rfl <;> exact ⟨nofun, nofun⟩

/-- The second semaphore can be waited for only after `start`. -/
theorem IOThread.At.of_startSemaphore (h : t.At s) (hpost : 0 < t.startSemaphore) :
    s = .started ∧ t = { main := .initPosted, eventLoop := true, startSemaphore := 1 } := by
  cases s with
  | absent =>
    obtain rfl : t = {} := h
    cases hpost
  | underConstruction => rcases h with rfl | rfl | rfl | rfl <;> cases hpost
  | constructed =>
    obtain rfl : t = { main := .initPosted, eventLoop := true } := h
    cases hpost
  | started =>
    rcases h with rfl | rfl
    · exact ⟨rfl, rfl⟩
    · cases hpost

/-- The constructor of a thread returns once the thread has made its loop. -/
theorem IOThread.At.of_initSemaphore (h : t.At .underConstruction) (hpost : 0 < t.initSemaphore) :
    t = { main := .initPosted, eventLoop := true, initSemaphore := 1 } := by
  rcases h with rfl | rfl | rfl | rfl
  · cases hpost
  · cases hpost
  · cases hpost
  · rfl

/-- A thread that has been created is one of the group. -/
theorem Staged.lt_size (h : Staged st) (hmain : (st.thread i).main ≠ .notCreated) :
    i < st.group.size := by
  by_contra hlt
  rw [h.behind i (not_lt.mp hlt)] at hmain
  exact hmain rfl

/-- A thread goes on by itself. -/
theorem Staged.go (h : Staged st) (hi : i < st.group.size) (hat : t.At (st.server.stage i))
    (hless : t.left (st.server.stage i) + 1 = (st.thread i).left (st.server.stage i)) :
    Staged (st.set st.server i t) ∧ (st.set st.server i t).left + 1 = st.left :=
  h.advance hi h.within (fun _ _ => rfl) hat rfl hless

/-- A thread that is taken is one of the group, and the index is behind it then. -/
theorem getIOThread_eq_ok {g g' : IOThreadGroup} (h : g.getIOThread = .ok (i, g')) :
    (i : ℤ) = (if g.index = g.size ∨ g.index = -1 then 0 else g.index) ∧ i < g.size ∧
      g' = { g with index := i + 1 } := by
  unfold IOThreadGroup.getIOThread at h
  dsimp only at h
  generalize (if g.index = g.size ∨ g.index = -1 then 0 else g.index) = index at h ⊢
  split at h
  · rename_i hindex
    obtain ⟨rfl, rfl⟩ := Prod.mk.inj (Except.ok.inj h)
    have hnat := Int.toNat_of_nonneg hindex.1
    exact ⟨hnat, by omega, by rw [hnat]⟩
  · cases h

/-- **Every step keeps all threads at their stages**, and one of the start that succeeds leaves one
step less. -/
theorem Staged.step (h : Staged st) (hstep : startupStep st e = some st') :
    Staged st' ∧ (e.Succeeds → st'.left + [e].countP StartupEvent.starts = st.left) := by
  unfold startupStep at hstep
  split_ifs at hstep with hexited
  split at hstep
  · -- `create`
    rename_i ok j hserver
    split at hstep
    · rename_i hj
      obtain rfl := Option.some.inj hstep
      have habsent := h.at_stage j hj
      rw [hserver, stage_constructing_self] at habsent
      have hnew := h.advance (p := .waiting j)
        (t := { main := if ok then .entered else .notCreated }) hj hj
        (fun i hi => by rw [hserver, stage_waiting_of_ne hi])
        (by rw [stage_waiting_self]; cases ok <;> simp [IOThread.At])
        (by rw [hserver]; rfl)
        (by
          rw [hserver, stage_waiting_self, stage_constructing_self]
          cases ok <;> rfl)
      exact ⟨hnew.1, fun _ => hnew.2⟩
    · cases hstep
  · -- `constructed`
    rename_i j hserver
    split at hstep
    · rename_i hpost
      obtain rfl := Option.some.inj hstep
      have hj : j < st.group.size := by
        have hwithin := h.within
        rwa [hserver] at hwithin
      have hat := h.at_stage j hj
      rw [hserver, stage_waiting_self] at hat
      rw [hat.of_initSemaphore hpost]
      have hnew := h.advance (p := .constructing (j + 1))
        (t := { main := .initPosted, eventLoop := true }) hj hj
        (fun i hi => by rw [hserver, stage_constructing_succ_of_ne hi])
        (by rw [stage_constructing_succ]; rfl) (by rw [hserver]; rfl)
        (by
          rw [hserver, stage_constructing_succ, stage_waiting_self, hat.of_initSemaphore hpost]
          rfl)
      exact ⟨hnew.1, fun _ => hnew.2⟩
    · cases hstep
  · -- `start`
    rename_i j hserver
    split at hstep
    · cases hstep
    rename_i hj
    obtain rfl := Option.some.inj hstep
    have hnew := h.serve (p := .starting 0) (Nat.zero_le _) fun i hi => by
      simp [hserver, ServerPoint.stage, show i < j by omega]
    rw [hserver] at hnew
    exact ⟨hnew.1, fun _ => Nat.succ.inj hnew.2⟩
  · -- `post`
    rename_i j hserver
    split at hstep
    · rename_i hj
      obtain rfl := Option.some.inj hstep
      have hat := h.at_stage j hj
      rw [hserver, stage_starting_self] at hat
      have hthread : st.thread j = { main := .initPosted, eventLoop := true } := hat
      rw [hthread]
      have hnew := h.advance (p := .starting (j + 1))
        (t := { main := .initPosted, eventLoop := true, startSemaphore := 1 }) hj hj
        (fun i hi => by rw [hserver, stage_starting_succ_of_ne hi])
        (by rw [stage_starting_succ]; exact .inl rfl) (by rw [hserver]; rfl)
        (by rw [hserver, stage_starting_succ, stage_starting_self, hthread]; rfl)
      exact ⟨hnew.1, fun _ => hnew.2⟩
    · cases hstep
  · -- `loop`
    rename_i j hserver
    split at hstep
    · cases hstep
    rename_i hj
    obtain rfl := Option.some.inj hstep
    have hnew := h.serve (p := .looping) trivial fun i hi => by
      simp [hserver, ServerPoint.stage, show i < j by omega]
    rw [hserver] at hnew
    exact ⟨hnew.1, fun _ => hnew.2⟩
  · -- `accept`
    rename_i hserver
    split at hstep
    · rename_i i group hthread
      obtain rfl := Option.some.inj hstep
      have hsize : group.size = st.group.size := by
        rw [(getIOThread_eq_ok hthread).2.2]
      have hleft : Startup.left { st with group, served := st.served ++ [i] } = st.left := by
        unfold Startup.left
        dsimp only
        rw [hsize]
      refine ⟨⟨?_, ?_, ?_⟩, fun _ => hleft⟩ <;> dsimp only <;> rw [hsize]
      · exact h.within
      · exact h.at_stage
      · exact h.behind
    · cases hstep
  · -- `makeLoop`
    rename_i i ok
    split at hstep
    · rename_i hmain
      split at hstep
      · obtain rfl := Option.some.inj hstep
        have hi := h.lt_size (i := i) (by rw [hmain]; nofun)
        obtain ⟨hstage, hthread⟩ := (h.at_stage i hi).of_main.1 hmain
        have hnew := h.go (t := { main := .loopMade, eventLoop := true }) hi
          (by rw [hstage]; exact .inr (.inr (.inl rfl))) (by rw [hstage, hthread]; rfl)
        rw [hthread]
        exact ⟨hnew.1, fun _ => hnew.2⟩
      · rename_i hok
        obtain rfl := Option.some.inj hstep
        exact ⟨⟨h.within, h.at_stage, h.behind⟩, fun hsucceeds => absurd hsucceeds hok⟩
    · cases hstep
  · -- `postInit`
    rename_i i
    split at hstep
    · rename_i hmain
      obtain rfl := Option.some.inj hstep
      have hi := h.lt_size (i := i) (by rw [hmain]; nofun)
      obtain ⟨hstage, hthread⟩ := (h.at_stage i hi).of_main.2 hmain
      have hnew := h.go (t := { main := .initPosted, eventLoop := true, initSemaphore := 1 }) hi
        (by rw [hstage]; exact .inr (.inr (.inr rfl))) (by rw [hstage, hthread]; rfl)
      rw [hthread]
      exact ⟨hnew.1, fun _ => hnew.2⟩
    · cases hstep
  · -- `enter`
    rename_i i
    split at hstep
    · rename_i hmain
      obtain rfl := Option.some.inj hstep
      have hi := h.lt_size (i := i) (by rw [hmain.1]; nofun)
      obtain ⟨hstage, hthread⟩ := (h.at_stage i hi).of_startSemaphore hmain.2
      have hnew := h.go (t := { main := .looping, eventLoop := true }) hi
        (by rw [hstage]; exact .inr rfl) (by rw [hstage, hthread]; rfl)
      rw [hthread]
      exact ⟨hnew.1, fun _ => hnew.2⟩
    · cases hstep
  · cases hstep

/-- Only an accept takes a thread from the group, and a server stays in its loop. -/
theorem startupStep_frame (hstep : startupStep st e = some st') (he : e ≠ .accept) :
    st'.group = st.group ∧ st'.served = st.served ∧
      (st.server = .looping → st'.server = .looping) := by
  unfold startupStep at hstep
  split_ifs at hstep with hexited
  split at hstep
  case h_6 => exact absurd rfl he
  case h_7 | h_8 | h_9 =>
    repeat' split at hstep
    all_goals cases hstep
    all_goals exact ⟨rfl, rfl, id⟩
  all_goals
    rename_i hserver
    repeat' split at hstep
    all_goals cases hstep
    all_goals exact ⟨rfl, rfl, fun h => by simp [h] at hserver⟩

theorem accept_eq_some (hstep : startupStep st .accept = some st') :
    st.server = .looping ∧ ∃ i group, st.group.getIOThread = .ok (i, group) ∧
      st' = { st with group, served := st.served ++ [i] } := by
  unfold startupStep at hstep
  split_ifs at hstep
  cases hserver : st.server with
  | looping =>
    simp only [hserver] at hstep
    split at hstep
    · rename_i i group hthread
      exact ⟨rfl, i, group, hthread, (Option.some.inj hstep).symm⟩
    · cases hstep
  | constructing j | waiting j | starting j =>
    simp only [hserver] at hstep
    cases hstep

/-- **What is served is served in turn**: `n` threads are taken one after the other, by a server in
its loop. -/
structure TakingTurns (n : ℕ) (st : Startup) : Prop where
  size : st.group.size = n
  order : st.served = (List.range st.served.length).map (· % n)
  index : st.group.index = (st.served.length % n : ℕ) ∨
    st.served.length % n = 0 ∧ st.group.index = n
  inGroup : ∀ i ∈ st.served, i < n
  looping : st.served ≠ [] → st.server = .looping

theorem TakingTurns.step {n : ℕ} (h : TakingTurns n st) (hstep : startupStep st e = some st') :
    TakingTurns n st' := by
  by_cases he : e = .accept
  · subst he
    obtain ⟨hserver, i, group, hthread, rfl⟩ := accept_eq_some hstep
    obtain ⟨hi, hlt, rfl⟩ := getIOThread_eq_ok hthread
    obtain ⟨hsize, horder, hindex, hin, -⟩ := h
    subst hsize
    -- The index is that of the next thread, or at the end of the group and starts again.
    have hnext : i = st.served.length % st.group.size := by
      have hmod := Nat.mod_lt st.served.length (Nat.zero_lt_of_lt hlt)
      split_ifs at hi with hend
      · omega
      · omega
    have hmod : (st.served.length + 1) % st.group.size = (i + 1) % st.group.size := by
      rw [hnext, Nat.mod_add_mod]
    refine ⟨rfl, ?_, ?_, fun k hk => ?_, fun _ => hserver⟩
    · rw [List.length_append, List.length_singleton, List.range_succ, List.map_append, ← horder,
        hnext]
      rfl
    · rw [List.length_append, List.length_singleton, hmod]
      rcases (Nat.succ_le_of_lt hlt).lt_or_eq with hless | hlast
      · rw [Nat.mod_eq_of_lt hless]
        exact .inl rfl
      · right
        dsimp only
        rw [← Nat.succ_eq_add_one, hlast, Nat.mod_self, ← hlast]
        exact ⟨rfl, rfl⟩
    · rcases List.mem_append.mp hk with hold | hnew
      · exact hin k hold
      · exact List.mem_singleton.mp hnew ▸ hlt
  · obtain ⟨hgroup, hserved, hlooping⟩ := startupStep_frame hstep he
    refine ⟨?_, ?_, ?_, ?_, ?_⟩
    · rw [hgroup]
      exact h.size
    · rw [hserved]
      exact h.order
    · rw [hgroup, hserved]
      exact h.index
    · rw [hserved]
      exact h.inGroup
    · rw [hserved]
      exact fun hne => hlooping (h.looping hne)

/-- The stages of the threads of a group are at most one apart from that of a thread that is in its
loop. -/
theorem stage_of_started (hstage : st.server.stage i = .started) (j : ℕ) :
    st.server.stage j = .constructed ∨ st.server.stage j = .started := by
  cases hserver : st.server with
  | constructing k =>
    rw [hserver, ServerPoint.stage] at hstage
    split_ifs at hstage
  | waiting k =>
    rw [hserver, ServerPoint.stage] at hstage
    split_ifs at hstage
  | starting k =>
    rw [ServerPoint.stage]
    split_ifs
    · exact .inr rfl
    · exact .inl rfl
  | looping => exact .inr rfl

/-- A thread that has been constructed has an event loop. -/
theorem IOThread.At.eventLoop (h : t.At s) (hs : s = .constructed ∨ s = .started) :
    t.eventLoop = true := by
  rcases hs with rfl | rfl
  · obtain rfl : t = { main := .initPosted, eventLoop := true } := h
    rfl
  · rcases h with rfl | rfl <;> rfl

/-- A thread in its loop has been started. -/
theorem IOThread.At.of_looping (h : t.At s) (hmain : t.main = .looping) : s = .started := by
  cases s with
  | absent =>
    obtain rfl : t = {} := h
    cases hmain
  | underConstruction => rcases h with rfl | rfl | rfl | rfl <;> cases hmain
  | constructed =>
    obtain rfl : t = { main := .initPosted, eventLoop := true } := h
    cases hmain
  | started => rfl

/-- Nothing has failed: the process goes on, and a constructor that waits has created its thread. -/
structure Unfailed (st : Startup) : Prop where
  exited : st.exited = false
  created : ∀ i, st.server = .waiting i → (st.thread i).main ≠ .notCreated

/-- A thread that has been created goes on. -/
theorem Unfailed.go (h : Unfailed st) (ht : t.main ≠ .notCreated) :
    Unfailed (st.set st.server i t) := by
  refine ⟨h.exited, fun k hk => ?_⟩
  change (Function.update st.thread i t k).main ≠ _
  by_cases hki : k = i
  · rw [hki, Function.update_self]
    exact ht
  · rw [Function.update_of_ne hki]
    exact h.created k hk

theorem Unfailed.step (h : Unfailed st) (hok : e.Succeeds)
    (hstep : startupStep st e = some st') : Unfailed st' := by
  unfold startupStep at hstep
  rw [if_neg (by rw [h.exited]; nofun)] at hstep
  split at hstep
  case h_1 ok j hserver =>
    obtain rfl : ok = true := hok
    split at hstep
    · obtain rfl := Option.some.inj hstep
      refine ⟨h.exited, fun k hk => ?_⟩
      obtain rfl := ServerPoint.waiting.inj hk
      change (Function.update st.thread j _ j).main ≠ _
      rw [Function.update_self]
      nofun
    · cases hstep
  case h_7 ok =>
    obtain rfl : ok = true := hok
    split at hstep
    · obtain rfl := Option.some.inj hstep
      exact h.go nofun
    · cases hstep
  case h_8 | h_9 =>
    split at hstep
    · obtain rfl := Option.some.inj hstep
      exact h.go nofun
    · cases hstep
  case h_6 hserver =>
    split at hstep
    · obtain rfl := Option.some.inj hstep
      exact ⟨h.exited, fun k hk => nomatch hserver.symm.trans hk⟩
    · cases hstep
  all_goals
    repeat' split at hstep
    all_goals cases hstep
    all_goals exact ⟨h.exited, nofun⟩

/-- **As long as there are steps to come, one of them can be made.** -/
theorem Staged.progress (h : Staged st) (hunfailed : Unfailed st) (hleft : st.left ≠ 0) :
    ∃ e : StartupEvent, e.starts = true ∧ e.Succeeds ∧ (startupStep st e).isSome := by
  have hexited : ¬ st.exited = true := by
    rw [hunfailed.exited]
    nofun
  cases hserver : st.server with
  | constructing j =>
    by_cases hj : j < st.group.size
    · exact ⟨.create true, rfl, rfl, by simp [startupStep, hexited, hserver, hj]⟩
    · exact ⟨.start, rfl, trivial, by simp [startupStep, hexited, hserver, hj]⟩
  | waiting j =>
    have hj : j < st.group.size := by
      have hwithin := h.within
      rwa [hserver] at hwithin
    have hat := h.at_stage j hj
    rw [hserver, stage_waiting_self] at hat
    -- Either the thread has posted, or it is on its way to it.
    rcases hat with hthread | hthread | hthread | hthread
    · exact absurd (by rw [hthread]) (hunfailed.created j hserver)
    · exact ⟨.makeLoop j true, rfl, rfl, by simp [startupStep, hexited, hthread]⟩
    · exact ⟨.postInit j, rfl, trivial, by simp [startupStep, hexited, hthread]⟩
    · exact ⟨.constructed, rfl, trivial, by simp [startupStep, hexited, hserver, hthread]⟩
  | starting j =>
    by_cases hj : j < st.group.size
    · exact ⟨.post, rfl, trivial, by simp [startupStep, hexited, hserver, hj]⟩
    · exact ⟨.loop, rfl, trivial, by simp [startupStep, hexited, hserver, hj]⟩
  | looping =>
    -- Some thread has not entered its loop.
    obtain ⟨i, hi, hne⟩ : ∃ i < st.group.size, (st.thread i).left .started ≠ 0 := by
      by_contra hall
      push Not at hall
      apply hleft
      unfold Startup.left
      rw [hserver]
      exact Nat.add_eq_zero_iff.mpr
        ⟨Finset.sum_eq_zero fun i hi => hall i (Finset.mem_range.mp hi), rfl⟩
    have hat := h.at_stage i hi
    rw [hserver] at hat
    rcases hat with hthread | hthread
    · exact ⟨.enter i, rfl, trivial, by simp [startupStep, hexited, hthread]⟩
    · rw [hthread] at hne
      exact absurd rfl hne

/-- No step is to come exactly if the server and all threads are in their loops. -/
theorem left_eq_zero_iff : st.left = 0 ↔
    st.server = .looping ∧ ∀ i < st.group.size, (st.thread i).main = .looping := by
  unfold Startup.left
  rw [Nat.add_eq_zero_iff, Finset.sum_eq_zero_iff, and_comm]
  have hserver : st.server.left = 0 ↔ st.server = .looping := by
    cases st.server <;> simp [ServerPoint.left]
  rw [hserver]
  refine and_congr_right fun hlooping => forall_congr' fun i => ?_
  rw [Finset.mem_range, hlooping]
  refine imp_congr_right fun hi => ?_
  change (if (st.thread i).main = .looping then 0 else 1) = 0 ↔ _
  simp

end Step

/-! ## The start of a server -/

section Run

variable {st : Startup}

theorem staged_new (n : ℕ) : Staged (.new n) where
  within := Nat.zero_le n
  at_stage _ _ := rfl
  behind _ _ := rfl

theorem staged_of_exec {n : ℕ} {es : List StartupEvent}
    (h : exec startupStep (.new n) es = some st) : Staged st :=
  exec_invariant (fun _ _ _ h hstep => (h.step hstep).1) (staged_new n) h

theorem inTurn_of_exec {n : ℕ} {es : List StartupEvent}
    (h : exec startupStep (.new n) es = some st) : TakingTurns n st := by
  refine exec_invariant (fun _ _ _ h hstep => h.step hstep) ?_ h
  exact ⟨rfl, rfl, .inl (by simp [Startup.new]), nofun, fun hne => absurd rfl hne⟩

/-- **Clients are given to the threads in turn, and only to threads with an event loop**, in every
schedule of the server and its `n` threads; and no thread enters its loop before all of them have
been constructed. -/
theorem served_in_turn (n : ℕ) (es : List StartupEvent)
    (h : exec startupStep (.new n) es = some st) :
    st.served = (List.range st.served.length).map (· % n) ∧
      (∀ i ∈ st.served, (st.thread i).eventLoop = true) ∧
      ∀ i, (st.thread i).main = .looping → ∀ j < n, (st.thread j).eventLoop = true := by
  have hstaged := staged_of_exec h
  obtain ⟨hsize, horder, -, hin, hlooping⟩ := inTurn_of_exec h
  refine ⟨horder, fun i hi => ?_, fun i hi j hj => ?_⟩
  · apply (hstaged.at_stage i (hsize ▸ hin i hi)).eventLoop
    rw [hlooping (List.ne_nil_of_mem hi)]
    exact .inr rfl
  · have hlt := hstaged.lt_size (i := i) (by rw [hi]; nofun)
    have hstage := (hstaged.at_stage i hlt).of_looping hi
    exact (hstaged.at_stage j (hsize ▸ hj)).eventLoop (stage_of_started hstage j)

/-- The steps made and those to come are six for each thread, and two. -/
theorem countP_starts_add_left {n : ℕ} {es : List StartupEvent}
    (h : exec startupStep (.new n) es = some st) (hok : ∀ e ∈ es, e.Succeeds) :
    es.countP StartupEvent.starts + st.left = 6 * n + 2 ∧ Unfailed st := by
  refine exec_history (I := fun es st => (∀ e ∈ es, e.Succeeds) →
    es.countP StartupEvent.starts + st.left = 6 * n + 2 ∧ Unfailed st) ?_ ?_ h hok
  · intro _
    refine ⟨?_, rfl, nofun⟩
    change 0 + (∑ i ∈ Finset.range n, 6 + 2) = _
    rw [Finset.sum_const_nat (m := 6) fun _ _ => rfl, Finset.card_range]
    omega
  · intro es st e st' hexec ih hstep hok
    obtain ⟨hcount, hunfailed⟩ := ih fun e he => hok e (List.mem_append_left _ he)
    have he := hok e (List.mem_append_right _ (List.mem_singleton_self e))
    refine ⟨?_, hunfailed.step he hstep⟩
    have hleft := ((staged_of_exec hexec).step hstep).2 he
    rw [List.countP_append]
    omega

/-- **A server gets to its loop, and all its threads to theirs, whatever the schedule**: `6 * n + 2`
steps are made for it, and until then there is always one that can be made. -/
theorem startup_completes (n : ℕ) (es : List StartupEvent)
    (h : exec startupStep (.new n) es = some st) (hok : ∀ e ∈ es, e.Succeeds) :
    es.countP StartupEvent.starts ≤ 6 * n + 2 ∧
      (es.countP StartupEvent.starts = 6 * n + 2 ↔
        st.server = .looping ∧ ∀ i < n, (st.thread i).main = .looping) ∧
      (es.countP StartupEvent.starts < 6 * n + 2 →
        ∃ e : StartupEvent, e.starts = true ∧ e.Succeeds ∧ (startupStep st e).isSome) := by
  have hstaged := staged_of_exec h
  obtain ⟨hcount, hunfailed⟩ := countP_starts_add_left h hok
  have hzero : st.left = 0 ↔
      st.server = .looping ∧ ∀ i < st.group.size, (st.thread i).main = .looping := left_eq_zero_iff
  rw [(inTurn_of_exec h).size] at hzero
  refine ⟨by omega, ?_, fun hlt => hstaged.progress hunfailed (by omega)⟩
  rw [← hzero]
  omega

/-- A group of two threads: the first one enters its loop while the server is still posting, the
second one after a client has been given to it. -/
def twoThreads : List StartupEvent :=
  [.create true, .makeLoop 0 true, .postInit 0, .constructed, .create true, .makeLoop 1 true,
    .postInit 1, .constructed, .start, .post, .enter 0, .post, .loop, .accept, .accept, .accept,
    .enter 1]

theorem served_in_turn_two : ∃ st, exec startupStep (.new 2) twoThreads = some st ∧
    st.served = [0, 1, 0] ∧ ∀ i ∈ st.served, (st.thread i).eventLoop = true := by
  refine ⟨_, rfl, rfl, ?_⟩
  exact (served_in_turn 2 twoThreads rfl).2.1

theorem startup_completes_two : ∃ st, exec startupStep (.new 2) twoThreads = some st ∧
    st.server = .looping ∧ ∀ i < 2, (st.thread i).main = .looping := by
  refine ⟨_, rfl, ?_⟩
  exact (startup_completes 2 twoThreads rfl (by decide)).2.1.mp (by decide)

end Run

end TalonRPC
