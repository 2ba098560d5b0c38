import TalonRPC.Net.Tasks

/-!
# Lifetimes

Each event of the runtime keeps it tidy, as long as no connection is destroyed that a task still
captures. But one epoll result can enqueue `onRead` and `onWrite`: `onRead` finds the end of the
stream and the connection is `Closed`, the timer of the server drops it, and `onWrite` runs on what
is left.

## Main definitions

* `StaysOn`: what a callback does on its own loop

## Main results

* `Tidy.step`: an orderly step keeps the runtime tidy
* `alive_of_orderly`: in a run of orderly steps no task runs on a destroyed connection
-/

namespace TalonRPC.Net

open Machine Epoll

variable {L C : Type} [DecidableEq L] [DecidableEq C]

/-! ## The events -/

section Step

variable {st st' : Runtime L C} {c d : C} {l l' : L} {n n' : ℕ} {e : RuntimeEvent L C}

/-- **Steps in which each `Fd_Event` and descriptor stays with its connection**: listening,
cancelling, and what loops do. -/
theorem Tidy.minor (h : Tidy st) (hminor : ∀ e' ∈ st.calls e, ProcessEvent.Minor e')
    (hexec : Machine.exec processStep st.process (st.calls e) = some st'.process)
    (hhome : st'.home = st.home)
    (hqueue : ∀ l f, .callback (some f) ∈ st'.queue l → .callback (some f) ∈ st.queue l ∨
      ∃ n, st.Watches l n ∧ st.process.owner n = some f.owner)
    (hcount : ∀ l n, (st'.queue l).count (.add n) ≤ (st.queue l).count (.add n))
    (hwatch : ∀ l n, .add l n ∈ st.calls e → ∃ c, (Uses st c l n ∧ st.process.owner n = some c) ∧
      ((∃ fd, st.process.connections c = .live .byServer fd n) →
        st'.state c ≠ .closed ∧ ∀ l', .add n ∉ st'.queue l'))
    (hstate : ∀ c, st'.state c = .closed → st.state c = .closed ∨
      ¬ Spared st c ∧ ∀ l n, Uses st c l n → ¬ st'.Watches l n) : Tidy st' := by
  obtain ⟨hconnections, -, howner⟩ := exec_minor hminor hexec
  obtain ⟨hattached, hregistered⟩ := h.attached.exec hexec
  refine h.retain (h.owned.exec hexec) hattached ⟨?_, hhome, hqueue, hcount, ?_, hstate⟩
  · intro c type n
    rw [hconnections]
  · intro l n hn
    rcases hregistered l n hn with hold | hadd
    · exact .inl ⟨hold, congrFun howner n⟩
    · obtain ⟨c, ⟨huses, hown⟩, hserver⟩ := hwatch l n hadd
      exact .inr ⟨c, ⟨⟨hconnections ▸ huses.live, hhome ▸ huses.home⟩, howner ▸ hown⟩, hserver⟩

/-- A step is what the event does to the process, and to the rest. -/
theorem runtimeStep_eq_some (hstep : runtimeStep st e = some st') :
    st.Enabled e ∧ Machine.exec processStep st.process (st.calls e) = some st'.process ∧
      st'.queue = st.queueAfter e ∧ st'.state = st.stateAfter e ∧ st'.home = st.homeAfter e := by
  unfold runtimeStep at hstep
  split_ifs at hstep with henabled
  obtain ⟨p, hexec, rfl⟩ := Option.map_eq_some_iff.mp hstep
  exact ⟨henabled, hexec, rfl, rfl, rfl⟩

/-- Running a task takes it out of its queue. -/
theorem queue_run {outcome : Outcome} (hstep : runtimeStep st (.run l outcome) = some st') :
    (∀ l' t, t ∈ st'.queue l' → t ∈ st.queue l') ∧
      ∀ l' t, (st'.queue l').count t ≤ (st.queue l').count t := by
  obtain ⟨-, -, hqueue, -, -⟩ := runtimeStep_eq_some hstep
  rw [hqueue, Runtime.queueAfter]
  constructor
  · intro l' t ht
    by_cases hl : l' = l
    · subst hl
      rw [Function.update_self] at ht
      exact List.mem_of_mem_tail ht
    · rwa [Function.update_of_ne hl] at ht
  · intro l' t
    by_cases hl : l' = l
    · subst hl
      rw [Function.update_self]
      exact (List.tail_sublist _).count_le t
    · rw [Function.update_of_ne hl]

omit [DecidableEq L] [DecidableEq C] in
/-- What a callback does to the process, and the state it leaves: it adds its event only where the
connection is not closed, and closes it only where it deletes the event last. -/
structure StaysOn (old state : TcpState) (l : L) (n : ℕ) (calls : List (ProcessEvent L C)) :
    Prop where
  minor : ∀ e ∈ calls, e.Minor
  adds : ∀ l' n', .add l' n' ∈ calls → l' = l ∧ n' = n ∧ state ≠ .closed
  closed : state = .closed → old = .closed ∨ ∃ es, calls = es ++ [.delete l n]

omit [DecidableEq L] [DecidableEq C] in
theorem StaysOn.nil (state : TcpState) : StaysOn (C := C) state state l n [] where
  minor _ he := nomatch he
  adds _ _ he := nomatch he
  closed := .inl

omit [DecidableEq L] [DecidableEq C] in
theorem StaysOn.add {old state : TcpState} {e : ProcessEvent L C} (hminor : e.Minor)
    (hne : ∀ l' n', e ≠ .add l' n') (hopen : state ≠ .closed) :
    StaysOn old state l n [e, .add l n] where
  minor e' he' := by
    rcases List.mem_cons.mp he' with rfl | he'
    · exact hminor
    · rw [List.mem_singleton.mp he']
      trivial
  adds l' n' he' := by
    rcases List.mem_cons.mp he' with heq | he'
    · exact absurd heq.symm (hne l' n')
    · cases List.mem_singleton.mp he'
      exact ⟨rfl, rfl, hopen⟩
  closed hclosed := absurd hclosed hopen

omit [DecidableEq L] [DecidableEq C] in
/-- **What a callback does on its own loop**, unless its connect was refused. -/
theorem taskCalls_cases {f : Callback C} (outcome : Outcome) {type : TcpConnectionType}
    {fd : Option ℕ} (hc : st.process.connections f.owner = .live type fd n)
    (hl : st.home f.owner = some l) :
    StaysOn (st.state f.owner) (st.taskState f outcome) l n (st.taskCalls f outcome) ∨
      ∃ fd', st.taskCalls f outcome = [.reconnect f.owner fd', .delete l n] ∧
        st.taskState f outcome = st.state f.owner := by
  obtain ⟨c, task⟩ := f
  dsimp only at hc hl
  unfold Runtime.taskCalls Runtime.taskState
  dsimp only
  rw [hc, hl]
  cases task with
  | onRead =>
    cases outcome with
    | closed =>
      by_cases hconnected : st.state c = .connected
      · simp only [hconnected, and_self, if_true]
        refine .inl ⟨?_, ?_, fun _ => .inr ⟨[_, _], rfl⟩⟩
        · simp [ProcessEvent.Minor]
        · simp
      · simp only [hconnected, and_false, if_false]
        exact .inl (.nil _)
    | replied =>
      by_cases hboth : st.state c = .connected ∧ type = .byServer
      · simp only [hboth, and_self, if_true]
        exact .inl (.add trivial (fun _ _ => nofun) TcpState.noConfusion)
      · simp only [hboth, if_false]
        exact .inl (.nil _)
    | _ => exact .inl (.nil _)
  | onWrite =>
    cases outcome with
    | written =>
      by_cases hconnected : st.state c = .connected
      · simp only [hconnected, if_true]
        exact .inl (.add trivial (fun _ _ => nofun) TcpState.noConfusion)
      · simp only [hconnected, if_false]
        exact .inl (.nil _)
    | _ => exact .inl (.nil _)
  | onConnect =>
    cases outcome with
    | connected =>
      refine .inl ⟨?_, ?_, fun hclosed => nomatch hclosed⟩
      · simp [ProcessEvent.Minor]
      · simp
    | refused fd' => exact .inr ⟨fd', rfl, rfl⟩
    | _ => exact .inl (.nil _)

/-- An event that only sets flags or states. -/
theorem Tidy.idle (h : Tidy st) (hstep : runtimeStep st e = some st') (hcalls : st.calls e = [])
    (hhome : st'.home = st.home) (hqueue : st'.queue = st.queue)
    (hstate : ∀ c, st'.state c = .closed → st.state c = .closed) : Tidy st' := by
  obtain ⟨-, hexec, -⟩ := runtimeStep_eq_some hstep
  refine h.minor ?_ hexec hhome ?_ ?_ ?_ fun c hc => .inl (hstate c hc)
  · rw [hcalls]
    exact fun e he => nomatch he
  · exact fun l f hf => .inl (hqueue ▸ hf)
  · exact fun l n => hqueue ▸ le_rfl
  · rw [hcalls]
    exact fun l n he => nomatch he

/-- A client that listens and adds its event. -/
theorem Tidy.request {task : Task} (h : Tidy st) (hholds : Holds st.process c)
    (hstep : runtimeStep st (.request c task) = some st') : Tidy st' := by
  obtain ⟨-, hexec, hqueue, hstate, hhome⟩ := runtimeStep_eq_some hstep
  by_cases hcalls : st.calls (.request c task) = []
  · exact h.idle hstep hcalls hhome hqueue fun c hc => by rwa [hstate] at hc
  obtain ⟨fd, n, l, hc, hl, hcalls⟩ : ∃ fd n l, st.process.connections c = .live .byClient fd n ∧
      st.home c = some l ∧ st.calls (.request c task) = [.listen c task, .add l n] := by
    unfold Runtime.calls at hcalls ⊢
    dsimp only at hcalls ⊢
    split at hcalls
    · exact ⟨_, _, _, ‹_›, ‹_›, by simp [*]⟩
    · exact absurd rfl hcalls
  replace hqueue : st'.queue = st.queue := hqueue
  refine h.minor ?_ hexec hhome (fun l f hf => .inl (hqueue ▸ hf)) (fun l n => hqueue ▸ le_rfl) ?_
    fun c hc => .inl (by rwa [hstate] at hc)
  · rw [hcalls]
    simp [ProcessEvent.Minor]
  · intro l' n' hadd
    rw [hcalls] at hadd
    have heq : (ProcessEvent.add l' n' : ProcessEvent L C) = .add l n := by simpa using hadd
    cases heq
    refine ⟨c, ⟨⟨⟨_, fd, hc⟩, hl⟩, hholds.owner hc⟩, ?_⟩
    rintro ⟨fd', hserver⟩
    cases hserver.symm.trans hc

/-- An epoll result. -/
theorem Tidy.report {fd : ℕ} {trigger : Trigger} (h : Tidy st)
    (horderly : Orderly st (.report l fd trigger))
    (hstep : runtimeStep st (.report l fd trigger) = some st') : Tidy st' := by
  obtain ⟨-, hexec, hqueue, hstate, hhome⟩ := runtimeStep_eq_some hstep
  have hwatched : st.Watches l fd := by
    obtain ⟨t, ht, -⟩ := Option.bind_eq_some_iff.mp hexec
    obtain ⟨⟨mask, hmask, -⟩, -⟩ := report_eq_some ht
    exact Option.isSome_iff_exists.mpr ⟨mask, hmask⟩
  refine h.minor ?_ hexec hhome ?_ ?_ ?_ fun c hc => .inl (by rwa [hstate] at hc)
  · intro e he
    rw [List.mem_singleton.mp he]
    trivial
  · intro l' f hf
    rw [hqueue, Runtime.queueAfter] at hf
    by_cases hl : l' = l
    · subst hl
      rw [Function.update_self] at hf
      refine (List.mem_append.mp hf).imp_right fun hnew => ⟨fd, hwatched, ?_⟩
      obtain ⟨t, ht, heq⟩ := List.mem_map.mp hnew
      exact horderly t ht f (Queued.callback.inj heq)
    · rw [Function.update_of_ne hl] at hf
      exact .inl hf
  · intro l' n
    rw [hqueue, Runtime.queueAfter]
    by_cases hl : l' = l
    · subst hl
      rw [Function.update_self, List.count_append,
        List.count_eq_zero_of_not_mem (l := List.map _ _)]
      · exact le_rfl
      · simp
    · rw [Function.update_of_ne hl]
  · intro l' n hadd
    cases List.mem_singleton.mp hadd

/-- A loop runs a task that another thread has asked for. -/
theorem Tidy.runAdd {outcome : Outcome} {fd : ℕ} {rest : List (Queued C)} (h : Tidy st)
    (hstep : runtimeStep st (.run l outcome) = some st')
    (hhead : st.queue l = .add fd :: rest) : Tidy st' := by
  obtain ⟨-, hexec, hqueue, hstate, hhome⟩ := runtimeStep_eq_some hstep
  have hcalls : st.calls (.run l outcome) = [.add l fd] := by
    rw [Runtime.calls, hhead]
  have hsame : st'.state = st.state := by
    rw [hstate, Runtime.stateAfter, hhead]
  obtain ⟨hmemQueue, hcount⟩ := queue_run hstep
  refine h.minor ?_ hexec hhome (fun l' f hf => .inl (hmemQueue l' _ hf))
    (fun l' n => hcount l' _) ?_ fun c hc => .inl (hsame ▸ hc)
  · rw [hcalls]
    simp [ProcessEvent.Minor]
  intro l' n hadd
  rw [hcalls] at hadd
  cases List.mem_singleton.mp hadd
  obtain ⟨-, c, fd', hc, hc', hopen, -⟩ := h.adding l fd (hhead ▸ List.mem_cons_self ..)
  have howner := (h.owned.of_server hc).2
  refine ⟨c, ⟨hc', howner⟩, fun _ => ?_⟩
  refine ⟨hsame ▸ hopen, fun l'' hmem => ?_⟩
  -- The task was there once, and only in this queue.
  rw [hqueue, Runtime.queueAfter] at hmem
  by_cases hl : l'' = l
  · subst hl
    rw [Function.update_self, hhead] at hmem
    have honce := h.once l'' fd
    rw [hhead, List.count_cons_self] at honce
    have hpos : 0 < rest.count (.add fd) := List.count_pos_iff.mpr hmem
    omega
  · rw [Function.update_of_ne hl] at hmem
    obtain ⟨-, d, fd'', hd, hd', -⟩ := h.adding l'' fd hmem
    obtain rfl := h.owned.eq_of_server hd howner
    exact hl (Option.some.inj (hd'.home.symm.trans hc'.home))

/-- A loop finds that a callback is empty. -/
theorem Tidy.runNothing {outcome : Outcome} {rest : List (Queued C)} (h : Tidy st)
    (hstep : runtimeStep st (.run l outcome) = some st')
    (hhead : st.queue l = .callback none :: rest) : Tidy st' := by
  obtain ⟨-, hexec, -, hstate, hhome⟩ := runtimeStep_eq_some hstep
  have hcalls : st.calls (.run l outcome) = [] := by
    rw [Runtime.calls, hhead]
  have hsame : st'.state = st.state := by
    rw [hstate, Runtime.stateAfter, hhead]
  obtain ⟨hmemQueue, hcount⟩ := queue_run hstep
  refine h.minor ?_ hexec hhome (fun l' f hf => .inl (hmemQueue l' _ hf))
    (fun l' n => hcount l' _) ?_ fun c hc => .inl (hsame ▸ hc)
  · rw [hcalls]
    exact fun e he => absurd he List.not_mem_nil
  · rw [hcalls]
    exact fun l n he => absurd he List.not_mem_nil

/-- What running a callback does to the process, and the state it leaves. -/
theorem run_eq_some {outcome : Outcome} {f : Callback C} {rest : List (Queued C)}
    (hstep : runtimeStep st (.run l outcome) = some st')
    (hhead : st.queue l = .callback (some f) :: rest) :
    st.calls (.run l outcome) = st.taskCalls f outcome ∧
      st'.state f.owner = st.taskState f outcome ∧
        ∀ d, d ≠ f.owner → st'.state d = st.state d := by
  obtain ⟨-, -, -, hstate, -⟩ := runtimeStep_eq_some hstep
  rw [hstate, Runtime.stateAfter, Runtime.calls, hhead]
  exact ⟨rfl, Function.update_self .., fun d hd => Function.update_of_ne hd ..⟩

/-- A loop runs a callback that stays on its own loop. -/
theorem Tidy.runStays {outcome : Outcome} {f : Callback C} {rest : List (Queued C)}
    {type : TcpConnectionType} {fd : Option ℕ} (h : Tidy st)
    (hholds : Holds st.process f.owner) (hstep : runtimeStep st (.run l outcome) = some st')
    (hhead : st.queue l = .callback (some f) :: rest)
    (hc : st.process.connections f.owner = .live type fd n) (huses : Uses st f.owner l n)
    (hstays : StaysOn (st.state f.owner) (st.taskState f outcome) l n (st.taskCalls f outcome)) :
    Tidy st' := by
  obtain ⟨-, hexec, -, -, hhome⟩ := runtimeStep_eq_some hstep
  obtain ⟨hcalls, hself, hothers⟩ := run_eq_some hstep hhead
  obtain ⟨hmemQueue, hcount⟩ := queue_run hstep
  have hmem : .callback (some f) ∈ st.queue l := hhead ▸ List.mem_cons_self ..
  rw [← hcalls] at hstays
  refine h.minor hstays.minor hexec hhome (fun l' g hg => .inl (hmemQueue l' _ hg))
    (fun l' k => hcount l' _) ?_ ?_
  · intro l' n' hadd
    obtain ⟨rfl, rfl, hopen⟩ := hstays.adds l' n' hadd
    have howner := hholds.owner hc
    refine ⟨f.owner, ⟨huses, howner⟩, fun _ => ⟨hself ▸ hopen, fun l'' hadd' => ?_⟩⟩
    -- Nothing captures a connection that is still to be added.
    obtain ⟨-, d, fd', hd, -, -, hspared⟩ := h.adding l'' n' (hmemQueue l'' _ hadd')
    obtain rfl := h.owned.eq_of_server hd howner
    exact not_spared hmem hspared
  · intro d hd
    by_cases hdf : d = f.owner
    · subst hdf
      rw [hself] at hd
      refine (hstays.closed hd).imp_right fun ⟨es, hes⟩ => ⟨not_spared hmem, ?_⟩
      -- The last thing `clear` does is to delete the event.
      rintro l' n' ⟨⟨type', fd', hc'⟩, hl'⟩
      cases hc'.symm.trans hc
      obtain rfl := Option.some.inj (hl'.symm.trans huses.home)
      rw [hes] at hexec
      exact h.attached.not_registered_deleted hexec
    · rw [hothers d hdf] at hd
      exact .inl hd

/-- A loop runs the callback of a connect that was refused: the connection goes on with another
descriptor. -/
theorem Tidy.runRefused {outcome : Outcome} {f : Callback C} {rest : List (Queued C)}
    {fd : Option ℕ} (h : Tidy st) (hstep : runtimeStep st (.run l outcome) = some st')
    (hhead : st.queue l = .callback (some f) :: rest)
    (htask : st.taskCalls f outcome = [.reconnect f.owner fd, .delete l n])
    (hsame : st.taskState f outcome = st.state f.owner) : Tidy st' := by
  obtain ⟨-, hexec, -, -, hhome⟩ := runtimeStep_eq_some hstep
  obtain ⟨hcalls, hself, hothers⟩ := run_eq_some hstep hhead
  obtain ⟨hmemQueue, hcount⟩ := queue_run hstep
  rw [hcalls, htask] at hexec
  obtain ⟨hattached, hregistered⟩ := h.attached.exec hexec
  obtain ⟨p, hp, hrest⟩ := Option.bind_eq_some_iff.mp hexec
  obtain ⟨old, k, -, -, -, -, hkeep⟩ := reconnect_frame hp
  obtain ⟨hconnections, -, howner⟩ := exec_minor (by simp [ProcessEvent.Minor]) hrest
  refine h.retain (h.owned.exec hexec) hattached ⟨?_, hhome,
    fun l' g hg => .inl (hmemQueue l' _ hg), fun l' k => hcount l' _, ?_, ?_⟩
  · intro d type m
    rw [hconnections]
    exact live_reconnect hp d type m
  · intro l' m hm
    refine .inl ⟨(hregistered l' m hm).resolve_right fun hadd => ?_, ?_⟩
    · simp at hadd
    · -- No loop watches the new descriptor.
      rw [howner, hkeep m]
      rintro rfl
      have hwatched := (((h.attached.step hp).1.exec hrest).2 l' m hm).resolve_right fun hadd => by
        simp at hadd
      exact h.attached.not_registered_reconnect hp hwatched
  · intro d hd
    by_cases hdf : d = f.owner
    · subst hdf
      rw [hself, hsame] at hd
      exact .inl hd
    · rw [hothers d hdf] at hd
      exact .inl hd

/-- A loop runs a callback. -/
theorem Tidy.runCallback {outcome : Outcome} {f : Callback C} {rest : List (Queued C)}
    (h : Tidy st) (hholds : Holds st.process f.owner)
    (hstep : runtimeStep st (.run l outcome) = some st')
    (hhead : st.queue l = .callback (some f) :: rest) : Tidy st' := by
  obtain ⟨n, huses⟩ := h.queued l f (hhead ▸ List.mem_cons_self ..)
  obtain ⟨type, fd, hc⟩ := huses.live
  rcases taskCalls_cases outcome hc huses.home with hstays | ⟨fd', htask, hsame⟩
  · exact h.runStays hholds hstep hhead hc huses hstays
  · exact h.runRefused hstep hhead htask hsame

/-- A connection is made, by a server or by a client. -/
theorem Tidy.make {fd : ℕ} (h : Tidy st) (hstep : runtimeStep st e = some st')
    (he : e = .accept c l fd ∨ e = .create c l fd) : Tidy st' := by
  obtain ⟨-, hexec, hqueue, hstate, hhome⟩ := runtimeStep_eq_some hstep
  have howned := h.owned.exec hexec
  obtain ⟨hattached, hregistered⟩ := h.attached.exec hexec
  have hwatch : ∀ l n, st'.Watches l n → st.Watches l n := by
    intro l' n hn
    refine (hregistered l' n hn).resolve_right fun hadd => ?_
    rcases he with rfl | rfl <;> simp [Runtime.calls] at hadd
  rcases he with rfl | rfl
  · obtain ⟨t, ht, hrest⟩ := Option.bind_eq_some_iff.mp hexec
    obtain ⟨hunborn, hclosed, rfl⟩ := getFdEvent_eq_some ht
    obtain ⟨hconnections, -, howner⟩ := exec_minor (by simp [ProcessEvent.Minor]) hrest
    exact h.born howned hattached ⟨hunborn, hclosed, hconnections, howner, hhome, hstate, hwatch,
      hqueue, .inr ⟨rfl, rfl⟩⟩
  · obtain ⟨t, ht, hrest⟩ := Option.bind_eq_some_iff.mp hexec
    obtain rfl : t = st'.process := Option.some.inj hrest
    obtain ⟨hunborn, hclosed, hprocess⟩ := getFdEvent_eq_some ht
    have hsame : st'.queue = Function.update st.queue l (st.queue l ++ []) := by
      rw [hqueue, List.append_nil, Function.update_eq_self]
      rfl
    exact h.born howned hattached ⟨hunborn, hclosed, congrArg Process.connections hprocess,
      congrArg Process.owner hprocess, hhome, hstate, hwatch, hsame, .inl rfl⟩

/-- The timer of the server destroys a connection it finds closed. No loop watches it: it has
deleted its event when it was closed. -/
theorem Tidy.reap (h : Tidy st) (hspared : Spared st c)
    (hstep : runtimeStep st (.reap c) = some st') : Tidy st' := by
  obtain ⟨hclosed, hexec, hqueue, hstate, hhome⟩ := runtimeStep_eq_some hstep
  obtain ⟨hattached, hregistered⟩ := h.attached.exec hexec
  obtain ⟨t, ht, hrest⟩ := Option.bind_eq_some_iff.mp hexec
  obtain rfl : t = st'.process := Option.some.inj hrest
  obtain ⟨fd, n, hc, hprocess⟩ := reap_eq_some ht
  have hwatch : ∀ l n, st'.Watches l n → st.Watches l n := by
    intro l n hn
    refine (hregistered l n hn).resolve_right fun hadd => ?_
    simp [Runtime.calls] at hadd
  have howner : st'.process.owner = st.process.owner := by
    rw [hprocess]
    rfl
  refine h.drop (h.owned.exec hexec) hattached ⟨hspared, congrArg Process.connections hprocess,
    howner, hhome, hstate, hqueue, hwatch, fun l m huses _ hm => ?_, fun _ _ _ => hclosed⟩
  obtain ⟨_, _, hc'⟩ := huses.live
  cases hc'.symm.trans hc
  exact h.closed c fd n hc hclosed l (hwatch l n hm)

/-- A client is destroyed. No loop watches its `Fd_Event`: the descriptor is closed now, or has been
since a connect was refused. -/
theorem Tidy.destroy (h : Tidy st) (horderly : Orderly st (.destroy c))
    (hstep : runtimeStep st (.destroy c) = some st') : Tidy st' := by
  obtain ⟨-, hexec, hqueue, hstate, hhome⟩ := runtimeStep_eq_some hstep
  obtain ⟨hattached, hregistered⟩ := h.attached.exec hexec
  obtain ⟨t, ht, hrest⟩ := Option.bind_eq_some_iff.mp hexec
  obtain rfl : t = st'.process := Option.some.inj hrest
  obtain ⟨fd, n, hc, hconnections, hopened, howner⟩ := destroy_frame ht
  have hwatch : ∀ l n, st'.Watches l n → st.Watches l n := by
    intro l n hn
    refine (hregistered l n hn).resolve_right fun hadd => ?_
    simp [Runtime.calls] at hadd
  refine h.drop (h.owned.exec hexec) hattached ⟨horderly.1, hconnections, howner, hhome, hstate,
    hqueue, hwatch, fun l m _ hown hm => ?_, fun _ _ hserver => nomatch hserver.symm.trans hc⟩
  refine hattached.not_registered (fun hm' => ?_) hm
  obtain ⟨hopen, hkeeps⟩ := (hopened m).mp hm'
  have hfd := (h.owned.held _ _ _ _ hc m).mpr ⟨hopen, hown⟩
  -- The destructor closes every descriptor but 0.
  have hzero := horderly.2
  rw [hc, hfd] at hzero
  have hpos : 0 < m := Nat.pos_of_ne_zero fun h0 => hzero (congrArg some h0)
  apply hkeeps
  rw [hfd, Option.filter_some, if_pos (decide_eq_true hpos)]

/-- The tasks of a loop change places: each queue has the tasks it had, as often as it had them. -/
theorem Tidy.reorder {queue : List (Queued C)} (h : Tidy st)
    (hstep : runtimeStep st (.reorder l queue) = some st') : Tidy st' := by
  obtain ⟨⟨-, hperm⟩, hexec, hqueue, hstate, hhome⟩ := runtimeStep_eq_some hstep
  have hsame : ∀ l', (st'.queue l').Perm (st.queue l') := by
    intro l'
    rw [hqueue, Runtime.queueAfter]
    by_cases hl : l' = l
    · subst hl
      rwa [Function.update_self]
    · rw [Function.update_of_ne hl]
  refine h.minor ?_ hexec hhome (fun l' f hf => .inl ((hsame l').mem_iff.mp hf))
    (fun l' n => ((hsame l').count_eq _).le) ?_ fun c hc => .inl (by rwa [hstate] at hc)
  · exact fun e he => nomatch he
  · exact fun l' n he => nomatch he

/-- **An orderly step keeps the runtime tidy.** -/
theorem Tidy.step (h : Tidy st) (horderly : Orderly st e) (hstep : runtimeStep st e = some st') :
    Tidy st' := by
  obtain ⟨henabled, -, hqueue, hstate, hhome⟩ := runtimeStep_eq_some hstep
  cases e with
  | accept c l fd => exact h.make hstep (.inl rfl)
  | create c l fd => exact h.make hstep (.inr rfl)
  | setState c =>
    refine h.idle hstep rfl hhome hqueue fun d hd => ?_
    rw [hstate, Runtime.stateAfter] at hd
    by_cases hdc : d = c
    · subst hdc
      rw [Function.update_self] at hd
      cases hd
    · rwa [Function.update_of_ne hdc] at hd
  | request c task => exact h.request horderly hstep
  | report l fd trigger => exact h.report horderly hstep
  | run l outcome =>
    cases hhead : st.queue l with
    | nil => exact absurd hhead henabled.2
    | cons t rest =>
      cases t with
      | add fd => exact h.runAdd hstep hhead
      | callback f =>
        cases f with
        | some f => exact h.runCallback (horderly.holds hhead) hstep hhead
        | none => exact h.runNothing hstep hhead
  | reorder l queue => exact h.reorder hstep
  | reap c => exact h.reap horderly hstep
  | destroy c => exact h.destroy horderly hstep
  | loop l => exact h.idle hstep rfl hhome hqueue fun d hd => by rwa [hstate] at hd
  | exit l => exact h.idle hstep rfl hhome hqueue fun d hd => by rwa [hstate] at hd

omit [DecidableEq L] in
/-- In a tidy runtime the tasks capture connections in use. -/
theorem Tidy.alive (h : Tidy st) (e : RuntimeEvent L C) : Alive st e := by
  rintro l outcome f rest - hhead
  obtain ⟨n, ⟨type, fd, hc⟩, -⟩ := h.queued l f (hhead ▸ List.mem_cons_self ..)
  exact ⟨type, fd, n, hc⟩

end Step

/-! ## All steps -/

section Run

omit [DecidableEq L] in
theorem tidy_new (opened : Finset ℕ) : Tidy (.new opened : Runtime L C) where
  owned := owned_new opened
  attached := ⟨fun _ => Kernel.sound_unregistered _, fun _ => rfl, fun _ _ h => by cases h⟩
  queued _ _ h := by cases h
  watched _ _ h := by cases h
  closed _ _ _ h := by cases h
  adding _ _ h := by cases h
  once _ _ := Nat.zero_le _

/-- **No task runs on a destroyed connection** where no connection is destroyed that a queued task
captures, and where who acts, or is called back, is the last that got the number. -/
theorem alive_of_orderly (opened : Finset ℕ) (es : List (RuntimeEvent L C))
    (horderly : Along runtimeStep Orderly (.new opened) es) :
    Along runtimeStep Alive (.new opened) es :=
  horderly.imp (tidy_new opened) (fun _ e h _ => h.alive e)
    fun _ _ _ h hstep hq => h.step hq hstep

/-- A server drops a connection after its last task, and a client is destroyed after its own; the
next client has its number. -/
theorem alive_of_orderly_dropped :
    Along runtimeStep Alive (.new ∅ : Runtime (Fin 2) ℕ)
      [.accept 0 0 5, .setState 0, .loop 0, .run 0 .nothing, .report 0 5 { inEvent := true },
        .run 0 .closed, .reap 0, .create 1 1 6, .request 1 .onConnect, .loop 1,
        .report 1 6 { outEvent := true }, .run 1 .connected, .destroy 1, .create 2 1 6,
        .request 2 .onConnect, .report 1 6 { outEvent := true }, .run 1 .connected] :=
  alive_of_orderly ∅ _ (by decide +kernel)

/-- **A connection is destroyed between two tasks of one epoll result**: the reply can be written,
and the peer has closed; `onRead` closes the connection, the timer of the server destroys it, and
`onWrite` is run. -/
theorem not_alive_reaped :
    let es : List (RuntimeEvent (Fin 2) ℕ) :=
      [.accept 0 0 5, .setState 0, .loop 0, .run 0 .nothing, .report 0 5 { inEvent := true },
        .run 0 .replied, .report 0 5 { inEvent := true, outEvent := true }, .run 0 .closed, .reap 0]
    (exec runtimeStep (.new ∅) (es ++ [.run 0 .written])).isSome ∧
      ¬ Along runtimeStep Alive (.new ∅) (es ++ [.run 0 .written]) := by
  intro es
  refine ⟨by decide +kernel, fun h => ?_⟩
  have hrun : (exec runtimeStep (.new ∅) es).map
      (fun st => (st.queue 0, st.process.connections 0)) =
        some ([.callback (some ⟨0, .onWrite⟩)], .ended) := by decide +kernel
  obtain ⟨st, hst, hfacts⟩ := Option.map_eq_some_iff.mp hrun
  obtain ⟨hqueue, hended⟩ := Prod.mk.inj hfacts
  obtain ⟨type, fd, n, hlive⟩ := h.last hst 0 .written _ _ rfl hqueue
  cases hended.symm.trans hlive

end Run

end TalonRPC.Net
