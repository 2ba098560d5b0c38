import TalonRPC.Common.Log

/-!
# The end of the log workers

A signal handler calls `Logger::flush`, and then joins the two workers. `flush` hands the lines of
both channels over, as far as there are any, and raises the two stop flags. But raising a flag wakes
nobody: a worker tests it only at the end of a batch. One that waits for a batch at that moment goes
on waiting, unless somebody hands over lines once more, and the handler waits with it.

So it is the channel without lines that keeps the process from ending, and for a program that does
not use the log of the application this is always so.

## Main definitions

* `AsyncLogger.Idle`: the worker waits, and there is no batch
* `handedOver ch st e`: the lines of the channel that a step hands over
* `Logger.AtRest`: the worker of a channel cannot make a step
* `Closing`: what a step does to a worker that has been told to stop

## Main results

* `Stepped.closing`: a worker that has been told to stop takes one more batch at most, and stops
  being idle only when it is fed
* `handler_joins_iff`: which workers return, whatever is pushed and handed over after the flush
-/

namespace TalonRPC

open Machine

variable {T : Type}

namespace AsyncLogger

/-- The worker waits for a batch, and there is none. -/
def Idle (a : AsyncLogger) : Prop := a.worker = .waiting ∧ a.buffer = []

instance (a : AsyncLogger) : Decidable a.Idle := inferInstanceAs (Decidable (_ ∧ _))

variable {a a' : AsyncLogger}

theorem worker_of_take (h : a.take = some a') :
    a'.stopFlag = a.stopFlag ∧ ¬ a.Idle ∧ a.worker = .waiting ∧ a'.worker ≠ .waiting := by
  unfold take at h
  split at h
  · rename_i tmp rest hworker hbuffer
    obtain rfl := Option.some.inj h
    refine ⟨rfl, ?_, hworker, nofun⟩
    rintro ⟨-, hempty⟩
    cases hbuffer.symm.trans hempty
  · cases h

theorem worker_of_print (h : a.print = some a') :
    a'.stopFlag = a.stopFlag ∧ a.worker ≠ .waiting ∧ a'.worker ≠ .waiting := by
  unfold print at h
  split at h
  · rename_i i rest hworker
    obtain rfl := Option.some.inj h
    exact ⟨rfl, hworker ▸ nofun, nofun⟩
  · cases h

/-- The end of a batch is the end of a worker that has been told to stop. -/
theorem worker_of_endBatch (h : a.endBatch = some a') (hstop : a.stopFlag = true) :
    a'.stopFlag = true ∧ a.worker ≠ .waiting ∧ a'.worker = .returned := by
  unfold endBatch at h
  split at h
  · rename_i hworker
    rw [if_pos hstop] at h
    obtain rfl := Option.some.inj h
    exact ⟨hstop, hworker ▸ nofun, rfl⟩
  · cases h

/-- A worker that cannot make a step has returned, or it is idle. -/
theorem returned_or_idle (htake : a.take = none) (hprint : a.print = none)
    (hend : a.endBatch = none) : a.worker = .returned ∨ a.Idle := by
  cases hworker : a.worker with
  | waiting =>
    cases hbuffer : a.buffer with
    | nil => exact .inr ⟨hworker, hbuffer⟩
    | cons tmp rest => simp [take, hworker, hbuffer] at htake
  | writing rest =>
    cases rest with
    | nil => simp [endBatch, hworker] at hend
    | cons i rest => simp [print, hworker] at hprint
  | returned => exact .inl rfl

end AsyncLogger

variable [DecidableEq T] {st st' : Logger T} {e : LogStep T} {es fs : List (LogStep T)}
  {ch : LogChannel} {a : AsyncLogger}

/-- The lines of the channel that a step hands over. -/
def handedOver (ch : LogChannel) (st : Logger T) : LogStep T → List ByteString
  | .handOver t => ((st.calls.lookup t).map (SyncPoint.lines ch)).getD []
  | _ => []

/-- The worker of the channel cannot make a step. -/
def Logger.AtRest (st : Logger T) (ch : LogChannel) : Prop :=
  ∀ e ∈ [LogStep.take ch, .print ch, .endBatch ch], logStep st e = none

instance (st : Logger T) (ch : LogChannel) : Decidable (st.AtRest ch) :=
  decidable_of_iff (∀ e ∈ [LogStep.take ch, .print ch, .endBatch ch], (logStep st e).isNone = true)
    (by simp [Logger.AtRest])

/-- At rest, a worker has returned, or it is idle. -/
theorem Logger.AtRest.returned_iff (h : st.AtRest ch) :
    (st.asyncLogger ch).worker = .returned ↔ ¬ (st.asyncLogger ch).Idle := by
  have htake : (st.asyncLogger ch).take = none := by
    simpa [logStep] using h (.take ch) (by simp)
  have hprint : (st.asyncLogger ch).print = none := by
    simpa [logStep] using h (.print ch) (by simp)
  have hend : (st.asyncLogger ch).endBatch = none := by
    simpa [logStep] using h (.endBatch ch) (by simp)
  constructor
  · rintro hret ⟨hwaiting, -⟩
    cases hret.symm.trans hwaiting
  · exact (AsyncLogger.returned_or_idle htake hprint hend).resolve_right

/-- What a step does to the worker of a channel that has been told to stop. -/
structure Closing (ch : LogChannel) (st : Logger T) (e : LogStep T) (st' : Logger T) : Prop where
  stopFlag : (st'.asyncLogger ch).stopFlag = true
  idle : (st'.asyncLogger ch).Idle ↔ (st.asyncLogger ch).Idle ∧ handedOver ch st e = []
  waiting : (st'.asyncLogger ch).worker = .waiting →
    (st.asyncLogger ch).worker = .waiting ∧ e ≠ .take ch
  taken : e = .take ch → (st.asyncLogger ch).worker = .waiting

/-- A step that leaves the `AsyncLogger` of the channel as it is. -/
theorem Closing.of_eq (hstop : (st.asyncLogger ch).stopFlag = true)
    (heq : st'.asyncLogger ch = st.asyncLogger ch) (hlines : handedOver ch st e = [])
    (he : e ≠ .take ch) : Closing ch st e st' :=
  ⟨heq ▸ hstop, by simp [heq, hlines], fun hwaiting => ⟨heq ▸ hwaiting, he⟩, fun h => (he h).elim⟩

omit [DecidableEq T] in
theorem asyncLogger_setAsync_self : (st.setAsync ch a).asyncLogger ch = a :=
  Function.update_self ..

omit [DecidableEq T] in
theorem asyncLogger_setAsync_of_ne {ch' : LogChannel} (h : ch' ≠ ch) :
    (st.setAsync ch' a).asyncLogger ch = st.asyncLogger ch :=
  Function.update_of_ne (Ne.symm h) ..

omit [DecidableEq T] in
/-- To tell a worker to stop once more changes nothing. -/
theorem stop_setAsync {ch' : LogChannel} (hstop : (st.asyncLogger ch).stopFlag = true) :
    (st.setAsync ch' (st.asyncLogger ch').stop).asyncLogger ch = st.asyncLogger ch := by
  by_cases hch : ch' = ch
  · subst hch
    rw [asyncLogger_setAsync_self, AsyncLogger.stop, ← hstop]
  · exact asyncLogger_setAsync_of_ne hch

/-- A worker that is in a batch is not idle before it and not after it. -/
theorem Closing.of_working (hstop : a.stopFlag = true)
    (hbefore : (st.asyncLogger ch).worker ≠ .waiting) (hafter : a.worker ≠ .waiting)
    (he : e ≠ .take ch) : Closing ch st e (st.setAsync ch a) := by
  refine ⟨?_, ?_, ?_, fun h => (he h).elim⟩ <;> rw [asyncLogger_setAsync_self]
  · exact hstop
  · exact iff_of_false (fun h => hafter h.1) fun h => hbefore h.1.1
  · exact fun h => (hafter h).elim

theorem handedOver_handOver {t : T} {ch' : LogChannel} {tmp : List ByteString}
    (hl : st.calls.lookup t = some (.swapped ch' tmp)) :
    handedOver ch st (.handOver t) = if ch' = ch then tmp else [] := by
  simp [handedOver, hl, SyncPoint.lines]

/-- Lines that are handed over feed the worker of their channel, and no other. -/
theorem Closing.handOver {t : T} {ch' : LogChannel} {tmp : List ByteString}
    (hstop : (st.asyncLogger ch).stopFlag = true)
    (hl : st.calls.lookup t = some (.swapped ch' tmp)) :
    Closing ch st (.handOver t) (st.handOver ch' t tmp) := by
  have hlines : handedOver ch st (.handOver t) = if ch' = ch then tmp else [] :=
    handedOver_handOver hl
  by_cases hch : ch' = ch
  · subst hch
    rw [if_pos rfl] at hlines
    by_cases htmp : tmp = []
    · refine .of_eq hstop ?_ (hlines.trans htmp) (by simp)
      simp [Logger.handOver, Logger.setAsync, htmp]
    · have hpush : (st.handOver ch' t tmp).asyncLogger ch' =
          (st.asyncLogger ch').pushLogBuffer tmp := by
        simp [Logger.handOver, Logger.setAsync, htmp]
      constructor
      · rw [hpush]
        exact hstop
      · apply iff_of_false
        · simp [hpush, AsyncLogger.Idle, AsyncLogger.pushLogBuffer]
        · exact fun hidle => htmp (hlines ▸ hidle.2)
      · rw [hpush]
        exact fun hwaiting => ⟨hwaiting, by simp⟩
      · simp
  · exact .of_eq hstop (asyncLogger_handOver_of_ne hch) (hlines.trans (if_neg hch)) (by simp)

/-- **A worker that has been told to stop** takes one more batch at most, and it stops being idle
only when it is fed. -/
theorem Stepped.closing (h : Stepped st e st') (hstop : (st.asyncLogger ch).stopFlag = true) :
    Closing ch st e st' := by
  cases h with
  | push | sync | flush | swapApp => exact .of_eq hstop rfl rfl (by simp)
  | handOver t ch' tmp hl => exact .handOver hstop hl
  | stopRpc | stopApp => exact .of_eq hstop (stop_setAsync hstop) rfl (by simp)
  | take ch' a ha =>
    by_cases hch : ch' = ch
    · subst hch
      obtain ⟨hflag, hidle, hwaiting, hworking⟩ := AsyncLogger.worker_of_take ha
      refine ⟨?_, ?_, ?_, fun _ => hwaiting⟩ <;> rw [asyncLogger_setAsync_self]
      · exact hflag.trans hstop
      · exact iff_of_false (fun h => hworking h.1) fun h => hidle h.1
      · exact fun h => (hworking h).elim
    · exact .of_eq hstop (asyncLogger_setAsync_of_ne hch) rfl (by simpa using hch)
  | print ch' a ha =>
    by_cases hch : ch' = ch
    · subst hch
      obtain ⟨hflag, hbefore, hafter⟩ := AsyncLogger.worker_of_print ha
      exact .of_working (hflag.trans hstop) hbefore hafter (by simp)
    · exact .of_eq hstop (asyncLogger_setAsync_of_ne hch) rfl (by simp)
  | endBatch ch' a ha =>
    by_cases hch : ch' = ch
    · subst hch
      obtain ⟨hflag, hbefore, hret⟩ := AsyncLogger.worker_of_endBatch ha hstop
      exact .of_working hflag hbefore (by simp [hret]) (by simp)
    · exact .of_eq hstop (asyncLogger_setAsync_of_ne hch) rfl (by simp)

/-! ## The flags -/

/-- Both workers have been told to stop when `flush` returns, and the library's one before. -/
structure Raised (st : Logger T) : Prop where
  rpc : ∀ t, st.flushPoint = .rpcStopped t → (st.asyncLogger .rpc).stopFlag = true
  both : st.flushPoint = .returned → ∀ ch, (st.asyncLogger ch).stopFlag = true

theorem Raised.step (hI : Raised st) (h : logStep st e = some st') : Raised st' := by
  have hstep := stepped_of_logStep h
  have hkeep : st'.flushPoint = st.flushPoint → Raised st' := by
    intro hpoint
    refine ⟨fun t ht => (hstep.closing (hI.rpc t (hpoint ▸ ht))).stopFlag, fun hret ch => ?_⟩
    exact (hstep.closing (hI.both (hpoint ▸ hret) ch)).stopFlag
  cases hstep with
  | flush => exact ⟨by simp, by simp⟩
  | stopRpc t =>
    refine ⟨fun _ _ => ?_, by simp⟩
    simp [Logger.setAsync, AsyncLogger.stop]
  | stopApp t hpoint =>
    refine ⟨by simp, fun _ ch => ?_⟩
    cases ch with
    | rpc => simpa [Logger.setAsync] using hI.rpc t hpoint
    | app => simp [Logger.setAsync, AsyncLogger.stop]
  | _ => exact hkeep rfl

/-- When `flush` has returned, both workers have been told to stop. -/
theorem stopFlag_of_flushed (h : exec logStep {} es = some st)
    (hflushed : st.flushPoint = .returned) (ch : LogChannel) :
    (st.asyncLogger ch).stopFlag = true := by
  have hinit : Raised ({} : Logger T) :=
    ⟨by simp, by simp⟩
  exact (exec_invariant (fun _ _ _ => Raised.step) hinit h).both hflushed ch

/-! ## After the flush -/

/-- What holds of a worker over a run `fs` that starts when it has been told to stop. -/
structure Closed (ch : LogChannel) (st : Logger T) (fs : List (LogStep T)) (st' : Logger T) :
    Prop where
  stopFlag : (st'.asyncLogger ch).stopFlag = true
  idle : (st'.asyncLogger ch).Idle ↔
    (st.asyncLogger ch).Idle ∧ Along logStep (fun s e => handedOver ch s e = []) st fs
  waiting : (st'.asyncLogger ch).worker = .waiting → fs.count (.take ch) = 0
  taken : fs.count (.take ch) ≤ 1

theorem Closed.step {st₀ : Logger T} (hI : Closed ch st₀ fs st)
    (hrun : exec logStep st₀ fs = some st) (h : logStep st e = some st') :
    Closed ch st₀ (fs ++ [e]) st' := by
  have hclosing := (stepped_of_logStep h).closing hI.stopFlag
  refine ⟨hclosing.stopFlag, ?_, fun hwaiting => ?_, ?_⟩
  · rw [hclosing.idle, hI.idle, along_snoc hrun, and_assoc]
  · obtain ⟨hbefore, he⟩ := hclosing.waiting hwaiting
    rw [List.count_append, hI.waiting hbefore, List.count_singleton, if_neg (by simpa using he)]
  · rw [List.count_append, List.count_singleton]
    by_cases he : e = .take ch
    · rw [hI.waiting (hclosing.taken he)]
      split <;> decide
    · rw [if_neg (by simpa using he)]
      exact hI.taken

/-- **Which workers return after a flush**, whatever is pushed and handed over in the meantime and
in whatever order the threads and the workers go on: a worker takes one more batch at most, and once
it can do nothing more it has returned, unless it was idle when `flush` returned and no lines of its
channel have been handed over since. The signal handler joins both workers. -/
theorem handler_joins_iff (es fs : List (LogStep T)) (h : exec logStep {} es = some st)
    (hflushed : st.flushPoint = .returned) (hrun : exec logStep st fs = some st')
    (ch : LogChannel) :
    fs.count (.take ch) ≤ 1 ∧ (st'.AtRest ch →
      ((st'.asyncLogger ch).worker = .returned ↔
        ¬ ((st.asyncLogger ch).Idle ∧
          Along logStep (fun s e => handedOver ch s e = []) st fs))) := by
  have hclosed : Closed ch st fs st' := by
    refine exec_history (I := Closed ch st) ?_ (fun _ _ _ _ hrun hI hs => hI.step hrun hs) hrun
    exact ⟨stopFlag_of_flushed h hflushed ch, by simp [Along], fun _ => rfl, Nat.zero_le _⟩
  exact ⟨hclosed.taken, fun hrest => by rw [hrest.returned_iff, hclosed.idle]⟩

/-- The signal handler takes the lines of the library from the buffer, and there are none of the
application: the worker of the library prints them and returns. -/
def crashed : List (LogStep Bool) :=
  [.push .rpc ([0x61, 0x0a]), .flush true, .handOver true, .swapApp true, .handOver true,
    .stop .rpc, .stop .app]

/-- The worker of the application goes on waiting. -/
theorem handler_joins_iff_crashed : ∃ st st', exec logStep {} crashed = some st ∧
    exec logStep st [.take .rpc, .print .rpc, .endBatch .rpc] = some st' ∧
    (st'.asyncLogger .rpc).worker = .returned ∧ (st'.asyncLogger .app).worker ≠ .returned := by
  refine ⟨_, _, rfl, rfl, ?_, fun hret => ?_⟩
  · refine ((handler_joins_iff crashed [.take .rpc, .print .rpc, .endBatch .rpc] rfl rfl rfl .rpc).2
      (by decide)).mpr ?_
    decide
  · refine ((handler_joins_iff crashed [.take .rpc, .print .rpc, .endBatch .rpc] rfl rfl rfl .app).2
      (by decide)).mp hret ?_
    decide

end TalonRPC
