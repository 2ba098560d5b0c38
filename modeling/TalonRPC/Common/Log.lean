import Mathlib.Data.List.AList
import TalonRPC.Bytes.Fields
import TalonRPC.Machine.Run
import TalonRPC.TinyPB.Protocol

/-!
# The log pipeline

A line that is pushed to a `Logger` waits in its buffer until a `syncLoop` swaps the buffer out and
hands the lines to an `AsyncLogger`, which queues them as a batch for its worker. The worker takes
batch after batch and prints it. It tests the stop flag after every batch, and not whether batches
are left: `flush` queues the last lines and raises the flag, and a worker that had more than one
batch to go returns without them.

The guards on the mutexes are released once more than they should be (`Common/Mutex`), so the model
does not rely on `m_app_mutex` being held while the application lines are handed over.

## Main definitions

* `AsyncLogger`, `Logger`: the queue with its worker, and the two buffers with the `syncLoop` calls
  under way
* `LogStep`, `logStep`: what a thread or a worker does in one critical section
* `Logger.pipeline`: the lines of a channel, from those already written to the buffer
* `Conveyed`: what the pipeline owes to the lines pushed so far
* `InTurn`: a step that neither overtakes other lines nor stops a worker that has batches to spare

## Main results

* `Piped.step`: a step in turn keeps the lines in order, and those pushed before `flush` ahead
* `conveyed_of_inTurn`: in a run of such steps the pipeline loses, duplicates and reorders nothing
-/

namespace TalonRPC

open Machine

variable {T : Type}

/-- The logs of the library and of the application, each with its buffer and its worker. -/
inductive LogChannel
  | rpc
  | app
  deriving DecidableEq, Repr

/-- Where the worker in `AsyncLogger::Loop` is: at the condition variable, in the loop over a batch
with the lines it still has to print, or out of the loop. -/
inductive LogWorker
  | waiting
  | writing (rest : List ByteString)
  | returned
  deriving DecidableEq, Repr

/-- `AsyncLogger`, with its worker and what that has printed. -/
structure AsyncLogger where
  buffer : List (List ByteString) := []
  stopFlag : Bool := false
  worker : LogWorker := .waiting
  written : List ByteString := []
  deriving DecidableEq, Repr

namespace AsyncLogger

/-- `AsyncLogger::stop`. -/
def stop (a : AsyncLogger) : AsyncLogger := { a with stopFlag := true }

/-- `AsyncLogger::pushLogBuffer`. -/
def pushLogBuffer (a : AsyncLogger) (vec : List ByteString) : AsyncLogger :=
  { a with buffer := a.buffer ++ [vec] }

/-- The first part of an iteration of `AsyncLogger::Loop`: the oldest batch is taken. -/
def take (a : AsyncLogger) : Option AsyncLogger :=
  match a.worker, a.buffer with
  | .waiting, tmp :: rest => some { a with worker := .writing tmp, buffer := rest }
  | _, _ => none

/-- A line of the batch is printed as a C string, if it is not empty. -/
def print (a : AsyncLogger) : Option AsyncLogger :=
  match a.worker with
  | .writing (i :: rest) =>
    some { a with
      worker := .writing rest
      written := if i ≠ [] then a.written ++ [i.takeWhile (· ≠ 0)] else a.written }
  | _ => none

/-- The end of an iteration: the stop flag is tested, and nothing else. -/
def endBatch (a : AsyncLogger) : Option AsyncLogger :=
  match a.worker with
  | .writing [] => some { a with worker := if a.stopFlag then .returned else .waiting }
  | _ => none

/-- What the worker has still to print of its batch. -/
def batch (a : AsyncLogger) : List ByteString :=
  match a.worker with
  | .writing rest => rest
  | _ => []

/-- The lines that have reached the `AsyncLogger`, in order. -/
def sent (a : AsyncLogger) : List ByteString := a.written ++ a.batch ++ a.buffer.flatten

end AsyncLogger

/-- Where a `syncLoop` call is: it has swapped out the lines of a channel and not yet handed them
over, or it is between the two channels. -/
inductive SyncPoint
  | swapped (ch : LogChannel) (tmp : List ByteString)
  | synced
  deriving DecidableEq, Repr

/-- The lines of a channel that the call has in hand. -/
def SyncPoint.lines (ch : LogChannel) : SyncPoint → List ByteString
  | .swapped ch' tmp => if ch' = ch then tmp else []
  | .synced => []

/-- How far `Logger::flush` is: not called, in its `syncLoop` or just after it, past the stop of the
first worker, or past both. -/
inductive FlushPoint (T : Type)
  | notCalled
  | called (t : T)
  | rpcStopped (t : T)
  | returned
  deriving DecidableEq, Repr

namespace FlushPoint

/-- The caller is inside `flush`. -/
def busy [DecidableEq T] (t : T) : FlushPoint T → Bool
  | .called t' => t' = t
  | .rpcStopped t' => t' = t
  | _ => false

end FlushPoint

/-- `Logger`, for an `m_type` other than 0: `m_buffer` and `m_app_buffer`, `m_asnyc_logger` and
`m_asnyc_app_logger`, and the `syncLoop` calls under way, by their callers. The one that has swapped
a buffer last comes first. A signal handler counts as a caller of its own. -/
structure Logger (T : Type) where
  buffer : LogChannel → List ByteString := fun _ => []
  asyncLogger : LogChannel → AsyncLogger := fun _ => {}
  calls : AList fun _ : T => SyncPoint := ∅
  flushPoint : FlushPoint T := .notCalled

/-- A step: a line is pushed, a `syncLoop` starts, by itself or in `flush`, swaps the second buffer
or hands its lines over, `flush` stops a worker, or a worker takes a batch, prints a line or comes
to the end of its batch. -/
inductive LogStep (T : Type)
  | push (ch : LogChannel) (msg : ByteString)
  | sync (t : T)
  | flush (t : T)
  | swapApp (t : T)
  | handOver (t : T)
  | stop (ch : LogChannel)
  | take (ch : LogChannel)
  | print (ch : LogChannel)
  | endBatch (ch : LogChannel)
  deriving DecidableEq, Repr

namespace Logger

/-- `Logger::pushLog` and `Logger::pushAppLog`. -/
def push (st : Logger T) (ch : LogChannel) (msg : ByteString) : Logger T :=
  { st with buffer := Function.update st.buffer ch (st.buffer ch ++ [msg]) }

/-- A critical section on an `AsyncLogger`. -/
def setAsync (st : Logger T) (ch : LogChannel) (a : AsyncLogger) : Logger T :=
  { st with asyncLogger := Function.update st.asyncLogger ch a }

variable [DecidableEq T]

/-- `tmp_vec.swap(m_buffer)` and `tmp_vec2.swap(m_app_buffer)` in `Logger::syncLoop`. -/
def swap (st : Logger T) (ch : LogChannel) (t : T) : Logger T :=
  { st with
    buffer := Function.update st.buffer ch []
    calls := st.calls.insert t (.swapped ch (st.buffer ch)) }

/-- The lines in hand are pushed to the `AsyncLogger`, if there are any. After those of the
application `syncLoop` is at its end. -/
def handOver (st : Logger T) (ch : LogChannel) (t : T) (tmp : List ByteString) : Logger T :=
  { st.setAsync ch
      (if tmp ≠ [] then (st.asyncLogger ch).pushLogBuffer tmp else st.asyncLogger ch) with
    calls :=
      match ch with
      | .rpc => st.calls.insert t .synced
      | .app => st.calls.erase t }

/-- `AsyncLogger::stop`, as `Logger::flush` calls it once its `syncLoop` has returned: first for
`m_asnyc_logger`, then for `m_asnyc_app_logger`. -/
def stop (st : Logger T) (ch : LogChannel) : Option (Logger T) :=
  match st.flushPoint, ch with
  | .called t, .rpc =>
    if t ∈ st.calls then none
    else some { st.setAsync .rpc (st.asyncLogger .rpc).stop with flushPoint := .rpcStopped t }
  | .rpcStopped _, .app =>
    some { st.setAsync .app (st.asyncLogger .app).stop with flushPoint := .returned }
  | _, _ => none

end Logger

/-- The state after a step, if it can happen. -/
def logStep [DecidableEq T] (st : Logger T) : LogStep T → Option (Logger T)
  | .push ch msg => some (st.push ch msg)
  | .sync t => if t ∈ st.calls ∨ st.flushPoint.busy t then none else some (st.swap .rpc t)
  | .flush t =>
    match st.flushPoint with
    | .notCalled =>
      if t ∈ st.calls then none else some { st.swap .rpc t with flushPoint := .called t }
    | _ => none
  | .swapApp t =>
    match st.calls.lookup t with
    | some .synced => some (st.swap .app t)
    | _ => none
  | .handOver t =>
    match st.calls.lookup t with
    | some (.swapped ch tmp) => some (st.handOver ch t tmp)
    | _ => none
  | .stop ch => st.stop ch
  | .take ch => (st.asyncLogger ch).take.map (st.setAsync ch)
  | .print ch => (st.asyncLogger ch).print.map (st.setAsync ch)
  | .endBatch ch => (st.asyncLogger ch).endBatch.map (st.setAsync ch)

/-- What the steps that can happen do. -/
inductive Stepped [DecidableEq T] (st : Logger T) : LogStep T → Logger T → Prop
  | push (ch msg) : Stepped st (.push ch msg) (st.push ch msg)
  | sync (t) : t ∉ st.calls → st.flushPoint.busy t = false → Stepped st (.sync t) (st.swap .rpc t)
  | flush (t) : st.flushPoint = .notCalled → t ∉ st.calls →
    Stepped st (.flush t) { st.swap .rpc t with flushPoint := .called t }
  | swapApp (t) : st.calls.lookup t = some .synced → Stepped st (.swapApp t) (st.swap .app t)
  | handOver (t ch tmp) : st.calls.lookup t = some (.swapped ch tmp) →
    Stepped st (.handOver t) (st.handOver ch t tmp)
  | stopRpc (t) : st.flushPoint = .called t → t ∉ st.calls →
    Stepped st (.stop .rpc)
      { st.setAsync .rpc (st.asyncLogger .rpc).stop with flushPoint := .rpcStopped t }
  | stopApp (t) : st.flushPoint = .rpcStopped t →
    Stepped st (.stop .app)
      { st.setAsync .app (st.asyncLogger .app).stop with flushPoint := .returned }
  | take (ch a) : (st.asyncLogger ch).take = some a → Stepped st (.take ch) (st.setAsync ch a)
  | print (ch a) : (st.asyncLogger ch).print = some a → Stepped st (.print ch) (st.setAsync ch a)
  | endBatch (ch a) : (st.asyncLogger ch).endBatch = some a →
    Stepped st (.endBatch ch) (st.setAsync ch a)

theorem stepped_of_logStep [DecidableEq T] {st st' : Logger T} {e : LogStep T}
    (h : logStep st e = some st') : Stepped st e st' := by
  cases e with
  | push ch msg =>
    obtain rfl := Option.some.inj h
    exact .push ch msg
  | sync t =>
    rw [logStep, Option.ite_none_left_eq_some, not_or, Bool.not_eq_true] at h
    obtain ⟨⟨hmem, hbusy⟩, heq⟩ := h
    obtain rfl := Option.some.inj heq
    exact .sync t hmem hbusy
  | flush t =>
    simp only [logStep] at h
    split at h
    · rename_i hpoint
      rw [Option.ite_none_left_eq_some] at h
      obtain ⟨hmem, heq⟩ := h
      obtain rfl := Option.some.inj heq
      exact .flush t hpoint hmem
    · cases h
  | swapApp t =>
    simp only [logStep] at h
    split at h
    · rename_i hl
      obtain rfl := Option.some.inj h
      exact .swapApp t hl
    · cases h
  | handOver t =>
    simp only [logStep] at h
    split at h
    · rename_i ch tmp hl
      obtain rfl := Option.some.inj h
      exact .handOver t ch tmp hl
    · cases h
  | stop ch =>
    simp only [logStep, Logger.stop] at h
    split at h
    · rename_i t hpoint
      rw [Option.ite_none_left_eq_some] at h
      obtain ⟨hmem, heq⟩ := h
      obtain rfl := Option.some.inj heq
      exact .stopRpc t hpoint hmem
    · rename_i t hpoint
      obtain rfl := Option.some.inj h
      exact .stopApp t hpoint
    · cases h
  | take ch =>
    obtain ⟨a, ha, rfl⟩ := Option.map_eq_some_iff.mp h
    exact .take ch a ha
  | print ch =>
    obtain ⟨a, ha, rfl⟩ := Option.map_eq_some_iff.mp h
    exact .print ch a ha
  | endBatch ch =>
    obtain ⟨a, ha, rfl⟩ := Option.map_eq_some_iff.mp h
    exact .endBatch ch a ha

/-! ## The lines of a channel -/

/-- The lines of the channel that calls have in hand, the earlier call first. -/
def inHand (ch : LogChannel) : List (Sigma fun _ : T => SyncPoint) → List ByteString
  | [] => []
  | ⟨_, p⟩ :: calls => inHand ch calls ++ p.lines ch

/-- Those of the calls before that of `t`. -/
def older [DecidableEq T] (t : T) (ch : LogChannel) :
    List (Sigma fun _ : T => SyncPoint) → List ByteString
  | [] => []
  | ⟨t', _⟩ :: calls => if t' = t then inHand ch calls else older t ch calls

/-- Those of the calls after that of `t`. -/
def newer [DecidableEq T] (t : T) (ch : LogChannel) :
    List (Sigma fun _ : T => SyncPoint) → List ByteString
  | [] => []
  | ⟨t', p⟩ :: calls => if t' = t then [] else newer t ch calls ++ p.lines ch

/-- The lines of a channel, in order: those that have reached the `AsyncLogger`, those in hand, and
those in the buffer. -/
def Logger.pipeline (st : Logger T) (ch : LogChannel) : List ByteString :=
  (st.asyncLogger ch).sent ++ inHand ch st.calls.entries ++ st.buffer ch

namespace LogStep

/-- The lines that a step pushes to the channel. -/
def pushed (ch : LogChannel) : LogStep T → List ByteString
  | .push ch' msg => if ch' = ch then [msg] else []
  | _ => []

/-- A call of `flush`. -/
def isFlush : LogStep T → Bool
  | .flush _ => true
  | _ => false

end LogStep

/-- The lines pushed to the channel, in order. -/
def pushed (ch : LogChannel) (es : List (LogStep T)) : List ByteString :=
  es.flatMap (LogStep.pushed ch)

/-- The steps before the call of `flush`. -/
def beforeFlush (es : List (LogStep T)) : List (LogStep T) := es.takeWhile fun e => !e.isFlush

theorem pushed_snoc (ch : LogChannel) (es : List (LogStep T)) (e : LogStep T) :
    pushed ch (es ++ [e]) = pushed ch es ++ e.pushed ch := by
  simp [pushed]

theorem prefix_pushed_beforeFlush (ch : LogChannel) (es : List (LogStep T)) :
    pushed ch (beforeFlush es) <+: pushed ch es := by
  obtain ⟨fs, hfs⟩ := List.takeWhile_prefix (fun e : LogStep T => !e.isFlush) (l := es)
  refine ⟨pushed ch fs, ?_⟩
  conv_rhs => rw [← hfs]
  rw [beforeFlush, pushed, pushed, pushed, List.flatMap_append]

/-- Once `flush` is called, the steps before the call stay the same. -/
theorem beforeFlush_snoc {es : List (LogStep T)} {e : LogStep T} (h : ∃ f ∈ es, f.isFlush = true) :
    beforeFlush (es ++ [e]) = beforeFlush es := by
  induction es with
  | nil => simp at h
  | cons f es ih =>
    cases hf : f.isFlush with
    | true => simp [beforeFlush, hf]
    | false =>
      have hrest : ∃ f ∈ es, f.isFlush = true := by simpa [hf] using h
      have := ih hrest
      simpa [beforeFlush, hf] using this

/-- **The pipeline loses, duplicates and reorders nothing**: the lines written, those of the
worker's batch, of the queue, in the hands of a `syncLoop` and in the buffer are the lines pushed so
far, in order, and a worker that has returned has written all lines pushed before `flush`. -/
structure Conveyed (es : List (LogStep T)) (st : Logger T) : Prop where
  inOrder : ∀ ch, st.pipeline ch = pushed ch es
  flushed : ∀ ch, (st.asyncLogger ch).worker = .returned →
    pushed ch (beforeFlush es) <+: (st.asyncLogger ch).written

/-- The worker has at most one batch to go. -/
def AsyncLogger.Drained (a : AsyncLogger) : Prop :=
  match a.worker with
  | .waiting => a.buffer.length ≤ 1
  | _ => a.buffer = []

instance (a : AsyncLogger) : Decidable a.Drained :=
  match h : a.worker with
  | .waiting => decidable_of_iff (a.buffer.length ≤ 1) (by simp [AsyncLogger.Drained, h])
  | .writing _ | .returned => decidable_of_iff (a.buffer = []) (by simp [AsyncLogger.Drained, h])

/-- No call before that of `t` has lines of the channel in hand that `t` is about to hand over. A
call that has none to hand over overtakes nobody, unless it is that of `flush`, after which the
worker is stopped. -/
def Logger.Foremost [DecidableEq T] (st : Logger T) (t : T) : Prop :=
  ∀ ch tmp, st.calls.lookup t = some (.swapped ch tmp) →
    tmp ≠ [] ∨ st.flushPoint = .called t → older t ch st.calls.entries = []

instance [DecidableEq T] (st : Logger T) (t : T) : Decidable (st.Foremost t) :=
  match h : st.calls.lookup t with
  | none | some .synced => .isTrue (by simp [Logger.Foremost, h])
  | some (.swapped ch tmp) =>
    decidable_of_iff (tmp ≠ [] ∨ st.flushPoint = .called t → older t ch st.calls.entries = [])
      (by simp [Logger.Foremost, h])

/-- A step in turn: lines with a null byte are not pushed, lines are not handed over while an
earlier `syncLoop` has lines of the same channel in hand, nor does `flush` go on then, and a worker
is not stopped while it has more than one batch to go. -/
def InTurn [DecidableEq T] (st : Logger T) : LogStep T → Prop
  | .push _ msg => 0 ∉ msg
  | .handOver t => st.Foremost t
  | .stop ch => (st.asyncLogger ch).Drained
  | _ => True

instance [DecidableEq T] (st : Logger T) (e : LogStep T) : Decidable (InTurn st e) :=
  match e with
  | .push _ msg => inferInstanceAs (Decidable (0 ∉ msg))
  | .handOver t => inferInstanceAs (Decidable (st.Foremost t))
  | .stop ch => inferInstanceAs (Decidable (st.asyncLogger ch).Drained)
  | .sync _ | .flush _ | .swapApp _ | .take _ | .print _ | .endBatch _ => .isTrue trivial

section Lines

variable [DecidableEq T] {t t' : T} {ch : LogChannel} {p : SyncPoint}
  {calls : List (Sigma fun _ : T => SyncPoint)}

/-- The lines in hand, taken apart at the call of `t`. -/
theorem inHand_of_lookup (h : calls.dlookup t = some p) :
    inHand ch calls = older t ch calls ++ p.lines ch ++ newer t ch calls := by
  induction calls with
  | nil => simp at h
  | cons c calls ih =>
    obtain ⟨t', p'⟩ := c
    by_cases hne : t' = t
    · subst hne
      rw [List.dlookup_cons_eq] at h
      obtain rfl := Option.some.inj h
      simp [inHand, older, newer]
    · rw [List.dlookup_cons_ne _ _ (Ne.symm hne)] at h
      simp only [inHand, older, newer, if_neg hne, ih h, List.append_assoc]

theorem inHand_kerase_of_lookup (h : calls.dlookup t = some p) :
    inHand ch (calls.kerase t) = older t ch calls ++ newer t ch calls := by
  induction calls with
  | nil => simp at h
  | cons c calls ih =>
    obtain ⟨t', p'⟩ := c
    by_cases hne : t' = t
    · subst hne
      simp [older, newer]
    · rw [List.dlookup_cons_ne _ _ (Ne.symm hne)] at h
      rw [List.kerase_cons_ne (Ne.symm hne)]
      simp only [inHand, older, newer, if_neg hne, ih h, List.append_assoc]

/-- That another call leaves its place adds nothing to the lines behind `t`. -/
theorem length_newer_kerase_le (hne : t ≠ t') :
    (newer t ch (calls.kerase t')).length ≤ (newer t ch calls).length := by
  induction calls with
  | nil => exact le_rfl
  | cons c calls ih =>
    obtain ⟨s, p'⟩ := c
    by_cases hs : s = t'
    · subst hs
      simp only [List.kerase_cons_eq, newer, if_neg (Ne.symm hne), List.length_append]
      omega
    · rw [List.kerase_cons_ne (Ne.symm hs), newer, newer]
      split
      · exact le_rfl
      · simpa using ih

end Lines

/-! ## What a worker does -/

namespace AsyncLogger

variable {a a' : AsyncLogger} {vec : List ByteString} {P : List ByteString}

@[simp] theorem sent_pushLogBuffer (a : AsyncLogger) (vec : List ByteString) :
    (a.pushLogBuffer vec).sent = a.sent ++ vec := by
  simp [sent, batch, pushLogBuffer]

/-- The lines `P` are written, or are in the batch that the worker prints or takes next. -/
def Settled (P : List ByteString) (a : AsyncLogger) : Prop :=
  match a.worker with
  | .waiting => P <+: a.written ++ a.buffer.headD []
  | _ => P <+: a.written ++ a.batch

/-- The worker has been told to stop, or has returned. -/
def Stopped (a : AsyncLogger) : Prop := a.stopFlag = true ∨ a.worker = .returned

/-- What a step of the worker keeps. -/
structure Works (a a' : AsyncLogger) : Prop where
  sent : a'.sent = a.sent
  stopped : a'.Stopped → a.Stopped
  settled : ∀ P, a.Settled P → a'.Settled P

theorem works_take (h : a.take = some a') : Works a a' := by
  unfold take at h
  split at h
  · rename_i tmp rest hworker hbuffer
    obtain rfl := Option.some.inj h
    refine ⟨?_, fun h => .inl (by simpa [Stopped] using h), fun P hP => ?_⟩
    · simp [sent, batch, hworker, hbuffer]
    · simpa [Settled, batch, hworker, hbuffer] using hP
  · cases h

/-- A line that is not empty and has no null byte is printed as it is. -/
theorem works_print (h : a.print = some a') (hclean : ∀ i ∈ a.batch, i ≠ [] ∧ 0 ∉ i) :
    Works a a' := by
  unfold print at h
  split at h
  · rename_i i rest hworker
    obtain rfl := Option.some.inj h
    obtain ⟨hne, hnul⟩ := hclean i (by simp [batch, hworker])
    have htext : i.takeWhile (· ≠ 0) = i := Bytes.takeWhile_ne_eq_iff.mpr hnul
    refine ⟨?_, fun h => .inl (by simpa [Stopped] using h), fun P hP => ?_⟩
    · simp only [sent, batch, hworker, if_pos hne, htext, List.append_assoc, List.cons_append,
        List.nil_append]
    · simp only [Settled, batch, hworker, if_pos hne, htext, List.append_assoc, List.cons_append,
        List.nil_append] at hP ⊢
      exact hP
  · cases h

theorem works_endBatch (h : a.endBatch = some a') : Works a a' := by
  unfold endBatch at h
  split at h
  · rename_i hworker
    obtain rfl := Option.some.inj h
    refine ⟨?_, fun h => .inl ?_, fun P hP => ?_⟩
    · cases hflag : a.stopFlag <;> simp [sent, batch, hworker]
    · by_contra hflag
      simp [Stopped, hflag] at h
    · simp only [Settled, batch, hworker, List.append_nil] at hP
      cases hflag : a.stopFlag
      · exact hP.trans (List.prefix_append _ _)
      · simpa [Settled, batch] using hP
  · cases h

theorem Settled.pushLogBuffer (h : a.Settled P) (vec : List ByteString) :
    (a.pushLogBuffer vec).Settled P := by
  unfold Settled AsyncLogger.pushLogBuffer at *
  cases hworker : a.worker with
  | waiting =>
    simp only [hworker] at h ⊢
    cases hbuffer : a.buffer with
    | nil => exact (by simpa [hbuffer] using h : P <+: a.written).trans (List.prefix_append _ _)
    | cons tmp rest => simpa [hbuffer] using h
  | writing rest => simpa only [hworker, batch] using h
  | returned => simpa only [hworker, batch] using h

/-- A worker that has at most one batch to go is settled with all lines it was sent. -/
theorem Drained.settled (h : a.Drained) (hP : P <+: a.sent) : a.Settled P := by
  unfold Drained at h
  unfold Settled
  unfold sent at hP
  cases hworker : a.worker with
  | waiting =>
    simp only [hworker] at h ⊢
    match hbuffer : a.buffer, h with
    | [], _ => simpa [batch, hworker, hbuffer] using hP
    | [tmp], _ => simpa [batch, hworker, hbuffer] using hP
  | writing rest =>
    simp only [hworker] at h ⊢
    simpa [h] using hP
  | returned =>
    simp only [hworker] at h ⊢
    simpa [h] using hP

end AsyncLogger

/-! ## What a step does to the lines -/

variable [DecidableEq T] {st st' : Logger T} {e : LogStep T} {es : List (LogStep T)}
  {ch : LogChannel} {t : T} {tmp : List ByteString} {a : AsyncLogger}

/-- `flush` is past the place where it hands over the lines of the channel. -/
def Logger.Passed (st : Logger T) (ch : LogChannel) : Prop :=
  match st.flushPoint, ch with
  | .notCalled, _ => False
  | .called t, .rpc => ∀ tmp, st.calls.lookup t ≠ some (.swapped .rpc tmp)
  | .called t, .app => st.calls.lookup t = none
  | .rpcStopped _, _ => True
  | .returned, _ => True

/-- What a step does to the lines of a channel: those it pushes are added at the end, and those that
have reached the `AsyncLogger` stay in front. -/
structure Conveys (st st' : Logger T) (ch : LogChannel) (new : List ByteString) : Prop where
  pipeline : st'.pipeline ch = st.pipeline ch ++ new
  sent : (st.asyncLogger ch).sent <+: (st'.asyncLogger ch).sent
  /-- A worker is stopped once the lines of `flush` have reached it, with one batch to go. -/
  stopped : (st'.asyncLogger ch).Stopped →
    (st.asyncLogger ch).Stopped ∨ st.Passed ch ∧ (st.asyncLogger ch).Drained
  settled : ∀ P, (st.asyncLogger ch).Settled P → (st'.asyncLogger ch).Settled P
  /-- A call that has lines in hand had them before, with as many lines behind it, or has just taken
  them all. -/
  behind : ∀ t tmp, st'.calls.lookup t = some (.swapped ch tmp) →
    (st.calls.lookup t = some (.swapped ch tmp) ∧
      (newer t ch st'.calls.entries).length + (st'.buffer ch).length ≤
        (newer t ch st.calls.entries).length + (st.buffer ch).length + new.length) ∨
    (newer t ch st'.calls.entries = [] ∧ st'.buffer ch = [])

theorem Conveys.of_eq (hpipe : st'.pipeline ch = st.pipeline ch)
    (hasync : st'.asyncLogger ch = st.asyncLogger ch)
    (hbehind : ∀ t tmp, st'.calls.lookup t = some (.swapped ch tmp) →
      (st.calls.lookup t = some (.swapped ch tmp) ∧
        (newer t ch st'.calls.entries).length + (st'.buffer ch).length ≤
          (newer t ch st.calls.entries).length + (st.buffer ch).length) ∨
      (newer t ch st'.calls.entries = [] ∧ st'.buffer ch = [])) : Conveys st st' ch [] where
  pipeline := by rw [hpipe, List.append_nil]
  sent := hasync ▸ List.prefix_rfl
  stopped h := .inl (hasync ▸ h)
  settled P hP := hasync ▸ hP
  behind := by simpa using hbehind

theorem conveys_push (st : Logger T) (ch' : LogChannel) (msg : ByteString) (ch : LogChannel) :
    Conveys st (st.push ch' msg) ch ((LogStep.push ch' msg : LogStep T).pushed ch) := by
  have hbuffer : (st.push ch' msg).buffer ch =
      st.buffer ch ++ (LogStep.push ch' msg : LogStep T).pushed ch := by
    by_cases hch : ch' = ch
    · subst hch
      simp [Logger.push, LogStep.pushed]
    · simp [Logger.push, LogStep.pushed, hch, Function.update_of_ne (Ne.symm hch)]
  refine ⟨?_, List.prefix_rfl, fun h => .inl h, fun P hP => hP, ?_⟩
  · rw [Logger.pipeline, hbuffer, ← List.append_assoc]
    rfl
  · intro t tmp h
    refine .inl ⟨h, ?_⟩
    rw [hbuffer, List.length_append, ← add_assoc]
    exact le_rfl

/-- A call that has no lines of the channel in hand takes those in the buffer. -/
theorem conveys_swap (ch' : LogChannel) (h : ∀ tmp, st.calls.lookup t ≠ some (.swapped ch tmp)) :
    Conveys st (st.swap ch' t) ch [] := by
  have hkeep : inHand ch (st.calls.entries.kerase t) = inHand ch st.calls.entries := by
    cases hl : st.calls.entries.dlookup t with
    | none => rw [List.kerase_of_notMem_keys (List.dlookup_eq_none.mp hl)]
    | some p =>
      have hp : p.lines ch = [] := by
        cases p with
        | synced => rfl
        | swapped c tmp =>
          have hc : c ≠ ch := fun hc => h tmp (hc ▸ hl)
          simp [SyncPoint.lines, hc]
      rw [inHand_kerase_of_lookup hl, inHand_of_lookup hl, hp, List.append_nil]
  refine .of_eq ?_ rfl fun t' tmp hl => ?_
  · by_cases hch : ch' = ch
    · subst hch
      simp [Logger.pipeline, Logger.swap, inHand, SyncPoint.lines, hkeep]
    · simp [Logger.pipeline, Logger.swap, inHand, SyncPoint.lines, hkeep, hch,
        Function.update_of_ne (Ne.symm hch)]
  · by_cases ht : t' = t
    · subst ht
      have hp := Option.some.inj ((AList.lookup_insert st.calls).symm.trans hl)
      obtain ⟨rfl, -⟩ := SyncPoint.swapped.inj hp
      exact .inr ⟨by simp [Logger.swap, newer], by simp [Logger.swap]⟩
    · rw [Logger.swap, AList.lookup_insert_ne ht] at hl
      refine .inl ⟨hl, ?_⟩
      have hle : (newer t' ch (st.calls.entries.kerase t)).length ≤
          (newer t' ch st.calls.entries).length := length_newer_kerase_le ht
      simp only [Logger.swap, AList.entries_insert, newer, if_neg (Ne.symm ht), SyncPoint.lines,
        List.length_append]
      by_cases hch : ch' = ch
      · subst hch
        simp only [if_true, Function.update_self, List.length_nil]
        omega
      · simp only [if_neg hch, List.length_nil, Function.update_of_ne (Ne.symm hch)]
        omega

/-- A critical section on an `AsyncLogger` that keeps its lines, whatever `flush` does then. -/
theorem Conveys.setAsync (ch' : LogChannel) (fp : FlushPoint T)
    (hsent : a.sent = (st.asyncLogger ch').sent)
    (hstopped : a.Stopped →
      (st.asyncLogger ch').Stopped ∨ st.Passed ch' ∧ (st.asyncLogger ch').Drained)
    (hsettled : ∀ P, (st.asyncLogger ch').Settled P → a.Settled P) :
    Conveys st { st.setAsync ch' a with flushPoint := fp } ch [] := by
  by_cases hch : ch' = ch
  · subst hch
    have hasync : (st.setAsync ch' a).asyncLogger ch' = a := by simp [Logger.setAsync]
    refine ⟨?_, ?_, ?_, ?_, fun t tmp hl => .inl ⟨hl, le_rfl⟩⟩
    · rw [Logger.pipeline, hasync, hsent, List.append_nil]
      rfl
    · simp [hasync, hsent]
    · rw [hasync]
      exact hstopped
    · rw [hasync]
      exact hsettled
  · have hasync : (st.setAsync ch' a).asyncLogger ch = st.asyncLogger ch := by
      simp [Logger.setAsync, Function.update_of_ne (Ne.symm hch)]
    refine .of_eq ?_ hasync fun t tmp hl => .inl ⟨hl, le_rfl⟩
    rw [Logger.pipeline, hasync]
    rfl

theorem conveys_works {ch' : LogChannel} (h : AsyncLogger.Works (st.asyncLogger ch') a) :
    Conveys st (st.setAsync ch' a) ch [] :=
  .setAsync ch' st.flushPoint h.sent (fun hstop => .inl (h.stopped hstop)) h.settled

section HandOver

variable {ch' : LogChannel}

theorem lookup_handOver_self (tmp' : List ByteString) :
    (st.handOver ch' t tmp).calls.lookup t ≠ some (.swapped ch tmp') := by
  cases ch' <;> simp [Logger.handOver]

theorem lookup_handOver_of_ne {t' : T} (h : t' ≠ t) :
    (st.handOver ch' t tmp).calls.lookup t' = st.calls.lookup t' := by
  cases ch' with
  | rpc => exact AList.lookup_insert_ne h
  | app => exact AList.lookup_erase_ne h

theorem inHand_handOver :
    inHand ch (st.handOver ch' t tmp).calls.entries = inHand ch (st.calls.entries.kerase t) := by
  cases ch' with
  | rpc => simp [Logger.handOver, inHand, SyncPoint.lines]
  | app => rfl

theorem length_newer_handOver_le {t' : T} (h : t' ≠ t) :
    (newer t' ch (st.handOver ch' t tmp).calls.entries).length ≤
      (newer t' ch st.calls.entries).length := by
  refine le_trans (le_of_eq ?_) (length_newer_kerase_le h)
  cases ch' with
  | rpc => simp [Logger.handOver, newer, if_neg (Ne.symm h), SyncPoint.lines]
  | app => rfl

theorem asyncLogger_handOver_of_ne (h : ch' ≠ ch) :
    (st.handOver ch' t tmp).asyncLogger ch = st.asyncLogger ch := by
  simp [Logger.handOver, Logger.setAsync, Function.update_of_ne (Ne.symm h)]

theorem sent_handOver_self :
    ((st.handOver ch t tmp).asyncLogger ch).sent = (st.asyncLogger ch).sent ++ tmp := by
  by_cases htmp : tmp = []
  · simp [Logger.handOver, Logger.setAsync, htmp]
  · simp [Logger.handOver, Logger.setAsync, htmp]

/-- Lines are handed over in order if there are none, or no earlier call has lines of the channel
in hand. -/
theorem conveys_handOver (hl : st.calls.lookup t = some (.swapped ch' tmp))
    (holder : tmp ≠ [] → older t ch' st.calls.entries = []) :
    Conveys st (st.handOver ch' t tmp) ch [] := by
  have hbehind : ∀ t' tmp', (st.handOver ch' t tmp).calls.lookup t' = some (.swapped ch tmp') →
      st.calls.lookup t' = some (.swapped ch tmp') ∧
        (newer t' ch (st.handOver ch' t tmp).calls.entries).length +
            ((st.handOver ch' t tmp).buffer ch).length ≤
          (newer t' ch st.calls.entries).length + (st.buffer ch).length := by
    intro t' tmp' hl'
    have ht : t' ≠ t := by
      rintro rfl
      exact lookup_handOver_self tmp' hl'
    exact ⟨lookup_handOver_of_ne ht ▸ hl', Nat.add_le_add_right (length_newer_handOver_le ht) _⟩
  by_cases hch : ch' = ch
  · subst hch
    refine ⟨?_, ?_, fun hstop => .inl ?_, ?_, fun t' tmp' hl' =>
      .inl (by simpa using hbehind t' tmp' hl')⟩
    · have hfirst : tmp ++ older t ch' st.calls.entries = older t ch' st.calls.entries ++ tmp := by
        by_cases htmp : tmp = []
        · rw [htmp, List.nil_append, List.append_nil]
        · rw [holder htmp, List.nil_append, List.append_nil]
      rw [Logger.pipeline, Logger.pipeline, sent_handOver_self, inHand_handOver,
        inHand_kerase_of_lookup hl, inHand_of_lookup hl]
      simp only [Logger.handOver, Logger.setAsync, SyncPoint.lines, if_true, List.append_nil,
        ← hfirst, List.append_assoc]
    · rw [sent_handOver_self]
      exact List.prefix_append _ _
    · simp only [Logger.handOver, Logger.setAsync, Function.update_self] at hstop
      split at hstop <;> exact hstop
    · intro P hP
      simp only [Logger.handOver, Logger.setAsync, Function.update_self]
      split
      · exact hP.pushLogBuffer tmp
      · exact hP
  · refine .of_eq ?_ (asyncLogger_handOver_of_ne hch) fun t' tmp' hl' => .inl (hbehind t' tmp' hl')
    rw [Logger.pipeline, Logger.pipeline, asyncLogger_handOver_of_ne hch, inHand_handOver,
      inHand_kerase_of_lookup hl, inHand_of_lookup hl]
    simp [Logger.handOver, Logger.setAsync, SyncPoint.lines, hch]

end HandOver

theorem conveys_stepped (h : Stepped st e st') (hturn : InTurn st e)
    (hclean : ∀ ch, ∀ i ∈ st.pipeline ch, i ≠ [] ∧ 0 ∉ i) (ch : LogChannel) :
    Conveys st st' ch (e.pushed ch) := by
  cases h with
  | push ch' msg => exact conveys_push st ch' msg ch
  | sync t hmem => exact conveys_swap .rpc (by simp [AList.lookup_eq_none.mpr hmem])
  | flush t _ hmem =>
    have hswap : Conveys st (st.swap .rpc t) ch [] :=
      conveys_swap .rpc (by simp [AList.lookup_eq_none.mpr hmem])
    exact ⟨hswap.pipeline, hswap.sent, hswap.stopped, hswap.settled, hswap.behind⟩
  | swapApp t hl => exact conveys_swap .app (by simp [hl])
  | handOver t ch' tmp hl =>
    exact conveys_handOver hl fun htmp => hturn ch' tmp hl (.inl htmp)
  | stopRpc t hpoint hmem =>
    -- The call of `flush` has left its `syncLoop`.
    have hpassed : st.Passed .rpc := by
      simp [Logger.Passed, hpoint, AList.lookup_eq_none.mpr hmem]
    exact .setAsync .rpc _ rfl (fun _ => .inr ⟨hpassed, hturn⟩) fun P hP => hP
  | stopApp t hpoint =>
    have hpassed : st.Passed .app := by simp [Logger.Passed, hpoint]
    exact .setAsync .app _ rfl (fun _ => .inr ⟨hpassed, hturn⟩) fun P hP => hP
  | take ch' a ha => exact conveys_works (AsyncLogger.works_take ha)
  | print ch' a ha =>
    refine conveys_works (AsyncLogger.works_print ha fun i hi => hclean ch' i ?_)
    simp [Logger.pipeline, AsyncLogger.sent, hi]
  | endBatch ch' a ha => exact conveys_works (AsyncLogger.works_endBatch ha)

/-! ## What `flush` has passed -/

theorem Stepped.flushPoint_eq_notCalled_iff (h : Stepped st e st') :
    st'.flushPoint = .notCalled ↔ st.flushPoint = .notCalled ∧ e.isFlush = false := by
  cases h with
  | stopRpc t hpoint | stopApp t hpoint => simp [hpoint]
  | flush t => simp [LogStep.isFlush]
  | _ =>
    simp [LogStep.isFlush, Logger.push, Logger.swap, Logger.handOver, Logger.setAsync]

/-- The call of `flush` is the one that was under way, or has just taken the library's lines. -/
theorem Stepped.called (h : Stepped st e st') (hpoint : st'.flushPoint = .called t) :
    st.flushPoint = .called t ∨ e = .flush t ∧ t ∉ st.calls := by
  cases h with
  | stopRpc _ _ | stopApp _ _ => cases hpoint
  | flush t' _ hmem =>
    obtain rfl := FlushPoint.called.inj hpoint
    exact .inr ⟨rfl, hmem⟩
  | _ => exact .inl hpoint

theorem Logger.Passed.of_lookup (h : st'.Passed ch) (hpoint : st'.flushPoint = st.flushPoint)
    (hl : ∀ t, st.flushPoint = .called t → st'.calls.lookup t = st.calls.lookup t) :
    st.Passed ch := by
  unfold Logger.Passed at *
  rw [hpoint] at h
  cases hst : st.flushPoint with
  | called t => cases ch <;> simpa only [hst, hl t hst] using h
  | notCalled => simp [hst] at h
  | rpcStopped _ | returned => trivial

/-- `flush` passes the lines of a channel by handing them over. -/
theorem Stepped.passed (h : Stepped st e st') (hpassed : st'.Passed ch) :
    st.Passed ch ∨ ∃ t tmp, st.calls.lookup t = some (.swapped ch tmp) ∧ e = .handOver t ∧
      st.flushPoint = .called t ∧ st' = st.handOver ch t tmp := by
  cases h with
  | sync t _ hbusy =>
    refine .inl (hpassed.of_lookup rfl fun t' hpoint => ?_)
    have ht : t' ≠ t := by simpa [FlushPoint.busy, hpoint, eq_comm] using hbusy
    exact AList.lookup_insert_ne ht
  | flush t => cases ch <;> simp [Logger.Passed, Logger.swap] at hpassed
  | swapApp t hl =>
    refine .inl ?_
    by_cases hpoint : st.flushPoint = .called t
    · cases ch with
      | rpc => simp [Logger.Passed, hpoint, hl]
      | app => simp [Logger.Passed, Logger.swap, hpoint] at hpassed
    · refine hpassed.of_lookup rfl fun t' hpoint' => AList.lookup_insert_ne ?_
      rintro rfl
      exact hpoint hpoint'
  | handOver t ch' tmp hl =>
    by_cases hpoint : st.flushPoint = .called t
    · have hpoint' : (st.handOver ch' t tmp).flushPoint = .called t := hpoint
      cases ch <;> cases ch'
      case rpc.rpc => exact .inr ⟨t, tmp, hl, rfl, hpoint, rfl⟩
      case app.app => exact .inr ⟨t, tmp, hl, rfl, hpoint, rfl⟩
      case rpc.app => exact .inl (by simp [Logger.Passed, hpoint, hl])
      case app.rpc =>
        simp only [Logger.Passed, hpoint'] at hpassed
        simp [Logger.handOver] at hpassed
    · refine .inl (hpassed.of_lookup rfl fun t' hpoint' => lookup_handOver_of_ne ?_)
      rintro rfl
      exact hpoint hpoint'
  | stopRpc t hpoint hmem =>
    refine .inl ?_
    cases ch <;> simp [Logger.Passed, hpoint, AList.lookup_eq_none.mpr hmem]
  | stopApp t hpoint => exact .inl (by simp [Logger.Passed, hpoint])
  | _ => exact .inl hpassed

/-! ## Runs -/

/-- What a run in turn keeps: the lines are in order, those pushed before `flush` are ahead of the
ones its `syncLoop` has yet to hand over, and a worker that has been stopped is going to write
them. -/
structure Piped (es : List (LogStep T)) (st : Logger T) : Prop where
  inOrder : ∀ ch, st.pipeline ch = pushed ch es
  clean : ∀ ch, ∀ i ∈ pushed ch es, i ≠ [] ∧ 0 ∉ i
  called : st.flushPoint = .notCalled ↔ ∀ e ∈ es, e.isFlush = false
  behind : ∀ t ch tmp, st.flushPoint = .called t → st.calls.lookup t = some (.swapped ch tmp) →
    (pushed ch (beforeFlush es)).length + (newer t ch st.calls.entries).length +
      (st.buffer ch).length ≤ (pushed ch es).length
  passed : ∀ ch, st.Passed ch → pushed ch (beforeFlush es) <+: (st.asyncLogger ch).sent
  settled : ∀ ch, (st.asyncLogger ch).Stopped → st.flushPoint ≠ .notCalled ∧
    (st.asyncLogger ch).Settled (pushed ch (beforeFlush es))

theorem Piped.init : Piped [] ({} : Logger T) where
  inOrder ch := rfl
  clean := by simp [pushed]
  called := by simp
  behind t ch tmp h := nomatch h
  passed ch h := h.elim
  settled ch h := by simp [AsyncLogger.Stopped] at h

theorem Logger.Passed.ne_notCalled (h : st.Passed ch) : st.flushPoint ≠ .notCalled := by
  intro hpoint
  simp [Logger.Passed, hpoint] at h

/-- A step in turn keeps the lines in order, and those pushed before `flush` ahead. -/
theorem Piped.step (hI : Piped es st) (hturn : InTurn st e) (h : logStep st e = some st')
    (hline : ∀ ch msg, e = .push ch msg → msg ≠ []) : Piped (es ++ [e]) st' := by
  have hstep := stepped_of_logStep h
  have hconv := conveys_stepped hstep hturn fun ch i hi => hI.clean ch i (hI.inOrder ch ▸ hi)
  have hkeep : st.flushPoint ≠ .notCalled → beforeFlush (es ++ [e]) = beforeFlush es := by
    intro hpoint
    refine beforeFlush_snoc ?_
    simpa using mt hI.called.mpr hpoint
  have hnot : st.flushPoint ≠ .notCalled → st'.flushPoint ≠ .notCalled :=
    fun hne h => hne (hstep.flushPoint_eq_notCalled_iff.mp h).1
  have horder : ∀ ch, st'.pipeline ch = pushed ch (es ++ [e]) := fun ch => by
    rw [(hconv ch).pipeline, hI.inOrder, pushed_snoc]
  refine ⟨horder, ?_, ?_, ?_, ?_, ?_⟩
  · intro ch i hi
    rw [pushed_snoc, List.mem_append] at hi
    rcases hi with hi | hi
    · exact hI.clean ch i hi
    · cases e with
      | push ch' msg =>
        obtain ⟨-, rfl⟩ : ch' = ch ∧ i = msg := by simpa [LogStep.pushed] using hi
        exact ⟨hline ch' i rfl, hturn⟩
      | _ => simp [LogStep.pushed] at hi
  · rw [hstep.flushPoint_eq_notCalled_iff, hI.called]
    simp [or_imp, forall_and]
  · intro t ch tmp hpoint hl
    rcases (hconv ch).behind t tmp hl with ⟨hl', hle⟩ | ⟨hnewer, hbuffer⟩
    · have hcalled : st.flushPoint = .called t := by
        refine (hstep.called hpoint).resolve_right fun hflush => ?_
        simp [AList.lookup_eq_none.mpr hflush.2] at hl'
      have hbehind := hI.behind t ch tmp hcalled hl'
      rw [hkeep (by simp [hcalled]), pushed_snoc, List.length_append]
      omega
    · rw [hnewer, hbuffer]
      exact (prefix_pushed_beforeFlush ch _).length_le
  · intro ch hpassed
    rcases hstep.passed hpassed with hpassed | ⟨t, tmp, hl, rfl, hpoint, rfl⟩
    · rw [hkeep hpassed.ne_notCalled]
      exact (hI.passed ch hpassed).trans (hconv ch).sent
    · rw [hkeep (by simp [hpoint]), sent_handOver_self]
      -- Both are prefixes of the lines pushed, and the second one is the longer.
      have hbehind := hI.behind t ch tmp hpoint hl
      have hpipe := hI.inOrder ch
      rw [Logger.pipeline, inHand_of_lookup hl, hturn ch tmp hl (.inr hpoint)] at hpipe
      refine List.prefix_of_prefix_length_le (prefix_pushed_beforeFlush ch es) ?_ ?_
      · rw [← hpipe]
        simp [SyncPoint.lines]
      · rw [← hpipe] at hbehind
        simp only [SyncPoint.lines, if_true, List.nil_append, List.length_append] at hbehind ⊢
        omega
  · intro ch hstop
    rcases (hconv ch).stopped hstop with hstop | ⟨hpassed, hdrained⟩
    · obtain ⟨hpoint, hsettled⟩ := hI.settled ch hstop
      rw [hkeep hpoint]
      exact ⟨hnot hpoint, (hconv ch).settled _ hsettled⟩
    · rw [hkeep hpassed.ne_notCalled]
      exact ⟨hnot hpassed.ne_notCalled,
        (hconv ch).settled _ (hdrained.settled (hI.passed ch hpassed))⟩

theorem Piped.conveyed (h : Piped es st) : Conveyed es st where
  inOrder := h.inOrder
  flushed ch hret := by
    have hsettled := (h.settled ch (.inr hret)).2
    simpa [AsyncLogger.Settled, AsyncLogger.batch, hret] using hsettled

/-- **In turn, the pipeline loses, duplicates and reorders nothing.** -/
theorem conveyed_of_inTurn (h : exec logStep {} es = some st)
    (hlines : ∀ ch msg, .push ch msg ∈ es → msg ≠ []) (hturn : Along logStep InTurn {} es) :
    Conveyed es st := by
  have hpiped : (∀ ch msg, .push ch msg ∈ es → msg ≠ []) → Piped es st := by
    refine Along.history (I := fun es st => (∀ ch msg, .push ch msg ∈ es → msg ≠ []) → Piped es st)
      (fun _ => Piped.init) ?_ hturn h
    intro es s e s' _ hI hQ hs hlines
    refine (hI fun ch msg hmem => hlines ch msg (List.mem_append_left _ hmem)).step hQ hs ?_
    rintro ch msg rfl
    exact hlines ch msg (by simp)
  exact (hpiped hlines).conveyed

/-- Two batches of the library's log: both are printed before `flush` stops the worker. -/
def loggedInTurn : List (LogStep Bool) :=
  [.push .rpc ([0x61, 0x0a]), .sync false, .handOver false, .swapApp false, .handOver false,
    .take .rpc, .print .rpc, .endBatch .rpc, .push .rpc ([0x62, 0x0a]), .flush true, .handOver true,
    .swapApp true, .handOver true, .take .rpc, .stop .rpc, .print .rpc, .endBatch .rpc]

theorem conveyed_loggedInTurn : ∃ st, exec logStep {} loggedInTurn = some st ∧
    Conveyed loggedInTurn st ∧ (st.asyncLogger .rpc).worker = .returned :=
  ⟨_, rfl, conveyed_of_inTurn rfl (by simp +contextual [loggedInTurn, or_imp]) (by decide), rfl⟩

/-- A `flush` that has nothing to hand over, while an earlier call has: the worker returns without
the line. -/
example : ((exec (logStep (T := Bool)) {} [.push .rpc ([0x61, 0x0a]), .sync false, .handOver false,
    .swapApp false, .handOver false, .take .rpc, .push .rpc ([0x62, 0x0a]), .sync false,
    .flush true, .handOver true, .swapApp true, .handOver true, .stop .rpc, .print .rpc,
    .endBatch .rpc]).map fun st =>
      ((st.asyncLogger .rpc).worker, (st.asyncLogger .rpc).written)) =
    some (.returned, [[0x61, 0x0a]]) := rfl

/-- `flush` queues its lines behind a batch that the worker has not taken yet. The worker prints
that one, finds the stop flag, and returns without the lines of `flush`. -/
theorem not_conveyed_last_batch : ¬ ∀ (es : List (LogStep Bool)) (st : Logger Bool),
    exec logStep {} es = some st → (∀ ch msg, .push ch msg ∈ es → msg ≠ []) → Conveyed es st := by
  intro h
  let es : List (LogStep Bool) :=
    [.push .rpc ([0x61, 0x0a]), .sync false, .handOver false, .swapApp false, .handOver false,
      .push .rpc ([0x62, 0x0a]), .flush true, .handOver true, .swapApp true, .handOver true,
      .stop .rpc, .take .rpc, .print .rpc, .endBatch .rpc]
  obtain ⟨st, hst, hret, hwritten⟩ : ∃ st, exec logStep {} es = some st ∧
      (st.asyncLogger .rpc).worker = .returned ∧ (st.asyncLogger .rpc).written = [[0x61, 0x0a]] :=
    ⟨_, rfl, rfl, rfl⟩
  have hpre := (h es st hst (by simp +contextual [es, or_imp])).flushed .rpc hret
  rw [hwritten] at hpre
  revert hpre
  decide

end TalonRPC
