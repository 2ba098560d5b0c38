import TalonRPC.Rpc.Completion

/-!
# The outcome of a finished call

Once a call is finished, its outcome should stay as it is. The callback of the timer looks whether
the call is finished before it sets an error, and `callBack` before it runs the closure. The
callbacks of connecting and reading do not look: a failed connect or a response that comes after
the timeout overwrites the error, and the response message.

## Main definitions

* `Outcome`: what the caller reads from the controller and the response message
* `OutcomeFrozen`: no callback changes the outcome of a call that is finished
* `Repeats c code info`: the controller has recorded this error
* `Harmless`: a callback of a finished call that has nothing new to set

## Main results

* `keepsOutcome_iff`: a callback keeps the outcome exactly if it is harmless
* `outcomeFrozen_iff`: the outcome is frozen exactly if all callbacks are harmless
* `timedOut_of_awaits`: only after a timeout can callbacks of the client follow
-/

namespace TalonRPC

open Machine

variable {M : Type}

/-- What the caller reads from the controller and the response message. -/
structure Outcome (M : Type) where
  errorCode : Int32
  errorInfo : ByteString
  isFailed : Bool
  isCancled : Bool
  response : M
  deriving DecidableEq

/-- The outcome of the call on a channel. -/
def RpcChannel.outcome (ch : RpcChannel M) : Outcome M :=
  ⟨ch.controller.errorCode, ch.controller.errorInfo, ch.controller.isFailed,
    ch.controller.isCancled, ch.response⟩

/-- The callback `e` does not change the outcome of a finished call. -/
def KeepsOutcome (parse : ByteString → M × Bool) (ch : RpcChannel M) (e : CallEvent) : Prop :=
  ch.controller.isFinished = true →
    ∀ ch', callStep parse ch e = some ch' → ch'.outcome = ch.outcome

/-- `CallMethod` comes to `connect`: an address is found, the arguments are not null, and the
request is serialized. -/
structure Connects (args : CallArgs) (env : CallEnv) : Prop where
  known : env.discovered ≠ ascii "unknown host"
  found : (findAddr env.stubs env.discovered).isSome
  hasController : args.hasController = true
  hasRequest : args.hasRequest = true
  hasResponse : args.hasResponse = true
  serialized : args.serialized.isSome

/-- **The outcome of a finished call is frozen**: no callback changes it, neither the one of a
`connect` that fails at once nor those that follow the call. -/
structure OutcomeFrozen (parse : ByteString → M × Bool) (c : RpcController) (response : M)
    (args : CallArgs) (env : CallEnv) (ch₁ : RpcChannel M) (es : List CallEvent) : Prop where
  atOnce : Connects args env → c.isFinished = true →
    ch₁.outcome = (RpcChannel.init c response).outcome
  later : Along (callStep parse) (KeepsOutcome parse) ch₁ es

/-- The controller has recorded this error already. -/
def Repeats (c : RpcController) (code : Int32) (info : ByteString) : Prop :=
  c.errorCode = code ∧ c.errorInfo = info ∧ c.isFailed = true

/-- A callback of a finished call has nothing new to set: it is not the one of a failed connect or
of a response, or the error has been recorded already and the message has this content already. -/
def Harmless (parse : ByteString → M × Bool) (ch : RpcChannel M) (e : CallEvent) : Prop :=
  ch.controller.isFinished = true →
    match e with
    | .timeout => True
    | .connect r => r = .connected ∨ Repeats ch.controller r.error.1 r.error.2
    | .written => True
    | .response m =>
      (parse m.pbData).1 = ch.response ∧
        if (parse m.pbData).2 then m.errCode = 0 ∨ Repeats ch.controller m.errCode m.errInfo
        else Repeats ch.controller ErrCode.failedSerialize (ascii "serialize error")

/-- The `connect` of a call on a finished controller does not fail at once, or with an error that
has been recorded already. -/
def HarmlessAtOnce (c : RpcController) (args : CallArgs) (env : CallEnv) : Prop :=
  Connects args env → c.isFinished = true → ∀ sysError, env.connect = .failed sysError →
    Repeats c ErrCode.failedConnect (ascii "connect error, sys error = " ++ sysError)

/-! ## One callback -/

section Callback

variable {parse : ByteString → M × Bool} {ch ch' : RpcChannel M} {e : CallEvent}
  {code : Int32} {info : ByteString}

@[simp] theorem callBack_outcome (ch : RpcChannel M) : ch.callBack.outcome = ch.outcome := by
  unfold RpcChannel.callBack
  split_ifs <;> rfl

/-- Parsing a response and setting an error keep the outcome only if both were there already. -/
theorem response_setError_outcome_iff (response : M) :
    ({ ch with response := response }.setError code info).outcome = ch.outcome ↔
      response = ch.response ∧ Repeats ch.controller code info := by
  unfold RpcChannel.outcome Repeats
  rw [Outcome.mk.injEq]
  constructor
  · rintro ⟨hcode, hinfo, hfailed, -, hresponse⟩
    exact ⟨hresponse, hcode.symm, hinfo.symm, hfailed.symm⟩
  · rintro ⟨hresponse, hcode, hinfo, hfailed⟩
    exact ⟨hcode.symm, hinfo.symm, hfailed.symm, rfl, hresponse⟩

theorem setError_outcome_iff : (ch.setError code info).outcome = ch.outcome ↔
    Repeats ch.controller code info := by
  have h : ({ ch with response := ch.response }.setError code info).outcome = ch.outcome ↔
      ch.response = ch.response ∧ Repeats ch.controller code info :=
    response_setError_outcome_iff ch.response
  exact h.trans (and_iff_right rfl)

theorem onConnect_outcome_iff (req : TinyPBProtocol) (error : Int32 × ByteString) :
    (ch.onConnect req error).outcome = ch.outcome ↔
      error.1 = 0 ∨ Repeats ch.controller error.1 error.2 := by
  unfold RpcChannel.onConnect
  split_ifs with hcode
  · rw [callBack_outcome, setError_outcome_iff, or_iff_right hcode]
  · exact iff_of_true rfl (.inl (not_not.mp hcode))

theorem onResponse_outcome_iff (m : TinyPBProtocol) :
    (ch.onResponse parse m).outcome = ch.outcome ↔
      (parse m.pbData).1 = ch.response ∧
        if (parse m.pbData).2 then m.errCode = 0 ∨ Repeats ch.controller m.errCode m.errInfo
        else Repeats ch.controller ErrCode.failedSerialize (ascii "serialize error") := by
  unfold RpcChannel.onResponse
  dsimp only
  split_ifs with hparse hcode
  · rw [callBack_outcome, response_setError_outcome_iff, or_iff_right hcode]
  · rw [callBack_outcome, and_iff_left (.inl (not_not.mp hcode)), RpcChannel.outcome,
      RpcChannel.outcome, Outcome.mk.injEq]
    simp
  · rw [callBack_outcome, response_setError_outcome_iff]

theorem onTimeout_outcome (h : ch.controller.isFinished = true) :
    ch.onTimeout.outcome = ch.outcome := by
  rw [RpcChannel.onTimeout, if_pos h]

/-- **A callback keeps the outcome of a finished call** exactly if it is harmless. -/
theorem keepsOutcome_iff (hstep : callStep parse ch e = some ch') :
    KeepsOutcome parse ch e ↔ Harmless parse ch e := by
  have hkeeps : KeepsOutcome parse ch e ↔
      (ch.controller.isFinished = true → ch'.outcome = ch.outcome) := by
    simp [KeepsOutcome, hstep]
  rw [hkeeps]
  apply imp_congr_right
  intro hfinished
  -- What a callback awaits is not part of the outcome.
  cases callStepped_of_callStep hstep with
  | timeout =>
    have hsame : ({ ch with timer := false }.onTimeout).outcome =
        { ch with timer := false }.outcome :=
      onTimeout_outcome hfinished
    exact iff_of_true hsame trivial
  | connect r req => exact (onConnect_outcome_iff _ _).trans (or_congr_left (error_eq_zero_iff r))
  | written req => exact iff_of_true rfl trivial
  | response m => exact onResponse_outcome_iff m

end Callback

/-! ## The call and its callbacks -/

section Call

variable {parse : ByteString → M × Bool} {ch ch' : RpcChannel M} {e : CallEvent}
  {es : List CallEvent}

/-- A call that comes to `connect` keeps the outcome, unless `connect` fails at once. -/
theorem callMethod_outcome_iff {c : RpcController} {response : M} {args : CallArgs} {env : CallEnv}
    {ch₁ : RpcChannel M} (h : Connects args env)
    (hcall : (RpcChannel.init c response).callMethod args env = .ok ch₁) :
    ch₁.outcome = (RpcChannel.init c response).outcome ↔
      ∀ sysError, env.connect = .failed sysError →
        Repeats c ErrCode.failedConnect (ascii "connect error, sys error = " ++ sysError) := by
  obtain ⟨addr, hfound⟩ := Option.isSome_iff_exists.mp h.found
  obtain ⟨data, hdata⟩ := Option.isSome_iff_exists.mp h.serialized
  rw [callMethod_of_found _ h.hasController h.hasRequest h.hasResponse h.known hfound,
    RpcChannel.callConnected] at hcall
  simp only [hdata, RpcChannel.setMsgId_isInit, RpcChannel.init, not_true_eq_false,
    if_false] at hcall
  cases hconnect : env.connect with
  | connected =>
    rw [hconnect] at hcall
    cases hcall
    exact iff_of_true rfl (fun _ heq => by cases heq)
  | inProgress =>
    rw [hconnect] at hcall
    cases hcall
    exact iff_of_true rfl (fun _ heq => by cases heq)
  | failed sysError =>
    rw [hconnect] at hcall
    cases hcall
    have hcode : ErrCode.failedConnect ≠ 0 := by decide
    simp only [ConnectStart.failed.injEq, forall_eq']
    -- The message id and the timer are not part of the outcome.
    exact (onConnect_outcome_iff _ _).trans (or_iff_right hcode)

/-- **The outcome of a finished call is frozen** exactly if every callback that comes then is
harmless. -/
theorem outcomeFrozen_iff (parse : ByteString → M × Bool) (c : RpcController) (response : M)
    (args : CallArgs) (env : CallEnv) (es : List CallEvent) {ch₁ : RpcChannel M}
    (hcall : (RpcChannel.init c response).callMethod args env = .ok ch₁)
    (hrun : (exec (callStep parse) ch₁ es).isSome) :
    OutcomeFrozen parse c response args env ch₁ es ↔
      HarmlessAtOnce c args env ∧ Along (callStep parse) (Harmless parse) ch₁ es := by
  have hatOnce : (Connects args env → c.isFinished = true →
      ch₁.outcome = (RpcChannel.init c response).outcome) ↔ HarmlessAtOnce c args env :=
    forall_congr' fun h => imp_congr_right fun _ => callMethod_outcome_iff h hcall
  have hlater := along_iff (I := fun _ => True) hrun trivial
    (fun _ _ _ _ hstep => keepsOutcome_iff hstep) (fun _ _ _ _ _ _ => trivial)
  rw [← hatOnce, ← hlater]
  constructor
  · intro h
    exact ⟨h.atOnce, h.later⟩
  · intro h
    exact ⟨h.1, h.2⟩

/-! ## Callbacks after the end -/

/-- The call has timed out, and its client has not heard of it. -/
structure TimedOut (ch : RpcChannel M) : Prop where
  timer : ch.timer = false
  finished : ch.controller.isFinished = true
  cancelled : ch.controller.isCancled = true
  errorCode : ch.controller.errorCode = ErrCode.rpcCallTimeout

/-- Where a call is, if it was open when it began: it is open, its client awaits nothing any more,
or it has timed out. -/
def InCourse (ch : RpcChannel M) : Prop := Open ch ∨ ch.awaits = .nothing ∨ TimedOut ch

/-- What the client awaits, after a callback that settles the call. -/
theorem onConnect_awaits (req : TinyPBProtocol) {error : Int32 × ByteString} (h : error.1 ≠ 0) :
    (ch.onConnect req error).awaits = ch.awaits := by
  rw [RpcChannel.onConnect, if_pos h, RpcChannel.callBack]
  split_ifs <;> rfl

theorem onResponse_awaits (m : TinyPBProtocol) :
    (ch.onResponse parse m).awaits = ch.awaits := by
  unfold RpcChannel.onResponse RpcChannel.callBack
  dsimp only
  split_ifs <;> rfl

theorem onTimeout_awaits (ch : RpcChannel M) : ch.onTimeout.awaits = ch.awaits := by
  unfold RpcChannel.onTimeout RpcChannel.callBack
  split_ifs <;> rfl

/-- Cancelling finishes an open call, with the error of the timeout. -/
theorem Open.timedOut (h : Open ch) (htimer : ch.timer = false) : TimedOut ch.onTimeout := by
  have hcancelled : ch.onTimeout = { ch with controller := ch.controller.startCancel }.setError
      ErrCode.rpcCallTimeout (ascii ("rpc call timeout " ++ toString ch.controller.timeout)) := by
    rw [RpcChannel.onTimeout, if_neg (by simp [h.unfinished])]
    exact if_pos rfl
  rw [hcancelled]
  exact ⟨htimer, rfl, rfl, rfl⟩

theorem TimedOut.withAwaits (h : TimedOut ch) (awaits : Awaits) :
    TimedOut { ch with awaits := awaits } := ⟨h.timer, h.finished, h.cancelled, h.errorCode⟩

theorem InCourse.step (h : InCourse ch) (hstep : callStep parse ch e = some ch') :
    InCourse ch' := by
  cases callStepped_of_callStep hstep with
  | timeout htimer =>
    rcases h with hopen | hnothing | htimedOut
    · have hfired : Open { ch with timer := false } :=
        ⟨hopen.hasClosure, hopen.unfinished, hopen.runs⟩
      exact .inr (.inr (hfired.timedOut rfl))
    · exact .inr (.inl ((onTimeout_awaits _).trans hnothing))
    · exact absurd (htimedOut.timer.symm.trans htimer) (by decide)
  | connect r req hawaits =>
    by_cases hr : r.error.1 = 0
    · -- Connected: the client goes on to write.
      rw [InCourse, RpcChannel.onConnect, if_neg (not_not_intro hr)]
      rcases h with hopen | hnothing | htimedOut
      · exact .inl ⟨hopen.hasClosure, hopen.unfinished, hopen.runs⟩
      · cases hawaits.symm.trans hnothing
      · exact .inr (.inr (htimedOut.withAwaits _))
    · exact .inr (.inl (onConnect_awaits _ hr))
  | written req hawaits =>
    rcases h with hopen | hnothing | htimedOut
    · exact .inl ⟨hopen.hasClosure, hopen.unfinished, hopen.runs⟩
    · cases hawaits.symm.trans hnothing
    · exact .inr (.inr (htimedOut.withAwaits _))
  | response m => exact .inr (.inl (onResponse_awaits m))

/-- **Only a timeout leaves callbacks to come**: where a call that was open when it began is
finished and its client still awaits something, the call has timed out. -/
theorem timedOut_of_awaits (h : Open ch) (hrun : exec (callStep parse) ch es = some ch')
    (hfinished : ch'.controller.isFinished = true) (hawaits : ch'.awaits ≠ .nothing) :
    TimedOut ch' := by
  have hcourse : InCourse ch' :=
    exec_invariant (fun _ _ _ hI hstep => InCourse.step hI hstep) (.inl h) hrun
  rcases hcourse with hopen | hnothing | htimedOut
  · exact absurd (hopen.unfinished.symm.trans hfinished) (by decide)
  · exact absurd hnothing hawaits
  · exact htimedOut

end Call

/-! ## A connect that fails too late -/

/-- The timer comes while the call is connecting, and then it is connected. -/
theorem outcomeFrozen_connected :
    OutcomeFrozen parseNothing {} () makeOrder orderServer calling
      [.timeout, .connect .connected] :=
  (outcomeFrozen_iff parseNothing {} () makeOrder orderServer [.timeout, .connect .connected]
    callMethod_orderServer (by decide)).mpr
    ⟨fun _ hfinished => absurd hfinished (by decide),
      fun _ => trivial, fun _ _ => ⟨fun _ => .inl rfl, fun _ _ => trivial⟩⟩

/-- **A refused connect overwrites the error of the timeout.** -/
theorem not_outcomeFrozen_refused :
    (RpcChannel.init {} ()).callMethod makeOrder orderServer = .ok calling ∧
      (exec (callStep parseNothing) calling [.timeout, .connect (.refused [])]).isSome ∧
        ¬ OutcomeFrozen parseNothing {} () makeOrder orderServer calling
          [.timeout, .connect (.refused [])] := by
  refine ⟨callMethod_orderServer, by decide, fun h => ?_⟩
  have hlate : KeepsOutcome parseNothing { calling with timer := false }.onTimeout
      (.connect (.refused [])) := (h.later.2 _ rfl).1
  have houtcome := hlate (by decide) _ rfl
  revert houtcome
  decide

end TalonRPC
