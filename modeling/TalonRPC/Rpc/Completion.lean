import TalonRPC.Machine.Run
import TalonRPC.Rpc.Channel

/-!
# When a call completes

The closure of a call should run exactly once, whatever the callbacks do. It does where a callback
of the client comes before the timer. But cancelling on a timeout marks the call as finished before
`callBack` looks, so the closure of a call that times out never runs; and a call whose address the
service discovery does not know returns without running it.

## Main definitions

* `CompletesOnce`: the closure of a call runs once, with an error code unless the call succeeded
* `Settles e`: the callback `e` ends the call
* `Answered`: the call can be made, and is settled before its timer

## Main results

* `callStep_of_open`, `callStep_of_over`: what a callback does to a call
* `completesOnce_iff`: a call completes once exactly if it is answered
-/

namespace TalonRPC

open Machine

variable {M : Type}

/-- The call gets a response that can be parsed and carries no error. -/
def Succeeds (parse : ByteString → M × Bool) (es : List CallEvent) : Prop :=
  ∃ m, .response m ∈ es ∧ (parse m.pbData).2 = true ∧ m.errCode = 0

/-- The callbacks `es` may follow the call, and its timer is not pending any more after them. -/
def Follow (parse : ByteString → M × Bool) (ch : RpcChannel M) (args : CallArgs) (env : CallEnv)
    (es : List CallEvent) : Prop :=
  ∀ ch₁, ch.callMethod args env = .ok ch₁ →
    ∃ ch₂, exec (callStep parse) ch₁ es = some ch₂ ∧ ch₂.timer = false

/-- The closure ran exactly once, with an error code unless the call succeeded. -/
def RanOnce (parse : ByteString → M × Bool) (es : List CallEvent) (ch : RpcChannel M) : Prop :=
  ∃ c, ch.runs = [c] ∧ (c.errorCode = 0 → Succeeds parse es)

/-- After the callbacks `es`, the closure of the call has run exactly once. -/
def CompletesOnce (parse : ByteString → M × Bool) (ch : RpcChannel M) (args : CallArgs)
    (env : CallEnv) (es : List CallEvent) : Prop :=
  ∃ ch₁ ch₂, ch.callMethod args env = .ok ch₁ ∧ exec (callStep parse) ch₁ es = some ch₂ ∧
    RanOnce parse es ch₂

/-- A failed connect or a response settles the call. -/
def Settles : CallEvent → Prop
  | .timeout => False
  | .connect r => r ≠ .connected
  | .written => False
  | .response _ => True

/-- The request cannot be serialized, or the connect fails at once. -/
def FailsAtOnce (args : CallArgs) (env : CallEnv) : Prop :=
  args.serialized = none ∨ ∃ sysError, env.connect = .failed sysError

/-- A callback before the timer settles the call. -/
def SettledInTime (es : List CallEvent) : Prop := ∃ e ∈ es.takeWhile (· ≠ .timeout), Settles e

/-- The call can be made, on a controller that is not finished, and it fails at once or is settled
before its timer. -/
structure Answered (c : RpcController) (args : CallArgs) (env : CallEnv) (es : List CallEvent) :
    Prop where
  unfinished : c.isFinished = false
  known : env.discovered ≠ ascii "unknown host"
  found : (findAddr env.stubs env.discovered).isSome
  settled : FailsAtOnce args env ∨ SettledInTime es

/-! ## One callback -/

/-- The closure has not run, and `callBack` would run it. -/
structure Open (ch : RpcChannel M) : Prop where
  hasClosure : ch.hasClosure = true
  unfinished : ch.controller.isFinished = false
  runs : ch.runs = []

/-- The closure has run, or never will. -/
structure Over (ch : RpcChannel M) (runs : List RpcController) : Prop where
  finished : ch.controller.isFinished = true
  runs : ch.runs = runs

variable {parse : ByteString → M × Bool} {ch ch' : RpcChannel M} {e : CallEvent}
  {es : List CallEvent} {runs : List RpcController}

theorem Over.callBack (h : Over ch runs) : Over ch.callBack runs := by
  rw [RpcChannel.callBack, if_pos h.finished]
  exact h

/-- Setting an error finishes nothing. -/
theorem Over.setError (h : Over ch runs) (code : Int32) (info : ByteString) :
    Over (ch.setError code info) runs := ⟨h.finished, h.runs⟩

theorem Open.setError (h : Open ch) (code : Int32) (info : ByteString) :
    Open (ch.setError code info) := ⟨h.hasClosure, h.unfinished, h.runs⟩

theorem Over.setMsgId (h : Over ch runs) (msgId : ByteString) : Over (ch.setMsgId msgId) runs :=
  ⟨h.finished, h.runs⟩

theorem Open.setMsgId (h : Open ch) (msgId : ByteString) : Open (ch.setMsgId msgId) :=
  ⟨h.hasClosure, h.unfinished, h.runs⟩

theorem Over.addTimerEvent (h : Over ch runs) : Over ch.addTimerEvent runs := ⟨h.finished, h.runs⟩

theorem Open.addTimerEvent (h : Open ch) : Open ch.addTimerEvent :=
  ⟨h.hasClosure, h.unfinished, h.runs⟩

/-- **`callBack` runs the closure** of an open call, and finishes it. -/
theorem Open.callBack (h : Open ch) : Over ch.callBack [ch.controller] := by
  rw [RpcChannel.callBack, if_neg (by rw [h.unfinished]; decide), if_pos h.hasClosure]
  refine ⟨rfl, ?_⟩
  show ch.runs ++ _ = _
  rw [h.runs]
  rfl

theorem Over.onConnect (h : Over ch runs) (req : TinyPBProtocol) (error : Int32 × ByteString) :
    Over (ch.onConnect req error) runs := by
  unfold RpcChannel.onConnect
  split_ifs
  · exact (h.setError _ _).callBack
  · exact ⟨h.finished, h.runs⟩

theorem Over.onResponse (h : Over ch runs) (m : TinyPBProtocol) :
    Over (ch.onResponse parse m) runs := by
  have h' : Over { ch with response := (parse m.pbData).1 } runs := ⟨h.finished, h.runs⟩
  unfold RpcChannel.onResponse
  dsimp only
  split_ifs
  · exact (h'.setError _ _).callBack
  · exact h'.callBack
  · exact (h'.setError _ _).callBack

theorem Over.onTimeout (h : Over ch runs) : Over ch.onTimeout runs := by
  rw [RpcChannel.onTimeout, if_pos h.finished]
  exact h

/-- **Where the closure has run, or never will, no callback changes that.** -/
theorem callStep_of_over (h : Over ch runs) (hstep : callStep parse ch e = some ch') :
    Over ch' runs := by
  have h' : Over { ch with awaits := .nothing } runs := ⟨h.finished, h.runs⟩
  cases callStepped_of_callStep hstep with
  | timeout => exact Over.onTimeout ⟨h.finished, h.runs⟩
  | connect r req => exact h'.onConnect _ _
  | written req => exact ⟨h.finished, h.runs⟩
  | response m => exact h'.onResponse m

/-- The closure of a call whose connect fails runs with the error code of the client. -/
theorem Open.onConnect_error (h : Open ch) (req : TinyPBProtocol) {error : Int32 × ByteString}
    (hne : error.1 ≠ 0) :
    Over (ch.onConnect req error) [ch.controller.setError error.1 error.2] := by
  rw [RpcChannel.onConnect, if_pos hne]
  exact (h.setError _ _).callBack

theorem Open.onConnect_connected (h : Open ch) (req : TinyPBProtocol) (info : ByteString) :
    Open (ch.onConnect req (0, info)) := by
  rw [RpcChannel.onConnect, if_neg (by simp)]
  exact ⟨h.hasClosure, h.unfinished, h.runs⟩

/-- The closure of a call that gets a response runs, without an error code only on success. -/
theorem Open.onResponse (h : Open ch) (parse : ByteString → M × Bool) (m : TinyPBProtocol) :
    ∃ c, Over (ch.onResponse parse m) [c] ∧
      (c.errorCode = 0 → (parse m.pbData).2 = true ∧ m.errCode = 0) := by
  have h' : Open { ch with response := (parse m.pbData).1 } := ⟨h.hasClosure, h.unfinished, h.runs⟩
  unfold RpcChannel.onResponse
  dsimp only
  split_ifs with hparse hcode
  · exact ⟨_, (h'.setError _ _).callBack, fun hzero => absurd hzero hcode⟩
  · exact ⟨_, h'.callBack, fun _ => ⟨hparse, not_not.mp hcode⟩⟩
  · refine ⟨_, (h'.setError _ _).callBack, fun hzero => ?_⟩
    exact absurd hzero (show ErrCode.failedSerialize ≠ 0 by decide)

/-- **The closure of a call that times out does not run**: cancelling has finished the call. -/
theorem Open.onTimeout (h : Open ch) : Over ch.onTimeout [] := by
  rw [RpcChannel.onTimeout, if_neg (by rw [h.unfinished]; decide)]
  -- The error is set on a call that is over already.
  have hcancelled : Over { ch with controller := ch.controller.startCancel } [] := ⟨rfl, h.runs⟩
  exact (hcancelled.setError _ _).callBack

theorem error_eq_zero_iff (r : ConnectResult) : r.error.1 = 0 ↔ r = .connected := by
  cases r with
  | connected => simp [ConnectResult.error]
  | refused sysError => simp [ConnectResult.error, ErrCode.peerClosed]
  | failed sysError => simp [ConnectResult.error, ErrCode.failedConnect]

/-- **What a callback does to an open call.** -/
theorem callStep_of_open (h : Open ch) (hstep : callStep parse ch e = some ch') :
    (e = .timeout ∧ Over ch' []) ∨
    (e ≠ .timeout ∧ Settles e ∧ ∃ c, Over ch' [c] ∧ (c.errorCode = 0 → Succeeds parse [e])) ∨
    (e ≠ .timeout ∧ ¬ Settles e ∧ Open ch' ∧ ch'.timer = ch.timer) := by
  have hopen : Open { ch with awaits := .nothing } := ⟨h.hasClosure, h.unfinished, h.runs⟩
  cases callStepped_of_callStep hstep with
  | timeout => exact .inl ⟨rfl, Open.onTimeout ⟨h.hasClosure, h.unfinished, h.runs⟩⟩
  | connect r req =>
    right
    by_cases hr : r = .connected
    · subst hr
      exact .inr ⟨by simp, by simp [Settles], hopen.onConnect_connected _ _, by simp⟩
    · have hne : r.error.1 ≠ 0 := fun hzero => hr ((error_eq_zero_iff r).mp hzero)
      exact .inl ⟨by simp, hr, _, hopen.onConnect_error _ hne, fun hzero => absurd hzero hne⟩
  | written req =>
    exact .inr (.inr ⟨by simp, id, ⟨h.hasClosure, h.unfinished, h.runs⟩, rfl⟩)
  | response m =>
    obtain ⟨c, hover, hcode⟩ := hopen.onResponse parse m
    exact .inr (.inl ⟨by simp, trivial, c, hover, fun hzero =>
      ⟨m, List.mem_singleton_self _, hcode hzero⟩⟩)

/-! ## All callbacks -/

theorem exec_of_over (h : Over ch runs) (hrun : exec (callStep parse) ch es = some ch') :
    Over ch' runs :=
  exec_invariant (I := fun ch => Over ch runs)
    (fun _ _ _ hover hstep => callStep_of_over hover hstep) h hrun

theorem Over.not_ranOnce (h : Over ch []) (parse : ByteString → M × Bool) (es : List CallEvent) :
    ¬ RanOnce parse es ch := by
  rintro ⟨c, hruns, -⟩
  rw [h.runs] at hruns
  cases hruns

theorem ranOnce_cons_iff (h : ¬ Settles e) : RanOnce parse (e :: es) ch ↔ RanOnce parse es ch := by
  have hsucceeds : Succeeds parse (e :: es) ↔ Succeeds parse es := by
    constructor
    · rintro ⟨m, hm, hsuccess⟩
      rcases List.mem_cons.mp hm with rfl | hm
      · exact absurd trivial h
      · exact ⟨m, hm, hsuccess⟩
    · rintro ⟨m, hm, hsuccess⟩
      exact ⟨m, List.mem_cons_of_mem e hm, hsuccess⟩
  rw [RanOnce, RanOnce, hsucceeds]

/-- **An open call runs its closure once** exactly if it is settled before its timer. -/
theorem ranOnce_iff (h : Open ch) (htimer : ch.timer = true)
    (hrun : exec (callStep parse) ch es = some ch') (hend : ch'.timer = false) :
    RanOnce parse es ch' ↔ SettledInTime es := by
  induction es generalizing ch with
  | nil =>
    obtain rfl := Option.some.inj hrun
    -- Without a callback the timer would still be pending.
    rw [htimer] at hend
    cases hend
  | cons e es ih =>
    rw [exec_cons] at hrun
    obtain ⟨t, hstep, hrest⟩ := Option.bind_eq_some_iff.mp hrun
    rcases callStep_of_open h hstep with ⟨rfl, hover⟩ | ⟨hne, hsettles, c, hover, hcode⟩ |
      ⟨hne, hsettles, hopen, hkeeps⟩
    · -- The timer comes first.
      have hnot := (exec_of_over hover hrest).not_ranOnce parse (.timeout :: es)
      simp [SettledInTime, hnot]
    · -- The callback settles the call, and nothing after it runs the closure again.
      have hfinal := exec_of_over hover hrest
      refine iff_of_true ⟨c, hfinal.runs, fun hzero => ?_⟩ ⟨e, ?_, hsettles⟩
      · obtain ⟨m, hm, hsuccess⟩ := hcode hzero
        exact ⟨m, List.mem_cons.mpr (.inl (List.mem_singleton.mp hm)), hsuccess⟩
      · rw [List.takeWhile_cons_of_pos (by simpa using hne)]
        exact List.mem_cons_self ..
    · -- The call stays open, so what settles it comes later.
      rw [ranOnce_cons_iff hsettles, ih hopen (hkeeps.trans htimer) hrest, SettledInTime,
        SettledInTime, List.takeWhile_cons_of_pos (by simpa using hne)]
      simp [hsettles]

/-! ## The call -/

/-- `connect` fails at once, with an error code, or the call stays open. -/
theorem Open.connect (h : Open ch) (req : TinyPBProtocol) (start : ConnectStart) :
    ((∃ sysError, start = .failed sysError) ∧
      ∃ c, Over (ch.connect req start) [c] ∧ c.errorCode ≠ 0) ∨
    ((∀ sysError, start ≠ .failed sysError) ∧ Open (ch.connect req start) ∧
      (ch.connect req start).timer = ch.timer) := by
  cases start with
  | connected =>
    exact .inr ⟨by simp, h.onConnect_connected req _, RpcChannel.onConnect_timer _ _ _⟩
  | inProgress => exact .inr ⟨by simp, ⟨h.hasClosure, h.unfinished, h.runs⟩, rfl⟩
  | failed sysError =>
    have hcode : ErrCode.failedConnect ≠ 0 := by decide
    exact .inl ⟨⟨sysError, rfl⟩, _, h.onConnect_error req hcode, hcode⟩

theorem Over.connect (h : Over ch runs) (req : TinyPBProtocol) (start : ConnectStart) :
    Over (ch.connect req start) runs := by
  cases start with
  | connected => exact h.onConnect req _
  | inProgress => exact ⟨h.finished, h.runs⟩
  | failed sysError => exact h.onConnect req _

/-- An open call fails at once, with an error code, or starts its timer. -/
theorem Open.callConnected (h : Open ch) (hinit : ch.isInit = true) (args : CallArgs)
    (env : CallEnv) :
    ∃ ch₁, ch.callConnected args env = .ok ch₁ ∧
      ((FailsAtOnce args env ∧ ∃ c, Over ch₁ [c] ∧ c.errorCode ≠ 0) ∨
        ¬ FailsAtOnce args env ∧ Open ch₁ ∧ ch₁.timer = true) := by
  have hnamed := h.setMsgId (RpcChannel.chooseMsgId ch.controller env)
  unfold RpcChannel.callConnected
  dsimp only
  rw [RpcChannel.setMsgId_isInit, if_neg (not_not_intro hinit)]
  cases hserialized : args.serialized with
  | none =>
    refine ⟨_, rfl, .inl ⟨.inl hserialized, _, (hnamed.setError _ _).callBack, ?_⟩⟩
    exact show ErrCode.failedSerialize ≠ 0 by decide
  | some data =>
    refine ⟨_, rfl, ?_⟩
    rcases hnamed.addTimerEvent.connect _ env.connect with ⟨hfails, c, hover, hcode⟩ |
      ⟨hstarts, hopen, htimer⟩
    · exact .inl ⟨.inr hfails, c, hover, hcode⟩
    · refine .inr ⟨?_, hopen, htimer⟩
      rintro (hnone | ⟨sysError, hfailed⟩)
      · rw [hserialized] at hnone
        cases hnone
      · exact hstarts sysError hfailed

theorem Over.callConnected {args : CallArgs} {env : CallEnv} (h : Over ch runs)
    (hcall : ch.callConnected args env = .ok ch') : Over ch' runs := by
  have hnamed := h.setMsgId (RpcChannel.chooseMsgId ch.controller env)
  unfold RpcChannel.callConnected at hcall
  dsimp only at hcall
  split_ifs at hcall
  cases hserialized : args.serialized with
  | none =>
    simp only [hserialized, Except.ok.injEq] at hcall
    rw [← hcall]
    exact (hnamed.setError _ _).callBack
  | some data =>
    simp only [hserialized, Except.ok.injEq] at hcall
    rw [← hcall]
    exact hnamed.addTimerEvent.connect _ _

/-- A call whose arguments are not null, to an address that is found. -/
theorem callMethod_of_found (ch : RpcChannel M) {args : CallArgs} {env : CallEnv} {addr : IPNetAddr}
    (hcontroller : args.hasController = true) (hrequest : args.hasRequest = true)
    (hresponse : args.hasResponse = true) (hknown : env.discovered ≠ ascii "unknown host")
    (hfound : findAddr env.stubs env.discovered = some addr) :
    ch.callMethod args env = { ch with peerAddr := some addr }.callConnected args env := by
  rw [RpcChannel.callMethod, if_neg hknown, hfound]
  simp [hcontroller, hrequest, hresponse]

/-- A new channel has registered nothing, so that no callback can follow. -/
theorem exec_init {c : RpcController} {response : M}
    (hrun : exec (callStep parse) (.init c response) es = some ch') :
    ch' = .init c response := by
  cases es with
  | nil => exact (Option.some.inj hrun).symm
  | cons e es =>
    rw [exec_cons] at hrun
    cases e <;> cases hrun

/-- **A call completes exactly once** exactly if it is answered. -/
theorem completesOnce_iff (parse : ByteString → M × Bool) (c : RpcController) (response : M)
    (args : CallArgs) (env : CallEnv) (es : List CallEvent)
    (hcontroller : args.hasController = true)
    (hrequest : args.hasRequest = true) (hresponse : args.hasResponse = true)
    (hfollow : Follow parse (.init c response) args env es) :
    CompletesOnce parse (.init c response) args env es ↔ Answered c args env es := by
  by_cases hknown : env.discovered = ascii "unknown host"
  · -- The call returns, and nothing follows.
    refine iff_of_false ?_ fun h => h.known hknown
    rintro ⟨ch₁, ch₂, hcall, hrun, c', hruns, -⟩
    rw [RpcChannel.callMethod, if_pos hknown] at hcall
    obtain rfl := Except.ok.inj hcall
    rw [exec_init hrun] at hruns
    cases hruns
  cases hfound : findAddr env.stubs env.discovered with
  | none =>
    -- The null address ends the program.
    refine iff_of_false ?_ fun h => by simpa [hfound] using h.found
    rintro ⟨ch₁, ch₂, hcall, -⟩
    rw [RpcChannel.callMethod, if_neg hknown, hfound] at hcall
    cases hcall
  | some addr =>
    have hcall := callMethod_of_found (.init c response) hcontroller hrequest hresponse hknown
      hfound
    cases hfinished : c.isFinished with
    | true =>
      -- `callBack` runs the closure of no call that is finished from the start.
      refine iff_of_false ?_ fun h => by simpa [hfinished] using h.unfinished
      rintro ⟨ch₁, ch₂, hcall', hrun, hran⟩
      rw [hcall] at hcall'
      have hover : Over { RpcChannel.init c response with peerAddr := some addr } [] :=
        ⟨hfinished, rfl⟩
      exact (exec_of_over (hover.callConnected hcall') hrun).not_ranOnce parse es hran
    | false =>
      have hopen : Open { RpcChannel.init c response with peerAddr := some addr } :=
        ⟨rfl, hfinished, rfl⟩
      obtain ⟨ch₁, hcall₁, hcases⟩ := hopen.callConnected rfl args env
      rw [← hcall] at hcall₁
      obtain ⟨ch₂, hrun, hend⟩ := hfollow ch₁ hcall₁
      -- The call and the callbacks after it have one result each.
      have hcompletes : CompletesOnce parse (.init c response) args env es ↔
          RanOnce parse es ch₂ := by
        constructor
        · rintro ⟨ch₁', ch₂', hcall', hrun', hran⟩
          obtain rfl := Except.ok.inj (hcall₁.symm.trans hcall')
          obtain rfl := Option.some.inj (hrun.symm.trans hrun')
          exact hran
        · intro hran
          exact ⟨ch₁, ch₂, hcall₁, hrun, hran⟩
      have hanswered : Answered c args env es ↔ FailsAtOnce args env ∨ SettledInTime es :=
        ⟨fun h => h.settled, fun h => ⟨hfinished, hknown, by rw [hfound]; rfl, h⟩⟩
      rw [hcompletes, hanswered]
      rcases hcases with ⟨hfails, c', hover, hcode⟩ | ⟨hstarts, hopen, htimer⟩
      · exact iff_of_true ⟨c', (exec_of_over hover hrun).runs, fun hzero => absurd hzero hcode⟩
          (.inl hfails)
      · rw [ranOnce_iff hopen htimer hrun hend]
        simp [hstarts]

/-! ## A call that fails, and one that times out -/

/-- Responses without content. -/
def parseNothing (_ : ByteString) : Unit × Bool := ((), true)

/-- A call of a method without arguments. -/
def makeOrder : CallArgs := { methodName := ascii "Order.makeOrder", serialized := some [] }

/-- The service discovery gives an address, and connecting to it takes a while. -/
def orderServer : CallEnv :=
  { discovered := ascii "127.0.0.1:12345", genMsgId := ascii "10000", connect := .inProgress }

/-- The call as it waits for its connect. -/
def calling : RpcChannel Unit :=
  { controller := { msgId := ascii "10000" }, response := (), isInit := true, hasClosure := true,
    peerAddr := some ⟨ascii "127.0.0.1", 12345⟩, timer := true,
    awaits := .connect { msgId := ascii "10000", methodName := ascii "Order.makeOrder" } }

theorem callMethod_orderServer :
    (RpcChannel.init {} ()).callMethod makeOrder orderServer = .ok calling := by
  decide

theorem follow_orderServer {es : List CallEvent}
    (hrun : (exec (callStep parseNothing) calling es).any (fun ch => !ch.timer)) :
    Follow parseNothing (.init {} ()) makeOrder orderServer es := by
  intro ch₁ hcall
  obtain rfl := Except.ok.inj (callMethod_orderServer.symm.trans hcall)
  obtain ⟨ch₂, hch₂, htimer⟩ := (Option.any_eq_true _ _).mp hrun
  exact ⟨ch₂, hch₂, by simpa using htimer⟩

/-- The connect is refused before the timer. -/
theorem completesOnce_refused :
    CompletesOnce parseNothing (.init {} ()) makeOrder orderServer
      [.connect (.refused []), .timeout] :=
  (completesOnce_iff parseNothing {} () makeOrder orderServer [.connect (.refused []), .timeout] rfl
    rfl rfl (follow_orderServer (by decide))).mpr
    ⟨rfl, by decide, by decide, .inr ⟨_, List.mem_cons_self .., by simp [Settles]⟩⟩

/-- **A call without a response never runs its closure.** -/
theorem not_completesOnce_timeout :
    Follow parseNothing (.init {} ()) makeOrder orderServer [.timeout] ∧
      ¬ CompletesOnce parseNothing (.init {} ()) makeOrder orderServer [.timeout] := by
  refine ⟨follow_orderServer (by decide), ?_⟩
  rintro ⟨ch₁, ch₂, hcall, hrun, c, hruns, -⟩
  obtain rfl := Except.ok.inj (callMethod_orderServer.symm.trans hcall)
  obtain rfl := Option.some.inj hrun
  have hnone : calling.onTimeout.runs = [] := by decide
  cases hnone.symm.trans hruns

end TalonRPC
