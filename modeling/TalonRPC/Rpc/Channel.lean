import TalonRPC.Rpc.Controller

/-!
# RpcChannel

A call asks the service discovery for an address, connects a client to it, sends the request and
waits for the response; a timer bounds all of this. Each part ends in a callback, and the callbacks
share the controller: whichever comes first runs the closure of the user.

## Main definitions

* `RpcChannel`: the channel, with the callback its client waits for and the runs of the closure
* `findAddr`: the address in an answer of the service discovery
* `callMethod`: a call, until it returns to its caller
* `CallEvent`, `callStep`: the callbacks that may follow, in any order

## Main results

* `callStepped_of_callStep`: what the callbacks that can happen do
-/

namespace TalonRPC

/-- The callback the client of a channel has registered. -/
inductive Awaits
  | nothing
  | connect (req : TinyPBProtocol)
  | written (req : TinyPBProtocol)
  | response (msgId : ByteString)
  deriving DecidableEq, Repr

/-- `RpcChannel`, after a call has begun: whether its timer is pending, what its client waits for,
and the controller at each run of the closure. -/
structure RpcChannel (M : Type) where
  controller : RpcController
  response : M
  isInit : Bool := false
  hasClosure : Bool := false
  peerAddr : Option IPNetAddr := none
  timer : Bool := false
  awaits : Awaits := .nothing
  runs : List RpcController := []
  deriving DecidableEq

/-- How a connect in progress ends, with the text of the system where it fails. -/
inductive ConnectResult
  | connected
  | refused (sysError : ByteString)
  | failed (sysError : ByteString)
  deriving DecidableEq, Repr

/-- What `connect` does at once. -/
inductive ConnectStart
  | connected
  | inProgress
  | failed (sysError : ByteString)
  deriving DecidableEq, Repr

/-- The error code and text of the client when a connect in progress has ended. -/
def ConnectResult.error : ConnectResult → Int32 × ByteString
  | .connected => (0, [])
  | .refused sysError => (ErrCode.peerClosed, ascii "connect refused, sys error = " ++ sysError)
  | .failed sysError =>
    (ErrCode.failedConnect, ascii "connect unkonwn error, sys error = " ++ sysError)

/-- The arguments of `CallMethod`: which of them are not null, the name of the method, and what
the request is serialized to. -/
structure CallArgs where
  hasController : Bool := true
  hasRequest : Bool := true
  hasResponse : Bool := true
  methodName : ByteString
  serialized : Option ByteString

/-- What a call meets: the answer of the service discovery, the stubs of the configuration, the
message id of the request being served, a generated one, and what `connect` does. -/
structure CallEnv where
  discovered : ByteString
  stubs : List (ByteString × IPNetAddr) := []
  runtimeMsgId : ByteString := []
  genMsgId : ByteString
  connect : ConnectStart

/-- `RpcChannel::FindAddr`. -/
def findAddr (stubs : List (ByteString × IPNetAddr)) (str : ByteString) : Option IPNetAddr :=
  if IPNetAddr.checkValid str then some (.ofString str) else stubs.lookup str

namespace RpcChannel

variable {M : Type}

/-- `RpcChannel::Init`, on a new channel. -/
def init (controller : RpcController) (response : M) : RpcChannel M :=
  { controller, response, isInit := true, hasClosure := true }

/-- `RpcController::SetError`, on the controller of the channel. -/
def setError (ch : RpcChannel M) (errorCode : Int32) (errorInfo : ByteString) : RpcChannel M :=
  { ch with controller := ch.controller.setError errorCode errorInfo }

/-- `RpcController::SetMsgId`, on the controller of the channel. -/
def setMsgId (ch : RpcChannel M) (msgId : ByteString) : RpcChannel M :=
  { ch with controller := ch.controller.setMsgId msgId }

/-- `TcpClient::addTimerEvent`. -/
def addTimerEvent (ch : RpcChannel M) : RpcChannel M := { ch with timer := true }

/-- `RpcChannel::callBack`. -/
def callBack (ch : RpcChannel M) : RpcChannel M :=
  if ch.controller.isFinished then ch
  else if ch.hasClosure then
    -- The closure reads the controller before it is marked as finished.
    { ch with runs := ch.runs ++ [ch.controller], controller := ch.controller.setFinished true }
  else ch

@[simp] theorem setMsgId_isInit (ch : RpcChannel M) (msgId : ByteString) :
    (ch.setMsgId msgId).isInit = ch.isInit := rfl

/-! ## The callbacks -/

/-- The callback of `connect`, with the error code and text of the client. -/
def onConnect (ch : RpcChannel M) (req : TinyPBProtocol) (error : Int32 × ByteString) :
    RpcChannel M :=
  if error.1 ≠ 0 then (ch.setError error.1 error.2).callBack
  else { ch with awaits := .written req }

/-- The callback of `readMessage`. Parsing leaves the response message changed in either case. -/
def onResponse (parse : ByteString → M × Bool) (ch : RpcChannel M) (m : TinyPBProtocol) :
    RpcChannel M :=
  let ch := { ch with response := (parse m.pbData).1 }
  if ¬ (parse m.pbData).2 then
    -- The source reports a response that does not parse with the code for serializing.
    (ch.setError ErrCode.failedSerialize (ascii "serialize error")).callBack
  else if m.errCode ≠ 0 then (ch.setError m.errCode m.errInfo).callBack
  else ch.callBack

/-- The callback of the timer. -/
def onTimeout (ch : RpcChannel M) : RpcChannel M :=
  if ch.controller.isFinished then ch
  else
    -- Cancelling finishes the call, so that `callBack` returns at once.
    ({ ch with controller := ch.controller.startCancel }.setError ErrCode.rpcCallTimeout
      (ascii ("rpc call timeout " ++ toString ch.controller.timeout))).callBack

@[simp] theorem setError_timer (ch : RpcChannel M) (code : Int32) (info : ByteString) :
    (ch.setError code info).timer = ch.timer := rfl

@[simp] theorem callBack_timer (ch : RpcChannel M) : ch.callBack.timer = ch.timer := by
  unfold callBack
  split_ifs <;> rfl

@[simp] theorem onConnect_timer (ch : RpcChannel M) (req : TinyPBProtocol)
    (error : Int32 × ByteString) : (ch.onConnect req error).timer = ch.timer := by
  unfold onConnect
  split_ifs <;> simp

/-! ## The call -/

/-- The message id of the request. -/
def chooseMsgId (c : RpcController) (env : CallEnv) : ByteString :=
  if c.msgId ≠ [] then c.msgId
  else if env.runtimeMsgId ≠ [] then env.runtimeMsgId
  else env.genMsgId

/-- `TcpClient::connect`, with the callback of the call. -/
def connect (ch : RpcChannel M) (req : TinyPBProtocol) : ConnectStart → RpcChannel M
  -- Connected at once: the callback runs before `connect` returns.
  | .connected => ch.onConnect req (0, [])
  | .inProgress => { ch with awaits := .connect req }
  | .failed sysError =>
    ch.onConnect req (ErrCode.failedConnect, ascii "connect error, sys error = " ++ sysError)

/-- `RpcChannel::CallMethod` from the message id on: the checks, the timer and `connect`. The
controller that `callBack` asks is null before `Init`. -/
def callConnected (ch : RpcChannel M) (args : CallArgs) (env : CallEnv) :
    Except Fault (RpcChannel M) :=
  let msgId := chooseMsgId ch.controller env
  let ch := ch.setMsgId msgId
  if ¬ ch.isInit then .error .nullPointer
  else
    match args.serialized with
    | none =>
      .ok (ch.setError ErrCode.failedSerialize (ascii "failde to serialize")).callBack
    | some data =>
      .ok (ch.addTimerEvent.connect
        { msgId := msgId, methodName := args.methodName, pbData := data } env.connect)

/-- `RpcChannel::CallMethod`, until it returns. -/
def callMethod (ch : RpcChannel M) (args : CallArgs) (env : CallEnv) :
    Except Fault (RpcChannel M) :=
  -- The source logs the error and returns without `callBack`.
  if env.discovered = ascii "unknown host" then .ok ch
  else
    match findAddr env.stubs env.discovered with
    -- The client asks the address for its family before it is compared with null.
    | none => .error .nullPointer
    | some addr =>
      let ch := { ch with peerAddr := some addr }
      if ¬ args.hasController then .error .nullPointer
      else if ¬ args.hasRequest ∨ ¬ args.hasResponse then
        if ¬ ch.isInit then .error .nullPointer
        else
          .ok (ch.setError ErrCode.rpcChannelInit
            (ascii "controller or request or response NULL")).callBack
      else ch.callConnected args env

end RpcChannel

/-! ## What follows a call -/

/-- The callbacks that may follow a call. -/
inductive CallEvent
  | timeout
  | connect (r : ConnectResult)
  | written
  | response (m : TinyPBProtocol)
  deriving DecidableEq, Repr

/-- A callback, where it has been registered. Reading is registered under the id of the request as
it was sent. -/
def callStep {M : Type} (parse : ByteString → M × Bool) (ch : RpcChannel M) :
    CallEvent → Option (RpcChannel M)
  | .timeout => if ch.timer then some { ch with timer := false }.onTimeout else none
  | .connect r =>
    match ch.awaits with
    | .connect req => some ({ ch with awaits := .nothing }.onConnect req r.error)
    | _ => none
  | .written =>
    match ch.awaits with
    | .written req => some { ch with awaits := .response req.stamped.msgId }
    | _ => none
  | .response m =>
    match ch.awaits with
    | .response msgId =>
      if m.msgId = msgId then some ({ ch with awaits := .nothing }.onResponse parse m) else none
    | _ => none

/-- What the callbacks that can happen do. -/
inductive CallStepped {M : Type} (parse : ByteString → M × Bool) (ch : RpcChannel M) :
    CallEvent → RpcChannel M → Prop
  | timeout : ch.timer = true → CallStepped parse ch .timeout { ch with timer := false }.onTimeout
  | connect (r req) : ch.awaits = .connect req →
    CallStepped parse ch (.connect r) ({ ch with awaits := .nothing }.onConnect req r.error)
  | written (req) : ch.awaits = .written req →
    CallStepped parse ch .written { ch with awaits := .response req.stamped.msgId }
  | response (m) : ch.awaits = .response m.msgId →
    CallStepped parse ch (.response m) ({ ch with awaits := .nothing }.onResponse parse m)

theorem callStepped_of_callStep {M : Type} {parse : ByteString → M × Bool} {ch ch' : RpcChannel M}
    {e : CallEvent} (h : callStep parse ch e = some ch') : CallStepped parse ch e ch' := by
  cases e with
  | timeout =>
    rw [callStep] at h
    split_ifs at h with htimer
    cases h
    exact .timeout htimer
  | connect r =>
    rw [callStep] at h
    split at h
    · rename_i req hawaits
      cases h
      exact .connect r req hawaits
    · cases h
  | written =>
    rw [callStep] at h
    split at h
    · rename_i req hawaits
      cases h
      exact .written req hawaits
    · cases h
  | response m =>
    rw [callStep] at h
    split at h
    · rename_i msgId hawaits
      split_ifs at h with hmsgId
      cases h
      exact .response m (hmsgId ▸ hawaits)
    · cases h

end TalonRPC
