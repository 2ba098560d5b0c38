import TalonRPC.Rpc.Controller
import TalonRPC.Tcp.Connection

/-!
# RpcDispatcher

The dispatcher looks up the method a request names and calls it with a closure that sends the
response. The handler may run the closure itself, or give it to an `RpcInterface`, which runs it
when `reply` is called and when it is destroyed; it may do so at once or later.

## Main definitions

* `Service`: the methods of a registered service
* `parseServiceFullName`, `dispatch`: what becomes of a request
* `closure`: what the closure of a request does when it runs
* `Server`, `serveStep`: a connection with the requests dispatched on it, and what can happen
-/

namespace TalonRPC

/-- A registered service: its methods by their names, and whether a payload parses as a request of
the method. -/
structure Service where
  methods : List (ByteString × (ByteString → Bool))

/-- How far the handler of a request has come: it is never called, has the closure, has called
`reply` on the `RpcInterface` with the closure, or is done. -/
inductive Stage
  | rejected
  | running
  | replied
  | finished
  deriving DecidableEq, Repr

/-- A dispatched request: the response being built, and the controller its handler gets. -/
structure Dispatched where
  request : TinyPBProtocol
  response : TinyPBProtocol
  controller : RpcController := {}
  stage : Stage
  deriving DecidableEq, Repr

/-- A message given to `TcpConnection::reply` for a request, and whether it was encoded into the
out-buffer. -/
structure Handed where
  request : ℕ
  message : TinyPBProtocol
  entered : Bool
  deriving DecidableEq, Repr

namespace RpcDispatcher

/-- `RpcDispatcher::setTinyPBError`. -/
def setTinyPBError (msg : TinyPBProtocol) (errCode : Int32) (errInfo : ByteString) :
    TinyPBProtocol :=
  { msg with errCode := errCode, errInfo := errInfo, errInfoLen := .ofInt errInfo.length }

/-- `RpcDispatcher::parseServiceFullName`: the service before the first dot, and the method. -/
def parseServiceFullName (fullName : ByteString) : Option (ByteString × ByteString) :=
  if fullName = [] then none
  else if 0x2e ∉ fullName then none
  else some (fullName.takeWhile (· ≠ 0x2e), (fullName.dropWhile (· ≠ 0x2e)).drop 1)

/-- `RpcDispatcher::dispatch`, until the method is called. -/
def dispatch (services : List (ByteString × Service)) (req : TinyPBProtocol) : Dispatched :=
  let rsp : TinyPBProtocol := { msgId := req.msgId, methodName := req.methodName }
  let reject (errCode : Int32) (errInfo : String) : Dispatched :=
    { request := req, response := setTinyPBError rsp errCode (ascii errInfo), stage := .rejected }
  match parseServiceFullName req.methodName with
  | none => reject ErrCode.parseServiceName "parse service name error"
  | some name =>
    match services.lookup name.1 with
    | none => reject ErrCode.serviceNotFound "service not found"
    | some service =>
      match service.methods.lookup name.2 with
      | none => reject ErrCode.serviceNotFound "method not found"
      -- The payload is parsed as a request of the method.
      | some parses =>
        if ¬ parses req.pbData then reject ErrCode.failedDeserialize "deserilize error"
        else
          { request := req, response := rsp, controller := { msgId := req.msgId },
            stage := .running }

/-- The response as the closure sends it, when its message is serialized to `serialized`. A failed
serialization leaves no payload. -/
def respond (rsp : TinyPBProtocol) (serialized : Option ByteString) : TinyPBProtocol :=
  match serialized with
  | none =>
    setTinyPBError { rsp with pbData := [] } ErrCode.failedSerialize (ascii "serilize error")
  | some data => { rsp with pbData := data, errCode := 0, errInfo := [] }

end RpcDispatcher

open RpcDispatcher

/-! ## Serving a connection -/

/-- A server connection, the requests dispatched on it, and the messages given to its `reply`. -/
structure Server (κ : Type) where
  conn : TcpConnection κ
  calls : List Dispatched := []
  handed : List Handed := []

/-- What a handler does with the closure: it runs it, or it calls `reply` on the `RpcInterface` that
owns it, or it destroys the `RpcInterface`. -/
inductive HandlerAct
  | run
  | reply
  | destroy
  deriving DecidableEq, Repr

/-- A handler finishes its request once: by running the closure, or by destroying the
`RpcInterface` after at most one `reply`. -/
def HandlerAct.next : Stage → HandlerAct → Option Stage
  | .running, .run => some .finished
  | .running, .reply => some .replied
  | .running, .destroy => some .finished
  | .replied, .destroy => some .finished
  | _, _ => none

/-- What can happen on a server connection: the next request is dispatched, or the handler of an
earlier one acts, when its response is serialized to `serialized`. -/
inductive ServeEvent
  | request (m : TinyPBProtocol)
  | act (call : ℕ) (handlerAct : HandlerAct) (serialized : Option ByteString)
  deriving DecidableEq, Repr

/-- The closure of the `i`th request runs: it completes the response and gives it to `reply`. A
`std::length_error` is caught, and the message lost; an access out of bounds ends the program. -/
def closure {κ : Type} (s : Server κ) (i : ℕ) (call : Dispatched) (stage : Stage)
    (serialized : Option ByteString) : Option (Server κ) :=
  let rsp := respond call.response serialized
  match s.conn.reply [rsp] with
  | .ok left =>
    -- The response is left as `encodeTinyPB` stamps it.
    some ⟨left.2, s.calls.set i { call with response := left.1.headD rsp, stage := stage },
      s.handed ++ [⟨i, rsp, true⟩]⟩
  | .error .lengthError =>
    some ⟨s.conn, s.calls.set i { call with response := rsp, stage := stage },
      s.handed ++ [⟨i, rsp, false⟩]⟩
  | .error _ => none

/-- An event on a server connection. `RpcInterface::reply` runs the closure, and
`RpcInterface::~RpcInterface` calls `reply`. -/
def serveStep {κ : Type} (services : List (ByteString × Service)) (s : Server κ) :
    ServeEvent → Option (Server κ)
  | .request m => some { s with calls := s.calls ++ [dispatch services m] }
  | .act i a serialized =>
    match s.calls[i]? with
    | none => none
    | some call =>
      match a.next call.stage with
      | none => none
      | some stage => closure s i call stage serialized

end TalonRPC
