import TalonRPC.Tcp.NetAddr

/-!
# RpcController

The state of a call that its closure reads: the error, and whether the call has failed, was
cancelled or is finished.

## Main definitions

* `ErrCode`: the error codes of the library
* `RpcController`: the controller, with the setters a call uses
-/

namespace TalonRPC

namespace ErrCode

/-- `ERROR_PEER_CLOSED`. -/
def peerClosed : Int32 := 10000000

/-- `ERROR_FAILED_CONNECT`. -/
def failedConnect : Int32 := 10000001

/-- `ERROR_FAILED_DESERIALIZE`. -/
def failedDeserialize : Int32 := 10000003

/-- `ERROR_FAILED_SERIALIZE`. -/
def failedSerialize : Int32 := 10000004

/-- `ERROR_RPC_CALL_TIMEOUT`. -/
def rpcCallTimeout : Int32 := 10000007

/-- `ERROR_SERVICE_NOT_FOUND`. -/
def serviceNotFound : Int32 := 10000008

/-- `ERROR_PARSE_SERVICE_NAME`. -/
def parseServiceName : Int32 := 10000010

/-- `ERROR_RPC_CHANNEL_INIT`. -/
def rpcChannelInit : Int32 := 10000011

end ErrCode

/-- `RpcController`. -/
structure RpcController where
  errorCode : Int32 := 0
  errorInfo : ByteString := []
  msgId : ByteString := []
  isFailed : Bool := false
  isCancled : Bool := false
  isFinished : Bool := false
  timeout : ℤ := 1000
  deriving DecidableEq, Repr

namespace RpcController

/-- `RpcController::SetFinished`. -/
def setFinished (c : RpcController) (value : Bool) : RpcController := { c with isFinished := value }

/-- `RpcController::StartCancel`. -/
def startCancel (c : RpcController) : RpcController :=
  { c with isCancled := true, isFailed := true }.setFinished true

/-- `RpcController::SetFailed`. -/
def setFailed (c : RpcController) (reason : ByteString) : RpcController :=
  { c with errorInfo := reason, isFailed := true }

/-- `RpcController::SetError`. -/
def setError (c : RpcController) (errorCode : Int32) (errorInfo : ByteString) : RpcController :=
  { c with errorCode := errorCode, errorInfo := errorInfo, isFailed := true }

/-- `RpcController::SetMsgId`. -/
def setMsgId (c : RpcController) (msgId : ByteString) : RpcController := { c with msgId := msgId }

end RpcController

end TalonRPC
