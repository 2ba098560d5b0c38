import TalonRPC.Machine.Dialogue
import TalonRPC.TinyPB.Protocol

/-!
# TcpConnection

A connection reads from its socket into the in-buffer and writes to it from the out-buffer. The
event loop calls `onRead` and `onWrite` when the socket is ready; both loop around a system call,
whose results are given here as the answers of the socket.

## Main definitions

* `TcpConnection`: the state of a connection, with its buffers and what it listens for
* `onRead`: reading, until the connection is closed or its messages can be handled
* `reply`, `onWrite`: putting messages into the out-buffer, and writing it out
-/

namespace TalonRPC

open Machine TinyPBCoder

/-- `TcpState`. -/
inductive TcpState
  | notConnected
  | connected
  | halfClosing
  | closed
  deriving DecidableEq, Repr

/-- `TcpConnectionType`. -/
inductive TcpConnectionType
  | byServer
  | byClient
  deriving DecidableEq, Repr

/-- What a connection listens for: the event mask of its `Fd_Event`, and whether the event loop has
the event registered. -/
structure FdEvent where
  inEvent : Bool := false
  outEvent : Bool := false
  registered : Bool := false
  deriving DecidableEq, Repr

/-- `TcpConnection`. Messages to be sent carry the callback that runs once they are. -/
structure TcpConnection (κ : Type) where
  inBuffer : TcpBuffer
  outBuffer : TcpBuffer
  fdEvent : FdEvent := {}
  state : TcpState := .notConnected
  connectionType : TcpConnectionType := .byServer
  writeDones : List (TinyPBProtocol × κ) := []
  deriving DecidableEq, Repr

namespace TcpConnection

variable {κ : Type}

/-- `TcpConnection::clear`. -/
def clear (c : TcpConnection κ) : TcpConnection κ :=
  if c.state = .closed then c
  else { c with fdEvent := ⟨false, false, false⟩, state := .closed }

/-- `TcpConnection::listenWrite`. -/
def listenWrite (c : TcpConnection κ) : TcpConnection κ :=
  { c with fdEvent := { c.fdEvent with outEvent := true, registered := true } }

/-! ## Reading -/

/-- What `read` does: it stores bytes, finds the peer gone, would block, or fails. -/
inductive ReadResult
  | bytes (bs : ByteString)
  | closed
  | again
  | error
  deriving DecidableEq, Repr

/-- How the loop of `onRead` is left. -/
inductive ReadOutcome
  | readAll (inBuffer : TcpBuffer)
  | close (inBuffer : TcpBuffer)
  deriving DecidableEq, Repr

/-- The in-buffer `onRead` reads into: a full one is grown to twice its size first, and that size
is passed as an int. -/
def grown (b : TcpBuffer) : Except Fault TcpBuffer :=
  if b.writeAble = 0 then b.resizeBuffer (Bytes.wrap32 (2 * b.buffer.length)) else .ok b

/-- What the loop of `onRead` does on an answer. -/
def readAnswer (b : TcpBuffer) : ReadResult → Verdict TcpBuffer (Except Fault ReadOutcome)
  | .bytes bs =>
    -- The bytes lie behind the write index, whether or not it can be moved over them.
    if b.writeAble < bs.length then .done (.error .outOfBounds)
    else if bs.length < b.writeAble then .done (.ok (.readAll (b.receive bs)))
    else .next (b.receive bs)
  | .closed => .done (.ok (.close b))
  -- `EAGAIN`: everything has been read.
  | .again => .done (.ok (.readAll b))
  -- Any other error is not looked at: the source reads again.
  | .error => .next b

/-- An iteration of the loop of `onRead`. -/
def readTurn (b : TcpBuffer) : Turn TcpBuffer ReadResult (Except Fault ReadOutcome) :=
  match grown b with
  | .error e => .done (.error e)
  | .ok b => .ask (readAnswer b)

/-- What `onRead` leaves: a connection it has returned from, or one whose messages `excute` is
about to handle. -/
inductive Reading (κ : Type)
  | returns (c : TcpConnection κ)
  | excutes (c : TcpConnection κ)
  deriving DecidableEq

/-- After the loop: a connection whose peer is gone is cleared. -/
def afterRead (c : TcpConnection κ) : ReadOutcome → Reading κ
  | .close b => .returns { c with inBuffer := b }.clear
  | .readAll b => .excutes { c with inBuffer := b }

/-- `TcpConnection::onRead`, up to `excute`, when the socket answers `rs`. -/
def onRead (c : TcpConnection κ) (rs : List ReadResult) : Option (Except Fault (Reading κ)) :=
  if c.state ≠ .connected then
    if rs = [] then some (.ok (.returns c)) else none
  else (converse readTurn rs c.inBuffer).map (Except.map c.afterRead)

/-! ## Writing -/

/-- What `write` does: it takes a number of bytes, would block, or fails. -/
inductive WriteResult
  | count (n : ℕ)
  | again
  | error
  deriving DecidableEq, Repr

/-- What the loop of `onWrite` does on an answer. It keeps what the socket took, write by write, and
leaves with `is_write_all`; the out-buffer stays as it is. -/
def writeAnswer (out : TcpBuffer) (accepted : List ByteString) :
    WriteResult → Verdict (List ByteString) (List ByteString × Bool)
  | .count n =>
    -- The read index of the out-buffer stays where it is.
    if out.readAble ≤ n then .done (accepted ++ [out.readable.take n], true)
    else .next (accepted ++ [out.readable.take n])
  -- `EAGAIN`: the rest is left to the next event.
  | .again => .done (accepted, false)
  | .error => .next accepted

/-- An iteration of the loop of `onWrite`. -/
def writeTurn (out : TcpBuffer) (accepted : List ByteString) :
    Turn (List ByteString) WriteResult (List ByteString × Bool) :=
  if out.readAble = 0 then .done (accepted, true) else .ask (writeAnswer out accepted)

/-- `TcpConnection::reply`: the messages as they are left, and the connection. -/
def reply (c : TcpConnection κ) (ms : List TinyPBProtocol) :
    Except Fault (List TinyPBProtocol × TcpConnection κ) :=
  (encode ms c.outBuffer).map fun (ms', out) => (ms', { c with outBuffer := out }.listenWrite)

/-- What `onWrite` leaves: the connection, what the socket took, write by write, whether the loop
was left with `is_write_all`, and the callbacks that ran. -/
structure Writing (κ : Type) where
  conn : TcpConnection κ
  accepted : List ByteString
  isWriteAll : Bool
  dones : List (TinyPBProtocol × κ)
  deriving DecidableEq

/-- A client first encodes the messages it has to send. -/
def encodePending (c : TcpConnection κ) : Except Fault (TcpConnection κ) :=
  match c.connectionType with
  | .byServer => .ok c
  | .byClient =>
    (encode (c.writeDones.map (·.1)) c.outBuffer).map fun (ms, out) =>
      { c with outBuffer := out, writeDones := ms.zip (c.writeDones.map (·.2)) }

/-- After the loop: a connection that has written all stops listening, and a client runs the
callbacks of its messages. -/
def afterWrite (c : TcpConnection κ) (accepted : List ByteString) (isWriteAll : Bool) :
    Writing κ :=
  let c := if isWriteAll then
      { c with fdEvent := { c.fdEvent with outEvent := false, registered := true } }
    else c
  match c.connectionType with
  | .byServer => ⟨c, accepted, isWriteAll, []⟩
  | .byClient => ⟨{ c with writeDones := [] }, accepted, isWriteAll, c.writeDones⟩

/-- `TcpConnection::onWrite`, when the socket answers `rs`. -/
def onWrite (c : TcpConnection κ) (rs : List WriteResult) : Option (Except Fault (Writing κ)) :=
  if c.state ≠ .connected then
    if rs = [] then some (.ok ⟨c, [], false, []⟩) else none
  else
    match c.encodePending with
    | .error e => if rs = [] then some (.error e) else none
    | .ok c =>
      (converse (writeTurn c.outBuffer) rs []).map fun (accepted, isWriteAll) =>
        .ok (c.afterWrite accepted isWriteAll)

end TcpConnection

end TalonRPC
