import TalonRPC.Rpc.Replies
import TalonRPC.Tcp.Link
import TalonRPC.Tcp.Responses

/-!
# Calls over a connection

A client and a server are connected. The client queues requests and registers a callback for the
response of each when it is written; the server dispatches the requests it decodes, and its handlers
reply whenever they like. Both out-buffers are written from their first byte every time, so that
requests and replies come more than once; and the bytes come in pieces of any size. Still a callback
is called at most once, and with a reply to its own request.

## Main definitions

* `Session`: the two connections, the streams between them, and what `excute` has decoded
* `SessionEvent`, `sessionStep`: what happens on either side
* `Smooth`: no byte is lost or repeated inside a message, and where a message is cut its bytes are
  quiet
* `AnswersOwn`: callbacks are called at most once, and with a reply to the request of their id
* `Quiescent`: all is written and read, and every handler is done

## Main results

* `Link.decoded`: reading and decoding takes the complete messages off a stream
-/

namespace TalonRPC

open Bytes Machine TinyPBCoder TinyPBProtocol TcpConnection RpcDispatcher

namespace TcpConnection

variable {κ : Type}

/-- `TcpConnection::listenRead`. -/
def listenRead (c : TcpConnection κ) : TcpConnection κ :=
  { c with fdEvent := { c.fdEvent with inEvent := true, registered := true } }

/-- `TcpConnection::onRead`, up to the messages `excute` decodes, if its decoder returns within `n`
iterations. -/
def decoded (c : TcpConnection κ) (rs : List ReadResult) (n : ℕ) :
    Option (TcpConnection κ × List TinyPBProtocol) :=
  match c.onRead rs with
  | some (.ok (.returns c')) => some (c', [])
  | some (.ok (.excutes c')) =>
    match decode n [] c'.inBuffer with
    | some (.ok (ms, b)) => some ({ c' with inBuffer := b }, ms)
    | _ => none
  | _ => none

/-- What `onRead` needs to keep all bytes, and to decode them as they were sent. -/
structure ReadsSmoothly (c : TcpConnection κ) (rs : List ReadResult) : Prop where
  short : c.ReadsShort rs
  quiet : ∀ c', c.onRead rs = some (.ok (.excutes c')) → CutsQuietly c'.inBuffer

end TcpConnection

/-- **Reading and decoding**: the messages that are complete are taken off the stream, and nothing
else of the connection changes unless it is closed. -/
theorem TcpConnection.Link.decoded {κ κ' : Type} {c : TcpConnection κ} {d d' : TcpConnection κ'}
    {stream : ByteString} {encoded taken pending ms : List TinyPBProtocol} {rs : List ReadResult}
    {n : ℕ} (h : Link c stream d encoded taken pending) (hsmooth : d.ReadsSmoothly rs)
    (hpre : received rs <+: stream) (hdecoded : d.decoded rs n = some (d', ms)) :
    (∃ now later, pending = now ++ later ∧ ms = now.map TinyPBProtocol.received ∧
      Link c (stream.drop (received rs).length) d' encoded (taken ++ now) later) ∧
    d'.outBuffer = d.outBuffer ∧ d'.connectionType = d.connectionType ∧
      d'.writeDones = d.writeDones ∧
      (d'.state = .connected → d.state = .connected ∧ d'.fdEvent = d.fdEvent) := by
  unfold TcpConnection.decoded at hdecoded
  obtain ⟨stream, rfl⟩ := hpre
  rw [List.drop_left]
  split at hdecoded
  · rename_i c' hread
    obtain ⟨rfl, rfl⟩ := Prod.mk.inj (Option.some.inj hdecoded)
    obtain ⟨hclosed, hout, htype, hdones⟩ := state_of_returns hread
    refine ⟨⟨[], pending, rfl, rfl, ?_⟩, hout, htype, hdones, fun hc => absurd hc hclosed⟩
    rw [List.append_nil]
    exact h.returns hclosed
  · rename_i c' hread
    split at hdecoded
    swap
    · cases hdecoded
    rename_i ms' b hdecode
    obtain ⟨rfl, rfl⟩ := Prod.mk.inj (Option.some.inj hdecoded)
    have hstate : d.state = .connected := by
      by_contra hclosed
      rw [TcpConnection.onRead, if_pos hclosed] at hread
      split_ifs at hread
      cases hread
    obtain ⟨now, later, hpending, hms, hlink⟩ :=
      h.onRead hstate hsmooth.short hread (hsmooth.quiet c' hread) hdecode
    obtain ⟨b₁, -, rfl⟩ := (onRead_eq_excutes_iff hstate).mp hread
    exact ⟨⟨now, later, hpending, hms, hlink⟩, rfl, rfl, rfl, fun _ => ⟨hstate, rfl⟩⟩
  · cases hdecoded

/-- A client connection with its callbacks and a server connection with its requests, the bytes
under way between them, and the decoded messages that the loops of `excute` have not come to. -/
structure Session where
  client : TcpConnection Unit
  readDones : ReadDones := {}
  responses : List TinyPBProtocol := []
  upstream : ByteString := []
  server : Server Unit
  requests : List TinyPBProtocol := []
  downstream : ByteString := []

/-- What happens in a session. The client sends a request, or one of its events is triggered, or its
`excute` comes to the next response, or the callback of that returns; an event of the server is
triggered, or its `excute` comes to the next request, or a handler acts. -/
inductive SessionEvent
  | writeMessage (m : TinyPBProtocol)
  | clientWrite (rs : List WriteResult)
  | clientRead (rs : List ReadResult) (n : ℕ)
  | response
  | returned
  | serverRead (rs : List ReadResult) (n : ℕ)
  | dispatch
  | act (call : ℕ) (handlerAct : HandlerAct) (serialized : Option ByteString)
  | serverWrite (rs : List WriteResult)
  deriving DecidableEq, Repr

namespace Session

/-- Connections with in- and out-buffers of the given sizes, which have just been connected. -/
def new (clientSize serverSize : ℕ) : Session where
  client :=
    { inBuffer := .new clientSize, outBuffer := .new clientSize, state := .connected,
      connectionType := .byClient }
  server :=
    { conn := TcpConnection.listenRead
        { inBuffer := .new serverSize, outBuffer := .new serverSize, state := .connected } }

/-- `TcpClient::readMessage`, called when the request with the id has been sent. -/
def readMessage (s : Session) (msgId : ByteString) : Session :=
  { s with client := s.client.listenRead, readDones := s.readDones.pushReadMessage msgId }

end Session

/-- The state after an event, if it can happen. A read finds bytes that are under way, in their
order; `excute` has gone through its messages when the next event of its connection is triggered. -/
def sessionStep (services : List (ByteString × Service)) (s : Session) :
    SessionEvent → Option Session
  | .writeMessage m => some { s with client := (s.client.pushSendMessage m ()).listenWrite }
  | .clientWrite rs =>
    match s.client.onWrite rs with
    | some (.ok x) =>
      some (x.dones.foldl (fun s done => s.readMessage done.1.msgId)
        { s with client := x.conn, upstream := s.upstream ++ x.accepted.flatten })
    | _ => none
  | .clientRead rs n =>
    if s.responses = [] ∧ s.readDones.running = none ∧ received rs <+: s.downstream then
      (s.client.decoded rs n).map fun (c, ms) =>
        { s with
          client := c
          responses := ms
          downstream := s.downstream.drop (received rs).length }
    else none
  | .response =>
    match s.responses with
    | [] => none
    | m :: ms =>
      (responseStep s.readDones (.response m)).map fun r =>
        { s with readDones := r, responses := ms }
  | .returned => (responseStep s.readDones .returned).map fun r => { s with readDones := r }
  | .serverRead rs n =>
    if s.requests = [] ∧ received rs <+: s.upstream then
      (s.server.conn.decoded rs n).map fun (c, ms) =>
        { s with
          server := { s.server with conn := c }
          requests := ms
          upstream := s.upstream.drop (received rs).length }
    else none
  | .dispatch =>
    match s.requests with
    | [] => none
    | m :: ms =>
      (serveStep services s.server (.request m)).map fun server =>
        { s with server := server, requests := ms }
  | .act i a r =>
    (serveStep services s.server (.act i a r)).map fun server => { s with server := server }
  | .serverWrite rs =>
    match s.server.conn.onWrite rs with
    | some (.ok x) =>
      some { s with
        server := { s.server with conn := x.conn }
        downstream := s.downstream ++ x.accepted.flatten }
    | _ => none

/-- The requests fit the decoder; writes take the out-buffer as a whole, and reads are short and cut
messages where it is quiet. -/
def Smooth (s : Session) : SessionEvent → Prop
  | .writeMessage m => m.Encodable
  | .clientWrite rs => s.client.WritesWhole rs
  | .clientRead rs _ => s.client.ReadsSmoothly rs
  | .serverRead rs _ => s.server.conn.ReadsSmoothly rs
  | .serverWrite rs => s.server.conn.WritesWhole rs
  | _ => True

/-- The requests among the events. -/
def written (es : List SessionEvent) : List TinyPBProtocol :=
  es.filterMap fun
    | .writeMessage m => some m
    | _ => none

/-- The handler has replied to the request `q` with the message `h`, and `m` is what becomes of it
on the way. -/
structure RepliedTo (s : Session) (q m : TinyPBProtocol) (h : Handed) : Prop where
  handed : h ∈ s.server.handed
  call : ∃ call, s.server.calls[h.request]? = some call ∧ call.request = q.received
  received : m = h.message.received
  msgId : m.msgId = q.named.msgId

/-- **Callbacks get replies to their own requests**: none is called twice; each call is made with a
reply to a request of the client, for the id of which the callback was registered; and no handler
is called for anything else. -/
structure AnswersOwn (es : List SessionEvent) (s : Session) : Prop where
  once : (s.readDones.invoked.map (·.1)).Nodup
  own : ∀ x ∈ s.readDones.invoked, ∃ q ∈ written es, ∃ h, RepliedTo s q x.2 h ∧
    s.readDones.registered[x.1]? = some q.named.msgId
  genuine : ∀ call ∈ s.server.calls, ∃ q ∈ written es, call.request = q.received

/-- Nothing is left to be written, read, decoded or handled, and no reply got lost in the
encoder. -/
structure Quiescent (s : Session) : Prop where
  client : s.client.state = .connected ∧ s.client.fdEvent.outEvent = false
  server : s.server.conn.state = .connected ∧ s.server.conn.fdEvent.outEvent = false
  streams : s.upstream = [] ∧ s.downstream = []
  gone : s.requests = [] ∧ s.responses = []
  finished : ∀ call ∈ s.server.calls, call.stage = .finished
  entered : ∀ h ∈ s.server.handed, h.entered = true

instance (s : Session) : Decidable (Quiescent s) :=
  decidable_of_iff ((s.client.state = .connected ∧ s.client.fdEvent.outEvent = false) ∧
      (s.server.conn.state = .connected ∧ s.server.conn.fdEvent.outEvent = false) ∧
      (s.upstream = [] ∧ s.downstream = []) ∧ (s.requests = [] ∧ s.responses = []) ∧
      (∀ call ∈ s.server.calls, call.stage = .finished) ∧ ∀ h ∈ s.server.handed, h.entered = true)
    ⟨fun ⟨h₁, h₂, h₃, h₄, h₅, h₆⟩ => ⟨h₁, h₂, h₃, h₄, h₅, h₆⟩,
      fun ⟨h₁, h₂, h₃, h₄, h₅, h₆⟩ => ⟨h₁, h₂, h₃, h₄, h₅, h₆⟩⟩

end TalonRPC
