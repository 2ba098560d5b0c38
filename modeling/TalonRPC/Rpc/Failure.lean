import TalonRPC.Rpc.Outcome
import TalonRPC.Rpc.Replies
import TalonRPC.TinyPB.Image
import TalonRPC.TinyPB.RoundTrip

/-!
# Failures across the wire

A handler reports a failure by the controller it is given, and the reply has fields for an error
code and an error text. But the closure of the dispatcher does not look at the controller: it sends
the code 0 with every response that can be serialized. What the handler has set does not reach the
client.

## Main definitions

* `ControllerOp`: what a handler does with its controller
* `Carried rsp m`: the client decodes `m` where the server has encoded `rsp`
* `FailureAgrees`: the client's controller has failed exactly if the server's has or the response
  was lost, and with the text of the server
* `SameByChance`: the client reports what the handler has set, although it was not told

## Main results

* `Carried.eq_received`: what the client decodes is the reply
* `response_cases`: what a response does to the client's controller
* `failureAgrees_iff`: the failures agree exactly if they do so by chance
-/

namespace TalonRPC

open TinyPBCoder RpcDispatcher

/-- What a handler does with its controller. -/
inductive ControllerOp
  | setFailed (reason : ByteString)
  | setError (errorCode : Int32) (errorInfo : ByteString)
  | startCancel
  deriving DecidableEq, Repr

/-- The controller after an operation. -/
def ControllerOp.run (c : RpcController) : ControllerOp → RpcController
  | .setFailed reason => c.setFailed reason
  | .setError errorCode errorInfo => c.setError errorCode errorInfo
  | .startCancel => c.startCancel

/-- The controller a handler is given for `req`, after its operations `ops`. -/
def handled (services : List (ByteString × Service)) (req : TinyPBProtocol)
    (ops : List ControllerOp) : RpcController :=
  ops.foldl ControllerOp.run (dispatch services req).controller

/-- The error text the operations `ops` leave. -/
def errorTextOf (ops : List ControllerOp) : ByteString :=
  (ops.foldl ControllerOp.run {}).errorInfo

/-- The decoder of the server has delivered the message. -/
def Delivered (req : TinyPBProtocol) : Prop :=
  ∃ b ts b', b.WellFormed ∧ Takes b ts b' ∧ req ∈ messages ts

/-- The server encodes `rsp`, and from its bytes the client decodes `m`. -/
def Carried (rsp m : TinyPBProtocol) : Prop :=
  ∃ out ms out' b b', out.WellFormed ∧ encode [rsp] out = .ok (ms, out') ∧ b.WellFormed ∧
    b.writeIndex < b.buffer.length ∧ out'.readable = out.readable ++ b.readable ∧
      Decodes b [m] b'

/-- The response is serialized by the server, and parsed by the client. -/
def Arrives {M : Type} (parse : ByteString → M × Bool) (serialized : Option ByteString) : Prop :=
  ∃ data, serialized = some data ∧ (parse data).2 = true

/-- **The failures agree**: the client's controller has failed exactly if the server's has, or the
response was lost; and where the server's has, with its error text. -/
structure FailureAgrees {M : Type} (parse : ByteString → M × Bool) (serialized : Option ByteString)
    (server client : RpcController) : Prop where
  isFailed : client.isFailed = true ↔ server.isFailed = true ∨ ¬ Arrives parse serialized
  errorInfo : server.isFailed = true → client.errorInfo = server.errorInfo

/-- The client reports what the handler has set, although it was not told: where the response
arrives, the client's controller was as the handler has left its own; and where it does not, the
handler has set nothing, or the text that the loss of the response sets. -/
def SameByChance {M : Type} (parse : ByteString → M × Bool) (serialized : Option ByteString)
    (ops : List ControllerOp) (client : RpcController) : Prop :=
  match serialized with
  | some data =>
    if (parse data).2 then
      (client.isFailed = true ↔ ops ≠ []) ∧ (ops ≠ [] → client.errorInfo = errorTextOf ops)
    else ops = [] ∨ errorTextOf ops = ascii "serialize error"
  | none =>
    ops = [] ∨
      errorTextOf ops = if (parse []).2 then ascii "serilize error" else ascii "serialize error"

/-! ## The server -/

section Server

variable {services : List (ByteString × Service)} {req : TinyPBProtocol} {ops : List ControllerOp}
  {rsp m : TinyPBProtocol}

/-- Every operation fails the controller. -/
theorem isFailed_run (c : RpcController) (op : ControllerOp) : (op.run c).isFailed = true := by
  cases op <;> rfl

theorem isFailed_foldl (c : RpcController) (ops : List ControllerOp) :
    (ops.foldl ControllerOp.run c).isFailed = true ↔ c.isFailed = true ∨ ops ≠ [] := by
  induction ops generalizing c with
  | nil => simp
  | cons op ops ih =>
    rw [List.foldl_cons, ih, isFailed_run]
    simp

/-- The text depends on the operations, and on the text before. -/
theorem errorInfo_foldl (ops : List ControllerOp) (c c' : RpcController)
    (h : c.errorInfo = c'.errorInfo) :
    (ops.foldl ControllerOp.run c).errorInfo = (ops.foldl ControllerOp.run c').errorInfo := by
  induction ops generalizing c c' with
  | nil => exact h
  | cons op ops ih =>
    apply ih (op.run c) (op.run c')
    cases op with
    | setFailed reason => rfl
    | setError errorCode errorInfo => rfl
    | startCancel => exact h

/-- The controller a handler is given is new. -/
theorem dispatch_controller (hresolves : Resolves services req) :
    (dispatch services req).controller = { msgId := req.msgId } := by
  obtain ⟨name, service, parses, hname, hservice, hmethod, hparses⟩ := hresolves
  simp [dispatch, hname, hservice, hmethod, hparses]

theorem handled_isFailed (hresolves : Resolves services req) (ops : List ControllerOp) :
    (handled services req ops).isFailed = true ↔ ops ≠ [] := by
  rw [handled, isFailed_foldl, dispatch_controller hresolves]
  simp

theorem handled_errorInfo (hresolves : Resolves services req) (ops : List ControllerOp) :
    (handled services req ops).errorInfo = errorTextOf ops := by
  rw [handled, dispatch_controller hresolves]
  exact errorInfo_foldl ops _ _ rfl

/-- The response before the closure runs, for a request that resolves. -/
theorem dispatch_response (hresolves : Resolves services req) :
    (dispatch services req).response = { msgId := req.msgId, methodName := req.methodName } := by
  obtain ⟨name, service, parses, hname, hservice, hmethod, hparses⟩ := hresolves
  simp [dispatch, hname, hservice, hmethod, hparses]

/-- The reply to a delivered request can be encoded. -/
theorem encodable_respond (hreq : Delivered req) (hresolves : Resolves services req)
    (serialized : Option ByteString) :
    (respond (dispatch services req).response serialized).Encodable := by
  obtain ⟨b, ts, b', hwf, hts, hmem⟩ := hreq
  have hencodable := hts.encodable hwf req hmem
  rw [dispatch_response hresolves]
  cases serialized with
  | none =>
    have hshort : (ascii "serilize error").length ≤ 511 := by decide
    have hnul : 0 ∉ ascii "serilize error" := by decide
    exact ⟨hencodable.length_msgId, hencodable.length_methodName, hshort, hencodable.msgId_nul,
      hencodable.methodName_nul, hnul⟩
  | some data =>
    exact ⟨hencodable.length_msgId, hencodable.length_methodName, by simp [respond],
      hencodable.msgId_nul, hencodable.methodName_nul, by simp [respond]⟩

/-- **What the client decodes is the reply**, as the decoder receives it. -/
theorem Carried.eq_received (h : Carried rsp m) (hrsp : rsp.Encodable) : m = rsp.received := by
  obtain ⟨out, ms, out', b, b', hout, henc, hwf, hroom, hread, hdecodes⟩ := h
  obtain ⟨-, -, hwire, -⟩ := encode_eq hout henc
  have hread' : b.readable = wire [rsp] := List.append_cancel_left (hread.symm.trans hwire)
  obtain ⟨b'', hdecodes', -⟩ := decodes_wire (by simpa using hrsp) hwf hroom hread'
  exact List.head_eq_of_cons_eq (hdecodes.unique hdecodes').1

end Server

/-! ## The client -/

section Client

variable {M : Type} {parse : ByteString → M × Bool} {serialized : Option ByteString}
  {services : List (ByteString × Service)} {req rsp m : TinyPBProtocol}
  {ch ch' : RpcChannel M}

/-- What a caller can read of a failure: whether there is one, and the error text. -/
abbrev SameFailure (c c' : RpcController) : Prop :=
  c.isFailed = c'.isFailed ∧ c.errorInfo = c'.errorInfo

theorem callBack_sameFailure (ch : RpcChannel M) :
    SameFailure ch.callBack.controller ch.controller := by
  unfold RpcChannel.callBack
  split_ifs <;> exact ⟨rfl, rfl⟩

/-- **What a response does to the client's controller**: the error of a response that does not
parse, or that it carries, is set; a response without one leaves the controller as it is. -/
theorem response_cases (h : callStep parse ch (.response m) = some ch') :
    ((parse m.pbData).2 = false ∧ SameFailure ch'.controller
        (ch.controller.setError ErrCode.failedSerialize (ascii "serialize error"))) ∨
      ((parse m.pbData).2 = true ∧ m.errCode ≠ 0 ∧
        SameFailure ch'.controller (ch.controller.setError m.errCode m.errInfo)) ∨
      ((parse m.pbData).2 = true ∧ m.errCode = 0 ∧
        SameFailure ch'.controller ch.controller) := by
  cases callStepped_of_callStep h
  unfold RpcChannel.onResponse
  dsimp only
  split_ifs with hparse hcode
  · exact .inr (.inl ⟨hparse, hcode, callBack_sameFailure _⟩)
  · exact .inr (.inr ⟨hparse, not_not.mp hcode, callBack_sameFailure _⟩)
  · exact .inl ⟨Bool.eq_false_iff.mpr hparse, callBack_sameFailure _⟩

/-- Receiving a message changes none of the fields a response is read from. -/
theorem received_fields (m : TinyPBProtocol) :
    m.received.pbData = m.pbData ∧ m.received.errCode = m.errCode ∧
      m.received.errInfo = m.errInfo := by
  unfold TinyPBProtocol.received TinyPBProtocol.stamped TinyPBProtocol.named
  split_ifs <;> exact ⟨rfl, rfl, rfl⟩

section Agreement

variable {ops : List ControllerOp} {c client : RpcController} {code : Int32} {text : ByteString}

/-- Where the response is lost, the client has the text of that, whatever the handler has done. -/
theorem failureAgrees_of_lost (hresolves : Resolves services req)
    (hlost : ¬ Arrives parse serialized) (h : SameFailure client (c.setError code text)) :
    FailureAgrees parse serialized (handled services req ops) client ↔
      ops = [] ∨ errorTextOf ops = text := by
  have hserver := handled_isFailed hresolves ops
  have htext := handled_errorInfo hresolves ops
  obtain ⟨hfailed, herror⟩ := h
  constructor
  · intro h
    by_cases hops : ops = []
    · exact .inl hops
    · exact .inr (htext.symm.trans ((h.errorInfo (hserver.mpr hops)).symm.trans herror))
  · intro h
    refine ⟨iff_of_true hfailed (.inr hlost), fun hset => ?_⟩
    exact herror.trans ((h.resolve_left (hserver.mp hset)).symm.trans htext.symm)

/-- Where the response arrives, the client's controller is as it was. -/
theorem failureAgrees_of_arrived (hresolves : Resolves services req)
    (harrives : Arrives parse serialized) (h : SameFailure client c) :
    FailureAgrees parse serialized (handled services req ops) client ↔
      (c.isFailed = true ↔ ops ≠ []) ∧ (ops ≠ [] → c.errorInfo = errorTextOf ops) := by
  have hserver := handled_isFailed hresolves ops
  have htext := handled_errorInfo hresolves ops
  obtain ⟨hfailed, herror⟩ := h
  rw [← htext, ← hserver, ← hfailed, ← herror]
  constructor
  · intro h
    exact ⟨h.isFailed.trans (or_iff_left (not_not_intro harrives)), h.errorInfo⟩
  · intro h
    exact ⟨h.1.trans (or_iff_left (not_not_intro harrives)).symm, h.2⟩

end Agreement

/-- **The failures agree across the wire** exactly if they do so by chance. -/
theorem failureAgrees_iff (services : List (ByteString × Service)) (req : TinyPBProtocol)
    (ops : List ControllerOp) (serialized : Option ByteString) (parse : ByteString → M × Bool)
    (ch : RpcChannel M) (hreq : Delivered req) (hresolves : Resolves services req)
    (hcarried : Carried (respond (dispatch services req).response serialized) m)
    (hresponse : callStep parse ch (.response m) = some ch') :
    FailureAgrees parse serialized (handled services req ops) ch'.controller ↔
      SameByChance parse serialized ops ch.controller := by
  have hm := hcarried.eq_received (encodable_respond hreq hresolves serialized)
  obtain ⟨hdata, hcode, hinfo⟩ :=
    received_fields (respond (dispatch services req).response serialized)
  rw [← hm] at hdata hcode hinfo
  cases serialized with
  | none =>
    have hlost : ¬ Arrives parse none := by
      rintro ⟨data, hnone, -⟩
      cases hnone
    have hne : m.errCode ≠ 0 := by
      rw [hcode]
      exact show ErrCode.failedSerialize ≠ 0 by decide
    have hdata' : m.pbData = [] := hdata
    rcases response_cases hresponse with ⟨hparse, hset⟩ | ⟨hparse, -, hset⟩ | ⟨-, hzero, -⟩
    · rw [hdata'] at hparse
      rw [failureAgrees_of_lost hresolves hlost hset, SameByChance, hparse]
      rfl
    · rw [hdata'] at hparse
      rw [failureAgrees_of_lost hresolves hlost hset, SameByChance, hparse, hinfo]
      rfl
    · exact absurd hzero hne
  | some data =>
    have hdata' : m.pbData = data := hdata
    rcases response_cases hresponse with ⟨hparse, hset⟩ | ⟨-, hne, -⟩ | ⟨hparse, -, hkept⟩
    · rw [hdata'] at hparse
      have hlost : ¬ Arrives parse (some data) := by
        rintro ⟨data', heq, htrue⟩
        cases heq
        exact absurd (hparse.symm.trans htrue) (by decide)
      rw [failureAgrees_of_lost hresolves hlost hset, SameByChance, hparse]
      rfl
    · exact absurd hcode hne
    · rw [hdata'] at hparse
      rw [failureAgrees_of_arrived hresolves ⟨data, rfl, hparse⟩ hkept, SameByChance, if_pos hparse]

end Client

/-! ## A handler that fails -/

section Example

/-- A buffer that holds the bytes, with room for one more. -/
def holding (bytes : ByteString) : TcpBuffer := ⟨bytes ++ [0], 0, bytes.length⟩

theorem wellFormed_holding {bytes : ByteString} (h : bytes.length < 2 ^ 30) :
    (holding bytes).WellFormed where
  read_le_write := Nat.zero_le _
  write_le_size := by simp [holding]
  size_lt := by
    simp only [holding, List.length_append, List.length_singleton]
    omega

theorem readable_holding (bytes : ByteString) : (holding bytes).readable = bytes := by
  simp [holding, TcpBuffer.readable, TcpBuffer.readAble, Bytes.slice]

theorem roomy_holding (bytes : ByteString) :
    (holding bytes).writeIndex < (holding bytes).buffer.length := by
  simp [holding]

variable {m : TinyPBProtocol}

/-- An encoded message is delivered as it is received. -/
theorem delivered_received (hm : m.Encodable) (hlen : (wire [m]).length < 2 ^ 30) :
    Delivered m.received := by
  have hall : ∀ m' ∈ [m], m'.Encodable := by simpa using hm
  have hread : (holding (wire [m])).readable = wire [m] ++ [] := by
    rw [readable_holding, List.append_nil]
  obtain ⟨⟨ts, hts, hmessages⟩, -⟩ :=
    exists_takes_wire hall (wellFormed_holding hlen) (roomy_holding _) hread
  exact ⟨_, ts, _, wellFormed_holding hlen, hts, by simp [hmessages]⟩

/-- Every short reply is carried to the client. -/
theorem carried_received (hm : m.Encodable) (hlen : (wire [m]).length < 2 ^ 30) :
    Carried m m.received := by
  have hall : ∀ m' ∈ [m], m'.Encodable := by simpa using hm
  have hwf : (TcpBuffer.new 0).WellFormed := by decide
  have hlt : 3 * ((TcpBuffer.new 0).writeIndex + (wire [m]).length) / 2 < 2 ^ 31 := by
    have hzero : (TcpBuffer.new 0).writeIndex = 0 := rfl
    omega
  obtain ⟨⟨ms, out'⟩, henc⟩ := exists_encode hwf hlt
  obtain ⟨-, -, hwire, -⟩ := encode_eq hwf henc
  obtain ⟨b', hdecodes, -⟩ :=
    decodes_wire hall (wellFormed_holding hlen) (roomy_holding _) (readable_holding _)
  exact ⟨_, ms, out', _, b', hwf, henc, wellFormed_holding hlen, roomy_holding _,
    by rw [hwire, readable_holding], hdecodes⟩

/-- The reply to the order, whatever its handler does. -/
def orderReply : TinyPBProtocol :=
  respond (dispatch orderServices orderRequest.received).response (some [])

/-- The call as it waits for the response. -/
def awaiting : RpcChannel Unit := { calling with awaits := .response (ascii "1") }

theorem resolves_order : Resolves orderServices orderRequest.received :=
  ⟨(ascii "Order", ascii "makeOrder"), _, _, by decide, rfl, rfl, rfl⟩

theorem failureAgrees_done :
    FailureAgrees parseNothing (some []) (handled orderServices orderRequest.received [])
      ({ awaiting with awaits := .nothing }.onResponse parseNothing
        orderReply.received).controller :=
  (failureAgrees_iff orderServices orderRequest.received [] (some []) parseNothing awaiting
    (delivered_received (by decide) (by decide)) resolves_order
    (carried_received (m := orderReply) (by decide) (by decide)) rfl).mpr
    (by simp [SameByChance, parseNothing, awaiting, calling])

/-- **A handler that fails its controller is not heard**: the client's has not failed. -/
theorem not_failureAgrees_setFailed :
    Delivered orderRequest.received ∧ Resolves orderServices orderRequest.received ∧
      Carried (respond (dispatch orderServices orderRequest.received).response (some []))
        orderReply.received ∧
      ∃ ch', callStep parseNothing awaiting (.response orderReply.received) = some ch' ∧
        ¬ FailureAgrees parseNothing (some [])
          (handled orderServices orderRequest.received [.setFailed (ascii "sold out")])
          ch'.controller := by
  refine ⟨delivered_received (by decide) (by decide), resolves_order,
    carried_received (by decide) (by decide), _, rfl, fun h => ?_⟩
  have hfailed := h.isFailed.mpr (.inl rfl)
  revert hfailed
  decide

end Example

end TalonRPC
