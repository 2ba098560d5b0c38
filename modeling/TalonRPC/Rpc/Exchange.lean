import TalonRPC.Rpc.Session
import TalonRPC.Tcp.Fifo

/-!
# What a session exchanges

Each direction of a session is a link. What has been taken off the link to the server are the
requests that were dispatched or are about to be; what has been taken off the link to the client
are the responses `excute` has come to or is about to. A handler answers with the id of its request,
so a callback that is found by the id of a response gets the reply to its own request.

## Main definitions

* `Exchange es s l`: the links of the session after the events `es`, with the messages `l` on them

## Main results

* `Exchange.step`: what an event does to the messages under way
* `answersOwn`: **safety** of a session, in every interleaving
* `answered_once`: in a quiescent session with distinct ids every request has been answered once
-/

namespace TalonRPC

open Bytes Machine TinyPBCoder TinyPBProtocol TcpConnection RpcDispatcher

variable {services : List (ByteString × Service)} {es : List SessionEvent} {e : SessionEvent}
  {s s' : Session} {m q : TinyPBProtocol}

/-! ## Messages -/

/-- Stamping a message does not change its texts, apart from an empty id. -/
theorem TinyPBProtocol.Encodable.stamped (h : m.Encodable) : m.stamped.Encodable :=
  ⟨h.named.length_msgId, h.named.length_methodName, h.named.length_errInfo, h.named.msgId_nul,
    h.named.methodName_nul, h.named.errInfo_nul⟩

theorem TinyPBProtocol.Encodable.received (h : m.Encodable) : m.received.Encodable :=
  ⟨h.named.length_msgId, h.named.length_methodName, h.named.length_errInfo, h.named.msgId_nul,
    h.named.methodName_nul, h.named.errInfo_nul⟩

/-- A dispatched request whose response can be encoded, and carries the id of the request. -/
structure Answerable (call : Dispatched) : Prop where
  encodable : call.response.Encodable
  msgId : call.response.msgId = call.request.msgId
  named : call.request.msgId ≠ []

theorem encodable_setTinyPBError {rsp : TinyPBProtocol} {code : Int32} {text : ByteString}
    (h : rsp.Encodable) (hlength : text.length ≤ 511) (hnul : 0 ∉ text) :
    (setTinyPBError rsp code text).Encodable :=
  ⟨h.length_msgId, h.length_methodName, hlength, h.msgId_nul, h.methodName_nul, hnul⟩

theorem answerable_dispatch (services : List (ByteString × Service)) (hm : m.Encodable)
    (hname : m.msgId ≠ []) : Answerable (dispatch services m) := by
  have hrsp : TinyPBProtocol.Encodable { msgId := m.msgId, methodName := m.methodName } :=
    ⟨hm.length_msgId, hm.length_methodName, by simp, hm.msgId_nul, hm.methodName_nul, by simp⟩
  unfold dispatch
  dsimp only
  -- A request is rejected with one of four texts, or gets a handler.
  split
  · exact ⟨encodable_setTinyPBError hrsp (by decide) (by decide), rfl, hname⟩
  split
  · exact ⟨encodable_setTinyPBError hrsp (by decide) (by decide), rfl, hname⟩
  split
  · exact ⟨encodable_setTinyPBError hrsp (by decide) (by decide), rfl, hname⟩
  split_ifs
  · exact ⟨hrsp, rfl, hname⟩
  · exact ⟨encodable_setTinyPBError hrsp (by decide) (by decide), rfl, hname⟩

/-- What the closure sends can be encoded, and carries the id of the request. -/
theorem Answerable.respond {call : Dispatched} (h : Answerable call) (r : Option ByteString)
    (stage : Stage) :
    Answerable { call with response := respond call.response r, stage := stage } := by
  refine ⟨?_, (respond_msgId _ r).trans h.msgId, h.named⟩
  cases r with
  | none =>
    exact encodable_setTinyPBError
      ⟨h.encodable.length_msgId, h.encodable.length_methodName, h.encodable.length_errInfo,
        h.encodable.msgId_nul, h.encodable.methodName_nul, h.encodable.errInfo_nul⟩
      (by decide) (by decide)
  | some data =>
    exact ⟨h.encodable.length_msgId, h.encodable.length_methodName, by simp [RpcDispatcher.respond],
      h.encodable.msgId_nul, h.encodable.methodName_nul, by simp [RpcDispatcher.respond]⟩

theorem Answerable.stamped {call : Dispatched} (h : Answerable call) :
    Answerable { call with response := call.response.stamped } := by
  refine ⟨h.encodable.stamped, ?_, h.named⟩
  change call.response.named.msgId = call.request.msgId
  rw [named_of_ne_nil (h.msgId ▸ h.named), h.msgId]

/-! ## The messages of a session -/

/-- The messages of a session: the requests in the out-buffer of the client, the messages the server
has taken and those on their way to it, and the same for the client. -/
structure Ledger where
  encoded : List TinyPBProtocol := []
  upTaken : List TinyPBProtocol := []
  upPending : List TinyPBProtocol := []
  downTaken : List TinyPBProtocol := []
  downPending : List TinyPBProtocol := []

/-- The replies that were encoded into the out-buffer of the server. -/
def Session.replies (s : Session) : List TinyPBProtocol :=
  (s.server.handed.filter (·.entered)).map (·.message)

/-- A response with the id has been given to a callback that was registered for it. -/
def Session.Delivered (s : Session) (msgId : ByteString) : Prop :=
  ∃ n, s.readDones.registered[n]? = some msgId ∧ n ∈ s.readDones.invoked.map (·.1)

/-- No two of the requests have the same id. -/
def DistinctIds (es : List SessionEvent) : Prop := ((written es).map fun m => m.named.msgId).Nodup

instance (es : List SessionEvent) : Decidable (DistinctIds es) :=
  inferInstanceAs (Decidable (List.Nodup _))

/-- The client side: queued requests are encoded in their order, and a callback is registered for
each when it is. -/
structure Requesting (es : List SessionEvent) (s : Session) (encoded : List TinyPBProtocol) :
    Prop where
  byClient : s.client.connectionType = .byClient
  written : encoded ++ s.client.writeDones.map (·.1) = written es
  encodable : ∀ m ∈ TalonRPC.written es, m.Encodable
  listens : s.client.state = .connected → s.client.writeDones ≠ [] →
    s.client.fdEvent.outEvent = true
  registered : s.readDones.registered = encoded.map fun m => m.named.msgId

/-- The server side: the requests dispatched are those taken, and every message given to `reply`
carries the id of its request. -/
structure Replying (s : Session) (taken : List TinyPBProtocol) : Prop where
  byServer : s.server.conn.connectionType = .byServer
  dispatched : s.server.calls.map (·.request) ++ s.requests = taken.map TinyPBProtocol.received
  answerable : ∀ call ∈ s.server.calls, Answerable call
  handed : ∀ h ∈ s.server.handed, ∃ call, s.server.calls[h.request]? = some call ∧
    h.message.msgId = call.request.msgId
  finished : ∀ (k : ℕ) (call : Dispatched), s.server.calls[k]? = some call →
    call.stage = .finished → ∃ h ∈ s.server.handed, h.request = k

/-- The responses: `excute` has come to all that were taken but those left to it; those it has come
to have reached a callback, if the ids are distinct. -/
structure Receiving (es : List SessionEvent) (s : Session) (taken : List TinyPBProtocol) :
    Prop where
  filed : Filed s.readDones
  kept : DistinctIds es → AllKept s.readDones
  invoked : ∀ x ∈ s.readDones.invoked, ∃ m ∈ taken, x.2 = m.received
  gone : ∃ gone, gone ++ s.responses = taken.map TinyPBProtocol.received ∧
    (DistinctIds es → ∀ m ∈ gone, s.Delivered m.msgId)

/-- **A session after the events `es`.** -/
structure Exchange (es : List SessionEvent) (s : Session) (l : Ledger) : Prop where
  up : Link s.client s.upstream s.server.conn l.encoded l.upTaken l.upPending
  down : Link s.server.conn s.downstream s.client s.replies l.downTaken l.downPending
  requesting : Requesting es s l.encoded
  replying : Replying s l.upTaken
  receiving : Receiving es s l.downTaken

variable {l : Ledger}

theorem written_append (es fs : List SessionEvent) :
    written (es ++ fs) = written es ++ written fs :=
  List.filterMap_append ..

theorem written_snoc (h : ∀ m, e ≠ .writeMessage m) : written (es ++ [e]) = written es := by
  rw [written_append]
  cases e with
  | writeMessage m => exact absurd rfl (h m)
  | _ => exact List.append_nil _

theorem DistinctIds.left {fs : List SessionEvent} (h : DistinctIds (es ++ fs)) :
    DistinctIds es := by
  unfold DistinctIds at h
  rw [written_append, List.map_append] at h
  exact h.of_append_left

/-- Events that are not requests of the client leave the requests as they are. -/
theorem Requesting.snoc {encoded : List TinyPBProtocol} (h : Requesting es s encoded)
    (he : ∀ m, e ≠ .writeMessage m) : Requesting (es ++ [e]) s encoded := by
  have hwritten : TalonRPC.written (es ++ [e]) = TalonRPC.written es := written_snoc he
  exact ⟨h.byClient, hwritten ▸ h.written, hwritten ▸ h.encodable, h.listens, h.registered⟩

theorem Receiving.snoc {taken : List TinyPBProtocol} (h : Receiving es s taken) :
    Receiving (es ++ [e]) s taken := by
  obtain ⟨gone, hgone, hdelivered⟩ := h.gone
  exact ⟨h.filed, fun hids => h.kept hids.left, h.invoked, gone, hgone,
    fun hids => hdelivered hids.left⟩

theorem Requesting.of_client {encoded : List TinyPBProtocol} (h : Requesting es s encoded)
    (htype : s'.client.connectionType = s.client.connectionType)
    (hdones : s'.client.writeDones = s.client.writeDones)
    (hstate : s'.client.state = .connected →
      s.client.state = .connected ∧ s'.client.fdEvent = s.client.fdEvent)
    (hregistered : s'.readDones.registered = s.readDones.registered) :
    Requesting es s' encoded where
  byClient := htype.trans h.byClient
  written := hdones ▸ h.written
  encodable := h.encodable
  listens hconn hne := by
    rw [(hstate hconn).2]
    exact h.listens (hstate hconn).1 (hdones ▸ hne)
  registered := hregistered.trans h.registered

theorem Replying.of_server {taken : List TinyPBProtocol} (h : Replying s taken)
    (htype : s'.server.conn.connectionType = s.server.conn.connectionType)
    (hcalls : s'.server.calls = s.server.calls) (hhanded : s'.server.handed = s.server.handed)
    (hrequests : s'.requests = s.requests) : Replying s' taken where
  byServer := htype.trans h.byServer
  dispatched := by rw [hcalls, hrequests, h.dispatched]
  answerable := hcalls ▸ h.answerable
  handed := by rw [hhanded, hcalls]; exact h.handed
  finished := by rw [hhanded, hcalls]; exact h.finished

theorem Receiving.of_readDones {taken : List TinyPBProtocol} (h : Receiving es s taken)
    (hdones : s'.readDones = s.readDones) (hresponses : s'.responses = s.responses) :
    Receiving es s' taken where
  filed := hdones ▸ h.filed
  kept := hdones ▸ h.kept
  invoked := hdones ▸ h.invoked
  gone := by
    obtain ⟨gone, hgone, hdelivered⟩ := h.gone
    refine ⟨gone, hresponses ▸ hgone, fun hids m hm => ?_⟩
    unfold Session.Delivered
    rw [hdones]
    exact hdelivered hids m hm

/-! ## The client sends -/

theorem Exchange.writeMessage (h : Exchange es s l) (hm : m.Encodable) :
    Exchange (es ++ [.writeMessage m])
      { s with client := (s.client.pushSendMessage m ()).listenWrite } l where
  up := h.up.of_sender rfl fun _ hno => absurd hno (by simp [listenWrite])
  down := h.down.of_receiver rfl id
  requesting := by
    have hwritten : written (es ++ [.writeMessage m]) = written es ++ [m] := written_append _ _
    refine ⟨h.requesting.byClient, ?_, ?_, fun _ _ => rfl, h.requesting.registered⟩
    · rw [hwritten, ← h.requesting.written, List.append_assoc]
      simp [pushSendMessage, listenWrite]
    · rw [hwritten]
      intro m' hm'
      rcases List.mem_append.mp hm' with hm' | hm'
      · exact h.requesting.encodable m' hm'
      · exact List.mem_singleton.mp hm' ▸ hm
  replying := h.replying.of_server rfl rfl rfl rfl
  receiving := h.receiving.snoc.of_readDones rfl rfl

/-- Callbacks registered one after the other. -/
theorem Filed.pushAll {c : ReadDones} (h : Filed c) (ids : List ByteString) :
    Filed (ids.foldl ReadDones.pushReadMessage c) ∧
      (ids.foldl ReadDones.pushReadMessage c).registered = c.registered ++ ids ∧
      (ids.foldl ReadDones.pushReadMessage c).invoked = c.invoked ∧
      ((c.registered ++ ids).Nodup → AllKept c →
        AllKept (ids.foldl ReadDones.pushReadMessage c)) := by
  induction ids generalizing c with
  | nil => exact ⟨h, by simp, rfl, fun _ => id⟩
  | cons msgId ids ih =>
    obtain ⟨hfiled, hregistered, hinvoked, hkept⟩ := ih (h.pushReadMessage msgId)
    have hsplit : (c.pushReadMessage msgId).registered ++ ids = c.registered ++ msgId :: ids := by
      simp [ReadDones.pushReadMessage]
    refine ⟨hfiled, hregistered.trans hsplit, hinvoked, fun hnodup hall => ?_⟩
    rw [hsplit] at hkept
    refine hkept hnodup (h.allKept_pushReadMessage_iff.mpr ⟨hall, fun hmem => ?_⟩)
    -- An entry belongs to a registration of its id, and there is none yet.
    obtain ⟨n, hn⟩ := Option.isSome_iff_exists.mp (AList.lookup_isSome.mpr hmem)
    have hold := List.mem_of_getElem? (h.entry msgId n hn)
    exact (List.nodup_append.mp hnodup).2.2 _ hold _ (by simp) rfl

/-- Callbacks that are registered wait for their responses, if their ids are new. -/
theorem Receiving.pushAll {taken : List TinyPBProtocol} (h : Receiving es s taken)
    {ids : List ByteString} {es' : List SessionEvent} (hes : DistinctIds es' → DistinctIds es)
    (hnew : DistinctIds es' → (s.readDones.registered ++ ids).Nodup) :
    Receiving es' { s with readDones := ids.foldl ReadDones.pushReadMessage s.readDones }
      taken := by
  obtain ⟨hfiled, hregistered, hinvoked, hkept⟩ := h.filed.pushAll ids
  obtain ⟨gone, hgone, hdelivered⟩ := h.gone
  refine ⟨hfiled, fun hids => hkept (hnew hids) (h.kept (hes hids)), ?_, gone, hgone,
    fun hids m hm => ?_⟩
  · dsimp only
    rw [hinvoked]
    exact h.invoked
  · obtain ⟨n, hn, hmem⟩ := hdelivered (hes hids) m hm
    refine ⟨n, ?_, ?_⟩
    · dsimp only
      rw [hregistered, List.getElem?_append_left (List.getElem?_eq_some_iff.mp hn).1, hn]
    · dsimp only
      rw [hinvoked]
      exact hmem

/-- The callbacks of an `onWrite` register the ids of their requests, and let the client listen. -/
theorem foldl_readMessage (ds : List (TinyPBProtocol × Unit)) (s : Session) :
    ∃ ev : FdEvent, ev.outEvent = s.client.fdEvent.outEvent ∧
      ds.foldl (fun s done => s.readMessage done.1.msgId) s =
        { s with
          client := { s.client with fdEvent := ev }
          readDones :=
            (ds.map fun d => d.1.msgId).foldl ReadDones.pushReadMessage s.readDones } := by
  induction ds generalizing s with
  | nil => exact ⟨s.client.fdEvent, rfl, rfl⟩
  | cons d ds ih =>
    obtain ⟨ev, hev, hfold⟩ := ih (s.readMessage d.1.msgId)
    exact ⟨ev, hev, hfold⟩

theorem Exchange.clientWrite {rs : List WriteResult} (h : Exchange es s l)
    (hwhole : s.client.WritesWhole rs)
    (hstep : sessionStep services s (.clientWrite rs) = some s') :
    ∃ l', Exchange (es ++ [.clientWrite rs]) s' l' := by
  have hrequesting := h.requesting.snoc (e := .clientWrite rs) nofun
  by_cases hstate : s.client.state = .connected
  swap
  · -- A closed connection returns at once.
    by_cases hrs : rs = []
    · have hs : s = s' := by simpa [sessionStep, TcpConnection.onWrite, hstate, hrs] using hstep
      exact ⟨l, hs ▸ ⟨h.up, h.down, hrequesting, h.replying, h.receiving.snoc⟩⟩
    · simp [sessionStep, TcpConnection.onWrite, hstate, hrs] at hstep
  rw [sessionStep] at hstep
  split at hstep
  swap
  · cases hstep
  rename_i x hx
  obtain rfl := Option.some.inj hstep
  have hclient := h.requesting.byClient
  have hwritten := written_of_onWrite hstate hclient h.up.outgoing.wellFormed hx
  have hqueued : ∀ p ∈ s.client.writeDones, p.1.Encodable := fun p hp =>
    h.requesting.encodable p.1 (h.requesting.written ▸
      List.mem_append_right _ (List.mem_map_of_mem hp))
  obtain ⟨⟨more, hup⟩, hin⟩ := h.up.onWrite_byClient hstate hclient hqueued
    (h.requesting.listens hstate) hwhole hx
  obtain ⟨ev, hev, hfold⟩ := foldl_readMessage x.dones
    { s with client := x.conn, upstream := s.upstream ++ x.accepted.flatten }
  rw [hfold]
  have hall : s.readDones.registered ++ (x.dones.map fun d => d.1.msgId) =
      (l.encoded ++ s.client.writeDones.map (·.1)).map fun m => m.named.msgId := by
    rw [hwritten.dones, h.requesting.registered, List.map_append, List.map_map, List.map_map]
    rfl
  refine ⟨{ l with
    encoded := l.encoded ++ s.client.writeDones.map (·.1)
    upPending := l.upPending ++ more }, ?_, ?_, ?_, h.replying.of_server rfl rfl rfl rfl, ?_⟩
  · exact hup.of_sender rfl fun hc hno => ⟨hc, hev ▸ hno⟩
  · exact h.down.of_receiver hin fun _ => hstate
  · refine ⟨hwritten.byClient, ?_, hrequesting.encodable, fun _ hne => ?_, ?_⟩
    · dsimp only
      rw [hwritten.cleared, List.map_nil, List.append_nil]
      exact hrequesting.written
    · exact absurd hwritten.cleared hne
    · exact (h.receiving.filed.pushAll _).2.1.trans hall
  · refine (h.receiving.pushAll DistinctIds.left fun hids => ?_).of_readDones rfl rfl
    rw [hall, hrequesting.written]
    exact hids

/-! ## The server -/

theorem Exchange.serverRead {rs : List ReadResult} {n : ℕ} (h : Exchange es s l)
    (hsmooth : s.server.conn.ReadsSmoothly rs)
    (hstep : sessionStep services s (.serverRead rs n) = some s') :
    ∃ l', Exchange (es ++ [.serverRead rs n]) s' l' := by
  rw [sessionStep] at hstep
  split_ifs at hstep with hready
  obtain ⟨⟨c, ms⟩, hdecoded, rfl⟩ := Option.map_eq_some_iff.mp hstep
  obtain ⟨⟨now, later, hpending, rfl, hlink⟩, hout, htype, -, hstate⟩ :=
    h.up.decoded hsmooth hready.2 hdecoded
  refine ⟨{ l with upTaken := l.upTaken ++ now, upPending := later }, hlink, ?_,
    (h.requesting.snoc (e := .serverRead rs n) nofun).of_client rfl rfl (fun hc => ⟨hc, rfl⟩) rfl,
    ?_,
    h.receiving.snoc.of_readDones rfl rfl⟩
  · exact h.down.of_sender hout fun hc hno => ⟨(hstate hc).1, (hstate hc).2 ▸ hno⟩
  · obtain ⟨hserver, hdispatched, hcalls, hhanded, hfinished⟩ := h.replying
    refine ⟨htype.trans hserver, ?_, hcalls, hhanded, hfinished⟩
    rw [hready.1, List.append_nil] at hdispatched
    rw [List.map_append, ← hdispatched]

theorem Exchange.serverWrite {rs : List WriteResult} (h : Exchange es s l)
    (hwhole : s.server.conn.WritesWhole rs)
    (hstep : sessionStep services s (.serverWrite rs) = some s') :
    ∃ l', Exchange (es ++ [.serverWrite rs]) s' l' := by
  rw [sessionStep] at hstep
  split at hstep
  swap
  · cases hstep
  rename_i x hx
  obtain rfl := Option.some.inj hstep
  have hserver := h.replying.byServer
  obtain ⟨⟨more, hdown⟩, hin, hstate, htype⟩ := h.down.onWrite_byServer hserver hwhole hx
  exact ⟨{ l with downPending := l.downPending ++ more },
    h.up.of_receiver hin fun hc => hstate ▸ hc, hdown,
    (h.requesting.snoc (e := .serverWrite rs) nofun).of_client rfl rfl (fun hc => ⟨hc, rfl⟩) rfl,
    h.replying.of_server (htype.trans hserver.symm) rfl rfl rfl,
    h.receiving.snoc.of_readDones rfl rfl⟩

/-- A request the server has taken was encoded by the client. -/
theorem Exchange.exists_request (h : Exchange es s l)
    (hm : m ∈ s.server.calls.map (·.request) ++ s.requests) :
    ∃ q ∈ l.encoded, m = q.received ∧ q.Encodable := by
  rw [h.replying.dispatched] at hm
  obtain ⟨q, hq, rfl⟩ := List.mem_map.mp hm
  have hencoded := h.up.carried q (List.mem_append_left _ hq)
  exact ⟨q, hencoded, rfl, (h.up.outgoing.sendable q hencoded).encodable⟩

theorem Exchange.dispatch (h : Exchange es s l)
    (hstep : sessionStep services s .dispatch = some s') : Exchange (es ++ [.dispatch]) s' l := by
  rw [sessionStep] at hstep
  split at hstep
  · cases hstep
  rename_i m ms hrequests
  obtain ⟨server, hserve, rfl⟩ := Option.map_eq_some_iff.mp hstep
  obtain rfl := Option.some.inj hserve
  obtain ⟨q, -, rfl, hq⟩ := h.exists_request (m := m) (by rw [hrequests]; simp)
  refine ⟨h.up.of_receiver rfl id, h.down.of_sender rfl fun hc hno => ⟨hc, hno⟩,
    (h.requesting.snoc (e := .dispatch) nofun).of_client rfl rfl (fun hc => ⟨hc, rfl⟩) rfl, ?_,
    h.receiving.snoc.of_readDones rfl rfl⟩
  obtain ⟨hserver, hdispatched, hcalls, hhanded, hfinished⟩ := h.replying
  have hcases := dispatch_cases services q.received
  refine ⟨hserver, ?_, fun call hcall => ?_, fun x hx => ?_, fun k call hk hdone => ?_⟩
  · rw [← hdispatched, hrequests, List.map_append, List.map_singleton, hcases.1, List.append_assoc]
    rfl
  · rcases List.mem_append.mp hcall with hcall | hcall
    · exact hcalls call hcall
    · obtain rfl := List.mem_singleton.mp hcall
      exact answerable_dispatch services hq.received (named_msgId_ne_nil q)
  · obtain ⟨call, hcall, hid⟩ := hhanded x hx
    refine ⟨call, ?_, hid⟩
    rw [List.getElem?_append_left (List.getElem?_eq_some_iff.mp hcall).1, hcall]
  · rw [List.getElem?_append] at hk
    split_ifs at hk
    · exact hfinished k call hk hdone
    · -- A request that has just been dispatched is not finished.
      obtain rfl := List.mem_singleton.mp (List.mem_of_getElem? hk)
      rcases hcases.2 with ⟨hstage, -⟩ | ⟨hstage, -⟩ <;> simp [hstage] at hdone

/-- **A closure runs**: the request has one more message, which is in the out-buffer unless it got
lost in the encoder. -/
theorem closure_eq {server server' : Server Unit} {i : ℕ} {call : Dispatched} {stage : Stage}
    {r : Option ByteString} (h : closure server i call stage r = some server') :
    ∃ conn rsp entered, server' = ⟨conn,
        server.calls.set i { call with response := rsp, stage := stage },
        server.handed ++ [⟨i, respond call.response r, entered⟩]⟩ ∧
      ((entered = true ∧ ∃ ms, server.conn.reply [respond call.response r] = .ok (ms, conn) ∧
          rsp = ms.headD (respond call.response r)) ∨
        entered = false ∧ conn = server.conn ∧ rsp = respond call.response r) := by
  unfold closure at h
  dsimp only at h
  cases hreply : server.conn.reply [respond call.response r] with
  | ok left =>
    rw [hreply] at h
    obtain ⟨ms, conn⟩ := left
    exact ⟨conn, _, true, (Option.some.inj h).symm, .inl ⟨rfl, ms, rfl, rfl⟩⟩
  | error f =>
    rw [hreply] at h
    cases f with
    | lengthError => exact ⟨_, _, false, (Option.some.inj h).symm, .inr ⟨rfl, rfl, rfl⟩⟩
    | outOfBounds => cases h
    | nullPointer => cases h

/-- The request stays answerable: the encoder leaves its response stamped. -/
theorem closure_spec {server server' : Server Unit} {i : ℕ} {call : Dispatched} {stage : Stage}
    {r : Option ByteString} (hwf : server.conn.outBuffer.WellFormed) (hcall : Answerable call)
    (h : closure server i call stage r = some server') :
    ∃ conn call' entered, server' = ⟨conn, server.calls.set i call',
        server.handed ++ [⟨i, respond call.response r, entered⟩]⟩ ∧
      call'.request = call.request ∧ call'.stage = stage ∧ Answerable call' ∧
      ((entered = true ∧ ∃ ms, server.conn.reply [respond call.response r] = .ok (ms, conn)) ∨
        entered = false ∧ conn = server.conn) := by
  have hrespond := hcall.respond r stage
  obtain ⟨conn, rsp, entered, rfl, ⟨rfl, ms, hreply, rfl⟩ | ⟨rfl, rfl, rfl⟩⟩ := closure_eq h
  · refine ⟨conn, _, true, rfl, rfl, rfl, ?_, .inl ⟨rfl, ms, hreply⟩⟩
    obtain ⟨out, hencode, -⟩ := exists_encode_of_reply hreply
    rw [(encode_eq hwf hencode).1]
    exact hrespond.stamped
  · exact ⟨_, _, false, rfl, rfl, rfl, hrespond, .inr ⟨rfl, rfl⟩⟩

/-- A call whose request stays the same is replaced. -/
theorem getElem?_set_call {calls : List Dispatched} {i k : ℕ} {call call' c : Dispatched}
    (hcall : calls[i]? = some call) (hrequest : call'.request = call.request)
    (hk : calls[k]? = some c) :
    ∃ c', (calls.set i call')[k]? = some c' ∧ c'.request = c.request := by
  by_cases hki : k = i
  · subst hki
    obtain rfl := Option.some.inj (hcall.symm.trans hk)
    exact ⟨call', List.getElem?_set_self (List.getElem?_eq_some_iff.mp hk).1, hrequest⟩
  · exact ⟨c, by rw [List.getElem?_set_ne (Ne.symm hki), hk], rfl⟩

theorem map_request_set {calls : List Dispatched} {i : ℕ} {call call' : Dispatched}
    (hcall : calls[i]? = some call) (hrequest : call'.request = call.request) :
    (calls.set i call').map (·.request) = calls.map (·.request) := by
  refine List.ext_getElem? fun k => ?_
  rw [List.getElem?_map, List.getElem?_map]
  cases hk : calls[k]? with
  | none =>
    rw [List.getElem?_eq_none_iff] at hk
    rw [List.getElem?_eq_none (by rw [List.length_set]; exact hk)]
  | some c =>
    obtain ⟨c', hc', hsame⟩ := getElem?_set_call hcall hrequest hk
    rw [hc', Option.map_some, Option.map_some, hsame]

/-- **A handler acts.** -/
theorem Exchange.act {i : ℕ} {a : HandlerAct} {r : Option ByteString} (h : Exchange es s l)
    (hstep : sessionStep services s (.act i a r) = some s') :
    Exchange (es ++ [.act i a r]) s' l := by
  obtain ⟨server, hserve, rfl⟩ := Option.map_eq_some_iff.mp hstep
  rw [serveStep] at hserve
  cases hcall : s.server.calls[i]? with
  | none => simp [hcall] at hserve
  | some call =>
  cases hnext : a.next call.stage with
  | none => simp [hcall, hnext] at hserve
  | some stage =>
  simp only [hcall, hnext] at hserve
  have hanswerable := h.replying.answerable call (List.mem_of_getElem? hcall)
  obtain ⟨conn, call', entered, rfl, hrequest, hstage, hanswerable', hentered⟩ :=
    closure_spec h.down.outgoing.wellFormed hanswerable hserve
  have hrespond := hanswerable.respond r stage
  have hframe : conn.inBuffer = s.server.conn.inBuffer ∧ conn.state = s.server.conn.state ∧
      conn.connectionType = s.server.conn.connectionType := by
    rcases hentered with ⟨-, ms, hreply⟩ | ⟨-, rfl⟩
    · obtain ⟨out, -, rfl⟩ := exists_encode_of_reply hreply
      exact ⟨rfl, rfl, rfl⟩
    · exact ⟨rfl, rfl, rfl⟩
  refine ⟨h.up.of_receiver hframe.1 fun hc => hframe.2.1 ▸ hc, ?_,
    (h.requesting.snoc (e := .act i a r) (by simp)).of_client rfl rfl (fun hc => ⟨hc, rfl⟩) rfl, ?_,
    h.receiving.snoc.of_readDones rfl rfl⟩
  · -- The out-buffer has the message, unless it got lost.
    have hreplies : ∀ server : Server Unit,
        server.handed = s.server.handed ++ [⟨i, respond call.response r, entered⟩] →
        Session.replies { s with server := server } =
          s.replies ++ if entered then [respond call.response r] else [] := by
      intro server hserver
      unfold Session.replies
      rw [hserver, List.filter_append, List.map_append]
      cases entered <;> rfl
    rw [hreplies _ rfl]
    rcases hentered with ⟨rfl, ms, hreply⟩ | ⟨rfl, rfl⟩
    · exact h.down.reply (by simpa using hrespond.encodable) hreply
    · simp only [Bool.false_eq_true, if_false, List.append_nil]
      exact h.down.of_sender rfl fun hc hno => ⟨hc, hno⟩
  · obtain ⟨hserver, hdispatched, hcalls, hhanded, hfinished⟩ := h.replying
    refine ⟨hframe.2.2.trans hserver, ?_, fun c hc => ?_, fun x hx => ?_, fun k c hk hdone => ?_⟩
    · rw [map_request_set hcall hrequest]
      exact hdispatched
    · rcases List.mem_or_eq_of_mem_set hc with hc | rfl
      · exact hcalls c hc
      · exact hanswerable'
    · rcases List.mem_append.mp hx with hx | hx
      · obtain ⟨c, hc, hid⟩ := hhanded x hx
        obtain ⟨c', hc', hsame⟩ := getElem?_set_call hcall hrequest hc
        exact ⟨c', hc', by rw [hid, hsame]⟩
      · obtain rfl := List.mem_singleton.mp hx
        refine ⟨call', List.getElem?_set_self (List.getElem?_eq_some_iff.mp hcall).1, ?_⟩
        rw [hrequest]
        exact hrespond.msgId
    · by_cases hki : k = i
      · exact ⟨_, List.mem_append_right _ (List.mem_singleton_self _), hki.symm⟩
      · rw [List.getElem?_set_ne (Ne.symm hki)] at hk
        obtain ⟨x, hx, hxk⟩ := hfinished k c hk hdone
        exact ⟨x, List.mem_append_left _ hx, hxk⟩

/-! ## The client receives -/

theorem Exchange.clientRead {rs : List ReadResult} {n : ℕ} (h : Exchange es s l)
    (hsmooth : s.client.ReadsSmoothly rs)
    (hstep : sessionStep services s (.clientRead rs n) = some s') :
    ∃ l', Exchange (es ++ [.clientRead rs n]) s' l' := by
  rw [sessionStep] at hstep
  split_ifs at hstep with hready
  obtain ⟨⟨c, ms⟩, hdecoded, rfl⟩ := Option.map_eq_some_iff.mp hstep
  obtain ⟨⟨now, later, hpending, rfl, hlink⟩, hout, htype, hdones, hstate⟩ :=
    h.down.decoded hsmooth hready.2.2 hdecoded
  refine ⟨{ l with downTaken := l.downTaken ++ now, downPending := later }, ?_, hlink,
    (h.requesting.snoc (e := .clientRead rs n) nofun).of_client htype hdones hstate rfl,
    h.replying.of_server rfl rfl rfl rfl, ?_⟩
  · exact h.up.of_sender hout fun hc hno => ⟨(hstate hc).1, (hstate hc).2 ▸ hno⟩
  · obtain ⟨hfiled, hkept, hinvoked, gone, hgone, hdelivered⟩ :=
      h.receiving.snoc (e := .clientRead rs n)
    refine ⟨hfiled, hkept, fun x hx => ?_, gone, ?_, hdelivered⟩
    · obtain ⟨m, hm, hxm⟩ := hinvoked x hx
      exact ⟨m, List.mem_append_left _ hm, hxm⟩
    · rw [hready.1, List.append_nil] at hgone
      rw [List.map_append, ← hgone]

/-- **Where a response comes from**: a handler has given it to `reply` for a request of the client,
the id of which it carries. -/
theorem Exchange.origin (h : Exchange es s l) (hm : m ∈ l.downTaken) :
    ∃ q ∈ l.encoded, ∃ x, RepliedTo s q m.received x := by
  have hreply := h.down.carried m (List.mem_append_left _ hm)
  obtain ⟨x, hx, rfl⟩ := List.mem_map.mp hreply
  have hhanded := List.mem_of_mem_filter hx
  obtain ⟨call, hcall, hid⟩ := h.replying.handed x hhanded
  obtain ⟨q, hq, hrequest, -⟩ := h.exists_request (m := call.request)
    (List.mem_append_left _ (List.mem_map_of_mem (List.mem_of_getElem? hcall)))
  refine ⟨q, hq, x, hhanded, ⟨call, hcall, hrequest⟩, rfl, ?_⟩
  have hname : x.message.msgId = q.named.msgId := by rw [hid, hrequest, msgId_received]
  rw [msgId_received, named_of_ne_nil (hname ▸ named_msgId_ne_nil q), hname]

theorem registered_response (c : ReadDones) (m : TinyPBProtocol) :
    (c.response m).registered = c.registered := by
  unfold ReadDones.response
  split <;> rfl

/-- **`excute` comes to a response**: if the ids are distinct, it has reached a callback by now. -/
theorem Exchange.response (h : Exchange es s l)
    (hstep : sessionStep services s .response = some s') : Exchange (es ++ [.response]) s' l := by
  rw [sessionStep] at hstep
  split at hstep
  · cases hstep
  rename_i m ms hresponses
  obtain ⟨r, hr, rfl⟩ := Option.map_eq_some_iff.mp hstep
  simp only [responseStep] at hr
  split at hr
  swap
  · cases hr
  rename_i hrun
  obtain rfl := Option.some.inj hr
  obtain ⟨hfiled, hkept, hinvoked, gone, hgone, hdelivered⟩ := h.receiving
  have hregistered : (s.readDones.response m).registered = s.readDones.registered :=
    registered_response _ m
  -- The response was taken off the stream.
  obtain ⟨t, ht, htm⟩ : ∃ t ∈ l.downTaken, t.received = m :=
    List.mem_map.mp (by rw [← hgone, hresponses]; simp)
  refine ⟨h.up, h.down,
    (h.requesting.snoc (e := .response) (by simp)).of_client rfl rfl (fun hc => ⟨hc, rfl⟩)
      hregistered,
    h.replying.of_server rfl rfl rfl rfl, hfiled.response hrun m, fun hids => ?_, ?_,
    gone ++ [m], ?_, fun hids => ?_⟩
  · exact (hfiled.allKept_response_iff m).mpr (hkept hids.left)
  · intro x hx
    unfold ReadDones.response at hx
    split at hx
    · rcases List.mem_append.mp hx with hx | hx
      · exact hinvoked x hx
      · obtain rfl := List.mem_singleton.mp hx
        exact ⟨t, ht, htm.symm⟩
    · exact hinvoked x hx
  · rw [← hgone, hresponses, List.append_assoc]
    rfl
  -- Its id was registered when the request was sent.
  obtain ⟨q, hq, x, hx⟩ := h.origin ht
  have hid : m.msgId = q.named.msgId := by rw [← htm, hx.msgId]
  obtain ⟨n, hn⟩ : ∃ n, s.readDones.registered[n]? = some m.msgId := by
    refine List.mem_iff_getElem?.mp ?_
    rw [h.requesting.registered, hid]
    exact List.mem_map_of_mem hq
  intro m' hm'
  rcases List.mem_append.mp hm' with hm' | hm'
  · obtain ⟨k, hk, hmem⟩ := hdelivered hids.left m' hm'
    refine ⟨k, hregistered ▸ hk, ?_⟩
    unfold ReadDones.response
    split
    · simp only [List.map_append]
      exact List.mem_append_left _ hmem
    · exact hmem
  · obtain rfl := List.mem_singleton.mp hm'
    refine ⟨n, hregistered ▸ hn, ?_⟩
    by_cases hmem : n ∈ s.readDones.invoked.map (·.1)
    · unfold ReadDones.response
      split
      · simp only [List.map_append]
        exact List.mem_append_left _ hmem
      · exact hmem
    · -- The callback waits, so its entry is in the map.
      have hlookup := hkept hids.left m'.msgId n ⟨hn, hmem⟩
      dsimp only
      rw [response_of_lookup hlookup]
      simp

theorem Exchange.returned (h : Exchange es s l)
    (hstep : sessionStep services s .returned = some s') : Exchange (es ++ [.returned]) s' l := by
  obtain ⟨r, hr, rfl⟩ := Option.map_eq_some_iff.mp hstep
  obtain ⟨msgId, hrun, rfl⟩ := Option.map_eq_some_iff.mp hr
  obtain ⟨hfiled, hkept, hinvoked, gone, hgone, hdelivered⟩ := h.receiving.snoc (e := .returned)
  exact ⟨h.up, h.down,
    (h.requesting.snoc (e := .returned) nofun).of_client rfl rfl (fun hc => ⟨hc, rfl⟩) rfl,
    h.replying.of_server rfl rfl rfl rfl, hfiled.returned hrun,
    fun hids => (hfiled.allKept_returned_iff hrun).mpr (hkept hids), hinvoked, gone, hgone,
    hdelivered⟩

/-! ## Sessions -/

/-- **What an event does** to the messages under way. -/
theorem Exchange.step (h : Exchange es s l) (hsmooth : Smooth s e)
    (hstep : sessionStep services s e = some s') : ∃ l', Exchange (es ++ [e]) s' l' := by
  cases e with
  | writeMessage m => exact ⟨l, Option.some.inj hstep ▸ h.writeMessage hsmooth⟩
  | clientWrite rs => exact h.clientWrite hsmooth hstep
  | clientRead rs n => exact h.clientRead hsmooth hstep
  | response => exact ⟨l, h.response hstep⟩
  | returned => exact ⟨l, h.returned hstep⟩
  | serverRead rs n => exact h.serverRead hsmooth hstep
  | dispatch => exact ⟨l, h.dispatch hstep⟩
  | act i a r => exact ⟨l, h.act hstep⟩
  | serverWrite rs => exact h.serverWrite hsmooth hstep

/-- Nothing has been sent between connections that have just been connected. -/
theorem exchange_new {clientSize serverSize : ℕ} (hclient : 1 ≤ clientSize ∧ clientSize < 2 ^ 31)
    (hserver : 1 ≤ serverSize ∧ serverSize < 2 ^ 31) :
    Exchange [] (.new clientSize serverSize) {} := by
  have hlink : ∀ {κ κ' : Type} {c : TcpConnection κ} {d : TcpConnection κ'} {n k : ℕ},
      c.outBuffer = .new n → n < 2 ^ 31 → d.inBuffer = .new k → 1 ≤ k → k < 2 ^ 31 →
      Link c [] d [] [] [] := by
    intro κ κ' c d n k hout hn hin hpos hk
    obtain ⟨hwf, hread, -⟩ := TcpBuffer.represents_new hn
    obtain ⟨hwf', hread', -⟩ := TcpBuffer.represents_new hk
    refine ⟨⟨hout ▸ hwf, hout ▸ hread, by simp⟩, fun _ => ⟨hin ▸ hwf', ?_, ?_, by simp⟩, by simp,
      by simp⟩
    · rw [hin, TcpBuffer.new, List.length_replicate]
      exact hpos
    · rw [hin, hread', List.append_nil, wire_nil]
  refine ⟨hlink rfl hclient.2 rfl hserver.1 hserver.2, hlink rfl hserver.2 rfl hclient.1 hclient.2,
    ⟨rfl, rfl, by simp [written], fun _ hne => absurd rfl hne, rfl⟩,
    ⟨rfl, rfl, by simp [Session.new], by simp [Session.new], by simp [Session.new]⟩,
    ⟨.init, fun _ msgId n hwait => ?_, by simp [Session.new], [], rfl, by simp⟩⟩
  cases hwait.1

theorem exists_exchange {clientSize serverSize : ℕ} (hclient : 1 ≤ clientSize ∧ clientSize < 2 ^ 31)
    (hserver : 1 ≤ serverSize ∧ serverSize < 2 ^ 31)
    (hsmooth : Along (sessionStep services) Smooth (.new clientSize serverSize) es)
    (hrun : exec (sessionStep services) (.new clientSize serverSize) es = some s) :
    ∃ l, Exchange es s l := by
  refine hsmooth.history (I := fun es s => ∃ l, Exchange es s l)
    ⟨{}, exchange_new hclient hserver⟩ ?_ hrun
  rintro es s e s' - ⟨l, hl⟩ hsmooth hstep
  exact hl.step hsmooth hstep

/-- What has been sent so far is enough to say where every reply comes from. -/
theorem Exchange.ownReplies (h : Exchange es s l) : AnswersOwn es s := by
  have hwritten : ∀ q ∈ l.encoded, q ∈ written es := fun q hq =>
    h.requesting.written ▸ List.mem_append_left _ hq
  refine ⟨h.receiving.filed.once, fun x hx => ?_, fun call hcall => ?_⟩
  · obtain ⟨m, hm, hxm⟩ := h.receiving.invoked x hx
    obtain ⟨q, hq, y, hy⟩ := h.origin hm
    rw [← hxm] at hy
    exact ⟨q, hwritten q hq, y, hy, hy.msgId ▸ h.receiving.filed.own x hx⟩
  · obtain ⟨q, hq, hrequest, -⟩ := h.exists_request (m := call.request)
      (List.mem_append_left _ (List.mem_map_of_mem hcall))
    exact ⟨q, hwritten q hq, hrequest⟩

/-- **Safety of a session**: in every interleaving of smooth events, callbacks are called at most
once, and with replies to their own requests. -/
theorem answersOwn (services : List (ByteString × Service)) (clientSize serverSize : ℕ)
    (es : List SessionEvent) (s : Session) (hclient : 1 ≤ clientSize ∧ clientSize < 2 ^ 31)
    (hserver : 1 ≤ serverSize ∧ serverSize < 2 ^ 31)
    (hsmooth : Along (sessionStep services) Smooth (.new clientSize serverSize) es)
    (hrun : exec (sessionStep services) (.new clientSize serverSize) es = some s) :
    AnswersOwn es s := by
  obtain ⟨l, h⟩ := exists_exchange hclient hserver hsmooth hrun
  exact h.ownReplies

/-- A link on which nothing is left has carried all messages in the out-buffer. -/
theorem TcpConnection.Link.all_taken {κ κ' : Type} {c : TcpConnection κ} {d : TcpConnection κ'}
    {encoded taken pending : List TinyPBProtocol} (h : Link c [] d encoded taken pending)
    (hc : c.state = .connected ∧ c.fdEvent.outEvent = false) (hd : d.state = .connected) :
    ∀ m ∈ encoded, m ∈ taken := by
  obtain ⟨-, -, hbytes, hpart⟩ := h.incoming hd
  -- A message that is still to come would be in the in-buffer, which holds less than it.
  cases pending with
  | nil =>
    have hsent := h.sent hc.1 hc.2
    rwa [List.append_nil] at hsent
  | cons m rest =>
    have hlt := hpart m rest rfl
    rw [List.append_nil] at hbytes
    rw [hbytes, wire_cons, List.length_append] at hlt
    omega

/-- The only element of a list without duplicates. -/
theorem eq_singleton_of_nodup {α : Type} {a : α} {l : List α} (hnodup : l.Nodup) (ha : a ∈ l)
    (honly : ∀ b ∈ l, b = a) : l = [a] := by
  obtain ⟨b, rest, rfl⟩ := List.exists_cons_of_ne_nil (List.ne_nil_of_mem ha)
  obtain rfl := honly b (by simp)
  cases rest with
  | nil => rfl
  | cons c rest =>
    obtain rfl := honly c (by simp)
    simp at hnodup

/-- In a quiescent session every request has been answered, if the ids are distinct. -/
theorem Exchange.answered (h : Exchange es s l) (hids : DistinctIds es)
    (hquiescent : Quiescent s) (hq : q ∈ written es) :
    ∃ x h, s.readDones.invoked.filter (·.2.msgId = q.named.msgId) = [x] ∧
      RepliedTo s q x.2 h := by
  obtain ⟨hclientIdle, hserverIdle, ⟨hup, hdown⟩, ⟨hrequests, hresponses⟩, hfinished, hentered⟩ :=
    hquiescent
  have howned := h.ownReplies.own
  -- The request was encoded, and so it was sent, taken and dispatched.
  have hnone : s.client.writeDones = [] := by
    by_contra hne
    exact absurd ((h.requesting.listens hclientIdle.1 hne).symm.trans hclientIdle.2) (by decide)
  have hwritten := h.requesting.written
  rw [hnone, List.map_nil, List.append_nil] at hwritten
  have htaken : q ∈ l.upTaken := (hup ▸ h.up).all_taken hclientIdle hserverIdle.1 q (hwritten ▸ hq)
  have hdispatched := h.replying.dispatched
  rw [hrequests, List.append_nil] at hdispatched
  obtain ⟨call, hcall, hrequest⟩ := List.mem_map.mp (hdispatched ▸ List.mem_map_of_mem htaken)
  -- Its handler is done, so there is a reply, which was sent and taken too.
  obtain ⟨k, hk⟩ := List.mem_iff_getElem?.mp hcall
  obtain ⟨x, hx, rfl⟩ := h.replying.finished k call hk (hfinished call hcall)
  obtain ⟨call', hcall', hid⟩ := h.replying.handed x hx
  obtain rfl := Option.some.inj (hk.symm.trans hcall')
  have hreply : x.message ∈ l.downTaken := (hdown ▸ h.down).all_taken hserverIdle hclientIdle.1 _
    (List.mem_map_of_mem (List.mem_filter.mpr ⟨hx, hentered x hx⟩))
  obtain ⟨gone, hgone, hdelivered⟩ := h.receiving.gone
  rw [hresponses, List.append_nil] at hgone
  obtain ⟨n, hn, hmem⟩ := hdelivered hids _ (hgone ▸ List.mem_map_of_mem hreply)
  have hname : x.message.msgId = q.named.msgId := by rw [hid, hrequest, msgId_received]
  rw [msgId_received, named_of_ne_nil (hname ▸ named_msgId_ne_nil q), hname] at hn
  obtain ⟨y, hy, rfl⟩ := List.mem_map.mp hmem
  have hyid : y.2.msgId = q.named.msgId :=
    Option.some.inj ((h.receiving.filed.own y hy).symm.trans hn)
  -- Another response with the id would have been given to the same callback.
  refine ⟨y, ?_⟩
  have honce := h.receiving.filed.once
  have hregistered : s.readDones.registered.Nodup := by
    rw [h.requesting.registered, hwritten]
    exact hids
  have hsingle : s.readDones.invoked.filter (·.2.msgId = q.named.msgId) = [y] := by
    refine eq_singleton_of_nodup (honce.of_map.filter _) (by simp [hy, hyid]) fun z hz => ?_
    obtain ⟨hz, hzid⟩ := List.mem_filter.mp hz
    have hzn := h.receiving.filed.own z hz
    rw [of_decide_eq_true hzid] at hzn
    exact List.inj_on_of_nodup_map honce hz hy
      ((List.getElem?_inj (List.getElem?_eq_some_iff.mp hzn).1 hregistered).mp (hzn.trans hn.symm))
  -- And a request with the id is this one.
  obtain ⟨q', hq', x', hx', hyn⟩ := howned y hy
  obtain rfl : q' = q := List.inj_on_of_nodup_map hids hq' hq (hx'.msgId.symm.trans hyid)
  exact ⟨x', hsingle, hx'⟩

/-- The in-buffer ends with a message when `excute` decodes it. -/
def ReadsWhole (c : TcpConnection Unit) (rs : List ReadResult) (n : ℕ) : Prop :=
  match c.onRead rs with
  | some (.ok (.excutes c')) =>
    match decode n [] c'.inBuffer with
    | some (.ok (ms, _)) => c'.inBuffer.readable = wire ms ∧ ∀ m ∈ ms, Sendable m
    | _ => False
  | _ => True

instance (c : TcpConnection Unit) (rs : List ReadResult) (n : ℕ) :
    Decidable (ReadsWhole c rs n) := by
  unfold ReadsWhole
  split
  · split
    · infer_instance
    · infer_instance
  · infer_instance

theorem readsSmoothly_of_whole {c : TcpConnection Unit} {rs : List ReadResult} {n : ℕ}
    (hshort : ∀ r ∈ rs, r.data.length < requested c.inBuffer) (hwhole : ReadsWhole c rs n) :
    c.ReadsSmoothly rs := by
  refine ⟨fun bs hbs => hshort _ hbs, fun c' hread => ?_⟩
  simp only [ReadsWhole, hread] at hwhole
  split at hwhole
  · exact cutsQuietly_of_wire hwhole.2 hwhole.1
  · exact hwhole.elim

/-- Writes take nothing or all, and reads end with a message. -/
def SmoothAtOnce (s : Session) : SessionEvent → Prop
  | .writeMessage m => m.Encodable
  | .clientWrite rs => ∀ r ∈ rs, r = .again ∨ r = .count s.client.toWrite
  | .clientRead rs n =>
    (∀ r ∈ rs, r.data.length < requested s.client.inBuffer) ∧ ReadsWhole s.client rs n
  | .serverRead rs n =>
    (∀ r ∈ rs, r.data.length < requested s.server.conn.inBuffer) ∧ ReadsWhole s.server.conn rs n
  | .serverWrite rs => ∀ r ∈ rs, r = .again ∨ r = .count s.server.conn.toWrite
  | _ => True

instance (s : Session) (e : SessionEvent) : Decidable (SmoothAtOnce s e) := by
  cases e <;> unfold SmoothAtOnce <;> infer_instance

theorem smooth_of_atOnce (h : SmoothAtOnce s e) : Smooth s e := by
  have hwrites : ∀ {c : TcpConnection Unit} {rs : List WriteResult},
      (∀ r ∈ rs, r = .again ∨ r = .count c.toWrite) → c.WritesWhole rs := by
    intro c rs hrs n hn
    rcases hrs _ hn with hagain | hcount
    · cases hagain
    · exact (WriteResult.count.inj hcount).ge
  cases e with
  | writeMessage m => exact h
  | clientWrite rs => exact hwrites h
  | clientRead rs n => exact readsSmoothly_of_whole h.1 h.2
  | serverRead rs n => exact readsSmoothly_of_whole h.1 h.2
  | serverWrite rs => exact hwrites h
  | _ => trivial

/-- Another request of the method. -/
def secondRequest : TinyPBProtocol := { msgId := ascii "2", methodName := ascii "Order.makeOrder" }

/-- The replies to it, to the first request, and to the first request when it comes again. -/
def orderReplies : List TinyPBProtocol :=
  [{ msgId := ascii "2", methodName := ascii "Order.makeOrder", pbData := [7] },
    { msgId := ascii "1", methodName := ascii "Order.makeOrder", pbData := [8] },
    { msgId := ascii "1", methodName := ascii "Order.makeOrder", errCode := ErrCode.failedSerialize,
      errInfo := ascii "serilize error" }]

/-- Two requests; the first is written twice, and its handler is called twice. -/
def orderSession : List SessionEvent :=
  [.writeMessage orderRequest, .clientWrite [.count 42], .writeMessage secondRequest,
    .clientWrite [.again], .clientWrite [.count 84],
    .serverRead [.bytes (wire [orderRequest, orderRequest, secondRequest])] 10, .dispatch,
    .dispatch, .dispatch, .act 2 .run (some [7]), .act 0 .destroy (some [8]), .act 1 .run none,
    .serverWrite [.count 142], .clientRead [.bytes (wire orderReplies)] 10, .response, .returned,
    .response, .returned, .response]

theorem orderSession_isSome :
    (exec (sessionStep orderServices) (.new 256 256) orderSession).isSome := by
  decide +kernel

theorem orderSession_smooth :
    Along (sessionStep orderServices) Smooth (.new 256 256) orderSession := by
  have hatOnce : Along (sessionStep orderServices) SmoothAtOnce (.new 256 256) orderSession := by
    decide +kernel
  exact hatOnce.imp (I := fun _ => True) trivial (fun s e _ => smooth_of_atOnce) fun _ _ _ _ _ _ =>
    trivial

theorem answersOwn_order : AnswersOwn orderSession
    ((exec (sessionStep orderServices) (.new 256 256) orderSession).get orderSession_isSome) :=
  answersOwn orderServices 256 256 orderSession _ (by decide) (by decide) orderSession_smooth
    (Option.some_get orderSession_isSome).symm

end TalonRPC
