import TalonRPC.Machine.Attached
import TalonRPC.Rpc.Exchange
import TalonRPC.Rpc.Failure
import TalonRPC.Rpc.Outcome

/-!
# A call over its connection

The client of a channel writes the request when it is connected, and waits for the response when
that is written. So the session between the client and a server calls the channel back: after the
connect, after the write, and with the response; only the timer is independent of it. Whatever the
order of all this, a call that succeeds was served: a handler has been called with its request, and
what that has serialized is what the user gets.

## Main definitions

* `callRequest`: the request a call sends
* `RemoteEvent`, `lineStep`: a connect, and the session it opens
* `callbacks`: the callbacks of the channel during an event
* `remoteStep`: the session with the channel attached
* `Fulfilled`: a handler was called with the request, and the response is what it has serialized

## Main results

* `exec_session`: a call has a session in which its request is all the client sends
* `heard_iff`: the channel hears of the responses given to the callbacks of its session
* `fulfilled_of_success`: **safety** of a call, in every interleaving
* `exists_run_of_quiescent`: a call whose timer does not expire runs its closure
* `session_unhindered`: the channel awaits what its session calls it back for
-/

namespace TalonRPC

open Machine RpcDispatcher

variable {M : Type}

/-- The request of a call, as it is given to `writeMessage`. -/
def callRequest (c : RpcController) (args : CallArgs) (env : CallEnv) : TinyPBProtocol where
  msgId := RpcChannel.chooseMsgId c env
  methodName := args.methodName
  pbData := args.serialized.getD []

/-- What happens while a call is under way: its timer expires, its connect ends, or something
happens between its client and the server. -/
inductive RemoteEvent
  | timeout
  | connect (r : ConnectResult)
  | session (e : SessionEvent)
  deriving DecidableEq, Repr

/-- The session of a call: the client writes the request once it is connected. -/
def Session.opened (clientSize serverSize : ℕ) (req : TinyPBProtocol) : Session :=
  let s := Session.new clientSize serverSize
  { s with client := (s.client.pushSendMessage req ()).listenWrite }

/-- The session of a call after an event, where there is one. The client of a channel writes its
request, and nothing else. -/
def lineStep (services : List (ByteString × Service)) (clientSize serverSize : ℕ)
    (req : TinyPBProtocol) (x : Option Session) : RemoteEvent → Option (Option Session)
  | .timeout => some x
  | .connect r =>
    match x with
    | none => some (if r = .connected then some (.opened clientSize serverSize req) else none)
    | some _ => none
  | .session e =>
    match x, e with
    | none, _ => none
    | some _, .writeMessage _ => none
    | some s, e => (sessionStep services s e).map some

/-- The callbacks of the channel that an event of its session calls: that of each request that is
written, and that of a response whose id is registered. -/
def Session.callbacks (s : Session) : SessionEvent → List CallEvent
  | .clientWrite rs =>
    match s.client.onWrite rs with
    | some (.ok x) => x.dones.map fun _ => .written
    | _ => []
  | .response =>
    match s.responses with
    | m :: _ => if m.msgId ∈ s.readDones.readDones then [.response m] else []
    | [] => []
  | _ => []

/-- The callbacks of the channel during an event. -/
def callbacks (x : Option Session) : RemoteEvent → List CallEvent
  | .timeout => [.timeout]
  | .connect r => [.connect r]
  | .session e => (x.map fun s => s.callbacks e).getD []

/-- An event of a call: the session of the client, with the channel attached. -/
def remoteStep (services : List (ByteString × Service)) (parse : ByteString → M × Bool)
    (clientSize serverSize : ℕ) (req : TinyPBProtocol) :
    Option Session × RpcChannel M → RemoteEvent → Option (Option Session × RpcChannel M) :=
  attach (lineStep services clientSize serverSize req) callbacks (callStep parse)

/-- The session when `CallMethod` returns: there is one if `connect` was done at once. -/
def RpcChannel.line (ch : RpcChannel M) (clientSize serverSize : ℕ) : Option Session :=
  match ch.awaits with
  | .written req => some (.opened clientSize serverSize req)
  | _ => none

/-- The events of the session. -/
def sessionEvents (es : List RemoteEvent) : List SessionEvent :=
  es.filterMap fun
    | .session e => some e
    | _ => none

/-- No byte of the session is lost or repeated inside a message. -/
def SmoothLine (x : Option Session) : RemoteEvent → Prop
  | .session e => ∀ s, x = some s → Smooth s e
  | _ => True

/-- **The call was served**: its method is registered, a handler has been called with its request,
and the response is what that has serialized. -/
structure Fulfilled (services : List (ByteString × Service)) (parse : ByteString → M × Bool)
    (req : TinyPBProtocol) (es : List RemoteEvent) (s : Session) (ch : RpcChannel M) : Prop where
  resolves : Resolves services req.received
  handled : ∃ k call a data, s.server.calls[k]? = some call ∧ call.request = req.received ∧
    .session (.act k a (some data)) ∈ es ∧ (parse data).2 = true ∧
      ch.response = (parse data).1

variable {services : List (ByteString × Service)} {parse : ByteString → M × Bool}
  {clientSize serverSize : ℕ} {req m : TinyPBProtocol} {x x' : Option Session} {s s' : Session}
  {e : RemoteEvent} {es : List RemoteEvent} {ch ch' : RpcChannel M}

/-! ## The session of a call -/

theorem sessionEvents_append (es fs : List RemoteEvent) :
    sessionEvents (es ++ fs) = sessionEvents es ++ sessionEvents fs :=
  List.filterMap_append ..

/-- What a step does: it leaves the session as it is, opens one, or is an event of it. -/
inductive LineStepped (services : List (ByteString × Service)) (clientSize serverSize : ℕ)
    (req : TinyPBProtocol) : Option Session → RemoteEvent → Option Session → Prop
  | timeout (x : Option Session) : LineStepped services clientSize serverSize req x .timeout x
  | failed (r : ConnectResult) : r ≠ .connected →
    LineStepped services clientSize serverSize req none (.connect r) none
  | opened : LineStepped services clientSize serverSize req none (.connect .connected)
      (some (.opened clientSize serverSize req))
  | session (s s' : Session) (e : SessionEvent) :
    (∀ m, e ≠ .writeMessage m) → sessionStep services s e = some s' →
      LineStepped services clientSize serverSize req (some s) (.session e) (some s')

theorem lineStepped_of_lineStep (h : lineStep services clientSize serverSize req x e = some x') :
    LineStepped services clientSize serverSize req x e x' := by
  cases e with
  | timeout =>
    obtain rfl := Option.some.inj h
    exact .timeout x
  | connect r =>
    cases x with
    | some s => cases h
    | none =>
      obtain rfl := Option.some.inj h
      split_ifs with hr
      · exact hr ▸ .opened
      · exact .failed r hr
  | session e =>
    cases x with
    | none => cases h
    | some s =>
      have hsession : (∀ m, e ≠ .writeMessage m) ∧
          (sessionStep services s e).map some = some x' := by
        cases e with
        | writeMessage m => cases h
        | _ => exact ⟨by simp, h⟩
      obtain ⟨s', hs', rfl⟩ := Option.map_eq_some_iff.mp hsession.2
      exact .session s s' e hsession.1 hs'

/-- The session of a call is a session in which the client has sent the request. -/
structure Remote (services : List (ByteString × Service)) (clientSize serverSize : ℕ)
    (req : TinyPBProtocol) (es : List RemoteEvent) (x : Option Session) : Prop where
  offline : x = none → sessionEvents es = []
  online : ∀ s, x = some s →
    exec (sessionStep services) (.new clientSize serverSize)
        (.writeMessage req :: sessionEvents es) = some s ∧
      Along (sessionStep services) Smooth (.new clientSize serverSize)
        (.writeMessage req :: sessionEvents es)
  alone : written (sessionEvents es) = []

/-- The first event of a session is the request. -/
theorem remote_opened (hreq : req.Encodable) (h : sessionEvents es = []) :
    Remote services clientSize serverSize req es (some (.opened clientSize serverSize req)) := by
  refine ⟨nofun, fun s hs => ?_, by rw [h]; rfl⟩
  obtain rfl := Option.some.inj hs
  rw [h]
  exact ⟨rfl, hreq, fun _ _ => trivial⟩

theorem Remote.step (h : Remote services clientSize serverSize req es x) (hreq : req.Encodable)
    (hsmooth : SmoothLine x e) (hstep : lineStep services clientSize serverSize req x e = some x') :
    Remote services clientSize serverSize req (es ++ [e]) x' := by
  cases lineStepped_of_lineStep hstep with
  | timeout =>
    have hevents : sessionEvents (es ++ [.timeout]) = sessionEvents es := by
      rw [sessionEvents_append]
      exact List.append_nil _
    exact ⟨hevents ▸ h.offline, hevents ▸ h.online, hevents ▸ h.alone⟩
  | failed r hr =>
    have hevents : sessionEvents (es ++ [.connect r]) = sessionEvents es := by
      rw [sessionEvents_append]
      exact List.append_nil _
    exact ⟨hevents ▸ h.offline, fun s hs => absurd hs (by simp), hevents ▸ h.alone⟩
  | opened =>
    refine remote_opened hreq ?_
    rw [sessionEvents_append, h.offline rfl]
    rfl
  | session s s' e hother hs =>
    obtain ⟨hrun, hall⟩ := h.online s rfl
    have hevents : sessionEvents (es ++ [.session e]) = sessionEvents es ++ [e] :=
      sessionEvents_append _ _
    refine ⟨nofun, fun t ht => ?_, ?_⟩
    · obtain rfl := Option.some.inj ht
      rw [hevents, ← List.cons_append]
      exact ⟨exec_snoc.mpr ⟨s, hrun, hs⟩, (along_snoc hrun).mpr ⟨hall, hsmooth s rfl⟩⟩
    · rw [hevents, written_snoc hother]
      exact h.alone

theorem remote_of_line (hreq : req.Encodable)
    (h : ch.awaits = .nothing ∨ ch.awaits = .connect req ∨ ch.awaits = .written req) :
    Remote services clientSize serverSize req [] (ch.line clientSize serverSize) := by
  have hnone : Remote services clientSize serverSize req [] none :=
    ⟨fun _ => rfl, fun s hs => absurd hs (by simp), rfl⟩
  unfold RpcChannel.line
  rcases h with h | h | h <;> rw [h]
  · exact hnone
  · exact hnone
  · exact remote_opened hreq rfl

/-- **The session of a call.** -/
theorem exec_session (hreq : req.Encodable)
    (h₀ : Remote services clientSize serverSize req [] x)
    (hsmooth : Along (lineStep services clientSize serverSize req) SmoothLine x es)
    (hrun : exec (lineStep services clientSize serverSize req) x es = some x') :
    Remote services clientSize serverSize req es x' := by
  refine hsmooth.history (I := Remote services clientSize serverSize req) h₀ ?_ hrun
  intro es x e x' _ h hsmooth hstep
  exact h.step hreq hsmooth hstep

/-! ## What handlers do -/

/-- What an event of a session leaves as it is: only `dispatch` and a handler change the calls of
the server, only a write registers an id, and only a response calls a callback. -/
structure Frame (s : Session) (e : SessionEvent) (s' : Session) : Prop where
  served : e ≠ .dispatch → (∀ i a r, e ≠ .act i a r) →
    s'.server.calls = s.server.calls ∧ s'.server.handed = s.server.handed
  registered : (∀ rs, e ≠ .clientWrite rs) → s'.readDones.registered = s.readDones.registered
  invoked : e ≠ .response → s'.readDones.invoked = s.readDones.invoked

theorem invoked_pushAll (ids : List ByteString) (c : ReadDones) :
    (ids.foldl ReadDones.pushReadMessage c).invoked = c.invoked := by
  induction ids generalizing c with
  | nil => rfl
  | cons msgId ids ih => exact ih _

theorem frame_of_sessionStep {e : SessionEvent} (h : sessionStep services s e = some s') :
    Frame s e s' := by
  cases e with
  | writeMessage m =>
    obtain rfl := Option.some.inj h
    exact ⟨fun _ _ => ⟨rfl, rfl⟩, fun _ => rfl, fun _ => rfl⟩
  | clientWrite rs =>
    rw [sessionStep] at h
    split at h
    · rename_i x hx
      obtain rfl := Option.some.inj h
      obtain ⟨ev, -, hfold⟩ := foldl_readMessage x.dones
        { s with client := x.conn, upstream := s.upstream ++ x.accepted.flatten }
      rw [hfold]
      exact ⟨fun _ _ => ⟨rfl, rfl⟩, fun hne => absurd rfl (hne rs), fun _ => invoked_pushAll _ _⟩
    · cases h
  | clientRead rs n =>
    rw [sessionStep] at h
    split_ifs at h
    obtain ⟨⟨c, ms⟩, -, rfl⟩ := Option.map_eq_some_iff.mp h
    exact ⟨fun _ _ => ⟨rfl, rfl⟩, fun _ => rfl, fun _ => rfl⟩
  | response =>
    rw [sessionStep] at h
    split at h
    · cases h
    rename_i m ms hresponses
    obtain ⟨r, hr, rfl⟩ := Option.map_eq_some_iff.mp h
    simp only [responseStep] at hr
    split at hr
    · obtain rfl := Option.some.inj hr
      exact ⟨fun _ _ => ⟨rfl, rfl⟩, fun _ => registered_response _ m, fun hne => absurd rfl hne⟩
    · cases hr
  | returned =>
    obtain ⟨r, hr, rfl⟩ := Option.map_eq_some_iff.mp h
    obtain ⟨msgId, -, rfl⟩ := Option.map_eq_some_iff.mp hr
    exact ⟨fun _ _ => ⟨rfl, rfl⟩, fun _ => rfl, fun _ => rfl⟩
  | serverRead rs n =>
    rw [sessionStep] at h
    split_ifs at h
    obtain ⟨⟨c, ms⟩, -, rfl⟩ := Option.map_eq_some_iff.mp h
    exact ⟨fun _ _ => ⟨rfl, rfl⟩, fun _ => rfl, fun _ => rfl⟩
  | dispatch =>
    rw [sessionStep] at h
    split at h
    · cases h
    · obtain ⟨server, -, rfl⟩ := Option.map_eq_some_iff.mp h
      exact ⟨fun hne => absurd rfl hne, fun _ => rfl, fun _ => rfl⟩
  | act i a r =>
    obtain ⟨server, -, rfl⟩ := Option.map_eq_some_iff.mp h
    exact ⟨fun _ hne => absurd rfl (hne i a r), fun _ => rfl, fun _ => rfl⟩
  | serverWrite rs =>
    rw [sessionStep] at h
    split at h
    · obtain rfl := Option.some.inj h
      exact ⟨fun _ _ => ⟨rfl, rfl⟩, fun _ => rfl, fun _ => rfl⟩
    · cases h

/-- What is given to `reply` is what a handler has put into it, for a request that resolves. -/
structure Handling (services : List (ByteString × Service)) (es : List SessionEvent) (s : Session) :
    Prop where
  resolves : ∀ call ∈ s.server.calls, call.stage ≠ .rejected → Resolves services call.request
  handed : ∀ h ∈ s.server.handed, ∃ a r rsp, .act h.request a r ∈ es ∧ h.message = respond rsp r ∧
    ∃ call, s.server.calls[h.request]? = some call ∧ call.stage ≠ .rejected

theorem Handling.of_server {ses : List SessionEvent} (h : Handling services ses s)
    (e : SessionEvent) (hcalls : s'.server.calls = s.server.calls)
    (hhanded : s'.server.handed = s.server.handed) : Handling services (ses ++ [e]) s' := by
  refine ⟨hcalls ▸ h.resolves, fun y hy => ?_⟩
  obtain ⟨a, r, rsp, hact, hmessage⟩ := h.handed y (hhanded ▸ hy)
  exact ⟨a, r, rsp, List.mem_append_left _ hact, hcalls ▸ hmessage⟩

theorem next_ne_rejected {a : HandlerAct} {stage stage' : Stage} (h : a.next stage = some stage') :
    stage ≠ .rejected ∧ stage' ≠ .rejected := by
  cases a <;> cases stage <;> cases h <;> simp

theorem Handling.dispatch {ses : List SessionEvent} (h : Handling services ses s)
    (m : TinyPBProtocol) (hcalls : s'.server.calls = s.server.calls ++ [dispatch services m])
    (hhanded : s'.server.handed = s.server.handed) : Handling services (ses ++ [.dispatch]) s' := by
  refine ⟨fun call hcall hstage => ?_, fun y hy => ?_⟩
  · rw [hcalls] at hcall
    rcases List.mem_append.mp hcall with hcall | hcall
    · exact h.resolves call hcall hstage
    · obtain rfl := List.mem_singleton.mp hcall
      obtain ⟨hrequest, ⟨hrejected, -⟩ | ⟨-, hresolves, -⟩⟩ := dispatch_cases services m
      · exact absurd hrejected hstage
      · rwa [hrequest]
  · obtain ⟨a, r, rsp, hact, hmessage, call, hcall, hstage⟩ := h.handed y (hhanded ▸ hy)
    refine ⟨a, r, rsp, List.mem_append_left _ hact, hmessage, call, ?_, hstage⟩
    rw [hcalls, List.getElem?_append_left (List.getElem?_eq_some_iff.mp hcall).1, hcall]

theorem Handling.act {ses : List SessionEvent} {i : ℕ} {a : HandlerAct} {r : Option ByteString}
    (h : Handling services ses s) (hstep : sessionStep services s (.act i a r) = some s') :
    Handling services (ses ++ [.act i a r]) s' := by
  obtain ⟨server, hserve, rfl⟩ := Option.map_eq_some_iff.mp hstep
  rw [serveStep] at hserve
  cases hcall : s.server.calls[i]? with
  | none => simp [hcall] at hserve
  | some call =>
  cases hnext : a.next call.stage with
  | none => simp [hcall, hnext] at hserve
  | some stage =>
  simp only [hcall, hnext] at hserve
  obtain ⟨conn, rsp, entered, rfl, -⟩ := closure_eq hserve
  obtain ⟨hbefore, hafter⟩ := next_ne_rejected hnext
  have hself := List.getElem?_set_self (a := { call with response := rsp, stage := stage })
    (List.getElem?_eq_some_iff.mp hcall).1
  refine ⟨fun c hc hstage => ?_, fun y hy => ?_⟩
  · rcases List.mem_or_eq_of_mem_set hc with hc | rfl
    · exact h.resolves c hc hstage
    · exact h.resolves call (List.mem_of_getElem? hcall) hbefore
  · rcases List.mem_append.mp hy with hy | hy
    · obtain ⟨b, r', rsp', hact, hmessage, c, hc, hstage⟩ := h.handed y hy
      refine ⟨b, r', rsp', List.mem_append_left _ hact, hmessage, ?_⟩
      by_cases hyi : y.request = i
      · exact ⟨_, by rw [hyi]; exact hself, hafter⟩
      · exact ⟨c, by rw [List.getElem?_set_ne (Ne.symm hyi), hc], hstage⟩
    · obtain rfl := List.mem_singleton.mp hy
      exact ⟨a, r, call.response, List.mem_append_right _ (List.mem_singleton_self _), rfl, _,
        hself, hafter⟩

/-- **What an event does** to the requests of the server. -/
theorem Handling.step {ses : List SessionEvent} {e : SessionEvent} (h : Handling services ses s)
    (hstep : sessionStep services s e = some s') : Handling services (ses ++ [e]) s' := by
  have hserved := (frame_of_sessionStep hstep).served
  cases e with
  | act i a r => exact h.act hstep
  | dispatch =>
    rw [sessionStep] at hstep
    split at hstep
    · cases hstep
    · obtain ⟨server, hserve, rfl⟩ := Option.map_eq_some_iff.mp hstep
      obtain rfl := Option.some.inj hserve
      exact h.dispatch _ rfl rfl
  | _ =>
    obtain ⟨hcalls, hhanded⟩ := hserved (by simp) (by simp)
    exact h.of_server _ hcalls hhanded

theorem handling_of_exec {ses : List SessionEvent}
    (hrun : exec (sessionStep services) (.new clientSize serverSize) ses = some s) :
    Handling services ses s := by
  refine exec_history (I := Handling services) ?_ ?_ hrun
  · constructor <;> simp [Session.new]
  · intro ses s e s' _ h hstep
    exact h.step hstep

/-! ## What the channel hears -/

/-- Only a response is given to a callback for one. -/
theorem response_mem_callbacks {e : SessionEvent} (h : .response m ∈ s.callbacks e) :
    e = .response := by
  unfold Session.callbacks at h
  split at h
  · split at h <;> simp at h
  · rfl
  · cases h

/-- A response is given to a callback exactly if that is called. -/
theorem invoked_of_sessionStep {e : SessionEvent} (h : sessionStep services s e = some s')
    (m : TinyPBProtocol) : m ∈ s'.readDones.invoked.map (·.2) ↔
      m ∈ s.readDones.invoked.map (·.2) ∨ .response m ∈ s.callbacks e := by
  by_cases he : e = .response
  swap
  · rw [(frame_of_sessionStep h).invoked he, or_iff_left (mt response_mem_callbacks he)]
  subst he
  rw [sessionStep] at h
  split at h
  · cases h
  rename_i n ms hresponses
  obtain ⟨r, hr, rfl⟩ := Option.map_eq_some_iff.mp h
  simp only [responseStep] at hr
  split at hr
  swap
  · cases hr
  obtain rfl := Option.some.inj hr
  have hcallbacks : s.callbacks .response =
      if n.msgId ∈ s.readDones.readDones then [.response n] else [] := by
    rw [Session.callbacks, hresponses]
  rw [hcallbacks]
  dsimp only
  by_cases hmem : n.msgId ∈ s.readDones.readDones
  · obtain ⟨k, hk⟩ := Option.isSome_iff_exists.mp (AList.lookup_isSome.mpr hmem)
    rw [if_pos hmem, response_of_lookup hk]
    simp
  · rw [if_neg hmem, response_of_not_mem hmem]
    simp

/-- The responses the channel has heard of after the events `es`. -/
def Session.heard (x : Option Session) : List TinyPBProtocol :=
  (x.map fun s => s.readDones.invoked.map (·.2)).getD []

theorem heard_of_lineStep (h : lineStep services clientSize serverSize req x e = some x')
    (m : TinyPBProtocol) :
    m ∈ Session.heard x' ↔ m ∈ Session.heard x ∨ .response m ∈ callbacks x e := by
  cases lineStepped_of_lineStep h with
  | timeout => simp [callbacks]
  | failed r hr => simp [callbacks]
  | opened => simp [callbacks, Session.heard, Session.opened, Session.new]
  | session s s' e hother hs => exact invoked_of_sessionStep hs m

/-- **The responses the channel hears of** are those given to the callbacks of its session. -/
theorem heard_iff (hx : Session.heard x = [])
    (hrun : exec (lineStep services clientSize serverSize req) x es = some x')
    (m : TinyPBProtocol) : m ∈ Session.heard x' ↔
      .response m ∈ outputs (lineStep services clientSize serverSize req) callbacks x es := by
  refine exec_history (I := fun es x' => m ∈ Session.heard x' ↔ .response m ∈
    outputs (lineStep services clientSize serverSize req) callbacks x es) ?_ ?_ hrun
  · simp [hx, outputs]
  · intro es y e y' hbefore h hstep
    rw [outputs_snoc hbefore hstep, List.mem_append, ← h]
    exact heard_of_lineStep hstep m

/-! ## What the channel makes of it -/

section Channel

variable {ces : List CallEvent} {ce : CallEvent} {c : RpcController} {args : CallArgs}
  {env : CallEnv} {ch₁ : RpcChannel M}

/-- How a call stands after the callbacks: its closure has not run, or it has, with an error or
with the response `m`. -/
inductive Standing (parse : ByteString → M × Bool) (ces : List CallEvent) (ch : RpcChannel M) : Prop
  | waiting (hopen : Open ch)
  | failed {runs : List RpcController} (hover : Over ch runs)
    (hruns : ∀ c ∈ runs, c.errorCode ≠ 0)
  | succeeded {c : RpcController} {m : TinyPBProtocol} (hover : Over ch [c])
    (hawaits : ch.awaits = .nothing) (hm : .response m ∈ ces) (hparse : (parse m.pbData).2 = true)
    (herrCode : m.errCode = 0) (hresponse : ch.response = (parse m.pbData).1)

theorem standing_of_new (hclosure : ch.hasClosure = true) (hruns : ch.runs = []) :
    Standing parse ces ch := by
  cases hfinished : ch.controller.isFinished with
  | false => exact .waiting ⟨hclosure, hfinished, hruns⟩
  | true => exact .failed ⟨hfinished, hruns⟩ (by simp)

theorem callBack_response (ch : RpcChannel M) : ch.callBack.response = ch.response := by
  unfold RpcChannel.callBack
  split_ifs <;> rfl

theorem onResponse_response (m : TinyPBProtocol) :
    (ch.onResponse parse m).response = (parse m.pbData).1 := by
  unfold RpcChannel.onResponse
  dsimp only
  split_ifs <;> exact callBack_response _

theorem Standing.step (h : Standing parse ces ch) (hstep : callStep parse ch ce = some ch') :
    Standing parse (ces ++ [ce]) ch' := by
  cases h with
  | waiting hopen =>
    rcases callStep_of_open hopen hstep with ⟨-, hover⟩ | ⟨-, hsettles, c, hover, hcode⟩ |
      ⟨-, -, hopen', -⟩
    · exact .failed hover (by simp)
    · by_cases hzero : c.errorCode = 0
      swap
      · exact .failed hover (by simpa using hzero)
      -- Only a response leaves the closure without an error.
      obtain ⟨m, hm, hparse, herrCode⟩ := hcode hzero
      obtain rfl := List.mem_singleton.mp hm
      cases callStepped_of_callStep hstep with
      | response m hawaits =>
        exact .succeeded hover (onResponse_awaits m)
          (List.mem_append_right _ (List.mem_singleton_self _)) hparse herrCode
          (onResponse_response m)
    · exact .waiting hopen'
  | failed hover hruns => exact .failed (callStep_of_over hover hstep) hruns
  | succeeded hover hawaits hm hparse herrCode hresponse =>
    have hover' := callStep_of_over hover hstep
    -- The client awaits nothing, so this is the timer, which finds the call finished.
    cases callStepped_of_callStep hstep with
    | timeout htimer =>
      have hsame : { ch with timer := false }.onTimeout = { ch with timer := false } :=
        if_pos hover.finished
      rw [hsame] at hover' ⊢
      exact .succeeded hover' hawaits (List.mem_append_left _ hm) hparse herrCode hresponse
    | connect r req' hconnect => cases hawaits.symm.trans hconnect
    | written req' hwritten => cases hawaits.symm.trans hwritten
    | response m' hresponse' => cases hawaits.symm.trans hresponse'

theorem Standing.exec (h : Standing parse [] ch) (hrun : exec (callStep parse) ch ces = some ch') :
    Standing parse ces ch' := by
  refine exec_history (I := Standing parse) h ?_ hrun
  intro ces ch ce ch' _ h hstep
  exact h.step hstep

theorem callBack_awaits (ch : RpcChannel M) : ch.callBack.awaits = ch.awaits := by
  unfold RpcChannel.callBack
  split_ifs <;> rfl

/-- A call that fails at once leaves an error to its closure. -/
theorem standing_callBack {code : Int32} {info : ByteString} (hclosure : ch.hasClosure = true)
    (hruns : ch.runs = []) (hcode : code ≠ 0) :
    Standing parse ces (ch.setError code info).callBack := by
  cases hfinished : ch.controller.isFinished with
  | false =>
    have hopen : Open ch := ⟨hclosure, hfinished, hruns⟩
    refine .failed (hopen.setError code info).callBack fun c' hc' => ?_
    obtain rfl := List.mem_singleton.mp hc'
    exact hcode
  | true =>
    have hover : Over ch [] := ⟨hfinished, hruns⟩
    exact .failed (hover.setError code info).callBack (by simp)

/-- A call when `CallMethod` returns: its client awaits nothing, or its closure has not run, and
the client is going to write the request. -/
structure Begun (parse : ByteString → M × Bool) (c : RpcController) (req : TinyPBProtocol)
    (ch₁ : RpcChannel M) : Prop where
  standing : Standing parse [] ch₁
  awaits : ch₁.awaits = .nothing ∨ ch₁.awaits = .connect req ∨ ch₁.awaits = .written req
  waiting : ch₁.awaits ≠ .nothing → c.isFinished = false → Open ch₁

theorem begun_callBack {code : Int32} {info : ByteString} (hclosure : ch.hasClosure = true)
    (hruns : ch.runs = []) (hcode : code ≠ 0) (hawaits : ch.awaits = .nothing) :
    Begun parse c req (ch.setError code info).callBack := by
  have hnothing : (ch.setError code info).callBack.awaits = .nothing :=
    (callBack_awaits _).trans hawaits
  exact ⟨standing_callBack hclosure hruns hcode, .inl hnothing, fun hne => absurd hnothing hne⟩

/-- `CallMethod` from the message id on, on a channel that has not been called before. -/
theorem begun_of_callConnected {response : M} {addr : IPNetAddr}
    (h : { RpcChannel.init c response with peerAddr := some addr }.callConnected args env =
      .ok ch₁) : Begun parse c (callRequest c args env) ch₁ := by
  have hinit : (RpcChannel.init c response).isInit = true := rfl
  unfold RpcChannel.callConnected at h
  dsimp only at h
  rw [RpcChannel.setMsgId_isInit, if_neg (not_not_intro hinit)] at h
  cases hserialized : args.serialized with
  | none =>
    rw [hserialized] at h
    obtain rfl := Except.ok.inj h
    exact begun_callBack rfl rfl (by decide) rfl
  | some data =>
    rw [hserialized] at h
    obtain rfl := Except.ok.inj h
    have hreq : callRequest c args env =
        { msgId := RpcChannel.chooseMsgId c env, methodName := args.methodName,
          pbData := data } := by
      rw [callRequest, hserialized, Option.getD_some]
    rw [hreq]
    cases env.connect with
    | connected =>
      exact ⟨standing_of_new rfl rfl, .inr (.inr rfl), fun _ hfinished => ⟨rfl, hfinished, rfl⟩⟩
    | inProgress =>
      exact ⟨standing_of_new rfl rfl, .inr (.inl rfl), fun _ hfinished => ⟨rfl, hfinished, rfl⟩⟩
    | failed sysError =>
      exact begun_callBack rfl rfl (show ErrCode.failedConnect ≠ 0 by decide) rfl

/-- **What `CallMethod` does** before it returns. -/
theorem begun_of_callMethod {response : M}
    (h : (RpcChannel.init c response).callMethod args env = .ok ch₁) :
    Begun parse c (callRequest c args env) ch₁ := by
  have hinit : (RpcChannel.init c response).isInit = true := rfl
  unfold RpcChannel.callMethod at h
  by_cases hknown : env.discovered = ascii "unknown host"
  · rw [if_pos hknown] at h
    obtain rfl := Except.ok.inj h
    exact ⟨standing_of_new rfl rfl, .inl rfl, fun hne => absurd rfl hne⟩
  rw [if_neg hknown] at h
  cases hfound : findAddr env.stubs env.discovered with
  | none =>
    rw [hfound] at h
    cases h
  | some addr =>
    rw [hfound] at h
    dsimp only at h
    by_cases hcontroller : args.hasController = true
    swap
    · rw [if_pos hcontroller] at h
      cases h
    rw [if_neg (not_not_intro hcontroller)] at h
    by_cases hmissing : ¬ args.hasRequest = true ∨ ¬ args.hasResponse = true
    · rw [if_pos hmissing, if_neg (not_not_intro hinit)] at h
      obtain rfl := Except.ok.inj h
      exact begun_callBack rfl rfl (by decide) rfl
    · rw [if_neg hmissing] at h
      exact begun_of_callConnected h

end Channel

/-! ## Calls -/

theorem mem_sessionEvents {e : SessionEvent} (h : e ∈ sessionEvents es) : .session e ∈ es := by
  obtain ⟨e', he', heq⟩ := List.mem_filterMap.mp h
  split at heq
  · obtain rfl := Option.some.inj heq
    exact he'
  · cases heq

/-- The session of a call, with the request as the only message of its client. -/
theorem Remote.exchange (h : Remote services clientSize serverSize req es (some s))
    (hclient : 1 ≤ clientSize ∧ clientSize < 2 ^ 31)
    (hserver : 1 ≤ serverSize ∧ serverSize < 2 ^ 31) :
    (∃ l, Exchange (.writeMessage req :: sessionEvents es) s l) ∧
      written (.writeMessage req :: sessionEvents es) = [req] ∧
      Handling services (.writeMessage req :: sessionEvents es) s := by
  obtain ⟨hrun, hsmooth⟩ := h.online s rfl
  refine ⟨exists_exchange hclient hserver hsmooth hrun, ?_, handling_of_exec hrun⟩
  show req :: written (sessionEvents es) = [req]
  rw [h.alone]

/-- **What the channel hears** is a reply to the request of the call. -/
theorem Remote.repliedTo (h : Remote services clientSize serverSize req es (some s))
    (hclient : 1 ≤ clientSize ∧ clientSize < 2 ^ 31)
    (hserver : 1 ≤ serverSize ∧ serverSize < 2 ^ 31) (hm : m ∈ Session.heard (some s)) :
    ∃ y, RepliedTo s req m y := by
  obtain ⟨⟨l, hexchange⟩, hwritten, -⟩ := h.exchange hclient hserver
  obtain ⟨z, hz, rfl⟩ := List.mem_map.mp hm
  obtain ⟨q, hq, y, hy, -⟩ := hexchange.ownReplies.own z hz
  obtain rfl := List.mem_singleton.mp (hwritten ▸ hq)
  exact ⟨y, hy⟩

/-- A response without an error is what a handler has serialized. -/
theorem Remote.fulfilled (h : Remote services clientSize serverSize req es (some s))
    (hclient : 1 ≤ clientSize ∧ clientSize < 2 ^ 31)
    (hserver : 1 ≤ serverSize ∧ serverSize < 2 ^ 31) (hm : m ∈ Session.heard (some s))
    (hparse : (parse m.pbData).2 = true) (herrCode : m.errCode = 0)
    (hresponse : ch.response = (parse m.pbData).1) : Fulfilled services parse req es s ch := by
  obtain ⟨y, hy⟩ := h.repliedTo hclient hserver hm
  obtain ⟨-, -, hhandling⟩ := h.exchange hclient hserver
  obtain ⟨a, r, rsp, hact, hmessage, call, hcall, hstage⟩ := hhandling.handed y hy.handed
  obtain ⟨call', hcall', hrequest⟩ := hy.call
  obtain rfl := Option.some.inj (hcall.symm.trans hcall')
  have hfields := received_fields y.message
  rw [hy.received, hfields.2.1, hmessage] at herrCode
  obtain ⟨data, rfl⟩ := serialized_of_errCode herrCode
  have hdata : m.pbData = data := by
    rw [hy.received, hfields.1, hmessage]
    rfl
  rw [hdata] at hparse hresponse
  refine ⟨hrequest ▸ hhandling.resolves call (List.mem_of_getElem? hcall) hstage, y.request, call,
    a, data, hcall, hrequest, mem_sessionEvents ?_, hparse, hresponse⟩
  exact (List.mem_cons.mp hact).resolve_left (by simp)

theorem heard_line (ch : RpcChannel M) (clientSize serverSize : ℕ) :
    Session.heard (ch.line clientSize serverSize) = [] := by
  unfold RpcChannel.line
  split <;> rfl

/-- **A call that succeeds was served**, whatever the order of the events: if its closure finds no
error, its method is registered, a handler has been called with its request, and the response is
what that has serialized. -/
theorem fulfilled_of_success (services : List (ByteString × Service))
    (parse : ByteString → M × Bool) (c : RpcController) (response : M) (args : CallArgs)
    (env : CallEnv) (clientSize serverSize : ℕ) (es : List RemoteEvent) {ch₁ ch : RpcChannel M}
    {x : Option Session} (hclient : 1 ≤ clientSize ∧ clientSize < 2 ^ 31)
    (hserver : 1 ≤ serverSize ∧ serverSize < 2 ^ 31)
    (hreq : (callRequest c args env).Encodable)
    (hcall : (RpcChannel.init c response).callMethod args env = .ok ch₁)
    (hsmooth : Along (lineStep services clientSize serverSize (callRequest c args env)) SmoothLine
      (ch₁.line clientSize serverSize) es)
    (hrun : exec (remoteStep services parse clientSize serverSize (callRequest c args env))
      (ch₁.line clientSize serverSize, ch₁) es = some (x, ch)) :
    ∀ c' ∈ ch.runs, c'.errorCode = 0 →
      ∃ s, x = some s ∧ Fulfilled services parse (callRequest c args env) es s ch := by
  intro c' hc' hzero
  have hbegun : Begun parse c (callRequest c args env) ch₁ := begun_of_callMethod hcall
  obtain ⟨hline, hchannel⟩ := exec_attach_iff.mp hrun
  have hremote := exec_session hreq (remote_of_line hreq hbegun.awaits) hsmooth hline
  cases hbegun.standing.exec hchannel with
  | waiting hopen => simp [hopen.runs] at hc'
  | failed hover hruns => exact absurd hzero (hruns c' (hover.runs ▸ hc'))
  | @succeeded _ m hover hawaits hm hparse herrCode hresponse =>
    have hheard : m ∈ Session.heard x := (heard_iff (heard_line _ _ _) hline m).mpr hm
    cases x with
    | none => cases hheard
    | some s =>
      exact ⟨s, rfl, hremote.fulfilled hclient hserver hheard hparse herrCode hresponse⟩

/-- What the client of a channel awaits, by what its connection has recorded: first the write of the
request, then its response. -/
def Session.awaits (s : Session) (req : TinyPBProtocol) : Awaits :=
  if s.readDones.registered = [] then .written req
  else if s.readDones.invoked = [] then .response req.stamped.msgId
  else .nothing

/-- The channel awaits its connect, or what its connection is about to call it back for. -/
def Awaited (req : TinyPBProtocol) (x : Option Session) (ch : RpcChannel M) : Prop :=
  match x with
  | none => ch.awaits = .nothing ∨ ch.awaits = .connect req
  | some s => ch.awaits = s.awaits req

/-- The request is still queued and nothing is registered for it, or the other way round. -/
theorem Remote.registered_cases (h : Remote services clientSize serverSize req es (some s))
    (hclient : 1 ≤ clientSize ∧ clientSize < 2 ^ 31)
    (hserver : 1 ≤ serverSize ∧ serverSize < 2 ^ 31) : Filed s.readDones ∧
      ((s.client.writeDones.map (·.1) = [req] ∧ s.readDones.registered = []) ∨
        s.client.writeDones = [] ∧ s.readDones.registered = [req.named.msgId]) := by
  obtain ⟨⟨l, hexchange⟩, hwritten, -⟩ := h.exchange hclient hserver
  have hall := hexchange.requesting.written
  have hregistered := hexchange.requesting.registered
  rw [hwritten] at hall
  refine ⟨hexchange.receiving.filed, ?_⟩
  rcases List.append_eq_singleton_iff.mp hall with ⟨hnone, hqueued⟩ | ⟨hone, hnone⟩
  · exact .inl ⟨hqueued, by rw [hregistered, hnone]; rfl⟩
  · exact .inr ⟨List.map_eq_nil_iff.mp hnone, by rw [hregistered, hone]; rfl⟩

theorem Session.awaits_congr (hregistered : s'.readDones.registered = s.readDones.registered)
    (hinvoked : s'.readDones.invoked = s.readDones.invoked) : s'.awaits req = s.awaits req := by
  rw [Session.awaits, hregistered, hinvoked, Session.awaits]

/-- A write calls the channel back when the request was still queued. -/
theorem Remote.clientWrite (h : Remote services clientSize serverSize req es (some s))
    (hclient : 1 ≤ clientSize ∧ clientSize < 2 ^ 31)
    (hserver : 1 ≤ serverSize ∧ serverSize < 2 ^ 31) {rs : List TcpConnection.WriteResult}
    (hstep : sessionStep services s (.clientWrite rs) = some s') :
    (s.callbacks (.clientWrite rs) = [] ∧ s'.readDones.registered = s.readDones.registered) ∨
      (s.callbacks (.clientWrite rs) = [.written] ∧ s.readDones.registered = [] ∧
        s'.readDones.registered ≠ []) := by
  obtain ⟨⟨l, hexchange⟩, -, -⟩ := h.exchange hclient hserver
  obtain ⟨hfiled, hcases⟩ := h.registered_cases hclient hserver
  rw [sessionStep] at hstep
  split at hstep
  swap
  · cases hstep
  rename_i y hy
  obtain rfl := Option.some.inj hstep
  obtain ⟨ev, -, hfold⟩ := foldl_readMessage y.dones
    { s with client := y.conn, upstream := s.upstream ++ y.accepted.flatten }
  rw [Session.callbacks, hy, hfold]
  dsimp only
  rw [(hfiled.pushAll _).2.1]
  by_cases hstate : s.client.state = .connected
  swap
  · -- A closed connection writes nothing.
    have hdones : y.dones = [] := by
      rw [TcpConnection.onWrite, if_pos hstate] at hy
      split_ifs at hy
      obtain rfl := Except.ok.inj (Option.some.inj hy)
      rfl
    simp [hdones]
  have hwritten := TcpConnection.written_of_onWrite hstate hexchange.requesting.byClient
    hexchange.up.outgoing.wellFormed hy
  rcases hcases with ⟨hqueued, hregistered⟩ | ⟨hnone, hregistered⟩
  · obtain ⟨p, hp⟩ := List.length_eq_one_iff.mp
      (show s.client.writeDones.length = 1 by rw [← List.length_map (·.1), hqueued]; rfl)
    rw [hwritten.dones, hp, hregistered]
    exact .inr ⟨rfl, rfl, by simp⟩
  · rw [hwritten.dones, hnone]
    exact .inl ⟨rfl, by simp⟩

/-- A response calls the channel back if nothing has done so before, and it carries the id of the
request. -/
theorem Remote.response (h : Remote services clientSize serverSize req es (some s))
    (hclient : 1 ≤ clientSize ∧ clientSize < 2 ^ 31)
    (hserver : 1 ≤ serverSize ∧ serverSize < 2 ^ 31)
    (hstep : sessionStep services s .response = some s') :
    (s.callbacks .response = [] ∧ s'.readDones = s.readDones) ∨
      ∃ m, s.callbacks .response = [.response m] ∧ m.msgId = req.stamped.msgId ∧
        s.awaits req = .response req.stamped.msgId ∧ s'.awaits req = .nothing := by
  obtain ⟨hfiled, hcases⟩ := h.registered_cases hclient hserver
  rw [sessionStep] at hstep
  split at hstep
  · cases hstep
  rename_i m ms hresponses
  obtain ⟨r, hr, rfl⟩ := Option.map_eq_some_iff.mp hstep
  simp only [responseStep] at hr
  split at hr
  swap
  · cases hr
  rename_i hrunning
  obtain rfl := Option.some.inj hr
  rw [Session.callbacks, hresponses]
  dsimp only
  by_cases hmem : m.msgId ∈ s.readDones.readDones
  swap
  · rw [if_neg hmem, response_of_not_mem hmem]
    exact .inl ⟨rfl, rfl⟩
  obtain ⟨k, hk⟩ := Option.isSome_iff_exists.mp (AList.lookup_isSome.mpr hmem)
  obtain ⟨hid, hwaits⟩ := hfiled.waiting hk (by simp [hrunning])
  rcases hcases with ⟨-, hnone⟩ | ⟨-, hregistered⟩
  · rw [hnone] at hid
    cases hid
  -- There is one registration only, and this is the first response to it.
  have hone : ∀ n msgId, s.readDones.registered[n]? = some msgId →
      n = 0 ∧ req.named.msgId = msgId := by
    intro n msgId hn
    rw [hregistered, List.getElem?_singleton] at hn
    split_ifs at hn with hzero
    exact ⟨hzero, Option.some.inj hn⟩
  have hinvoked : s.readDones.invoked = [] := by
    refine List.eq_nil_iff_forall_not_mem.mpr fun z hz => hwaits ?_
    rw [(hone k _ hid).1, ← (hone z.1 _ (hfiled.own z hz)).1]
    exact List.mem_map_of_mem hz
  refine .inr ⟨m, if_pos hmem, (hone k _ hid).2.symm, ?_, ?_⟩
  · rw [Session.awaits, if_neg (by simp [hregistered]), if_pos hinvoked]
  · rw [Session.awaits, response_of_lookup hk, if_neg (by simp [hregistered]), if_neg (by simp)]

/-- **The session calls the channel back only for what it awaits.** -/
theorem Remote.exists_callbacks (h : Remote services clientSize serverSize req es (some s))
    (hclient : 1 ≤ clientSize ∧ clientSize < 2 ^ 31)
    (hserver : 1 ≤ serverSize ∧ serverSize < 2 ^ 31) (hawaits : ch.awaits = s.awaits req)
    {e : SessionEvent} (hstep : sessionStep services s e = some s') :
    ∃ ch', exec (callStep parse) ch (s.callbacks e) = some ch' ∧ ch'.awaits = s'.awaits req := by
  have hframe := frame_of_sessionStep hstep
  have hfiled := (h.registered_cases hclient hserver).1
  cases e with
  | clientWrite rs =>
    have hinvoked := hframe.invoked (by simp)
    rcases h.clientWrite hclient hserver hstep with ⟨hnone, hsame⟩ | ⟨hone, hbefore, hafter⟩
    · rw [hnone]
      exact ⟨ch, rfl, hawaits.trans (Session.awaits_congr hsame hinvoked).symm⟩
    · rw [Session.awaits, if_pos hbefore] at hawaits
      rw [hone, exec_cons, callStep, hawaits]
      refine ⟨_, rfl, ?_⟩
      -- A callback without a registration has not been called.
      have hempty : s.readDones.invoked = [] := by
        refine List.eq_nil_iff_forall_not_mem.mpr fun z hz => ?_
        have hown := hfiled.own z hz
        rw [hbefore] at hown
        cases hown
      rw [Session.awaits, if_neg hafter, if_pos (hinvoked.trans hempty)]
  | response =>
    rcases h.response hclient hserver hstep with ⟨hnone, hsame⟩ | ⟨m, hone, hid, hbefore, hafter⟩
    · rw [hnone]
      refine ⟨ch, rfl, hawaits.trans (Session.awaits_congr ?_ ?_).symm⟩ <;> rw [hsame]
    · rw [hbefore] at hawaits
      rw [hone, exec_cons, callStep, hawaits, hafter]
      dsimp only
      rw [if_pos hid]
      exact ⟨_, rfl, onResponse_awaits m⟩
  | _ =>
    exact ⟨ch, rfl, hawaits.trans
      (Session.awaits_congr (hframe.registered (by simp)) (hframe.invoked (by simp))).symm⟩

theorem awaited_line (h : ch.awaits = .nothing ∨ ch.awaits = .connect req ∨
    ch.awaits = .written req) : Awaited req (ch.line clientSize serverSize) ch := by
  unfold RpcChannel.line Awaited
  rcases h with h | h | h <;> rw [h]
  · exact .inl rfl
  · exact .inr rfl
  · rfl

theorem Awaited.step (h : Awaited req x ch)
    (hremote : Remote services clientSize serverSize req es x)
    (hclient : 1 ≤ clientSize ∧ clientSize < 2 ^ 31)
    (hserver : 1 ≤ serverSize ∧ serverSize < 2 ^ 31)
    (hstep : remoteStep services parse clientSize serverSize req (x, ch) e = some (x', ch')) :
    Awaited req x' ch' := by
  obtain ⟨hline, hchannel⟩ := attach_eq_some_iff.mp hstep
  cases lineStepped_of_lineStep hline with
  | timeout =>
    obtain ⟨t, ht, hnil⟩ := Option.bind_eq_some_iff.mp hchannel
    obtain rfl := Option.some.inj hnil
    cases callStepped_of_callStep ht with
    | timeout htimer =>
      have hsame : ({ ch with timer := false }.onTimeout).awaits = ch.awaits := onTimeout_awaits _
      unfold Awaited
      rw [hsame]
      exact h
  | failed r hr =>
    obtain ⟨t, ht, hnil⟩ := Option.bind_eq_some_iff.mp hchannel
    obtain rfl := Option.some.inj hnil
    cases callStepped_of_callStep ht with
    | connect r req' hawaits =>
      exact .inl (onConnect_awaits _ (mt (error_eq_zero_iff r).mp hr))
  | opened =>
    obtain ⟨t, ht, hnil⟩ := Option.bind_eq_some_iff.mp hchannel
    obtain rfl := Option.some.inj hnil
    cases callStepped_of_callStep ht with
    | connect r req' hawaits =>
      rcases h with hnothing | hconnect
      · cases hawaits.symm.trans hnothing
      · obtain rfl := Awaits.connect.inj (hawaits.symm.trans hconnect)
        rfl
  | session s s' e hother hs =>
    have hcallbacks : ∃ t, exec (callStep parse) ch (s.callbacks e) = some t ∧
        t.awaits = s'.awaits req := hremote.exists_callbacks hclient hserver h hs
    obtain ⟨t, ht, hawaits⟩ := hcallbacks
    obtain rfl := Option.some.inj (ht.symm.trans hchannel)
    exact hawaits

/-- **The channel follows its session**: in every state of a call, the client awaits what its
connection has recorded, and whatever can happen in the session can happen in the call. -/
theorem session_unhindered (services : List (ByteString × Service))
    (parse : ByteString → M × Bool) (c : RpcController) (response : M) (args : CallArgs)
    (env : CallEnv) (clientSize serverSize : ℕ) (es : List RemoteEvent) {ch₁ ch : RpcChannel M}
    {s : Session} (hclient : 1 ≤ clientSize ∧ clientSize < 2 ^ 31)
    (hserver : 1 ≤ serverSize ∧ serverSize < 2 ^ 31)
    (hreq : (callRequest c args env).Encodable)
    (hcall : (RpcChannel.init c response).callMethod args env = .ok ch₁)
    (hsmooth : Along (lineStep services clientSize serverSize (callRequest c args env)) SmoothLine
      (ch₁.line clientSize serverSize) es)
    (hrun : exec (remoteStep services parse clientSize serverSize (callRequest c args env))
      (ch₁.line clientSize serverSize, ch₁) es = some (some s, ch)) :
    ch.awaits = s.awaits (callRequest c args env) ∧
      ∀ e s', (∀ m, e ≠ .writeMessage m) → sessionStep services s e = some s' →
        ∃ ch', remoteStep services parse clientSize serverSize (callRequest c args env)
          (some s, ch) (.session e) = some (some s', ch') := by
  have hbegun : Begun parse c (callRequest c args env) ch₁ := begun_of_callMethod hcall
  have hline₁ : Remote services clientSize serverSize (callRequest c args env) []
      (ch₁.line clientSize serverSize) := remote_of_line hreq hbegun.awaits
  have hawaited : Awaited (callRequest c args env) (some s) ch := by
    refine exec_history (I := fun es p => Along (lineStep services clientSize serverSize
      (callRequest c args env)) SmoothLine (ch₁.line clientSize serverSize) es →
        Awaited (callRequest c args env) p.1 p.2) (fun _ => awaited_line hbegun.awaits) ?_ hrun
      hsmooth
    rintro es ⟨x, t⟩ e ⟨x', t'⟩ hbefore h hstep hsmooth
    have hline := (exec_attach_iff.mp hbefore).1
    exact (h hsmooth.left).step (exec_session hreq hline₁ hsmooth.left hline) hclient hserver hstep
  have hremote := exec_session hreq hline₁ hsmooth (exec_attach_iff.mp hrun).1
  refine ⟨hawaited, fun e s' hother hstep => ?_⟩
  have hcallbacks : ∃ ch', exec (callStep parse) ch (s.callbacks e) = some ch' ∧
      ch'.awaits = s'.awaits (callRequest c args env) :=
    hremote.exists_callbacks hclient hserver hawaited hstep
  obtain ⟨ch', hch', -⟩ := hcallbacks
  refine ⟨ch', attach_eq_some_iff.mpr ⟨?_, hch'⟩⟩
  have hsome : lineStep services clientSize serverSize (callRequest c args env) (some s)
      (.session e) = (sessionStep services s e).map some := by
    cases e with
    | writeMessage m => exact absurd rfl (hother m)
    | _ => rfl
  rw [hsome, hstep, Option.map_some]

/-! ## A call that succeeds -/

/-- Writes take nothing or all, and reads end with a message. -/
def SmoothLineAtOnce (x : Option Session) : RemoteEvent → Prop
  | .session e =>
    match x with
    | some s => SmoothAtOnce s e
    | none => True
  | _ => True

instance (x : Option Session) (e : RemoteEvent) : Decidable (SmoothLineAtOnce x e) := by
  unfold SmoothLineAtOnce
  split
  · split <;> infer_instance
  · infer_instance

theorem smoothLine_of_atOnce (h : SmoothLineAtOnce x e) : SmoothLine x e := by
  cases e with
  | session e =>
    intro s hs
    subst hs
    exact smooth_of_atOnce h
  | timeout | connect r => trivial

/-- Responses of one text. -/
def parseText (b : ByteString) : ByteString × Bool := (b, true)

/-- The call `makeOrder`, as it waits for its connect. -/
def placing : RpcChannel ByteString :=
  { controller := { msgId := ascii "10000" }, response := [], isInit := true, hasClosure := true,
    peerAddr := some ⟨ascii "127.0.0.1", 12345⟩, timer := true,
    awaits := .connect (callRequest {} makeOrder orderServer) }

theorem callMethod_placing :
    (RpcChannel.init {} []).callMethod makeOrder orderServer = .ok placing := by
  decide

/-- Its client connects, and the handler answers it. -/
def placed : List RemoteEvent :=
  [.connect .connected, .session (.clientWrite [.count 46]),
    .session (.serverRead [.bytes (TinyPBCoder.wire [callRequest {} makeOrder orderServer])] 10),
    .session .dispatch, .session (.act 0 .run (some [7])), .session (.serverWrite [.count 47]),
    .session (.clientRead [.bytes (TinyPBCoder.wire [{
      msgId := ascii "10000", methodName := ascii "Order.makeOrder", pbData := [7] }])] 10),
    .session .response, .session .returned]

theorem encodable_makeOrder : (callRequest {} makeOrder orderServer).Encodable := by
  constructor <;> decide

theorem placed_smooth : Along
    (lineStep orderServices 128 128 (callRequest {} makeOrder orderServer)) SmoothLine
    (placing.line 128 128) placed := by
  have hatOnce : Along (lineStep orderServices 128 128 (callRequest {} makeOrder orderServer))
      SmoothLineAtOnce (placing.line 128 128) placed := by
    decide +kernel
  exact hatOnce.imp (I := fun _ => True) trivial (fun x e _ => smoothLine_of_atOnce)
    fun _ _ _ _ _ _ => trivial

/-- The call after it, with its session. -/
def afterPlacing : Option (Session × RpcChannel ByteString) :=
  (exec (remoteStep orderServices parseText 128 128 (callRequest {} makeOrder orderServer))
    (placing.line 128 128, placing) placed).bind fun p => p.1.map fun s => (s, p.2)

theorem afterPlacing_isSome : afterPlacing.isSome := by decide +kernel

theorem exec_placed : exec
    (remoteStep orderServices parseText 128 128 (callRequest {} makeOrder orderServer))
    (placing.line 128 128, placing) placed =
      some (some (afterPlacing.get afterPlacing_isSome).1,
        (afterPlacing.get afterPlacing_isSome).2) := by
  obtain ⟨p, hp, hmap⟩ :=
    Option.bind_eq_some_iff.mp (Option.some_get afterPlacing_isSome).symm
  obtain ⟨s, hs, heq⟩ := Option.map_eq_some_iff.mp hmap
  rw [hp, ← heq]
  show some (p.1, p.2) = _
  rw [hs]

theorem fulfilled_of_success_placed : ∃ s,
    some (afterPlacing.get afterPlacing_isSome).1 = some s ∧
      Fulfilled orderServices parseText (callRequest {} makeOrder orderServer) placed s
        (afterPlacing.get afterPlacing_isSome).2 := by
  have hsuccess : ∃ c ∈ (afterPlacing.get afterPlacing_isSome).2.runs, c.errorCode = 0 := by
    decide +kernel
  obtain ⟨c, hc, hzero⟩ := hsuccess
  exact fulfilled_of_success orderServices parseText {} [] makeOrder orderServer 128 128 placed
    (by decide) (by decide) encodable_makeOrder callMethod_placing placed_smooth exec_placed c hc
    hzero

/-- The client has its response, so it awaits nothing more. -/
theorem session_unhindered_placed : (afterPlacing.get afterPlacing_isSome).2.awaits =
      (afterPlacing.get afterPlacing_isSome).1.awaits (callRequest {} makeOrder orderServer) ∧
    ∀ e s', (∀ m, e ≠ .writeMessage m) →
      sessionStep orderServices (afterPlacing.get afterPlacing_isSome).1 e = some s' →
        ∃ ch', remoteStep orderServices parseText 128 128 (callRequest {} makeOrder orderServer)
          (some (afterPlacing.get afterPlacing_isSome).1, (afterPlacing.get afterPlacing_isSome).2)
          (.session e) = some (some s', ch') :=
  session_unhindered orderServices parseText {} [] makeOrder orderServer 128 128 placed
    (by decide) (by decide) encodable_makeOrder callMethod_placing placed_smooth exec_placed

end TalonRPC
