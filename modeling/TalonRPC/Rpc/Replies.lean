import TalonRPC.Machine.Run
import TalonRPC.Rpc.Dispatcher

/-!
# Replies to requests

Every request should be answered by exactly one message. A request whose handler runs its closure
once is. But `dispatch` returns without a reply where it rejects a request, although it has filled
in the error; and a handler that calls `reply` on its `RpcInterface` sends the response once more
when the `RpcInterface` is destroyed.

## Main definitions

* `Resolves services m`: the request names a registered method, and its payload parses
* `RepliesOnce`: each request is answered by one message that carries its id and method name
* `Progress`: what has been handed over for a request, by the stage of its handler

## Main results

* `Served.step`: what an event does to the requests of a connection
* `repliesOnce_iff`: all requests are answered once exactly if all resolve, and no handler calls
  `reply`
-/

namespace TalonRPC

open Machine TinyPBCoder RpcDispatcher

variable {κ : Type}

/-- The requests among the events. -/
def requests : List ServeEvent → List TinyPBProtocol
  | [] => []
  | .request m :: es => m :: requests es
  | .act _ _ _ :: es => requests es

/-- The handler of a request acts only until the next request is dispatched. -/
def Synchronous (es : List ServeEvent) : Prop :=
  ∀ es₁ i a r es₂, es = es₁ ++ .act i a r :: es₂ → i + 1 = (requests es₁).length

/-- The message answers the `k`th request: it carries its id and method name, and an error code
unless the handler ran and the response was serialized. -/
structure Carries (es : List ServeEvent) (k : ℕ) (req m : TinyPBProtocol) : Prop where
  msgId : m.msgId = req.msgId
  methodName : m.methodName = req.methodName
  errCode : m.errCode = 0 → ∃ a data, .act k a (some data) ∈ es

/-- The messages given to `reply` for the `k`th request. -/
def Server.handedFor (s : Server κ) (k : ℕ) : List Handed := s.handed.filter (·.request = k)

/-- Every request is answered by exactly one message, and there are no others. The messages that
were encoded are in the out-buffer, and with synchronous handlers in the order of the requests. -/
structure RepliesOnce (conn : TcpConnection κ) (es : List ServeEvent) (s : Server κ) : Prop where
  once : ∀ k req, (requests es)[k]? = some req →
    ∃ h, s.handedFor k = [h] ∧ Carries es k req h.message
  only : ∀ h ∈ s.handed, h.request < (requests es).length
  ordered : Synchronous es → (s.handed.map (·.request)).Pairwise (· ≤ ·)
  entered : s.conn.outBuffer.readable =
    conn.outBuffer.readable ++ wire ((s.handed.filter (·.entered)).map (·.message))

/-- The request names a registered method, and its payload parses. -/
def Resolves (services : List (ByteString × Service)) (m : TinyPBProtocol) : Prop :=
  ∃ name service parses, parseServiceFullName m.methodName = some name ∧
    services.lookup name.1 = some service ∧ service.methods.lookup name.2 = some parses ∧
      parses m.pbData = true

/-- The handler of the `k`th request calls `reply` on its `RpcInterface`. -/
def Replied (es : List ServeEvent) (k : ℕ) : Prop := ∃ r, .act k .reply r ∈ es

/-! ## Dispatching and answering -/

section Dispatch

variable {services : List (ByteString × Service)} {m rsp : TinyPBProtocol}

/-- **What becomes of a request**: its handler is called exactly if it resolves. -/
theorem dispatch_cases (services : List (ByteString × Service)) (m : TinyPBProtocol) :
    (dispatch services m).request = m ∧
      (((dispatch services m).stage = .rejected ∧ ¬ Resolves services m) ∨
        ((dispatch services m).stage = .running ∧ Resolves services m ∧
          (dispatch services m).response.msgId = m.msgId ∧
          (dispatch services m).response.methodName = m.methodName)) := by
  unfold dispatch Resolves
  dsimp only
  cases hname : parseServiceFullName m.methodName with
  | none => simp
  | some name =>
    dsimp only
    cases hservice : services.lookup name.1 with
    | none => simp [hservice]
    | some service =>
      dsimp only
      cases hmethod : service.methods.lookup name.2 with
      | none => simp [hservice, hmethod]
      | some parses =>
        dsimp only
        split_ifs with hparses <;> simp [hservice, hmethod, hparses]

theorem respond_msgId (rsp : TinyPBProtocol) (r : Option ByteString) :
    (respond rsp r).msgId = rsp.msgId := by
  cases r <;> rfl

theorem respond_methodName (rsp : TinyPBProtocol) (r : Option ByteString) :
    (respond rsp r).methodName = rsp.methodName := by
  cases r <;> rfl

/-- A response that could not be serialized carries an error code. -/
theorem serialized_of_errCode {r : Option ByteString} (h : (respond rsp r).errCode = 0) :
    ∃ data, r = some data := by
  cases r with
  | none => exact absurd h (show ErrCode.failedSerialize ≠ 0 by decide)
  | some data => exact ⟨data, rfl⟩

end Dispatch

/-! ## One request -/

section Progress

variable {services : List (ByteString × Service)} {es : List ServeEvent} {e : ServeEvent} {k : ℕ}
  {call : Dispatched} {sent : List Handed} {req m : TinyPBProtocol}

/-- What has been given to `reply` for the `k`th request, by the stage of its handler. -/
inductive Progress (services : List (ByteString × Service)) (es : List ServeEvent) (k : ℕ)
    (call : Dispatched) : List Handed → Prop
  | rejected (hstage : call.stage = .rejected) (hnot : ¬ Resolves services call.request) :
      Progress services es k call []
  | running (hstage : call.stage = .running) (hresolves : Resolves services call.request)
      (hnot : ¬ Replied es k) (hid : call.response.msgId = call.request.msgId)
      (hname : call.response.methodName = call.request.methodName) : Progress services es k call []
  | replied {h : Handed} (hstage : call.stage = .replied)
      (hresolves : Resolves services call.request) (hreplied : Replied es k) :
      Progress services es k call [h]
  | finished {h : Handed} (hstage : call.stage = .finished)
      (hresolves : Resolves services call.request) (hnot : ¬ Replied es k)
      (hcarries : Carries es k call.request h.message) : Progress services es k call [h]
  | repeated {h h' : Handed} (hstage : call.stage = .finished)
      (hresolves : Resolves services call.request) (hreplied : Replied es k) :
      Progress services es k call [h, h']

theorem Carries.append (h : Carries es k req m) (e : ServeEvent) : Carries (es ++ [e]) k req m := by
  refine ⟨h.msgId, h.methodName, fun hzero => ?_⟩
  obtain ⟨a, data, hact⟩ := h.errCode hzero
  exact ⟨a, data, List.mem_append_left _ hact⟩

theorem replied_append_iff (he : ∀ r, e ≠ .act k .reply r) :
    Replied (es ++ [e]) k ↔ Replied es k := by
  constructor
  · rintro ⟨r, hr⟩
    rcases List.mem_append.mp hr with hr | hr
    · exact ⟨r, hr⟩
    · exact absurd (List.mem_singleton.mp hr).symm (he r)
  · rintro ⟨r, hr⟩
    exact ⟨r, List.mem_append_left _ hr⟩

/-- Other events change nothing for the `k`th request. -/
theorem Progress.append (h : Progress services es k call sent) (he : ∀ r, e ≠ .act k .reply r) :
    Progress services (es ++ [e]) k call sent := by
  have hiff : Replied (es ++ [e]) k ↔ Replied es k := replied_append_iff he
  cases h with
  | rejected hstage hnot => exact .rejected hstage hnot
  | running hstage hresolves hnot hid hname =>
    exact .running hstage hresolves (hiff.not.mpr hnot) hid hname
  | replied hstage hresolves hreplied => exact .replied hstage hresolves (hiff.mpr hreplied)
  | finished hstage hresolves hnot hcarries =>
    exact .finished hstage hresolves (hiff.not.mpr hnot) (hcarries.append e)
  | repeated hstage hresolves hreplied => exact .repeated hstage hresolves (hiff.mpr hreplied)

/-- **A handler acts**: one more message is given to `reply`. -/
theorem Progress.act {a : HandlerAct} {stage : Stage} {r : Option ByteString} {entered : Bool}
    {rsp : TinyPBProtocol} (h : Progress services es k call sent)
    (ha : a.next call.stage = some stage) :
    Progress services (es ++ [.act k a r]) k { call with response := rsp, stage := stage }
      (sent ++ [⟨k, respond call.response r, entered⟩]) := by
  cases h with
  | rejected hstage hnot =>
    rw [hstage] at ha
    cases a <;> cases ha
  | running hstage hresolves hnot hid hname =>
    rw [hstage] at ha
    -- The first message for the request: the response as `dispatch` made it, and what the handler
    -- put into it.
    have hcarries : Carries (es ++ [.act k a r]) k call.request (respond call.response r) := by
      refine ⟨(respond_msgId _ r).trans hid, (respond_methodName _ r).trans hname, fun hzero => ?_⟩
      obtain ⟨data, rfl⟩ := serialized_of_errCode hzero
      exact ⟨a, data, List.mem_append_right _ (List.mem_singleton_self _)⟩
    cases a with
    | run =>
      cases ha
      exact .finished rfl hresolves ((replied_append_iff (by simp)).not.mpr hnot) hcarries
    | reply =>
      cases ha
      exact .replied rfl hresolves ⟨r, List.mem_append_right _ (List.mem_singleton_self _)⟩
    | destroy =>
      cases ha
      exact .finished rfl hresolves ((replied_append_iff (by simp)).not.mpr hnot) hcarries
  | replied hstage hresolves hreplied =>
    rw [hstage] at ha
    cases a with
    | run => cases ha
    | reply => cases ha
    | destroy =>
      cases ha
      -- Destroying the `RpcInterface` sends the response a second time.
      exact .repeated rfl hresolves ((replied_append_iff (by simp)).mpr hreplied)
  | finished hstage hresolves hnot hcarries =>
    rw [hstage] at ha
    cases a <;> cases ha
  | repeated hstage hresolves hreplied =>
    rw [hstage] at ha
    cases a <;> cases ha

end Progress

/-! ## All requests -/

/-- What holds after the events `es`: the requests dispatched, and the messages given to `reply`. -/
structure Served (services : List (ByteString × Service)) (conn : TcpConnection κ)
    (es : List ServeEvent) (s : Server κ) : Prop where
  calls : s.calls.map (·.request) = requests es
  progress : ∀ k call, s.calls[k]? = some call → Progress services es k call (s.handedFor k)
  known : ∀ h ∈ s.handed, h.request < s.calls.length
  acted : ∀ i a r, .act i a r ∈ es → i < s.calls.length
  ordered : Synchronous es → (s.handed.map (·.request)).Pairwise (· ≤ ·)
  wellFormed : s.conn.outBuffer.WellFormed
  entered : s.conn.outBuffer.readable =
    conn.outBuffer.readable ++ wire ((s.handed.filter (·.entered)).map (·.message))

variable {services : List (ByteString × Service)} {conn : TcpConnection κ} {es : List ServeEvent}
  {e : ServeEvent} {s s' : Server κ} {m : TinyPBProtocol}

/-- **The closure runs**: the completed response is given to `reply`. -/
theorem closure_cases {i : ℕ} {call : Dispatched} {stage : Stage} {r : Option ByteString}
    (hwf : s.conn.outBuffer.WellFormed) (h : closure s i call stage r = some s') :
    ∃ conn' rsp entered, s' = ⟨conn', s.calls.set i { call with response := rsp, stage := stage },
        s.handed ++ [⟨i, respond call.response r, entered⟩]⟩ ∧
      conn'.outBuffer.WellFormed ∧
      conn'.outBuffer.readable = s.conn.outBuffer.readable ++
        wire (if entered then [respond call.response r] else []) := by
  unfold closure TcpConnection.reply at h
  dsimp only at h
  cases hencode : encode [respond call.response r] s.conn.outBuffer with
  | ok left =>
    simp only [hencode, Except.map, Option.some.injEq] at h
    obtain ⟨-, hwf', hread, -⟩ := encode_eq hwf hencode
    exact ⟨_, _, true, h.symm, hwf', hread⟩
  | error f =>
    simp only [hencode, Except.map] at h
    cases f with
    | lengthError =>
      exact ⟨_, _, false, (Option.some.inj h).symm, hwf, by simp⟩
    | outOfBounds => cases h
    | nullPointer => cases h

theorem requests_append (es fs : List ServeEvent) :
    requests (es ++ fs) = requests es ++ requests fs := by
  induction es with
  | nil => rfl
  | cons e es ih => cases e <;> simp [requests, ih]

theorem Synchronous.of_append (h : Synchronous (es ++ [e])) : Synchronous es := by
  rintro es₁ i a r es₂ rfl
  exact h es₁ i a r (es₂ ++ [e]) (by simp)

/-- The next request is dispatched. -/
theorem Served.request (h : Served services conn es s) (m : TinyPBProtocol) :
    Served services conn (es ++ [.request m])
      { s with calls := s.calls ++ [dispatch services m] } := by
  obtain ⟨hrequest, hcases⟩ := dispatch_cases services m
  refine ⟨?_, ?_, ?_, ?_, fun hsync => h.ordered hsync.of_append, h.wellFormed, h.entered⟩
  · rw [requests_append, ← h.calls, List.map_append, List.map_singleton, hrequest]
    rfl
  · intro k call hcall
    have hother : ∀ r, ServeEvent.request m ≠ .act k .reply r := fun r => by simp
    rcases Nat.lt_trichotomy k s.calls.length with hk | rfl | hk
    · rw [List.getElem?_append_left hk] at hcall
      exact (h.progress k call hcall).append hother
    · -- Nothing has been sent for the new request, and no handler has acted on it.
      have hsent : s.handedFor s.calls.length = [] := by
        apply List.filter_eq_nil_iff.mpr
        intro x hx
        have hlt := h.known x hx
        simp only [decide_eq_true_eq]
        omega
      have hnot : ¬ Replied (es ++ [.request m]) s.calls.length := by
        rw [replied_append_iff hother]
        rintro ⟨r, hr⟩
        exact absurd (h.acted _ _ _ hr) (lt_irrefl _)
      rw [List.getElem?_concat_length] at hcall
      obtain rfl := Option.some.inj hcall
      show Progress services _ _ _ (s.handedFor s.calls.length)
      rw [hsent]
      rcases hcases with ⟨hstage, hres⟩ | ⟨hstage, hres, hid, hname⟩
      · exact .rejected hstage (by rwa [hrequest])
      · exact .running hstage (by rwa [hrequest]) hnot (by rw [hid, hrequest])
          (by rw [hname, hrequest])
    · rw [List.getElem?_eq_none (by rw [List.length_append, List.length_singleton]; omega)] at hcall
      cases hcall
  · intro x hx
    have hlt := h.known x hx
    rw [List.length_append]
    omega
  · intro i a r hact
    have hold : ServeEvent.act i a r ∈ es := by simpa using hact
    have hlt := h.acted i a r hold
    rw [List.length_append]
    omega

/-- A handler acts. -/
theorem Served.act {i : ℕ} {a : HandlerAct} {r : Option ByteString} {call : Dispatched}
    {stage : Stage} (h : Served services conn es s) (hcall : s.calls[i]? = some call)
    (hnext : a.next call.stage = some stage) (hclosure : closure s i call stage r = some s') :
    Served services conn (es ++ [.act i a r]) s' := by
  obtain ⟨conn', rsp, entered, rfl, hwf, hread⟩ := closure_cases h.wellFormed hclosure
  -- Only the call of the handler changes, and one message is added for it.
  have hi : i < s.calls.length := (List.getElem?_eq_some_iff.mp hcall).1
  refine ⟨?_, ?_, ?_, ?_, ?_, hwf, ?_⟩
  · -- The request of the call stays the same.
    rw [requests_append, ← h.calls, List.map_set]
    simp only [requests, List.append_nil]
    apply List.ext_getElem?
    intro k
    rcases eq_or_ne i k with rfl | hk
    · rw [List.getElem?_set_self (by rw [List.length_map]; exact hi), List.getElem?_map, hcall]
      rfl
    · rw [List.getElem?_set_ne hk]
  · intro k call' hcall'
    rcases eq_or_ne i k with rfl | hk
    · simp only [List.getElem?_set_self hi, Option.some.injEq] at hcall'
      obtain rfl := hcall'
      have hprogress : Progress services (es ++ [.act i a r]) i
          { call with response := rsp, stage := stage }
          (s.handedFor i ++ [⟨i, respond call.response r, entered⟩]) :=
        (h.progress i call hcall).act hnext
      simpa [Server.handedFor, List.filter_append] using hprogress
    · simp only [List.getElem?_set_ne hk] at hcall'
      have hother : ∀ r', ServeEvent.act i a r ≠ .act k .reply r' := by
        rintro r' heq
        cases heq
        exact hk rfl
      have hprogress := (h.progress k call' hcall').append hother
      simpa [Server.handedFor, List.filter_append, hk] using hprogress
  · intro x hx
    simp only [List.length_set]
    rcases List.mem_append.mp hx with hx | hx
    · exact h.known x hx
    · rw [List.mem_singleton.mp hx]
      exact hi
  · intro j b r' hact
    simp only [List.length_set]
    rcases List.mem_append.mp hact with hact | hact
    · exact h.acted j b r' hact
    · cases List.mem_singleton.mp hact
      exact hi
  · intro hsync
    -- The handler is that of the last request so far.
    have hlast := hsync es i a r [] rfl
    -- So no message before belongs to a later request.
    have hlength : (requests es).length = s.calls.length := by rw [← h.calls, List.length_map]
    rw [List.map_append, List.map_singleton, List.pairwise_append]
    refine ⟨h.ordered hsync.of_append, List.pairwise_singleton _ _, ?_⟩
    intro j hj j' hj'
    obtain ⟨x, hx, rfl⟩ := List.mem_map.mp hj
    have hlt := h.known x hx
    rw [List.mem_singleton.mp hj']
    show x.request ≤ i
    omega
  · rw [hread, h.entered, List.filter_append, List.map_append, wire_append, List.append_assoc]
    cases entered <;> rfl

/-- **What an event does** to the requests of a connection. -/
theorem Served.step (h : Served services conn es s) (hstep : serveStep services s e = some s') :
    Served services conn (es ++ [e]) s' := by
  cases e with
  | request m =>
    cases hstep
    exact h.request m
  | act i a r =>
    rw [serveStep] at hstep
    cases hcall : s.calls[i]? with
    | none => simp [hcall] at hstep
    | some call =>
      cases hnext : a.next call.stage with
      | none => simp [hcall, hnext] at hstep
      | some stage =>
        simp only [hcall, hnext] at hstep
        exact h.act hcall hnext hstep

theorem served_of_exec (hwf : conn.outBuffer.WellFormed)
    (hrun : exec (serveStep services) ⟨conn, [], []⟩ es = some s) : Served services conn es s := by
  refine exec_history (I := fun es s => Served services conn es s) ?_ ?_ hrun
  · refine ⟨rfl, ?_, ?_, ?_, fun _ => List.Pairwise.nil, hwf, by simp⟩ <;> simp
  · intro es s e s' _ h hstep
    exact h.step hstep

/-- The call of the `k`th request. -/
theorem Served.exists_call (h : Served services conn es s) {k : ℕ}
    (hk : (requests es)[k]? = some m) :
    ∃ call, s.calls[k]? = some call ∧ call.request = m ∧
      Progress services es k call (s.handedFor k) := by
  rw [← h.calls, List.getElem?_map, Option.map_eq_some_iff] at hk
  obtain ⟨call, hcall, hrequest⟩ := hk
  exact ⟨call, hcall, hrequest, h.progress k call hcall⟩

/-- **Every request is answered exactly once** exactly if every request resolves, and no handler
calls `reply` before its `RpcInterface` is destroyed. -/
theorem repliesOnce_iff (services : List (ByteString × Service)) (conn : TcpConnection κ)
    (es : List ServeEvent) (s : Server κ) (hwf : conn.outBuffer.WellFormed)
    (hrun : exec (serveStep services) ⟨conn, [], []⟩ es = some s)
    (hdone : ∀ call ∈ s.calls, call.stage = .rejected ∨ call.stage = .finished) :
    RepliesOnce conn es s ↔
      (∀ m ∈ requests es, Resolves services m) ∧ ∀ i r, .act i .reply r ∉ es := by
  have h := served_of_exec hwf hrun
  have hlength : s.calls.length = (requests es).length := by rw [← h.calls, List.length_map]
  constructor
  · intro hreplies
    constructor
    · intro m hm
      obtain ⟨k, hk⟩ := List.mem_iff_getElem?.mp hm
      obtain ⟨call, -, rfl, hprogress⟩ := h.exists_call hk
      -- A request that was rejected has no message.
      obtain ⟨x, hx, -⟩ := hreplies.once k _ hk
      rw [hx] at hprogress
      cases hprogress with
      | replied _ hresolves _ => exact hresolves
      | finished _ hresolves _ _ => exact hresolves
    · intro i r hact
      have hi := h.acted i _ r hact
      obtain ⟨call, hcall, -, hprogress⟩ := h.exists_call
        (List.getElem?_eq_getElem (hlength ▸ hi))
      -- A request with a `reply` has one message too many once its handler is done.
      obtain ⟨x, hx, -⟩ := hreplies.once i _ (List.getElem?_eq_getElem (hlength ▸ hi))
      rw [hx] at hprogress
      cases hprogress with
      | replied hstage _ _ =>
        have hend := hdone call (List.mem_of_getElem? hcall)
        simp [hstage] at hend
      | finished _ _ hnot _ => exact hnot ⟨r, hact⟩
  · rintro ⟨hresolves, hnot⟩
    refine ⟨fun k req hk => ?_, fun x hx => hlength ▸ h.known x hx, h.ordered, h.entered⟩
    obtain ⟨call, hcall, rfl, hprogress⟩ := h.exists_call hk
    have hres := hresolves _ (List.mem_of_getElem? hk)
    have hend := hdone call (List.mem_of_getElem? hcall)
    -- The stages that are left have exactly one message.
    generalize s.handedFor k = sent at hprogress ⊢
    cases hprogress with
    | rejected _ hrejected => exact absurd hres hrejected
    | running hstage _ _ _ _ => simp [hstage] at hend
    | replied hstage _ _ => simp [hstage] at hend
    | finished _ _ _ hcarries => exact ⟨_, rfl, hcarries⟩
    | repeated _ _ hreplied =>
      obtain ⟨r, hr⟩ := hreplied
      exact absurd hr (hnot k r)

/-! ## A service with one method -/

/-- Any payload parses as an order. -/
def orderServices : List (ByteString × Service) :=
  [(ascii "Order", ⟨[(ascii "makeOrder", fun _ => true)]⟩)]

/-- A connection to a client that has not been answered yet. -/
def orderConnection : TcpConnection Unit :=
  { inBuffer := .new 100, outBuffer := .new 100, state := .connected }

/-- A request of the method, and one of a service that is not registered. -/
def orderRequest : TinyPBProtocol := { msgId := ascii "1", methodName := ascii "Order.makeOrder" }

def stockRequest : TinyPBProtocol := { msgId := ascii "2", methodName := ascii "Stock.query" }

/-- Two requests; the handler of the second is done before that of the first. -/
def ordersServed : List ServeEvent :=
  [.request orderRequest, .request orderRequest, .act 1 .destroy (some [7]), .act 0 .run none]

theorem ordersServed_isSome :
    (exec (serveStep orderServices) ⟨orderConnection, [], []⟩ ordersServed).isSome := by
  decide

/-- Both are answered, the first with an error. -/
theorem repliesOnce_orders :
    RepliesOnce orderConnection ordersServed
      ((exec (serveStep orderServices) ⟨orderConnection, [], []⟩ ordersServed).get
        ordersServed_isSome) := by
  refine (repliesOnce_iff orderServices orderConnection ordersServed _ (by decide)
    (Option.some_get ordersServed_isSome).symm (by decide)).mpr ⟨?_, by simp [ordersServed]⟩
  intro m hm
  obtain rfl : m = orderRequest := by simpa [requests, ordersServed] using hm
  exact ⟨(ascii "Order", ascii "makeOrder"), _, _, by decide, rfl, rfl, rfl⟩

/-- **A request of an unknown service is not answered**, although the error is filled in. -/
theorem not_repliesOnce_unknown :
    orderConnection.outBuffer.WellFormed ∧
      exec (serveStep orderServices) ⟨orderConnection, [], []⟩ [.request stockRequest] =
        some ⟨orderConnection, [dispatch orderServices stockRequest], []⟩ ∧
      (∀ call ∈ [dispatch orderServices stockRequest],
        call.stage = .rejected ∨ call.stage = .finished) ∧
      ¬ RepliesOnce orderConnection [.request stockRequest]
        ⟨orderConnection, [dispatch orderServices stockRequest], []⟩ := by
  refine ⟨by decide, rfl, by decide, fun h => ?_⟩
  obtain ⟨x, hx, -⟩ := h.once 0 stockRequest rfl
  cases hx

end TalonRPC
