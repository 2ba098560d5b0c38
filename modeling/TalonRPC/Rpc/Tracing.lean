import TalonRPC.Machine.Run
import TalonRPC.Rpc.Channel
import TalonRPC.TinyPB.Layout

/-!
# Message ids across servers

The message id of a request is meant to be passed on: if a server calls another one to serve a
request, its own request carries the same id, so that a call can be followed through the logs of all
servers. To this end `dispatch` leaves the id in the `RunTime` of its thread, and `CallMethod` takes
it from there.

But a thread serves many requests, and each leaves its id in the same place. A handler that calls
another server when it has the answer of a first one finds the id of whatever request has been
dispatched in between.

## Main definitions

* `Tracing`, `TracingEvent`, `tracingStep`: the threads of all servers, and the requests made so far
* `Descends st i root`: the request `i` was made, directly or not, to serve `root`
* `Timely`: the last request dispatched on the thread has the id of the one that is being served

## Main results

* `passedOn_step_iff`: what a call adds to the requests that carry the id of their parent
* `descends_iff_timely`: all requests made to serve one request carry its id exactly if all calls
  are timely
-/

namespace TalonRPC

open Machine TinyPBProtocol

variable {T : Type}

/-- A request, and the one that its caller was serving. A request whose controller has an id of its
own passes no id on. -/
structure TracedRequest where
  message : TinyPBProtocol
  parent : Option ℕ
  deriving DecidableEq, Repr

/-- The threads of all servers, each with the id in its `RunTime` and the requests that have been
dispatched on it, the last one first, and all requests made so far. -/
structure Tracing (T : Type) where
  runtime : T → ByteString := fun _ => []
  dispatched : T → List ℕ := fun _ => []
  requests : List TracedRequest := []

/-- `CallMethod` is called on a thread, by the handler of a request or by none, or a request is
dispatched. -/
inductive TracingEvent (T : Type)
  | call (t : T) (parent : Option ℕ) (controller : RpcController) (env : CallEnv)
    (methodName pbData : ByteString)
  | dispatch (t : T) (i : ℕ)

/-- The state after an event, if it can happen. The handler of a request calls on the thread on
which the request was dispatched; a message is dispatched as it was made if the decoder can take
it. -/
def tracingStep [DecidableEq T] (st : Tracing T) : TracingEvent T → Option (Tracing T)
  | .call t parent controller env methodName pbData =>
    if ∀ p ∈ parent, p ∈ st.dispatched t then
      let msgId := RpcChannel.chooseMsgId controller { env with runtimeMsgId := st.runtime t }
      some { st with
        requests := st.requests ++
          [⟨{ msgId, methodName, pbData }, if controller.msgId ≠ [] then none else parent⟩] }
    else none
  | .dispatch t i =>
    match st.requests[i]? with
    | none => none
    | some q =>
      if q.message.Encodable then
        some { st with
          runtime := Function.update st.runtime t q.message.received.msgId
          dispatched := Function.update st.dispatched t (i :: st.dispatched t) }
      else none

/-- The id that a request carries to its server. -/
def Tracing.wireId (st : Tracing T) (i : ℕ) : Option ByteString :=
  st.requests[i]?.map (·.message.named.msgId)

/-- The request `i` was made to serve `root`, or to serve one that was. -/
inductive Descends (st : Tracing T) : ℕ → ℕ → Prop
  | self (i) : Descends st i i
  | child {i p root : ℕ} {q : TracedRequest} : st.requests[i]? = some q → q.parent = some p →
    Descends st p root → Descends st i root

/-- A call is made while the last request dispatched on its thread is the one that is being served,
or one with the same id. -/
def Timely (st : Tracing T) : TracingEvent T → Prop
  | .call t (some p) controller _ _ _ =>
    controller.msgId = [] → (st.dispatched t).head?.bind st.wireId = st.wireId p
  | _ => True

instance (st : Tracing T) (e : TracingEvent T) : Decidable (Timely st e) := by
  cases e with
  | call t parent => cases parent <;> unfold Timely <;> infer_instance
  | dispatch t i => exact .isTrue trivial

/-- Every request carries the id of the request it was made to serve. -/
def PassedOn (st : Tracing T) : Prop :=
  ∀ i q p, st.requests[i]? = some q → q.parent = some p → st.wireId i = st.wireId p

/-- What holds of the threads: the `RunTime` has the id of the last request dispatched, and the
requests exist. -/
structure Tracing.Sound (st : Tracing T) : Prop where
  parents : ∀ (i : ℕ) (q : TracedRequest) (p : ℕ), st.requests[i]? = some q →
    q.parent = some p → p < st.requests.length
  known : ∀ t, ∀ p ∈ st.dispatched t, p < st.requests.length
  runtime : ∀ t q, (st.dispatched t).head? = some q → st.wireId q = some (st.runtime t)

variable [DecidableEq T] {st st' : Tracing T} {e : TracingEvent T} {es : List (TracingEvent T)}

omit [DecidableEq T] in
theorem wireId_append {rs : List TracedRequest} {i : ℕ} (h : i < st.requests.length) :
    Tracing.wireId { st with requests := st.requests ++ rs } i = st.wireId i := by
  rw [Tracing.wireId, Tracing.wireId, List.getElem?_append_left h]

/-- The requests after a call: those made before, and one more. -/
theorem getElem?_requests {rs : List TracedRequest} {r q : TracedRequest} {i : ℕ}
    (h : (rs ++ [r])[i]? = some q) : rs[i]? = some q ∨ i = rs.length ∧ q = r := by
  rcases lt_trichotomy i rs.length with hlt | rfl | hgt
  · exact .inl (List.getElem?_append_left hlt ▸ h)
  · rw [List.getElem?_concat_length] at h
    exact .inr ⟨rfl, (Option.some.inj h).symm⟩
  · rw [List.getElem?_eq_none (by rw [List.length_append, List.length_singleton]; omega)] at h
    cases h

/-- A request has a parent if its controller has no id. -/
theorem parent_eq_some_iff {controller : RpcController} {parent : Option ℕ} {p : ℕ} :
    (if controller.msgId ≠ [] then none else parent) = some p ↔
      controller.msgId = [] ∧ parent = some p := by
  by_cases h : controller.msgId = [] <;> simp [h]

theorem Tracing.Sound.step (h : st.Sound) (hstep : tracingStep st e = some st') : st'.Sound := by
  cases e with
  | call t parent controller env methodName pbData =>
    obtain ⟨hparent, heq⟩ := Option.ite_none_right_eq_some.mp hstep
    obtain rfl := Option.some.inj heq
    have hlt : ∀ {r : TracedRequest} {p : ℕ}, p < st.requests.length →
        p < (st.requests ++ [r]).length := fun hp => by
      rw [List.length_append, List.length_singleton]
      exact Nat.lt_succ_of_lt hp
    refine ⟨fun i q p hq hp => hlt ?_, fun t p hp => hlt (h.known t p hp), fun t q hq => ?_⟩
    · rcases getElem?_requests hq with hq | ⟨-, rfl⟩
      · exact h.parents i q p hq hp
      · exact h.known t p (hparent p (parent_eq_some_iff.mp hp).2)
    · rw [wireId_append (h.known t q (List.mem_of_mem_head? hq))]
      exact h.runtime t q hq
  | dispatch t i =>
    simp only [tracingStep] at hstep
    split at hstep
    · cases hstep
    · rename_i q hq
      obtain ⟨-, heq⟩ := Option.ite_none_right_eq_some.mp hstep
      obtain rfl := Option.some.inj heq
      have hi : i < st.requests.length := (List.getElem?_eq_some_iff.mp hq).1
      refine ⟨h.parents, fun t' p hp => ?_, fun t' p hp => ?_⟩ <;> by_cases ht : t' = t
      · subst ht
        simp only [Function.update_self] at hp
        rcases List.mem_cons.mp hp with rfl | hp
        · exact hi
        · exact h.known t' p hp
      · simp only [Function.update_of_ne ht] at hp
        exact h.known t' p hp
      · subst ht
        simp only [Function.update_self] at hp ⊢
        obtain rfl := Option.some.inj hp
        rw [Tracing.wireId, hq, Option.map_some, msgId_received]
      · simp only [Function.update_of_ne ht] at hp ⊢
        exact h.runtime t' p hp

omit [DecidableEq T] in
/-- A handler finds the id of the last request in the `RunTime` of its thread. -/
theorem wireId_call {t : T} {p : ℕ} {controller : RpcController} {env : CallEnv}
    {methodName pbData : ByteString} {parent : Option ℕ} (h : st.Sound)
    (hp : p ∈ st.dispatched t) (hown : controller.msgId = []) :
    Tracing.wireId { st with
      requests := st.requests ++
        [⟨{ msgId := RpcChannel.chooseMsgId controller { env with runtimeMsgId := st.runtime t },
            methodName, pbData }, parent⟩] } st.requests.length =
      (st.dispatched t).head?.bind st.wireId := by
  obtain ⟨q, rest, hdispatched⟩ := List.exists_cons_of_ne_nil (List.ne_nil_of_mem hp)
  have hq : st.wireId q = some (st.runtime t) := h.runtime t q (by rw [hdispatched]; rfl)
  obtain ⟨r, -, hr⟩ := Option.map_eq_some_iff.mp hq
  have hne : st.runtime t ≠ [] := hr ▸ named_msgId_ne_nil r.message
  rw [Tracing.wireId, List.getElem?_concat_length, Option.map_some, hdispatched, List.head?_cons,
    Option.bind_some, hq, RpcChannel.chooseMsgId, if_neg (not_not_intro hown), if_pos hne,
    named_of_ne_nil hne]

/-- **What a step adds** to the requests that carry the id of the one they serve. -/
theorem passedOn_step_iff (h : st.Sound) (hstep : tracingStep st e = some st') :
    PassedOn st' ↔ PassedOn st ∧ Timely st e := by
  cases e with
  | dispatch t i =>
    simp only [tracingStep] at hstep
    split at hstep
    · cases hstep
    · obtain ⟨-, heq⟩ := Option.ite_none_right_eq_some.mp hstep
      obtain rfl := Option.some.inj heq
      exact (and_iff_left trivial).symm
  | call t parent controller env methodName pbData =>
    obtain ⟨hparent, heq⟩ := Option.ite_none_right_eq_some.mp hstep
    obtain rfl := Option.some.inj heq
    constructor
    · intro hall
      refine ⟨fun i q p hq hp => ?_, ?_⟩
      · have hi : i < st.requests.length := (List.getElem?_eq_some_iff.mp hq).1
        have hsame := hall i q p (by rw [List.getElem?_append_left hi]; exact hq) hp
        rwa [wireId_append hi, wireId_append (h.parents i q p hq hp)] at hsame
      · cases parent with
        | none => trivial
        | some p =>
          intro hown
          have hp : p ∈ st.dispatched t := hparent p rfl
          have hsame := hall st.requests.length _ p List.getElem?_concat_length
            (parent_eq_some_iff.mpr ⟨hown, rfl⟩)
          rwa [wireId_call h hp hown, wireId_append (h.known t p hp)] at hsame
    · rintro ⟨hall, htimely⟩ i q p hq hp
      rcases getElem?_requests hq with hq | ⟨rfl, rfl⟩
      · have hi : i < st.requests.length := (List.getElem?_eq_some_iff.mp hq).1
        rw [wireId_append hi, wireId_append (h.parents i q p hq hp)]
        exact hall i q p hq hp
      · obtain ⟨hown, rfl⟩ := parent_eq_some_iff.mp hp
        have hp : p ∈ st.dispatched t := hparent p rfl
        rw [wireId_call h hp hown, wireId_append (h.known t p hp)]
        exact htimely hown

omit [DecidableEq T] in
/-- Ids that are passed on to every request are passed on down the whole tree. -/
theorem passedOn_iff_descends :
    PassedOn st ↔ ∀ i root, Descends st i root → st.wireId i = st.wireId root := by
  constructor
  · intro h i root hdescends
    induction hdescends with
    | self i => rfl
    | child hq hparent _ ih => exact (h _ _ _ hq hparent).trans ih
  · intro h i q p hq hparent
    exact h i p (.child hq hparent (.self p))

/-- **All requests made to serve one request carry its id**, over any number of servers and in any
order of their steps, exactly if every handler calls while the last request dispatched on its thread
is the one that it serves, or has the same id. -/
theorem descends_iff_timely (es : List (TracingEvent T)) (h : exec tracingStep {} es = some st) :
    (∀ i root, Descends st i root → st.wireId i = st.wireId root) ↔
      Along tracingStep Timely {} es := by
  have hinit : ({} : Tracing T).Sound := ⟨by simp, by simp, by simp⟩
  rw [← passedOn_iff_descends]
  refine (exec_history (I := fun es st => st.Sound ∧ (PassedOn st ↔ Along tracingStep Timely {} es))
    ⟨hinit, ?_⟩ ?_ h).2
  · exact iff_of_true (fun i q p hq => by simp at hq) trivial
  · rintro es s e s' hrun ⟨hsound, hiff⟩ hstep
    refine ⟨hsound.step hstep, ?_⟩
    rw [passedOn_step_iff hsound hstep, hiff, along_snoc hrun]

/-- The id that a client program generates. -/
def clientEnv : CallEnv := { discovered := [], genMsgId := ascii "7", connect := .inProgress }

/-- A client calls a server, the server a second one, and this one a third. -/
theorem descends_iff_timely_chain : ∃ st : Tracing (Fin 3), exec tracingStep {}
    [.call 0 none {} clientEnv (ascii "A.f") [], .dispatch 1 0,
      .call 1 (some 0) {} { clientEnv with genMsgId := ascii "8" } (ascii "B.f") [], .dispatch 2 1,
      .call 2 (some 1) {} { clientEnv with genMsgId := ascii "9" } (ascii "C.f") []] = some st ∧
    st.wireId 2 = st.wireId 0 := by
  let es : List (TracingEvent (Fin 3)) :=
    [.call 0 none {} clientEnv (ascii "A.f") [], .dispatch 1 0,
      .call 1 (some 0) {} { clientEnv with genMsgId := ascii "8" } (ascii "B.f") [], .dispatch 2 1,
      .call 2 (some 1) {} { clientEnv with genMsgId := ascii "9" } (ascii "C.f") []]
  refine ⟨_, rfl, (descends_iff_timely es rfl).mpr ?_ 2 0 ?_⟩
  · decide
  · exact .child rfl rfl (.child rfl rfl (.self 0))

/-- A handler that calls two servers, one after the other. Another request comes in between, and the
second call carries its id. -/
theorem not_descends_between : ¬ ∀ (es : List (TracingEvent (Fin 3))) (st : Tracing (Fin 3)),
    exec tracingStep {} es = some st →
      ∀ i root, Descends st i root → st.wireId i = st.wireId root := by
  intro h
  let es : List (TracingEvent (Fin 3)) :=
    [.call 0 none {} clientEnv (ascii "A.f") [], .dispatch 1 0,
      .call 1 (some 0) {} { clientEnv with genMsgId := ascii "8" } (ascii "B.f") [],
      .call 2 none {} { clientEnv with genMsgId := ascii "9" } (ascii "A.f") [], .dispatch 1 2,
      .call 1 (some 0) {} { clientEnv with genMsgId := ascii "10" } (ascii "C.f") []]
  obtain ⟨st, hst, hdescends, hids⟩ : ∃ st, exec tracingStep {} es = some st ∧
      Descends st 3 0 ∧ st.wireId 3 ≠ st.wireId 0 :=
    ⟨_, rfl, .child rfl rfl (.self 0), by decide⟩
  exact hids (h es st hst 3 0 hdescends)

end TalonRPC
