import Mathlib.Data.List.TakeWhile
import TalonRPC.Machine.Run
import TalonRPC.Rpc.Dispatcher

/-!
# RpcInterface

A method that cannot answer at once makes an `RpcInterface` of its request, its response and its
closure. The object is shared: by the code of the method, and by every `RpcClosure` that the method
makes to go on when something else is done, as a call to another server. An `RpcClosure` gives the
object up when its callback is over, also when the callback throws, and the last to give it up
destroys it. The destructor replies.

So the client gets its reply when all is done that the method has started, whatever the order, and
the reply says what the callbacks have written by then. It gets one more for every call of `reply`,
and none any more once `destroy` has been called.

## Main definitions

* `RpcInterface`, `InterfaceEvent`, `interfaceStep`: the object, and what can happen to it
* `RpcInterface.Shared`: somebody still shares the object
* `writes`: what a step writes to the response
* `acts`: what a step does with the closure of the request

## Main results

* `Held.step`: what a step keeps of the object and its history
* `replies_of_exec`: how often the client is answered, when, and with which response
* `exec_acts`: as long as `reply` is called at most once, the object does with its closure what
  handlers do
-/

namespace TalonRPC

open Machine

variable {R : Type}

/-- How the callback of an `RpcClosure` ends: it returns, or it throws a `TalonException`, another
`std::exception` or anything else. -/
inductive Ending
  | returns
  | talonException (errorCode : Int32) (errorInfo : ByteString)
  | stdException
  | unknown
  deriving DecidableEq, Repr

/-- What `RpcClosure::Run` passes to `setError`. -/
def Ending.error : Ending → Option (Int32 × ByteString)
  | .returns => none
  | .talonException errorCode errorInfo => some (errorCode, errorInfo)
  | .stdException => some (-1, ascii "unkonwn std::exception")
  | .unknown => some (-1, ascii "unkonwn exception")

/-- An `RpcInterface` with the references to it: those that the code of the method has, and for each
`RpcClosure` made, whether it has one. `response` is `m_rsp_base`, with `m_done` and the others that
`destroy` deletes together, and `replies` are the responses sent. -/
structure RpcInterface (R : Type) where
  response : Option R
  references : ℕ := 1
  closures : List Bool := []
  replies : List R := []
  deriving DecidableEq, Repr

/-- What can happen: the code of the method, in a callback or not, writes to the response, copies or
drops a reference, calls a method of the object, or the `i`th `RpcClosure` runs to the end of its
callback or is destroyed. -/
inductive InterfaceEvent (R : Type)
  | write (f : R → R)
  | copy
  | drop
  | reply
  | destroy
  | newRpcClosure
  | run (i : ℕ) (ending : Ending)
  | delete (i : ℕ)

namespace RpcInterface

/-- Somebody still shares the object. -/
def Shared (x : RpcInterface R) : Prop := 0 < x.references ∨ true ∈ x.closures

instance (x : RpcInterface R) : Decidable x.Shared := inferInstanceAs (Decidable (_ ∨ _))

/-- `RpcInterface::reply`. -/
def reply (x : RpcInterface R) : RpcInterface R :=
  { x with replies := x.replies ++ x.response.toList }

/-- `RpcInterface::destroy`. -/
def destroy (x : RpcInterface R) : RpcInterface R := { x with response := none }

/-- A reference is gone. The last one takes the object along: `RpcInterface::~RpcInterface`. -/
def release (x : RpcInterface R) : RpcInterface R := if x.Shared then x else x.reply.destroy

/-- `m_rpc_interface.reset()`, in the `i`th `RpcClosure`. -/
def reset (x : RpcInterface R) (i : ℕ) : RpcInterface R :=
  if x.closures[i]? = some true then { x with closures := x.closures.set i false }.release else x

/-- `RpcInterface::RpcInterface`, with the reference that the code of the method has. -/
def new (response : R) : RpcInterface R := { response := some response }

end RpcInterface

/-- `RpcClosure::Run` of the `i`th closure, from the end of its callback on. The object is passed to
`setError` only if the closure has it, and a response that is gone cannot be written to. -/
def runClosure (setError : Int32 → ByteString → R → R) (x : RpcInterface R) (i : ℕ)
    (ending : Ending) : Option (RpcInterface R) :=
  match x.closures[i]?, ending.error with
  | none, _ => none
  | some false, _ => some x
  | some true, none => some (x.reset i)
  | some true, some (errorCode, errorInfo) =>
    x.response.map fun r => { x with response := some (setError errorCode errorInfo r) }.reset i

/-- The state after an event, if it can happen: the methods of the object are called by those who
share it. -/
def interfaceStep (setError : Int32 → ByteString → R → R) (x : RpcInterface R) :
    InterfaceEvent R → Option (RpcInterface R)
  | .write f => if x.Shared then x.response.map fun r => { x with response := some (f r) } else none
  | .copy => if x.Shared then some { x with references := x.references + 1 } else none
  | .drop =>
    if 0 < x.references then some { x with references := x.references - 1 }.release else none
  | .reply => if x.Shared then some x.reply else none
  | .destroy => if x.Shared then some x.destroy else none
  | .newRpcClosure => if x.Shared then some { x with closures := x.closures ++ [true] } else none
  | .run i ending => runClosure setError x i ending
  | .delete i => if i < x.closures.length then some (x.reset i) else none

/-! ## The history of an object -/

namespace InterfaceEvent

/-- A copy of a reference. -/
def isCopy : InterfaceEvent R → Bool
  | .copy => true
  | _ => false

/-- The end of a reference. -/
def isDrop : InterfaceEvent R → Bool
  | .drop => true
  | _ => false

/-- A call of `reply`. -/
def isReply : InterfaceEvent R → Bool
  | .reply => true
  | _ => false

/-- A call of `destroy`. -/
def isDestroy : InterfaceEvent R → Bool
  | .destroy => true
  | _ => false

/-- An `RpcClosure` is made. -/
def isClosure : InterfaceEvent R → Bool
  | .newRpcClosure => true
  | _ => false

/-- The `RpcClosure` that gives the object up. -/
def ends : InterfaceEvent R → Option ℕ
  | .run i _ | .delete i => some i
  | _ => none

end InterfaceEvent

/-- What an event writes to the response: what the code of the method writes, or the error of a
callback that has thrown. -/
def writes (setError : Int32 → ByteString → R → R) (x : RpcInterface R) :
    InterfaceEvent R → List (R → R)
  | .write f => [f]
  | .run i ending =>
    if x.closures[i]? = some true then (ending.error.map fun e => setError e.1 e.2).toList else []
  | _ => []

/-- The calls of `reply` before the first call of `destroy`. -/
def replyCalls (es : List (InterfaceEvent R)) : ℕ :=
  (es.takeWhile fun e => !e.isDestroy).countP InterfaceEvent.isReply

/-- `destroy` has been called. -/
def Destroyed (es : List (InterfaceEvent R)) : Prop := ∃ e ∈ es, e.isDestroy = true

instance (es : List (InterfaceEvent R)) : Decidable (Destroyed es) :=
  inferInstanceAs (Decidable (∃ _ ∈ es, _))

/-- The response, when all has been written that the events write. -/
def final (setError : Int32 → ByteString → R → R) (r : R) (es : List (InterfaceEvent R)) : R :=
  (outputs (interfaceStep setError) (writes setError) (.new r) es).foldl (fun r f => f r) r

/-- **What the history says of an object** that has not been destroyed by its last reference, or not
yet. -/
structure Kept (setError : Int32 → ByteString → R → R) (r : R) (es : List (InterfaceEvent R))
    (x : RpcInterface R) : Prop where
  references : x.references + es.countP InterfaceEvent.isDrop =
    es.countP InterfaceEvent.isCopy + 1
  length : x.closures.length = es.countP InterfaceEvent.isClosure
  closures : ∀ i < x.closures.length, x.closures[i]? = some true ↔ ∀ e ∈ es, e.ends ≠ some i
  known : ∀ e ∈ es, ∀ i, e.ends = some i → i < x.closures.length
  response : x.response = if Destroyed es then none else some (final setError r es)
  replies : x.replies.length = replyCalls es

/-- What it says of every object. -/
def Held (setError : Int32 → ByteString → R → R) (r : R) (es : List (InterfaceEvent R))
    (x : RpcInterface R) : Prop :=
  ∃ y, Kept setError r es y ∧ x = y.release

variable {setError : Int32 → ByteString → R → R} {r : R} {es : List (InterfaceEvent R)}
  {e : InterfaceEvent R} {x x' y y' : RpcInterface R}

@[simp] theorem shared_release : y.release.Shared ↔ y.Shared := by
  unfold RpcInterface.release
  split <;> rfl

@[simp] theorem closures_release : y.release.closures = y.closures := by
  unfold RpcInterface.release
  split <;> rfl

theorem RpcInterface.release_of_shared (h : y.Shared) : y.release = y := if_pos h

theorem destroyed_append : Destroyed (es ++ [e]) ↔ Destroyed es ∨ e.isDestroy = true := by
  simp [Destroyed, or_and_right, exists_or]

theorem replyCalls_append :
    replyCalls (es ++ [e]) =
      replyCalls es + if Destroyed es then 0 else [e].countP InterfaceEvent.isReply := by
  by_cases hdestroyed : Destroyed es
  · obtain ⟨d, hd, hdestroy⟩ := hdestroyed
    have hkeep : (es ++ [e]).takeWhile (fun e => !e.isDestroy) =
        es.takeWhile fun e => !e.isDestroy := by
      rw [List.takeWhile_append, if_neg]
      intro hlength
      have hsame := List.takeWhile_eq_self_iff.mp ((List.takeWhile_prefix _).eq_of_length hlength)
      simpa [hdestroy] using hsame d hd
    rw [if_pos ⟨d, hd, hdestroy⟩, replyCalls, hkeep, Nat.add_zero, replyCalls]
  · have hall : es.takeWhile (fun e => !e.isDestroy) = es :=
      List.takeWhile_eq_self_iff.mpr fun d hd => by
        simpa using fun hdestroy => hdestroyed ⟨d, hd, hdestroy⟩
    rw [if_neg hdestroyed, replyCalls, replyCalls, List.takeWhile_append, hall, if_pos rfl,
      List.countP_append]
    cases e <;> rfl

theorem final_append (h : exec (interfaceStep setError) (.new r) es = some x) :
    final setError r (es ++ [e]) =
      (writes setError x e).foldl (fun r f => f r) (final setError r es) := by
  rw [final, outputs_append h, List.foldl_append, ← final]
  congr 1
  rw [outputs]
  split <;> simp [outputs]

/-- What an event other than `destroy` adds to the history, and to the object. -/
theorem Kept.snoc (h : Kept setError r es y)
    (hrun : exec (interfaceStep setError) (.new r) es = some x) (he : e.isDestroy = false)
    (hreferences : y'.references + [e].countP InterfaceEvent.isDrop =
      y.references + [e].countP InterfaceEvent.isCopy)
    (hlength : y'.closures.length = y.closures.length + [e].countP InterfaceEvent.isClosure)
    (hclosures : ∀ i < y'.closures.length, y'.closures[i]? = some true ↔
      (i < y.closures.length → y.closures[i]? = some true) ∧ e.ends ≠ some i)
    (hknown : ∀ i, e.ends = some i → i < y'.closures.length)
    (hresponse : y'.response =
      y.response.map fun r => (writes setError x e).foldl (fun r f => f r) r)
    (hreplies : y'.replies.length = y.replies.length +
      if Destroyed es then 0 else [e].countP InterfaceEvent.isReply) :
    Kept setError r (es ++ [e]) y' := by
  have hdestroyed : Destroyed (es ++ [e]) ↔ Destroyed es := by simp [destroyed_append, he]
  refine ⟨?_, ?_, fun i hi => ?_, fun d hd i hends => ?_, ?_, ?_⟩
  · have := h.references
    rw [List.countP_append, List.countP_append]
    omega
  · rw [hlength, h.length, List.countP_append]
  · rw [hclosures i hi, List.forall_mem_append, List.forall_mem_singleton]
    refine and_congr_left' ?_
    by_cases hold : i < y.closures.length
    · exact (forall_prop_of_true hold).trans (h.closures i hold)
    · exact iff_of_true (fun hlt => absurd hlt hold) fun d hd hends => hold (h.known d hd i hends)
  · rcases List.mem_append.mp hd with hd | hd
    · have := h.known d hd i hends
      omega
    · obtain rfl := List.mem_singleton.mp hd
      exact hknown i hends
  · rw [hresponse, h.response, final_append hrun]
    by_cases hes : Destroyed es
    · rw [if_pos hes, if_pos (hdestroyed.mpr hes)]
      rfl
    · rw [if_neg hes, if_neg (mt hdestroyed.mp hes)]
      rfl
  · rw [hreplies, h.replies, replyCalls_append]

/-- The same, for an event that makes no `RpcClosure` and ends none. -/
theorem Kept.snoc_of_closures (h : Kept setError r es y)
    (hrun : exec (interfaceStep setError) (.new r) es = some x) (he : e.isDestroy = false)
    (hends : e.ends = none) (hclosure : e.isClosure = false) (hclosures : y'.closures = y.closures)
    (hreferences : y'.references + [e].countP InterfaceEvent.isDrop =
      y.references + [e].countP InterfaceEvent.isCopy)
    (hresponse : y'.response =
      y.response.map fun r => (writes setError x e).foldl (fun r f => f r) r)
    (hreplies : y'.replies.length = y.replies.length +
      if Destroyed es then 0 else [e].countP InterfaceEvent.isReply) :
    Kept setError r (es ++ [e]) y' := by
  refine h.snoc hrun he hreferences ?_ (fun i hi => ?_) (fun i hi => ?_) hresponse hreplies
  · simp [hclosures, hclosure]
  · rw [hclosures] at hi
    simp [hclosures, hends, hi]
  · cases hends.symm.trans hi

/-- An object that is shared has not been destroyed. -/
theorem Held.kept (h : Held setError r es x) (hshared : x.Shared) : Kept setError r es x := by
  obtain ⟨y, hy, rfl⟩ := h
  rwa [RpcInterface.release_of_shared (shared_release.mp hshared)]

theorem Kept.held (h : Kept setError r es x) (hshared : x.Shared) : Held setError r es x :=
  ⟨x, h, (RpcInterface.release_of_shared hshared).symm⟩

/-- `destroy` takes the response away, and all replies that were still to come. -/
theorem Kept.destroy (h : Kept setError r es x) :
    Kept setError r (es ++ [.destroy]) x.destroy := by
  constructor
  · rw [List.countP_append, List.countP_append]
    exact h.references
  · rw [List.countP_append]
    exact h.length
  · intro i hi
    rw [List.forall_mem_append, List.forall_mem_singleton]
    exact (h.closures i hi).trans (iff_self_and.mpr fun _ => nofun)
  · intro d hd i hends
    rcases List.mem_append.mp hd with hd | hd
    · exact h.known d hd i hends
    · obtain rfl := List.mem_singleton.mp hd
      cases hends
  · rw [if_pos (destroyed_append.mpr (.inr rfl))]
    rfl
  · rw [replyCalls_append, h.replies.symm]
    split <;> rfl

/-- An `RpcClosure` that is made shares the object. -/
theorem Kept.newRpcClosure (h : Kept setError r es x)
    (hrun : exec (interfaceStep setError) (.new r) es = some x) :
    Kept setError r (es ++ [.newRpcClosure]) { x with closures := x.closures ++ [true] } := by
  apply h.snoc hrun rfl rfl
  · simp [InterfaceEvent.isClosure]
  · intro i hi
    rw [List.length_append, List.length_singleton, Nat.lt_succ_iff] at hi
    rcases hi.eq_or_lt with rfl | hlt
    · simp [InterfaceEvent.ends]
    · simp [List.getElem?_append_left hlt, InterfaceEvent.ends, hlt]
  · exact fun i hi => nomatch hi
  · simp [writes]
  · simp [InterfaceEvent.isReply]

/-- What the end of a closure is not. -/
theorem InterfaceEvent.of_ends {i : ℕ} (h : e.ends = some i) : e.isDestroy = false ∧
    e.isDrop = false ∧ e.isCopy = false ∧ e.isReply = false ∧ e.isClosure = false := by
  cases e with
  | run | delete => exact ⟨rfl, rfl, rfl, rfl, rfl⟩
  | _ => cases h

/-- An `RpcClosure` gives the object up, once its callback has left the response `w`. -/
theorem Kept.reset {i : ℕ} {w : Option R} (h : Kept setError r es x)
    (hrun : exec (interfaceStep setError) (.new r) es = some x) (hi : x.closures[i]? = some true)
    (hends : e.ends = some i)
    (hresponse : w = x.response.map fun r => (writes setError x e).foldl (fun r f => f r) r) :
    Held setError r (es ++ [e]) ({ x with response := w }.reset i) := by
  refine ⟨{ x with response := w, closures := x.closures.set i false }, ?_, if_pos hi⟩
  have hlt : i < x.closures.length := (List.getElem?_eq_some_iff.mp hi).1
  obtain ⟨hdestroy, hdrop, hcopy, hreply, hclosure⟩ := InterfaceEvent.of_ends hends
  apply h.snoc hrun hdestroy
  · simp [hdrop, hcopy]
  · simp [hclosure]
  · intro k hk
    rw [List.length_set] at hk
    by_cases hki : i = k
    · subst hki
      simp [hlt, hends]
    · simp [hk, hki, hends]
  · intro k hk
    obtain rfl := Option.some.inj (hends.symm.trans hk)
    rwa [List.length_set]
  · exact hresponse
  · simp [hreply]

/-- An `RpcClosure` that has given the object up can run and be deleted. -/
theorem Held.of_given (h : Held setError r es x) {i : ℕ}
    (hrun : exec (interfaceStep setError) (.new r) es = some x) (hi : x.closures[i]? = some false)
    (hends : e.ends = some i) : Held setError r (es ++ [e]) x := by
  obtain ⟨y, hy, rfl⟩ := h
  rw [closures_release] at hi
  have hlt : i < y.closures.length := (List.getElem?_eq_some_iff.mp hi).1
  obtain ⟨hdestroy, hdrop, hcopy, hreply, hclosure⟩ := InterfaceEvent.of_ends hends
  refine ⟨y, ?_, rfl⟩
  apply hy.snoc hrun hdestroy
  · simp [hdrop, hcopy]
  · simp [hclosure]
  · intro k hk
    by_cases hki : i = k
    · subst hki
      simp [hi, hends]
    · simp [hk, hki, hends]
  · intro k hk
    obtain rfl := Option.some.inj (hends.symm.trans hk)
    exact hlt
  · cases e with
    | run =>
      obtain rfl := Option.some.inj hends
      simp [writes, hi]
    | delete => simp [writes]
    | _ => cases hends
  · simp [hreply]

/-- **What an event keeps** of the object and its history. -/
theorem Held.step (h : Held setError r es x)
    (hrun : exec (interfaceStep setError) (.new r) es = some x)
    (hstep : interfaceStep setError x e = some x') : Held setError r (es ++ [e]) x' := by
  cases e with
  | write f =>
    obtain ⟨hshared, hstep⟩ := Option.ite_none_right_eq_some.mp hstep
    obtain ⟨rsp, hrsp, rfl⟩ := Option.map_eq_some_iff.mp hstep
    refine Kept.held ?_ hshared
    refine (h.kept hshared).snoc_of_closures hrun rfl rfl rfl rfl rfl ?_ ?_
    · simp [writes, hrsp]
    · simp [InterfaceEvent.isReply]
  | copy =>
    obtain ⟨hshared, hstep⟩ := Option.ite_none_right_eq_some.mp hstep
    obtain rfl := Option.some.inj hstep
    refine Kept.held ?_ (.inl (Nat.succ_pos _))
    refine (h.kept hshared).snoc_of_closures hrun rfl rfl rfl rfl rfl ?_ ?_
    · simp [writes]
    · simp [InterfaceEvent.isReply]
  | drop =>
    obtain ⟨hpos, hstep⟩ := Option.ite_none_right_eq_some.mp hstep
    obtain rfl := Option.some.inj hstep
    refine ⟨_, ?_, rfl⟩
    refine (h.kept (.inl hpos)).snoc_of_closures hrun rfl rfl rfl rfl ?_ ?_ ?_
    · exact Nat.sub_add_cancel hpos
    · simp [writes]
    · simp [InterfaceEvent.isReply]
  | reply =>
    obtain ⟨hshared, hstep⟩ := Option.ite_none_right_eq_some.mp hstep
    obtain rfl := Option.some.inj hstep
    have hkept := h.kept hshared
    refine Kept.held ?_ hshared
    refine hkept.snoc_of_closures hrun rfl rfl rfl rfl rfl ?_ ?_
    · simp [writes, RpcInterface.reply]
    · rw [RpcInterface.reply, hkept.response, List.length_append]
      split <;> rfl
  | destroy =>
    obtain ⟨hshared, hstep⟩ := Option.ite_none_right_eq_some.mp hstep
    obtain rfl := Option.some.inj hstep
    exact (h.kept hshared).destroy.held hshared
  | newRpcClosure =>
    obtain ⟨hshared, hstep⟩ := Option.ite_none_right_eq_some.mp hstep
    obtain rfl := Option.some.inj hstep
    exact ((h.kept hshared).newRpcClosure hrun).held (.inr (by simp))
  | run i ending =>
    simp only [interfaceStep, runClosure] at hstep
    split at hstep
    · cases hstep
    · rename_i hi
      obtain rfl := Option.some.inj hstep
      exact h.of_given hrun hi rfl
    · rename_i hi hending
      obtain rfl := Option.some.inj hstep
      have hkept := h.kept (.inr (List.mem_of_getElem? hi))
      refine hkept.reset (w := x.response) hrun hi rfl ?_
      simp [writes, hi, hending]
    · rename_i errorCode errorInfo hi hending
      obtain ⟨rsp, hrsp, rfl⟩ := Option.map_eq_some_iff.mp hstep
      have hkept := h.kept (.inr (List.mem_of_getElem? hi))
      refine hkept.reset hrun hi rfl ?_
      simp [writes, hi, hending, hrsp]
  | delete i =>
    obtain ⟨hlt, hstep⟩ := Option.ite_none_right_eq_some.mp hstep
    obtain rfl := Option.some.inj hstep
    have hi : x.closures[i]? = some x.closures[i] := List.getElem?_eq_getElem hlt
    cases hb : x.closures[i] with
    | false =>
      rw [hb] at hi
      have hsame : x.reset i = x := if_neg (by simp [hi])
      rw [hsame]
      exact h.of_given hrun hi rfl
    | true =>
      rw [hb] at hi
      have hkept := h.kept (.inr (List.mem_of_getElem? hi))
      refine hkept.reset (w := x.response) hrun hi rfl ?_
      simp [writes]

theorem held_of_exec (h : exec (interfaceStep setError) (.new r) es = some x) :
    Held setError r es x := by
  refine exec_history (I := Held setError r) ?_ (fun _ _ _ _ hrun hI hs => hI.step hrun hs) h
  exact ⟨.new r, ⟨rfl, rfl, nofun, nofun, rfl, rfl⟩, rfl⟩

/-- Who shares the object, by its history. -/
theorem Kept.shared_iff (h : Kept setError r es y) :
    y.Shared ↔ es.countP InterfaceEvent.isDrop ≤ es.countP InterfaceEvent.isCopy ∨
      ∃ i < es.countP InterfaceEvent.isClosure, ∀ e ∈ es, e.ends ≠ some i := by
  refine or_congr ?_ ?_
  · have := h.references
    omega
  · rw [List.mem_iff_getElem?, ← h.length]
    constructor
    · rintro ⟨i, hi⟩
      have hlt : i < y.closures.length := (List.getElem?_eq_some_iff.mp hi).1
      exact ⟨i, hlt, (h.closures i hlt).mp hi⟩
    · rintro ⟨i, hlt, hnone⟩
      exact ⟨i, (h.closures i hlt).mpr hnone⟩

/-- **How often the client is answered, when, and with which response**: the object is shared as
long as a reference of the code is left, or a closure that has not run to its end and has not been
deleted. A reply goes out for every call of `reply`, until `destroy` is called, and if it never is,
one more when the object is shared no longer, with all that has been written to the response. -/
theorem replies_of_exec (setError : Int32 → ByteString → R → R) (r : R)
    (es : List (InterfaceEvent R)) (h : exec (interfaceStep setError) (.new r) es = some x) :
    (x.Shared ↔ es.countP InterfaceEvent.isDrop ≤ es.countP InterfaceEvent.isCopy ∨
      ∃ i < es.countP InterfaceEvent.isClosure, ∀ e ∈ es, e.ends ≠ some i) ∧
    x.replies.length = replyCalls es + (if x.Shared ∨ Destroyed es then 0 else 1) ∧
    (¬ x.Shared → ¬ Destroyed es → x.replies.getLast? = some (final setError r es)) := by
  obtain ⟨y, hy, rfl⟩ := held_of_exec h
  refine ⟨?_, ?_, fun hshared hdestroyed => ?_⟩
  · rw [shared_release, hy.shared_iff]
  · simp only [shared_release]
    rw [← hy.replies, RpcInterface.release]
    by_cases hshared : y.Shared
    · rw [if_pos hshared, if_pos (.inl hshared), Nat.add_zero]
    · rw [if_neg hshared, RpcInterface.destroy, RpcInterface.reply, hy.response,
        List.length_append]
      by_cases hdestroyed : Destroyed es <;> simp [hshared, hdestroyed]
  · rw [shared_release] at hshared
    rw [RpcInterface.release, if_neg hshared, RpcInterface.destroy, RpcInterface.reply,
      hy.response, if_neg hdestroyed]
    exact List.getLast?_concat

/-- A method that asks two servers at once. The second answer comes first, and its callback throws;
the first one writes to the response, and the reply goes out. -/
def twoCalls : List (InterfaceEvent (List Int32)) :=
  [.newRpcClosure, .newRpcClosure, .drop, .run 1 (.talonException 7 []), .delete 1,
    .write (· ++ [1]), .run 0 .returns]

theorem replies_of_exec_twoCalls :
    ∃ x, exec (interfaceStep fun errorCode _ r => r ++ [errorCode]) (.new []) twoCalls = some x ∧
      ¬ x.Shared ∧ x.replies.length = 1 ∧ x.replies.getLast? = some [7, 1] := by
  have h := replies_of_exec (fun errorCode _ r => r ++ [errorCode]) [] twoCalls rfl
  refine ⟨_, rfl, by decide, ?_, ?_⟩
  · refine h.2.1.trans ?_
    decide
  · refine (h.2.2 (by decide) (by decide)).trans ?_
    rfl

/-! ## What the dispatcher sees -/

/-- What a step does with the closure of the request. -/
def acts (setError : Int32 → ByteString → R → R) (x : RpcInterface R) (e : InterfaceEvent R) :
    List HandlerAct :=
  match interfaceStep setError x e with
  | none => []
  | some x' =>
    if x.Shared ∧ ¬ x'.Shared then x.response.toList.map fun _ => .destroy
    else if e.isReply then x.response.toList.map fun _ => .reply
    else []

/-- The stage of a handler that has given the closure to the object. -/
def RpcInterface.stage (x : RpcInterface R) : Stage :=
  if ¬ x.Shared then .finished
  else if x.replies.length = 0 then .running
  else .replied

theorem eq_of_not_shared (h : ¬ x.Shared) (hstep : interfaceStep setError x e = some x') :
    x' = x ∧ e.isReply = false := by
  cases e with
  | write | copy | reply | destroy | newRpcClosure =>
    exact absurd (Option.ite_none_right_eq_some.mp hstep).1 h
  | drop => exact absurd (.inl (Option.ite_none_right_eq_some.mp hstep).1) h
  | run i ending =>
    simp only [interfaceStep, runClosure] at hstep
    split at hstep
    · cases hstep
    · exact ⟨(Option.some.inj hstep).symm, rfl⟩
    · rename_i hi _
      exact absurd (.inr (List.mem_of_getElem? hi)) h
    · rename_i hi _
      exact absurd (.inr (List.mem_of_getElem? hi)) h
  | delete i =>
    obtain ⟨-, hstep⟩ := Option.ite_none_right_eq_some.mp hstep
    refine ⟨(Option.some.inj hstep).symm.trans (if_neg fun hi => h ?_), rfl⟩
    exact .inr (List.mem_of_getElem? hi)

/-- The number of replies of an object that is shared, without a call of `destroy`. -/
theorem Held.replies (h : Held setError r es x) (hshared : x.Shared) (hdestroyed : ¬ Destroyed es) :
    x.replies.length = es.countP InterfaceEvent.isReply := by
  rw [(h.kept hshared).replies, replyCalls, List.takeWhile_eq_self_iff.mpr]
  intro d hd
  simpa using fun hdestroy => hdestroyed ⟨d, hd, hdestroy⟩

/-- What a step does with the closure takes a handler from stage to stage, as long as `reply` is
called at most once. -/
theorem exec_acts_step (h : Held setError r es x) (h' : Held setError r (es ++ [e]) x')
    (hdestroyed : ¬ Destroyed (es ++ [e])) (hstep : interfaceStep setError x e = some x') :
    ((if es.countP InterfaceEvent.isReply ≤ 1 then some x.stage else none).bind fun stage =>
        exec (fun stage a => HandlerAct.next stage a) stage (acts setError x e)) =
      if (es ++ [e]).countP InterfaceEvent.isReply ≤ 1 then some x'.stage else none := by
  have hbefore : ¬ Destroyed es := fun h => hdestroyed (destroyed_append.mpr (.inl h))
  rw [List.countP_append, acts, hstep]
  dsimp only
  by_cases hshared : x.Shared
  · have hresponse : x.response = some (final setError r es) := by
      rw [(h.kept hshared).response, if_neg hbefore]
    have hreplies := h.replies hshared hbefore
    rw [← hreplies]
    by_cases hshared' : x'.Shared
    · have hreplies' := h'.replies hshared' hdestroyed
      rw [List.countP_append, ← hreplies] at hreplies'
      -- A handler that has replied cannot reply again.
      rcases hn : x.replies.length with _ | _ | n <;> cases hreply : e.isReply <;>
        simp [RpcInterface.stage, hshared, hshared', hreplies', hreply, hresponse, hn, exec,
          HandlerAct.next]
    · have hreply : e.isReply = false := by
        cases e with
        | reply =>
          obtain rfl := Option.some.inj (Option.ite_none_right_eq_some.mp hstep).2
          exact absurd hshared hshared'
        | _ => rfl
      rcases hn : x.replies.length with _ | _ | n <;>
        simp [RpcInterface.stage, hshared, hshared', hreply, hresponse, hn, exec, HandlerAct.next]
  · obtain ⟨rfl, hreply⟩ := eq_of_not_shared hshared hstep
    simp [hshared, hreply]

/-- **What the object does with its closure** is what a handler does, exactly if `reply` is called
at most once. -/
theorem exec_acts (es : List (InterfaceEvent R))
    (h : exec (interfaceStep setError) (.new r) es = some x) (hdestroyed : ¬ Destroyed es) :
    exec (fun stage a => HandlerAct.next stage a) .running
        (outputs (interfaceStep setError) (acts setError) (.new r) es) =
      if es.countP InterfaceEvent.isReply ≤ 1 then some x.stage else none := by
  revert hdestroyed
  refine exec_history (I := fun es x => ¬ Destroyed es →
    exec (fun stage a => HandlerAct.next stage a) .running
        (outputs (interfaceStep setError) (acts setError) (.new r) es) =
      if es.countP InterfaceEvent.isReply ≤ 1 then some x.stage else none) (fun _ => rfl) ?_ h
  intro es x e x' hrun ih hstep hdestroyed
  have hheld := held_of_exec hrun
  have hbefore : ¬ Destroyed es := fun h => hdestroyed (destroyed_append.mpr (.inl h))
  have hlast : outputs (interfaceStep setError) (acts setError) x [e] = acts setError x e := by
    rw [outputs_cons hstep]
    exact List.append_nil _
  rw [outputs_append hrun, exec_append, ih hbefore, hlast]
  exact exec_acts_step hheld (hheld.step hrun hstep) hdestroyed hstep

theorem exec_acts_twoCalls :
    exec (fun stage a => HandlerAct.next stage a) .running
      (outputs (interfaceStep fun errorCode _ r => r ++ [errorCode])
        (acts fun errorCode _ r => r ++ [errorCode]) (.new []) twoCalls) = some .finished :=
  exec_acts twoCalls rfl (by decide)

end TalonRPC
