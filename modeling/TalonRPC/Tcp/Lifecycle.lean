import TalonRPC.Tcp.Server

/-!
# The life of a connection

A connection is made, connected, closed for reading and writing with `shutdown`, and closed when its
peer is gone. Once it is closed it stays so. But `setState` looks at no argument, and `onRead` only
reads on a connected connection: one that was shut down never sees the end of its peer, stays half
closed and on its loop, and is never removed.

## Main definitions

* `LifecycleEvent`, `lifecycleStep`: what happens to a connection
* `performed c e`: the calls and the dispatch an event performs
* `Lawful c e`: closed is absorbing, the setter sets, the end of the peer closes, and a closed
  connection does nothing
* `Proper c e`: the setter is called for a connected connection, and the peer does not end on a half
  closed one

## Main results

* `lawful_iff_proper`: an event is lawful exactly if it is proper
* `alongLawful_iff_proper`: all events of a run are lawful exactly if all are proper
* `halfClosing_remains`: a half closed connection stays half closed, and in `m_client`
-/

namespace TalonRPC

namespace TcpConnection

open Machine

variable {κ : Type}

/-- `TcpConnection::setState`, whose argument is not read. -/
def setState (c : TcpConnection κ) (_state : TcpState) : TcpConnection κ :=
  { c with state := .connected }

/-- What happens to a connection: a call of `setState`, `shutdown` or `clear`, a read event on which
the socket has data and `decode` needs `n` iterations, one on which it has its peer's end behind the
results `rs`, a write event, or a reply of the dispatcher. -/
inductive LifecycleEvent
  | setState (state : TcpState)
  | data (rs : List ReadResult) (n : ℕ)
  | eof (rs : List ReadResult)
  | reply (ms : List TinyPBProtocol)
  | onWrite (rs : List WriteResult)
  | shutdown
  | clear
  deriving DecidableEq, Repr

/-- What the socket returns on a read event: the end comes last, where it is read. -/
def endsWith (c : TcpConnection κ) (rs : List ReadResult) : List ReadResult :=
  if c.state = .connected then rs ++ [.closed] else rs

/-- An event. It cannot happen if it ends the program, or if the results are not one for each call
of the socket. -/
def lifecycleStep (c : TcpConnection κ) : LifecycleEvent → Option (TcpConnection κ)
  | .setState state => some (c.setState state)
  | .data rs n => if .closed ∈ rs then none else c.readAndDecode rs n
  | .eof rs =>
    match c.onRead (c.endsWith rs) with
    | some (.ok (.returns c)) => some c
    | _ => none
  | .reply ms =>
    match c.reply ms with
    | .ok (_, c) => some c
    | .error _ => none
  | .onWrite rs =>
    match c.onWrite rs with
    | some (.ok w) => some w.conn
    | _ => none
  -- The number of the descriptor does not matter here.
  | .shutdown => some (c.shutdown 0).1
  | .clear => some c.clear

/-- What an event does with the socket and the messages. -/
inductive Io
  | read
  | write
  | dispatch
  deriving DecidableEq, Repr

/-- The calls of `read` and `write` an event makes, and whether it comes to the dispatch of
`excute`. -/
def performed (c : TcpConnection κ) : LifecycleEvent → List Io
  | .data rs _ =>
    rs.map (fun _ => .read) ++
      match c.onRead rs with
      | some (.ok (.excutes _)) => [.dispatch]
      | _ => []
  | .eof rs => (c.endsWith rs).map fun _ => .read
  | .onWrite rs => rs.map fun _ => .write
  | .setState _ | .reply _ | .shutdown | .clear => []

/-- **An event is lawful**: it leaves a closed connection closed unless it sets the state, which
makes it what is asked for; the peer's end closes the connection and takes it off its loop; and on a
closed connection nothing is performed. -/
structure Lawful (c : TcpConnection κ) (e : LifecycleEvent) : Prop where
  absorbing : ∀ c', lifecycleStep c e = some c' → c.state = .closed → (∀ s, e ≠ .setState s) →
    c'.state = .closed
  setter : ∀ c' s, lifecycleStep c e = some c' → e = .setState s → c'.state = s
  ended : ∀ c' rs, lifecycleStep c e = some c' → e = .eof rs →
    c.state = .connected ∨ c.state = .halfClosing →
      c'.state = .closed ∧ c'.fdEvent = ⟨false, false, false⟩
  quiet : c.state = .closed → performed c e = []

/-- An event that sets no other state than `Connected`, and is not the end of the peer of a half
closed connection. -/
def Proper (c : TcpConnection κ) : LifecycleEvent → Prop
  | .setState s => s = .connected
  | .eof _ => c.state ≠ .halfClosing
  | _ => True

instance (c : TcpConnection κ) : DecidablePred (Proper c)
  | .setState _ => inferInstanceAs (Decidable (_ = _))
  | .eof _ => inferInstanceAs (Decidable (_ ≠ _))
  | .data _ _ | .reply _ | .onWrite _ | .shutdown | .clear => .isTrue trivial

variable {c c' : TcpConnection κ} {e : LifecycleEvent} {es : List LifecycleEvent}
  {rs : List ReadResult} {n : ℕ}

/-! ## One event -/

/-- On a connection that is not connected, `onRead` returns at once. -/
theorem onRead_of_ne {r : Except Fault (Reading κ)} (hstate : c.state ≠ .connected) :
    c.onRead rs = some r ↔ rs = [] ∧ r = .ok (.returns c) := by
  rw [onRead, if_pos hstate]
  simp [eq_comm]

/-- So does `onWrite`. -/
theorem onWrite_of_ne {rs : List WriteResult} {r : Except Fault (Writing κ)}
    (hstate : c.state ≠ .connected) :
    c.onWrite rs = some r ↔ rs = [] ∧ r = .ok ⟨c, [], false, []⟩ := by
  rw [onWrite, if_pos hstate]
  simp [eq_comm]

theorem data_of_ne (hstate : c.state ≠ .connected)
    (h : lifecycleStep c (.data rs n) = some c') : rs = [] ∧ c' = c := by
  rw [lifecycleStep, Option.ite_none_left_eq_some, readAndDecode] at h
  obtain ⟨-, h⟩ := h
  split at h
  · rename_i c₁ hread
    obtain ⟨rfl, hc⟩ := (onRead_of_ne hstate).mp hread
    cases hc
    exact ⟨rfl, (Option.some.inj h).symm⟩
  · rename_i c₁ hread
    cases ((onRead_of_ne hstate).mp hread).2
  · cases h

theorem onWrite_step_of_ne {rs : List WriteResult} (hstate : c.state ≠ .connected)
    (h : lifecycleStep c (.onWrite rs) = some c') : rs = [] ∧ c' = c := by
  rw [lifecycleStep] at h
  split at h
  · rename_i w hwrite
    obtain ⟨rfl, hw⟩ := (onWrite_of_ne hstate).mp hwrite
    cases hw
    exact ⟨rfl, (Option.some.inj h).symm⟩
  · cases h

/-- On a connection that is not connected, the end of the peer is not seen. -/
theorem eof_of_ne (hstate : c.state ≠ .connected) (h : lifecycleStep c (.eof rs) = some c') :
    rs = [] ∧ c' = c := by
  rw [lifecycleStep, endsWith, if_neg hstate] at h
  split at h
  · rename_i c₁ hread
    obtain ⟨rfl, hc⟩ := (onRead_of_ne hstate).mp hread
    cases hc
    exact ⟨rfl, (Option.some.inj h).symm⟩
  · cases h

/-- On a connected one, it closes the connection and takes it off its loop. -/
theorem eof_of_connected (hstate : c.state = .connected)
    (h : lifecycleStep c (.eof rs) = some c') :
    c'.state = .closed ∧ c'.fdEvent = ⟨false, false, false⟩ := by
  rw [lifecycleStep, endsWith, if_pos hstate] at h
  split at h
  · rename_i c₁ hread
    obtain rfl := Option.some.inj h
    rw [onRead, if_neg (not_not_intro hstate), Option.map_eq_some_iff] at hread
    obtain ⟨r, -, hr⟩ := hread
    -- Only the outcome of a closed peer returns without `excute`.
    cases r with
    | error e => cases hr
    | ok o =>
      cases o with
      | readAll b => cases hr
      | close b =>
        obtain rfl := Reading.returns.inj (Except.ok.inj hr)
        simp [clear, hstate]
  · cases h

theorem reply_state {ms : List TinyPBProtocol} (h : lifecycleStep c (.reply ms) = some c') :
    c'.state = c.state := by
  rw [lifecycleStep] at h
  split at h
  · rename_i ms' c₁ hreply
    obtain rfl := Option.some.inj h
    rw [TcpConnection.reply] at hreply
    cases hencode : TinyPBCoder.encode ms c.outBuffer with
    | error f =>
      rw [hencode] at hreply
      cases hreply
    | ok r =>
      rw [hencode] at hreply
      cases hreply
      rfl
  · cases h

/-- **What an event leaves of the state**, on a connection that is not connected: only `setState`
and `clear` change it. -/
theorem state_of_ne (hstate : c.state ≠ .connected) (h : lifecycleStep c e = some c')
    (hset : ∀ s, e ≠ .setState s) (hclear : e = .clear → c.state = .closed) :
    c'.state = c.state := by
  cases e with
  | setState s => exact absurd rfl (hset s)
  | data rs n => rw [(data_of_ne hstate h).2]
  | eof rs => rw [(eof_of_ne hstate h).2]
  | reply ms => exact reply_state h
  | onWrite rs => rw [(onWrite_step_of_ne hstate h).2]
  | shutdown =>
    obtain rfl := Option.some.inj h
    unfold TcpConnection.shutdown
    split_ifs with hdown
    · rfl
    · -- Neither connected, closed nor new: it is half closed already.
      cases hc : c.state <;> simp_all
  | clear =>
    obtain rfl := Option.some.inj h
    rw [TcpConnection.clear, if_pos (hclear rfl)]

/-- Nothing is performed on a closed connection. -/
theorem performed_of_closed (hclosed : c.state = .closed) (h : lifecycleStep c e = some c') :
    performed c e = [] := by
  have hstate : c.state ≠ .connected := hclosed.trans_ne (by decide)
  cases e with
  | data rs n =>
    obtain ⟨rfl, -⟩ := data_of_ne hstate h
    rw [performed, (onRead_of_ne hstate).mpr ⟨rfl, rfl⟩]
    rfl
  | eof rs =>
    obtain ⟨rfl, -⟩ := eof_of_ne hstate h
    rw [performed, endsWith, if_neg hstate]
    rfl
  | onWrite rs =>
    obtain ⟨rfl, -⟩ := onWrite_step_of_ne hstate h
    rfl
  | setState _ | reply _ | shutdown | clear => rfl

/-- **An event is lawful** exactly if it is proper. -/
theorem lawful_iff_proper (h : lifecycleStep c e = some c') : Lawful c e ↔ Proper c e := by
  constructor
  · intro hlawful
    cases e with
    | setState s => exact (hlawful.setter c' s h rfl).symm.trans (by cases h; rfl)
    | eof rs =>
      intro hhalf
      -- The connection would have to be closed, but it is as it was.
      have hclosed := (hlawful.ended c' rs h rfl (.inr hhalf)).1
      have hstate : c.state ≠ .connected := hhalf.trans_ne (by decide)
      rw [(eof_of_ne hstate h).2, hhalf] at hclosed
      cases hclosed
    | data _ _ | reply _ | onWrite _ | shutdown | clear => trivial
  · intro hproper
    refine ⟨?_, ?_, ?_, fun hclosed => performed_of_closed hclosed h⟩
    · intro c'' h' hclosed hset
      have hstate : c.state ≠ .connected := hclosed.trans_ne (by decide)
      rw [state_of_ne hstate h' hset fun _ => hclosed, hclosed]
    · rintro c'' s h' rfl
      obtain rfl := Option.some.inj h'
      exact Eq.symm hproper
    · rintro c'' rs h' rfl (hconnected | hhalf)
      · exact eof_of_connected hconnected h'
      · exact absurd hhalf hproper

/-! ## Runs -/

/-- **A half closed connection stays half closed** whatever its socket does, so the timer of the
server does not remove it. -/
theorem halfClosing_remains (hrun : exec lifecycleStep c es = some c')
    (hhalf : c.state = .halfClosing) (hset : ∀ s, .setState s ∉ es) (hclear : .clear ∉ es) :
    c'.state = .halfClosing ∧ ∀ (s : TcpServer κ) (fd : ℕ), ⟨fd, c'⟩ ∈ s.client →
      ⟨fd, c'⟩ ∈ s.clearClientTimerFunc.client := by
  suffices hremains : c'.state = .halfClosing by
    refine ⟨hremains, fun s fd hmem => List.mem_filter.mpr ⟨hmem, ?_⟩⟩
    simp [hremains]
  induction es generalizing c with
  | nil =>
    obtain rfl := Option.some.inj hrun
    exact hhalf
  | cons e es ih =>
    obtain ⟨c₁, hstep, hrest⟩ := Option.bind_eq_some_iff.mp hrun
    have hstate : c.state ≠ .connected := hhalf.trans_ne (by decide)
    refine ih hrest ?_ (fun s hs => hset s (List.mem_cons_of_mem _ hs))
      fun hmem => hclear (List.mem_cons_of_mem _ hmem)
    rw [state_of_ne hstate hstep (fun s hs => hset s (hs ▸ List.mem_cons_self ..))
      fun he => absurd (he ▸ List.mem_cons_self ..) hclear, hhalf]

/-- **All events of a run are lawful** exactly if all are proper. -/
theorem alongLawful_iff_proper (c : TcpConnection κ) (es : List LifecycleEvent)
    (hrun : (exec lifecycleStep c es).isSome) :
    Along lifecycleStep Lawful c es ↔ Along lifecycleStep Proper c es :=
  along_iff (I := fun _ => True) hrun trivial
    (fun _ _ _ _ hstep => lawful_iff_proper hstep) fun _ _ _ _ _ _ => trivial

/-- A connection that has just been made. -/
def madeConnection : TcpConnection Unit := { inBuffer := .new 128, outBuffer := .new 128 }

/-- It is connected, reads, and sees the end of its peer; then it is closed. -/
theorem alongLawful_closed : Along lifecycleStep Lawful madeConnection
    [.setState .connected, .data [.again] 1, .eof [], .shutdown, .data [] 0] :=
  (alongLawful_iff_proper _ _ (by decide +kernel)).mpr (by decide +kernel)

/-- It is connected and shut down, and does not see the end of its peer. -/
theorem not_alongLawful_halfClosing : ¬ ∀ (c : TcpConnection Unit) (es : List LifecycleEvent),
    (exec lifecycleStep c es).isSome → Along lifecycleStep Lawful c es := by
  intro h
  have hrun : exec lifecycleStep madeConnection [.setState .connected, .shutdown] =
      some { madeConnection with state := .halfClosing } := by decide
  have hlawful := (h madeConnection ([.setState .connected, .shutdown] ++ [.eof []])
    (by decide)).last hrun
  have hstep : lifecycleStep { madeConnection with state := .halfClosing } (.eof []) =
      some { madeConnection with state := .halfClosing } := rfl
  rw [lawful_iff_proper hstep] at hlawful
  exact hlawful rfl

end TcpConnection

end TalonRPC
