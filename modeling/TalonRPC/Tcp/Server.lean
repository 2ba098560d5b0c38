import Mathlib.Data.Finset.Erase
import Mathlib.Data.Finset.Insert
import TalonRPC.Machine.Run
import TalonRPC.TinyPB.Decode
import TalonRPC.Tcp.Connection

/-!
# TcpServer

A server keeps the connections it has accepted in `m_client`. A timer removes those whose peer is
gone, and with its last reference a connection is destroyed. Its descriptor should be closed then.
But `clear` only takes it off the event loop, `shutdown` only shuts it down, and the destructor
deletes the coder: the descriptor of a removed connection stays open until the program ends.

## Main definitions

* `FdCall`, `openFds`: what is asked of the kernel for the descriptors of clients, and the ones that
  are open then
* `TcpServer`, `TcpServerEvent`, `tcpServerStep`: the connections, and what happens to them
* `Unleaked`: each accepted descriptor is closed once, when its connection is removed
* `NoneClosed`: a pass of the timer finds no connection to remove

## Main results

* `Tracked.step`: a step opens the descriptors it accepts, and closes none
* `unleaked_iff`: no descriptor is leaked exactly if no pass of the timer removes a connection
-/

namespace TalonRPC

open Machine

variable {κ : Type}

/-- A call for the descriptor of a client. -/
inductive FdCall
  | accept (fd : ℕ)
  | shutdown (fd : ℕ)
  | close (fd : ℕ)
  deriving DecidableEq, Repr

/-- A call opens or closes a descriptor. -/
def FdCall.apply (fds : Finset ℕ) : FdCall → Finset ℕ
  | .accept fd => insert fd fds
  | .shutdown _ => fds
  | .close fd => fds.erase fd

/-- The descriptors that are open after the calls. -/
def openFds (calls : List FdCall) : Finset ℕ := calls.foldl FdCall.apply ∅

namespace TcpConnection

/-- `TcpConnection::TcpConnection`, for the server, with buffers of 128 bytes, and the state that
`onAccept` sets. -/
def accepted : TcpConnection κ where
  inBuffer := TcpBuffer.new 128
  outBuffer := TcpBuffer.new 128
  fdEvent := { inEvent := true, registered := true }
  state := .connected

/-- `TcpConnection::shutdown`, with the calls it makes. -/
def shutdown (fd : ℕ) (c : TcpConnection κ) : TcpConnection κ × List FdCall :=
  if c.state = .closed ∨ c.state = .notConnected then (c, [])
  else ({ c with state := .halfClosing }, [.shutdown fd])

/-- `TcpConnection::~TcpConnection` deletes the coder. It makes no calls. -/
def destroy (_fd : ℕ) : List FdCall := []

/-- `TcpConnection::onRead`, with the `decode` of `excute`, when that comes to its end within `n`
iterations. -/
def readAndDecode (c : TcpConnection κ) (rs : List ReadResult) (n : ℕ) : Option (TcpConnection κ) :=
  match c.onRead rs with
  | some (.ok (.returns c)) => some c
  | some (.ok (.excutes c)) =>
    match TinyPBCoder.decode n [] c.inBuffer with
    | some (.ok (_, b)) => some { c with inBuffer := b }
    | _ => none
  | _ => none

end TcpConnection

/-- A connection in `m_client`, with its descriptor. -/
structure AcceptedClient (κ : Type) where
  fd : ℕ
  conn : TcpConnection κ
  deriving DecidableEq

/-- `TcpServer`, with the calls made for the descriptors of its clients. -/
structure TcpServer (κ : Type) where
  client : List (AcceptedClient κ) := []
  calls : List FdCall := []
  deriving DecidableEq

/-- What happens to a server: `accept` succeeds, the connection of a descriptor reads, is given
replies, writes or is shut down, or the timer for removed connections fires. -/
inductive TcpServerEvent
  | accept (fd : ℕ)
  | read (fd : ℕ) (rs : List TcpConnection.ReadResult) (n : ℕ)
  | reply (fd : ℕ) (ms : List TinyPBProtocol)
  | write (fd : ℕ) (rs : List TcpConnection.WriteResult)
  | shutdown (fd : ℕ)
  | clearClients
  deriving DecidableEq

namespace TcpServer

/-- `TcpServer::onAccept`, for the descriptor that `accept` returns. -/
def onAccept (s : TcpServer κ) (fd : ℕ) : TcpServer κ :=
  { client := s.client ++ [⟨fd, .accepted⟩], calls := s.calls ++ [.accept fd] }

/-- `TcpServer::ClearClientTimerFunc`. -/
def clearClientTimerFunc (s : TcpServer κ) : TcpServer κ where
  client := s.client.filter (·.conn.state ≠ .closed)
  calls := s.calls ++
    (s.client.filter (·.conn.state = .closed)).flatMap fun c => TcpConnection.destroy c.fd

/-- The connection of a descriptor does something, with the calls it makes. -/
def onClient (s : TcpServer κ) (fd : ℕ)
    (f : TcpConnection κ → Option (TcpConnection κ × List FdCall)) : Option (TcpServer κ) :=
  match s.client.find? (·.fd = fd) with
  | none => none
  | some c =>
    (f c.conn).map fun (conn, calls) =>
      { client := s.client.map fun d => if d.fd = fd then { d with conn } else d
        calls := s.calls ++ calls }

end TcpServer

/-- The server after an event, if it can happen. The kernel gives out descriptors that are not
open. -/
def tcpServerStep (s : TcpServer κ) : TcpServerEvent → Option (TcpServer κ)
  | .accept fd => if fd ∈ openFds s.calls then none else some (s.onAccept fd)
  | .read fd rs n => s.onClient fd fun c => (c.readAndDecode rs n).map (·, [])
  | .reply fd ms =>
    s.onClient fd fun c =>
      match c.reply ms with
      | .ok (_, c) => some (c, [])
      | .error _ => none
  | .write fd rs =>
    s.onClient fd fun c =>
      match c.onWrite rs with
      | some (.ok w) => some (w.conn, [])
      | _ => none
  | .shutdown fd => s.onClient fd fun c => some (c.shutdown fd)
  | .clearClients => some s.clearClientTimerFunc

/-- **No descriptor is leaked**: of each accepted descriptor, the connection is in `m_client` or it
has been closed, once; that of a connected client is open; and the open descriptors are those of
the connections in `m_client`. -/
structure Unleaked (s : TcpServer κ) : Prop where
  once : ∀ fd, s.calls.count (.accept fd) =
    s.calls.count (.close fd) + (s.client.map (·.fd)).count fd
  kept : ∀ c ∈ s.client, c.conn.state = .connected → c.fd ∈ openFds s.calls
  exact : ∀ fd, fd ∈ openFds s.calls ↔ ∃ c ∈ s.client, c.fd = fd

/-- A pass of the timer finds no connection to remove. -/
def NoneClosed (s : TcpServer κ) : TcpServerEvent → Prop
  | .clearClients => ∀ c ∈ s.client, c.conn.state ≠ .closed
  | _ => True

instance (s : TcpServer κ) (e : TcpServerEvent) : Decidable (NoneClosed s e) :=
  match e with
  | .clearClients => inferInstanceAs (Decidable (∀ c ∈ s.client, c.conn.state ≠ .closed))
  | .accept _ | .read _ _ _ | .reply _ _ | .write _ _ | .shutdown _ => .isTrue trivial

/-- What a step keeps: no descriptor is closed, each was accepted once, and those of the connections
in `m_client` are different ones. -/
structure Tracked (s : TcpServer κ) : Prop where
  unclosed : ∀ fd, .close fd ∉ s.calls
  counted : ∀ fd, s.calls.count (.accept fd) = if fd ∈ openFds s.calls then 1 else 0
  nodup : (s.client.map (·.fd)).Nodup
  opened : ∀ c ∈ s.client, c.fd ∈ openFds s.calls

variable {s s' : TcpServer κ} {e : TcpServerEvent} {es : List TcpServerEvent} {fd : ℕ}
  {calls cs : List FdCall}

/-! ## The calls of a step -/

theorem openFds_snoc (c : FdCall) : openFds (calls ++ [c]) = c.apply (openFds calls) := by
  rw [openFds, List.foldl_append]
  rfl

theorem openFds_append_shutdown (h : ∀ c ∈ cs, ∃ fd, c = .shutdown fd) :
    openFds (calls ++ cs) = openFds calls := by
  induction cs using List.reverseRecOn with
  | nil => rw [List.append_nil]
  | append_singleton cs c ih =>
    obtain ⟨fd, rfl⟩ := h c (by simp)
    rw [← List.append_assoc, openFds_snoc]
    exact ih fun c hc => h c (by simp [hc])

@[simp] theorem openFds_onAccept (s : TcpServer κ) (fd : ℕ) :
    openFds (s.onAccept fd).calls = insert fd (openFds s.calls) := openFds_snoc _

@[simp] theorem calls_clearClientTimerFunc (s : TcpServer κ) :
    s.clearClientTimerFunc.calls = s.calls := by
  simp [TcpServer.clearClientTimerFunc, TcpConnection.destroy]

/-- What a connection does changes neither the descriptors in `m_client` nor those that are open. -/
structure Minor (s s' : TcpServer κ) : Prop where
  fds : s'.client.map (·.fd) = s.client.map (·.fd)
  calls : ∃ cs, s'.calls = s.calls ++ cs ∧ ∀ c ∈ cs, ∃ fd, c = .shutdown fd

theorem Minor.openFds_eq (h : Minor s s') : openFds s'.calls = openFds s.calls := by
  obtain ⟨cs, heq, hcs⟩ := h.calls
  rw [heq, openFds_append_shutdown hcs]

theorem minor_onClient {f : TcpConnection κ → Option (TcpConnection κ × List FdCall)}
    (hf : ∀ c c' calls, f c = some (c', calls) → ∀ call ∈ calls, ∃ fd, call = .shutdown fd)
    (h : s.onClient fd f = some s') : Minor s s' := by
  unfold TcpServer.onClient at h
  split at h
  · cases h
  · rename_i c _
    obtain ⟨⟨conn, calls⟩, hconn, rfl⟩ := Option.map_eq_some_iff.mp h
    refine ⟨?_, calls, rfl, hf c.conn conn calls hconn⟩
    rw [List.map_map]
    refine List.map_congr_left fun d _ => ?_
    by_cases hd : d.fd = fd <;> simp [hd]

/-- What an event does: it adds a connection with a new descriptor, removes the closed connections,
or is about one connection. -/
theorem tcpServerStep_cases (h : tcpServerStep s e = some s') :
    (∃ fd, e = .accept fd ∧ fd ∉ openFds s.calls ∧ s' = s.onAccept fd) ∨
    (e = .clearClients ∧ s' = s.clearClientTimerFunc) ∨
    (e ≠ .clearClients ∧ Minor s s') := by
  cases e with
  | accept fd =>
    rw [tcpServerStep, Option.ite_none_left_eq_some] at h
    exact .inl ⟨fd, rfl, h.1, (Option.some.inj h.2).symm⟩
  | clearClients => exact .inr (.inl ⟨rfl, (Option.some.inj h).symm⟩)
  | read fd rs n =>
    simp only [tcpServerStep] at h
    refine .inr (.inr ⟨nofun, minor_onClient ?_ h⟩)
    intro c c' calls heq
    obtain ⟨c, -, hpair⟩ := Option.map_eq_some_iff.mp heq
    simp [← (Prod.mk.inj hpair).2]
  | reply fd ms =>
    simp only [tcpServerStep] at h
    refine .inr (.inr ⟨nofun, minor_onClient ?_ h⟩)
    intro c c' calls heq
    split at heq
    · simp [← (Prod.mk.inj (Option.some.inj heq)).2]
    · cases heq
  | write fd rs =>
    simp only [tcpServerStep] at h
    refine .inr (.inr ⟨nofun, minor_onClient ?_ h⟩)
    intro c c' calls heq
    split at heq
    · simp [← (Prod.mk.inj (Option.some.inj heq)).2]
    · cases heq
  | shutdown fd =>
    simp only [tcpServerStep] at h
    refine .inr (.inr ⟨nofun, minor_onClient ?_ h⟩)
    intro c c' calls heq
    have hcalls : (c.shutdown fd).2 = calls := congrArg Prod.snd (Option.some.inj heq)
    rw [← hcalls, TcpConnection.shutdown]
    split <;> simp

/-! ## Runs -/

theorem Tracked.init : Tracked ({} : TcpServer κ) := by
  constructor <;> simp [openFds]

theorem Tracked.step (hI : Tracked s) (h : tcpServerStep s e = some s') : Tracked s' := by
  rcases tcpServerStep_cases h with ⟨fd, -, hfd, rfl⟩ | ⟨-, rfl⟩ | ⟨-, hminor⟩
  · refine ⟨?_, ?_, ?_, ?_⟩
    · simpa [TcpServer.onAccept] using hI.unclosed
    · intro n
      have hcount := hI.counted n
      rw [openFds_onAccept, TcpServer.onAccept, List.count_append]
      by_cases hn : n = fd
      · subst hn
        simp [hcount, hfd]
      · simp [hcount, hn, Ne.symm hn]
    · rw [TcpServer.onAccept, List.map_append, List.nodup_append]
      refine ⟨hI.nodup, by simp, ?_⟩
      intro n hn m hm heq
      obtain ⟨c, hc, rfl⟩ := List.mem_map.mp hn
      obtain rfl : m = fd := by simpa using hm
      exact hfd (heq ▸ hI.opened c hc)
    · intro c hc
      rw [openFds_onAccept, Finset.mem_insert]
      rcases List.mem_append.mp hc with hc | hc
      · exact .inr (hI.opened c hc)
      · exact .inl (by rw [List.mem_singleton.mp hc])
  · refine ⟨?_, ?_, ?_, ?_⟩
    · simpa using hI.unclosed
    · simpa using hI.counted
    · exact hI.nodup.sublist (List.filter_sublist.map _)
    · intro c hc
      rw [calls_clearClientTimerFunc]
      exact hI.opened c (List.mem_of_mem_filter hc)
  · obtain ⟨cs, hcalls, hcs⟩ := hminor.calls
    refine ⟨?_, ?_, ?_, ?_⟩
    · intro fd hmem
      rw [hcalls, List.mem_append] at hmem
      rcases hmem with hmem | hmem
      · exact hI.unclosed fd hmem
      · obtain ⟨n, hn⟩ := hcs _ hmem
        cases hn
    · intro n
      have hzero : cs.count (.accept n) = 0 := by
        refine List.count_eq_zero.mpr fun hmem => ?_
        obtain ⟨m, hm⟩ := hcs _ hmem
        cases hm
      rw [hminor.openFds_eq, hcalls, List.count_append, hzero, hI.counted, Nat.add_zero]
    · rw [hminor.fds]
      exact hI.nodup
    · intro c hc
      have hmem : c.fd ∈ s.client.map (·.fd) := hminor.fds ▸ List.mem_map_of_mem hc
      obtain ⟨d, hd, heq⟩ := List.mem_map.mp hmem
      rw [hminor.openFds_eq, ← heq]
      exact hI.opened d hd

/-- Every open descriptor has its connection in `m_client`. -/
def Accounted (s : TcpServer κ) : Prop := ∀ fd ∈ openFds s.calls, fd ∈ s.client.map (·.fd)

/-- A descriptor gets lost when its connection is removed, and then for good. -/
theorem Tracked.accounted_step_iff (hI : Tracked s) (h : tcpServerStep s e = some s') :
    Accounted s' ↔ Accounted s ∧ NoneClosed s e := by
  rcases tcpServerStep_cases h with ⟨fd, rfl, hfd, rfl⟩ | ⟨rfl, rfl⟩ | ⟨hne, hminor⟩
  · have hfds : (s.onAccept fd).client.map (·.fd) = s.client.map (·.fd) ++ [fd] := by
      simp [TcpServer.onAccept]
    simp only [Accounted, openFds_onAccept, hfds, Finset.mem_insert, List.mem_append,
      List.mem_singleton, NoneClosed, and_true]
    constructor
    · intro hall n hn
      exact (hall n (.inr hn)).resolve_right fun heq => hfd (heq ▸ hn)
    · rintro hall n (rfl | hn)
      · exact .inr rfl
      · exact .inl (hall n hn)
  · simp only [Accounted, calls_clearClientTimerFunc]
    constructor
    · intro hall
      have hkept : ∀ n ∈ openFds s.calls, ∃ c ∈ s.client, c.conn.state ≠ .closed ∧ c.fd = n := by
        intro n hn
        obtain ⟨c, hc, hcn⟩ := List.mem_map.mp (hall n hn)
        obtain ⟨hmem, hstate⟩ := List.mem_filter.mp hc
        exact ⟨c, hmem, by simpa using hstate, hcn⟩
      refine ⟨fun n hn => ?_, fun c hc => ?_⟩
      · obtain ⟨c, hc, -, hcn⟩ := hkept n hn
        exact List.mem_map.mpr ⟨c, hc, hcn⟩
      · -- The connection that still has the descriptor is the same one.
        obtain ⟨d, hd, hstate, hfd⟩ := hkept c.fd (hI.opened c hc)
        obtain rfl := List.inj_on_of_nodup_map hI.nodup hd hc hfd
        exact hstate
    · rintro ⟨hall, hnone⟩ n hn
      have hfilter : s.clearClientTimerFunc.client = s.client := by
        refine List.filter_eq_self.mpr fun c hc => ?_
        simpa using hnone c hc
      rw [hfilter]
      exact hall n hn
  · have hnone : NoneClosed s e := by
      cases e with
      | clearClients => exact absurd rfl hne
      | _ => trivial
    unfold Accounted
    rw [hminor.openFds_eq, hminor.fds]
    exact (and_iff_left hnone).symm

theorem Tracked.unleaked_iff_accounted (hI : Tracked s) : Unleaked s ↔ Accounted s := by
  constructor
  · intro h fd hfd
    obtain ⟨c, hc, rfl⟩ := (h.exact fd).mp hfd
    exact List.mem_map_of_mem hc
  · intro hall
    have hmem : ∀ fd, fd ∈ openFds s.calls ↔ fd ∈ s.client.map (·.fd) := by
      intro fd
      refine ⟨hall fd, fun h => ?_⟩
      obtain ⟨c, hc, rfl⟩ := List.mem_map.mp h
      exact hI.opened c hc
    refine ⟨fun fd => ?_, fun c hc _ => hI.opened c hc, fun fd => ?_⟩
    · rw [hI.counted, List.count_eq_zero.mpr (hI.unclosed fd), Nat.zero_add]
      by_cases hfd : fd ∈ openFds s.calls
      · rw [if_pos hfd, List.count_eq_one_of_mem hI.nodup ((hmem fd).mp hfd)]
      · rw [if_neg hfd, List.count_eq_zero.mpr (mt (hmem fd).mpr hfd)]
    · rw [hmem fd, List.mem_map]

/-- **No descriptor is leaked** in a run exactly if no pass of the timer finds a closed connection:
the descriptor of a connection that is removed is never closed. -/
theorem unleaked_iff (h : exec tcpServerStep ({} : TcpServer κ) es = some s) :
    Unleaked s ↔ Along tcpServerStep NoneClosed ({} : TcpServer κ) es := by
  have hinv : Tracked s ∧ (Accounted s ↔ Along tcpServerStep NoneClosed ({} : TcpServer κ) es) := by
    refine exec_history (I := fun es s => Tracked s ∧
      (Accounted s ↔ Along tcpServerStep NoneClosed ({} : TcpServer κ) es)) ?_ ?_ h
    · exact ⟨.init, by simp [Accounted, openFds, Along]⟩
    · rintro es s e s' hexec ⟨hI, hiff⟩ hstep
      refine ⟨hI.step hstep, ?_⟩
      rw [hI.accounted_step_iff hstep, hiff, along_snoc hexec]
  rw [hinv.1.unleaked_iff_accounted, hinv.2]

/-- Two clients connect, and the server shuts one of them down. -/
def shutDownRun : List TcpServerEvent := [.accept 5, .accept 6, .shutdown 5, .clearClients]

theorem unleaked_shutDownRun : ∃ s : TcpServer Unit,
    exec tcpServerStep {} shutDownRun = some s ∧ Unleaked s := by
  have hrun : (exec tcpServerStep ({} : TcpServer Unit) shutDownRun).isSome := by decide
  obtain ⟨s, hs⟩ := Option.isSome_iff_exists.mp hrun
  exact ⟨s, hs, (unleaked_iff hs).mpr (by decide)⟩

/-- A client connects and closes its end, and the timer removes its connection. -/
theorem not_unleaked_peer_closed : ¬ ∀ (es : List TcpServerEvent) (s : TcpServer Unit),
    exec tcpServerStep {} es = some s → Unleaked s := by
  intro h
  have hrun : (exec tcpServerStep ({} : TcpServer Unit)
      [.accept 5, .read 5 [.closed] 1, .clearClients]).map (fun s => (s.client, s.calls)) =
        some ([], [.accept 5]) := by decide +kernel
  obtain ⟨s, hs, heq⟩ := Option.map_eq_some_iff.mp hrun
  obtain ⟨hclient, hcalls⟩ := Prod.mk.inj heq
  have honce := (h _ s hs).once 5
  rw [hclient, hcalls] at honce
  exact absurd honce (by decide)

end TalonRPC
