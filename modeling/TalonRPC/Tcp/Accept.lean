import TalonRPC.Net.Growth
import TalonRPC.Net.Isolation
import TalonRPC.Tcp.Server

/-!
# Accepting clients

`onAccept` counts a client, takes the next I/O thread for it, and makes its connection, which takes
the `Fd_Event` of the descriptor from the group. `TcpAcceptor::accept` logs when it has failed and
returns the negative descriptor as it is; nothing in `onAccept` looks at it. So a connection is made
for it all the same, and the group, which does not grow for a negative number, is read far beyond
its end.

## Main definitions

* `IOThreadGroup`, `getIOThread`: the threads, taken in turn
* `TcpAcceptor.accept`: the descriptor `onAccept` is given
* `AcceptingServer`, `onAccept`: what a server keeps about its clients, and one more client
* `Intact s res`: accepts that fail leave no trace in a run from `s`

## Main results

* `onAccept_failed`: after an accept that fails, memory outside the group is read
* `Ready.exec`: a server with threads takes all clients, if no accept fails
* `intact_iff`: a run is intact exactly if it comes to no accept that fails
-/

namespace TalonRPC

open Machine

variable {κ : Type}

/-- `IOThreadGroup`: how many threads it has, and `m_index`. -/
structure IOThreadGroup where
  size : ℕ
  index : ℤ := 0
  deriving DecidableEq, Repr

/-- `IOThreadGroup::getIOThread`: which thread it is, and the group. -/
def IOThreadGroup.getIOThread (g : IOThreadGroup) : Except Fault (ℕ × IOThreadGroup) :=
  let index := if g.index = g.size ∨ g.index = -1 then 0 else g.index
  if 0 ≤ index ∧ index < g.size then .ok (index.toNat, { g with index := index + 1 })
  else .error .outOfBounds

/-- `TcpAcceptor`, with the family of its address. -/
structure TcpAcceptor where
  family : ℤ
  deriving DecidableEq, Repr

/-- `TcpAcceptor::accept`, when `::accept` returns `re`. The family is to be `AF_INET`. -/
def TcpAcceptor.accept (a : TcpAcceptor) (re : Int32) : Int32 := if a.family = 2 then re else -1

/-- A client, with the thread its connection runs on and the pointer to its `Fd_Event`. -/
structure ServedClient (κ : Type) extends AcceptedClient κ where
  ioThread : ℕ
  fdEvent : ℕ

/-- `TcpServer`, with the `FdEventGroup` of the process and the calls made for the descriptors of
its clients. -/
structure AcceptingServer (κ : Type) where
  acceptor : TcpAcceptor
  clientCounts : ℤ := 0
  ioThreadGroup : IOThreadGroup
  fdEventGroup : Net.FdEventTable (Net.Callback ℕ) := .new
  client : List (ServedClient κ) := []
  calls : List FdCall := []

namespace AcceptingServer

/-- A client is added, and its connection listens for reading. -/
def serve (s : AcceptingServer κ) (fd : ℕ) (thread : ℕ × IOThreadGroup)
    (event : ℕ × Net.FdEventTable (Net.Callback ℕ)) : AcceptingServer κ :=
  { s with
    clientCounts := Bytes.wrap32 (s.clientCounts + 1)
    ioThreadGroup := thread.2
    fdEventGroup := event.2.update event.1 fun ev => ev.listen .inEvent ⟨fd, .onRead⟩
    client := s.client ++ [{ fd, conn := .accepted, ioThread := thread.1, fdEvent := event.1 }]
    calls := s.calls ++ [.accept fd] }

/-- `TcpServer::onAccept`, when `::accept` returns `re`. -/
def onAccept (s : AcceptingServer κ) (re : Int32) : Except Fault (AcceptingServer κ) := do
  let clientFd := s.acceptor.accept re
  let thread ← s.ioThreadGroup.getIOThread
  let event ← s.fdEventGroup.getFdEvent clientFd
  return s.serve clientFd.toInt.toNat thread event

/-- What the server keeps about its clients, as far as their connections are concerned. -/
def toTcpServer (s : AcceptingServer κ) : TcpServer κ where
  client := s.client.map (·.toAcceptedClient)
  calls := s.calls

/-- A call of `onAccept`, if it returns. -/
def acceptStep (s : AcceptingServer κ) (re : Int32) : Option (AcceptingServer κ) :=
  (s.onAccept re).toOption

/-- The descriptor `onAccept` is given is one. -/
def Succeeds (s : AcceptingServer κ) (re : Int32) : Prop := 0 ≤ (s.acceptor.accept re).toInt

instance (s : AcceptingServer κ) (re : Int32) : Decidable (Succeeds s re) :=
  inferInstanceAs (Decidable (0 ≤ _))

/-- **Accepts that fail leave no trace**: `onAccept` returns with the server as it was, and what a
run comes to is what it comes to without them. -/
structure Intact (s : AcceptingServer κ) (res : List Int32) : Prop where
  unchanged : Along acceptStep (fun s re => ¬ Succeeds s re → s.onAccept re = .ok s) s res
  successful : exec acceptStep s res = exec acceptStep s (res.filter fun re => Succeeds s re)

variable {s s' : AcceptingServer κ} {re : Int32} {res : List Int32} {g : IOThreadGroup}

/-! ## An accept -/

/-- A thread of the group is returned, and the index moves behind it. -/
theorem getIOThread_of_le (hsize : 0 < g.size) (h0 : 0 ≤ g.index) (hle : g.index ≤ g.size) :
    ∃ n, n < g.size ∧ g.getIOThread = .ok (n, { g with index := n + 1 }) := by
  unfold IOThreadGroup.getIOThread
  dsimp only
  split_ifs with hend hin hin
  · exact ⟨0, hsize, rfl⟩
  · omega
  · refine ⟨g.index.toNat, by omega, ?_⟩
    rw [Int.toNat_of_nonneg h0]
  · omega

theorem onAccept_of_ok {thread : ℕ × IOThreadGroup}
    {event : ℕ × Net.FdEventTable (Net.Callback ℕ)}
    (hthread : s.ioThreadGroup.getIOThread = .ok thread)
    (hevent : s.fdEventGroup.getFdEvent (s.acceptor.accept re) = .ok event) :
    s.onAccept re = .ok (s.serve (s.acceptor.accept re).toInt.toNat thread event) := by
  simp only [onAccept, hthread, hevent]
  rfl

/-- A server that has accepted a client has a thread and an `Fd_Event` for it. -/
theorem onAccept_cases (h : s.onAccept re = .ok s') : ∃ thread event,
    s.ioThreadGroup.getIOThread = .ok thread ∧
      s.fdEventGroup.getFdEvent (s.acceptor.accept re) = .ok event ∧
        s' = s.serve (s.acceptor.accept re).toInt.toNat thread event := by
  cases hthread : s.ioThreadGroup.getIOThread with
  | error e =>
    simp only [onAccept, hthread] at h
    cases h
  | ok thread =>
    cases hevent : s.fdEventGroup.getFdEvent (s.acceptor.accept re) with
    | error e =>
      simp only [onAccept, hthread, hevent] at h
      cases h
    | ok event =>
      rw [onAccept_of_ok hthread hevent] at h
      exact ⟨thread, event, rfl, rfl, (Except.ok.inj h).symm⟩

/-- **After an accept that fails, memory outside the group is read.** -/
theorem onAccept_failed (h : ¬ Succeeds s re) : s.onAccept re = .error .outOfBounds := by
  have hevent := s.fdEventGroup.getFdEvent_of_neg (Int.not_le.mp h)
  unfold onAccept IOThreadGroup.getIOThread
  simp only [hevent]
  split_ifs <;> rfl

/-- What a server needs to be able to take clients: a thread, an index that is one of theirs or
their number, and an `FdEventGroup` in order. -/
structure Ready (s : AcceptingServer κ) : Prop where
  threads : 0 < s.ioThreadGroup.size
  index_nonneg : 0 ≤ s.ioThreadGroup.index
  index_le : s.ioThreadGroup.index ≤ s.ioThreadGroup.size
  numbered : s.fdEventGroup.Numbered

/-- **A server that is ready accepts clients**, and is ready again. -/
theorem Ready.onAccept (hI : Ready s) (h : Succeeds s re)
    (hle : (s.acceptor.accept re).toInt ≤ 2 ^ 30) :
    ∃ s', s.onAccept re = .ok s' ∧ Ready s' ∧
      s'.toTcpServer = s.toTcpServer.onAccept (s.acceptor.accept re).toInt.toNat := by
  obtain ⟨n, hn, hthread⟩ := getIOThread_of_le hI.threads hI.index_nonneg hI.index_le
  obtain ⟨a, hevent, -⟩ := hI.numbered.getFdEvent h hle
  refine ⟨_, onAccept_of_ok hthread hevent, ⟨hI.threads, ?_, ?_, ?_⟩, ?_⟩
  · exact Int.natCast_nonneg (n + 1)
  · exact Int.ofNat_le.mpr hn
  · exact (hI.numbered.reserved _).update a fun ev => rfl
  · simp [toTcpServer, serve, TcpServer.onAccept]

/-! ## Runs -/

/-- The acceptor of a server stays. -/
theorem acceptor_acceptStep (h : acceptStep s re = some s') : s'.acceptor = s.acceptor := by
  unfold acceptStep at h
  cases hre : s.onAccept re with
  | error e => simp [hre, Except.toOption] at h
  | ok t =>
    obtain rfl : t = s' := by simpa [hre, Except.toOption] using h
    obtain ⟨thread, event, -, -, rfl⟩ := onAccept_cases hre
    rfl

/-- **A server that is ready takes all clients**, up to the descriptor `2 ^ 30`, in the order they
come. -/
theorem Ready.exec (hI : Ready s) (hfamily : s.acceptor.family = 2)
    (hres : ∀ re ∈ res, 0 ≤ re.toInt ∧ re.toInt ≤ 2 ^ 30) :
    ∃ s', Machine.exec acceptStep s res = some s' ∧ Ready s' ∧
      s'.toTcpServer =
        (res.map fun re => re.toInt.toNat).foldl TcpServer.onAccept s.toTcpServer := by
  induction res generalizing s with
  | nil => exact ⟨s, rfl, hI, rfl⟩
  | cons re res ih =>
    have hre : s.acceptor.accept re = re := if_pos hfamily
    obtain ⟨h, hle⟩ := hres re (List.mem_cons_self ..)
    obtain ⟨t, ht, hIt, hserver⟩ := hI.onAccept (by rwa [Succeeds, hre]) (by rwa [hre])
    have hstep : acceptStep s re = some t := by rw [acceptStep, ht, Except.toOption]
    have hacceptor : t.acceptor.family = 2 := by rw [acceptor_acceptStep hstep, hfamily]
    obtain ⟨s', hs', hI', hrest⟩ := ih hIt hacceptor fun re hmem => hres re (.tail _ hmem)
    refine ⟨s', ?_, hI', ?_⟩
    · rw [exec_cons, hstep, Option.bind_some, hs']
    · rw [hrest, hserver, hre, List.map_cons, List.foldl_cons]

/-- Where no accept fails, none is left out. -/
theorem exec_filter_of_along (h : Along acceptStep Succeeds s res) :
    exec acceptStep s (res.filter fun re => Succeeds s re) = exec acceptStep s res := by
  suffices hall : ∀ t : AcceptingServer κ, t.acceptor = s.acceptor →
      Along acceptStep Succeeds t res →
        exec acceptStep t (res.filter fun re => Succeeds s re) = exec acceptStep t res from
    hall s rfl h
  clear h
  induction res with
  | nil => exact fun _ _ _ => rfl
  | cons re res ih =>
    rintro t ht ⟨hre, hrest⟩
    have hre : Succeeds s re := by rwa [Succeeds, ← ht]
    rw [List.filter_cons_of_pos (by simpa using hre), exec_cons, exec_cons]
    refine Option.bind_congr fun t' ht' => ih t' ?_ (hrest t' ht')
    rw [acceptor_acceptStep ht', ht]

/-- **A run is intact exactly if it comes to no accept that fails.** -/
theorem intact_iff (s : AcceptingServer κ) (res : List Int32) :
    Intact s res ↔ Along acceptStep Succeeds s res := by
  have hstep : ∀ (s : AcceptingServer κ) re,
      (¬ Succeeds s re → s.onAccept re = .ok s) ↔ Succeeds s re := by
    intro s re
    refine ⟨fun h => ?_, fun h hfails => absurd h hfails⟩
    by_contra hfails
    exact absurd ((onAccept_failed hfails).symm.trans (h hfails)) nofun
  have hiff : Along acceptStep (fun s re => ¬ Succeeds s re → s.onAccept re = .ok s) s res ↔
      Along acceptStep Succeeds s res :=
    along_congr trivial (fun s re _ => hstep s re) fun _ _ _ _ _ => trivial
  refine ⟨fun h => hiff.mp h.unchanged, fun h => ⟨hiff.mpr h, (exec_filter_of_along h).symm⟩⟩

/-- The kernel refuses a client to a server with four threads. -/
theorem not_intact_refused :
    ¬ Intact (⟨⟨2⟩, 0, ⟨4, 0⟩, .new, [], []⟩ : AcceptingServer Unit) [-1] := by
  intro h
  have hfails : ¬ Succeeds (⟨⟨2⟩, 0, ⟨4, 0⟩, .new, [], []⟩ : AcceptingServer Unit) (-1) := by decide
  exact absurd ((onAccept_failed hfails).symm.trans (h.unchanged.1 hfails)) nofun

end AcceptingServer

end TalonRPC
