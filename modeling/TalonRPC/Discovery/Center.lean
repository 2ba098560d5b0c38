import TalonRPC.Discovery.Commands
import TalonRPC.Discovery.Lookup
import TalonRPC.Net.Epoll

/-!
# The loop of the service center

The service center waits for its two listening sockets and for the clients that look up names. It
accepts such a client and has it watched; it accepts one that sends a command, receives the command
at once, and answers. The socket of a command is closed only if nothing was received: otherwise it
stays open, and is not watched, so that nothing ever closes it.

Commands and lookups of any clients may follow one another in any order. An answer depends on the
commands handled before it only. But each of them has taken a descriptor for good: a service center
handles no more commands in its life than there are numbers for descriptors, and then accepts no
client of any kind.

## Main definitions

* `CenterSockets`, `Center`: what a service center has open at the start, and its state
* `CenterEvent`, `centerStep`: a turn of the loop, for one of the results of `epoll_wait`
* `CenterSockets.clients`: the clients that look up names
* `commandSockets`: the descriptors of the commands handled in a run
* `AnsweredBy ops name answer`: the answer is the right one after the operations `ops`

## Main results

* `Leaking.step`: every command that is handled takes a descriptor
* `answered_in_turn`: every answer is the one after the commands handled before it
* `descriptors_accounted`: what the descriptors are, and what happens when there are no more
-/

namespace TalonRPC

open Machine Epoll Directory

/-- The sockets a service center listens on, what else it has open from the start, and the bound of
the numbers that the kernel gives to descriptors. -/
structure CenterSockets where
  serverSocket : ℕ
  controlSocket : ℕ
  own : Finset ℕ
  limit : ℕ
  ne : serverSocket ≠ controlSocket
  server_notMem : serverSocket ∉ own
  control_notMem : controlSocket ∉ own
  below : ∀ fd ∈ insert serverSocket (insert controlSocket own), fd < limit

/-- The service center: its map, the descriptors it has open and watches, the commands it has
handled, and its answers to names, each with the number of commands handled before it. -/
structure Center where
  serviceMap : ServiceMap := ∅
  kernel : Kernel Unit
  handled : List ByteString := []
  answered : List (ℕ × ByteString × ByteString) := []

/-- What `epoll_wait` reports: a client to look up names, who is accepted or not, and watched if
that succeeds; a client with a command, who is accepted or not, with what is received; or something
to receive from a client that is watched. Nothing is received if `recv` fails. -/
inductive CenterEvent
  | accept (clientSocket : Option ℕ) (added : Bool)
  | command (clientSocket : Option ℕ) (received : Option ByteString)
  | name (fd : ℕ) (received : Option ByteString)
  deriving DecidableEq, Repr

/-- The number is not in use, and the kernel may give it to a descriptor. -/
def CenterSockets.Free (s : CenterSockets) (kernel : Kernel Unit) (fd : ℕ) : Prop :=
  fd ∉ kernel.opened ∧ fd < s.limit

instance (s : CenterSockets) (kernel : Kernel Unit) (fd : ℕ) : Decidable (s.Free kernel fd) :=
  inferInstanceAs (Decidable (_ ∧ _))

namespace Center

/-- Both sockets are watched. -/
def new (s : CenterSockets) : Center where
  kernel := ((Kernel.unregistered (insert s.serverSocket (insert s.controlSocket s.own))).watch
    s.serverSocket (some ())).watch s.controlSocket (some ())

end Center

/-- A turn of the loop in `main`, if it can happen. There is no state after it where the terminator
is written outside of the buffer: behind 1024 bytes of a command, or where `recv` has failed, since
its result is unsigned then. -/
def centerStep (s : CenterSockets) (st : Center) : CenterEvent → Option Center
  | .accept none _ | .command none _ => some st
  | .accept (some fd) added =>
    if ¬ s.Free st.kernel fd then none
    else
      match if added then (st.kernel.opens fd).epollCtl .add fd () else none with
      | some kernel => some { st with kernel }
      | none => some { st with kernel := (st.kernel.opens fd).close fd }
  | .command (some fd) received =>
    if ¬ s.Free st.kernel fd then none
    else
      match received with
      | none => none
      | some [] => some { st with kernel := (st.kernel.opens fd).close fd }
      | some command =>
        (recvControl st.serviceMap command).map fun result =>
          { st with
            serviceMap := result.1
            kernel := st.kernel.opens fd
            handled := st.handled ++ [command] }
  | .name fd received =>
    if ¬ st.kernel.Registered fd ∨ fd = s.serverSocket ∨ fd = s.controlSocket then none
    else
      match received with
      | none => none
      | some serverName =>
        match query st.serviceMap (recvName serverName) with
        | none => some { st with kernel := st.kernel.close fd }
        | some answer =>
          some { st with answered := st.answered ++ [(st.handled.length, serverName, answer)] }

variable {s : CenterSockets} {st st' : Center} {e : CenterEvent} {fd : ℕ} {kernel : Kernel Unit}

/-! ## What a turn does -/

/-- The clients among the descriptors of a kernel. -/
def CenterSockets.clients (s : CenterSockets) (kernel : Kernel Unit) : Finset ℕ :=
  kernel.opened.filter fun fd =>
    kernel.Registered fd ∧ fd ≠ s.serverSocket ∧ fd ≠ s.controlSocket

/-- The descriptor of a command that is handled. -/
def CenterEvent.socket : CenterEvent → Option ℕ
  | .command (some fd) (some (_ :: _)) => some fd
  | _ => none

/-- The descriptors of the commands that are handled in a run, one after the other. -/
def commandSockets (es : List CenterEvent) : List ℕ := es.filterMap CenterEvent.socket

/-- **What a turn does**: nothing; a client is accepted, or is gone; a command is handled; or a name
is looked up. Only a command keeps a descriptor. -/
inductive Turned (s : CenterSockets) (st : Center) : Option ℕ → Center → Prop
  | unchanged : Turned s st none st
  | accepted (fd : ℕ) (hfree : s.Free st.kernel fd) :
    Turned s st none { st with kernel := (st.kernel.opens fd).watch fd (some ()) }
  | gone (fd : ℕ) (hclient : fd ∈ s.clients st.kernel) :
    Turned s st none { st with kernel := st.kernel.close fd }
  | handled (fd : ℕ) (command : ByteString) (hlength : command.length < 1024)
      (hfree : s.Free st.kernel fd) :
    Turned s st (some fd) { st with
      serviceMap := (control st.serviceMap command).1
      kernel := st.kernel.opens fd
      handled := st.handled ++ [command] }
  | answered (fd : ℕ) (serverName answer : ByteString) (hclient : fd ∈ s.clients st.kernel)
      (hanswer : query st.serviceMap (recvName serverName) = some answer) :
    Turned s st none
      { st with answered := st.answered ++ [(st.handled.length, serverName, answer)] }

/-- A new descriptor that is closed at once leaves all as it was. -/
theorem close_opens (hsound : kernel.Sound) (h : fd ∉ kernel.opened) :
    (kernel.opens fd).close fd = kernel := by
  have hnone : kernel.interest fd = none :=
    Option.not_isSome_iff_eq_none.mp fun hregistered => h (hsound fd hregistered)
  obtain ⟨opened, interest⟩ := kernel
  unfold Kernel.opens Kernel.close
  dsimp only at h hnone ⊢
  rw [Finset.erase_insert h, ← hnone, Function.update_eq_self]

theorem turned (hsound : st.kernel.Sound) (h : centerStep s st e = some st') :
    Turned s st e.socket st' := by
  unfold centerStep at h
  split at h
  · obtain rfl := Option.some.inj h
    exact .unchanged
  · obtain rfl := Option.some.inj h
    exact .unchanged
  · rename_i fd added
    split_ifs at h with hfree hadded
    · have hregistered : ¬ (st.kernel.opens fd).Registered fd := fun hr => hfree.1 (hsound fd hr)
      rw [Kernel.epollCtl_add (Finset.mem_insert_self ..) hregistered] at h
      obtain rfl := Option.some.inj h
      exact .accepted fd hfree
    · rw [close_opens hsound hfree.1] at h
      obtain rfl := Option.some.inj h
      exact .unchanged
  · rename_i fd received
    split_ifs at h with hfree
    split at h
    · cases h
    · rw [close_opens hsound hfree.1] at h
      obtain rfl := Option.some.inj h
      exact .unchanged
    · rename_i command hcommand
      obtain ⟨c, cs, rfl⟩ := List.exists_cons_of_ne_nil fun hnil => hcommand hnil
      obtain ⟨result, hresult, rfl⟩ := Option.map_eq_some_iff.mp h
      rw [recvControl] at hresult
      split_ifs at hresult with hlength
      obtain rfl := Option.some.inj hresult
      exact .handled fd (c :: cs) hlength hfree
  · rename_i fd received
    split_ifs at h with hfd
    push Not at hfd
    have hclient : fd ∈ s.clients st.kernel := Finset.mem_filter.mpr ⟨hsound fd hfd.1, hfd⟩
    split at h
    · cases h
    · rename_i serverName
      split at h
      · obtain rfl := Option.some.inj h
        exact .gone fd hclient
      · rename_i answer hanswer
        obtain rfl := Option.some.inj h
        exact .answered fd serverName answer hclient hanswer

/-! ## What the descriptors are -/

/-- **The descriptors are accounted for**: those that are not watched are the ones the service
center started with, and those `taken` by commands. -/
structure Leaking (s : CenterSockets) (kernel : Kernel Unit) (taken : List ℕ) : Prop where
  sound : kernel.Sound
  below : ∀ fd ∈ kernel.opened, fd < s.limit
  server : kernel.Registered s.serverSocket
  control : kernel.Registered s.controlSocket
  unwatched : ∀ fd, fd ∈ kernel.opened ∧ ¬ kernel.Registered fd ↔ fd ∈ s.own ∨ fd ∈ taken
  nodup : taken.Nodup
  notMem_own : ∀ fd ∈ taken, fd ∉ s.own

variable {taken : List ℕ}

theorem Leaking.ne_of_free (h : Leaking s kernel taken) (hfree : fd ∉ kernel.opened) :
    fd ≠ s.serverSocket ∧ fd ≠ s.controlSocket := by
  constructor
  · rintro rfl
    exact hfree (h.sound _ h.server)
  · rintro rfl
    exact hfree (h.sound _ h.control)

/-- A client is accepted and watched. -/
theorem Leaking.watch (h : Leaking s kernel taken) (hfree : s.Free kernel fd) :
    Leaking s ((kernel.opens fd).watch fd (some ())) taken := by
  obtain ⟨hnot, hlt⟩ := hfree
  obtain ⟨hserver, hcontrol⟩ := h.ne_of_free hnot
  refine ⟨(h.sound.opens fd).watch (Finset.mem_insert_self ..) _, fun n hn => ?_, ?_, ?_,
    fun n => ?_, h.nodup, h.notMem_own⟩
  · rcases Finset.mem_insert.mp hn with rfl | hold
    · exact hlt
    · exact h.below n hold
  · exact (Kernel.registered_watch _ _).mpr (.inr ⟨hserver.symm, h.server⟩)
  · exact (Kernel.registered_watch _ _).mpr (.inr ⟨hcontrol.symm, h.control⟩)
  · rw [← h.unwatched n, Kernel.registered_watch, Kernel.registered_opens, Kernel.opened_watch,
      Kernel.opens, Finset.mem_insert]
    by_cases hn : n = fd
    · subst hn
      simp [hnot]
    · simp [hn]

/-- **The descriptor of a command stays open**, and is not watched. -/
theorem Leaking.handle (h : Leaking s kernel taken) (hfree : s.Free kernel fd) :
    Leaking s (kernel.opens fd) (taken ++ [fd]) := by
  obtain ⟨hnot, hlt⟩ := hfree
  have hregistered : ¬ kernel.Registered fd := fun hr => hnot (h.sound fd hr)
  have hold (n : ℕ) (hn : n ∈ s.own ∨ n ∈ taken) : n ≠ fd := by
    rintro rfl
    exact hnot ((h.unwatched n).mpr hn).1
  refine ⟨h.sound.opens fd, fun n hn => ?_, h.server, h.control, fun n => ?_, ?_, ?_⟩
  · rcases Finset.mem_insert.mp hn with rfl | hold
    · exact hlt
    · exact h.below n hold
  · rw [Kernel.opens, Finset.mem_insert, List.mem_append, List.mem_singleton, ← or_assoc,
      ← h.unwatched n]
    change (n = fd ∨ n ∈ kernel.opened) ∧ ¬ kernel.Registered n ↔ _
    by_cases hn : n = fd
    · subst hn
      simp [hregistered]
    · simp [hn]
  · refine List.nodup_append.mpr ⟨h.nodup, List.nodup_singleton fd, ?_⟩
    intro n hn n' hn'
    obtain rfl := List.mem_singleton.mp hn'
    exact hold n (.inr hn)
  · intro n hn hown
    rcases List.mem_append.mp hn with htaken | hnew
    · exact h.notMem_own n htaken hown
    · exact hold n (.inl hown) (List.mem_singleton.mp hnew)

/-- A client that is watched is gone. -/
theorem Leaking.close (h : Leaking s kernel taken) (hclient : fd ∈ s.clients kernel) :
    Leaking s (kernel.close fd) taken := by
  obtain ⟨hopen, hregistered, hserver, hcontrol⟩ := Finset.mem_filter.mp hclient
  refine ⟨h.sound.close fd, fun n hn => h.below n (Finset.mem_of_mem_erase hn), ?_, ?_,
    fun n => ?_, h.nodup, h.notMem_own⟩
  · exact (Kernel.registered_close _).mpr ⟨hserver.symm, h.server⟩
  · exact (Kernel.registered_close _).mpr ⟨hcontrol.symm, h.control⟩
  · rw [← h.unwatched n, Kernel.registered_close, Kernel.close, Finset.mem_erase]
    by_cases hn : n = fd
    · subst hn
      simp [hregistered]
    · simp [hn]

/-- **What a turn does to the descriptors**: only a command takes one for good. -/
theorem Leaking.step (h : Leaking s st.kernel taken) (hstep : centerStep s st e = some st') :
    Leaking s st'.kernel (taken ++ e.socket.toList) := by
  have hturned := turned h.sound hstep
  generalize e.socket = socket at hturned ⊢
  cases hturned with
  | unchanged | answered => exact (List.append_nil taken).symm ▸ h
  | accepted fd hfree => exact (List.append_nil taken).symm ▸ h.watch hfree
  | gone fd hclient => exact (List.append_nil taken).symm ▸ h.close hclient
  | handled fd command hlength hfree => exact h.handle hfree

theorem leaking_new (s : CenterSockets) : Leaking s (Center.new s).kernel [] := by
  have hregistered : ∀ fd, (Center.new s).kernel.Registered fd ↔
      fd = s.controlSocket ∨ fd = s.serverSocket := by
    intro fd
    simp only [Center.new, Kernel.registered_watch, Option.isSome_some, and_true]
    have hnone : ¬ (Kernel.unregistered (insert s.serverSocket (insert s.controlSocket s.own)) :
      Kernel Unit).Registered fd := nofun
    tauto
  have hopened : (Center.new s).kernel.opened =
      insert s.serverSocket (insert s.controlSocket s.own) := rfl
  refine ⟨fun fd hfd => ?_, s.below, (hregistered _).mpr (.inr rfl), (hregistered _).mpr (.inl rfl),
    fun fd => ?_, List.nodup_nil, nofun⟩
  · rcases (hregistered fd).mp hfd with rfl | rfl
    · exact Finset.mem_insert_of_mem (Finset.mem_insert_self ..)
    · exact Finset.mem_insert_self ..
  · rw [hopened, hregistered, Finset.mem_insert, Finset.mem_insert]
    constructor
    · rintro ⟨rfl | rfl | hown, hnot⟩
      · exact absurd (.inr rfl) hnot
      · exact absurd (.inl rfl) hnot
      · exact .inl hown
    · rintro (hown | hnil)
      · refine ⟨.inr (.inr hown), ?_⟩
        rintro (rfl | rfl)
        · exact s.control_notMem hown
        · exact s.server_notMem hown
      · cases hnil

/-- All descriptors: those of the start, both sockets, the clients, and those of the commands. -/
theorem Leaking.opened_eq (h : Leaking s kernel taken) :
    kernel.opened =
      s.own ∪ {s.serverSocket, s.controlSocket} ∪ s.clients kernel ∪ taken.toFinset := by
  ext fd
  have hunwatched := h.unwatched fd
  have hserver := h.sound _ h.server
  have hcontrol := h.sound _ h.control
  simp only [Finset.mem_union, Finset.mem_insert, Finset.mem_singleton, List.mem_toFinset,
    CenterSockets.clients, Finset.mem_filter]
  constructor
  · intro hopen
    by_cases hregistered : kernel.Registered fd
    · by_cases hsocket : fd = s.serverSocket ∨ fd = s.controlSocket
      · exact .inl (.inl (.inr hsocket))
      · exact .inl (.inr ⟨hopen, hregistered, not_or.mp hsocket⟩)
    · rcases hunwatched.mp ⟨hopen, hregistered⟩ with hown | htaken
      · exact .inl (.inl (.inl hown))
      · exact .inr htaken
  · rintro (((hown | rfl | rfl) | hclient) | htaken)
    · exact (hunwatched.mpr (.inl hown)).1
    · exact hserver
    · exact hcontrol
    · exact hclient.1
    · exact (hunwatched.mpr (.inr htaken)).1

/-- No descriptor is of two kinds. -/
theorem Leaking.disjoint (h : Leaking s kernel taken) :
    [s.own, {s.serverSocket, s.controlSocket}, s.clients kernel,
      taken.toFinset].Pairwise Disjoint := by
  have hunwatched (fd : ℕ) (hfd : fd ∈ s.own ∨ fd ∈ taken) : ¬ kernel.Registered fd :=
    ((h.unwatched fd).mpr hfd).2
  have hsockets (fd : ℕ) (hfd : fd ∈ ({s.serverSocket, s.controlSocket} : Finset ℕ)) :
      kernel.Registered fd := by
    rcases Finset.mem_insert.mp hfd with rfl | hfd
    · exact h.server
    · exact Finset.mem_singleton.mp hfd ▸ h.control
  have hclients (fd : ℕ) (hfd : fd ∈ s.clients kernel) : kernel.Registered fd :=
    (Finset.mem_filter.mp hfd).2.1
  simp only [List.pairwise_cons, List.mem_cons, List.not_mem_nil, or_false, forall_eq_or_imp,
    forall_eq, Finset.disjoint_left, List.mem_toFinset, List.Pairwise.nil, and_true,
    false_imp_iff, implies_true]
  refine ⟨⟨fun fd hown hsocket => ?_, fun fd hown hclient => ?_, fun fd hown htaken => ?_⟩,
    ⟨fun fd hsocket hclient => ?_, fun fd hsocket htaken => ?_⟩, fun fd hclient htaken => ?_⟩
  · exact hunwatched fd (.inl hown) (hsockets fd hsocket)
  · exact hunwatched fd (.inl hown) (hclients fd hclient)
  · exact h.notMem_own fd htaken hown
  · obtain ⟨-, -, hserver, hcontrol⟩ := Finset.mem_filter.mp hclient
    rcases Finset.mem_insert.mp hsocket with rfl | hfd
    · exact hserver rfl
    · exact hcontrol (Finset.mem_singleton.mp hfd)
  · exact hunwatched fd (.inr htaken) (hsockets fd hsocket)
  · exact hunwatched fd (.inr htaken) (hclients fd hclient)

theorem Leaking.card (h : Leaking s kernel taken) :
    kernel.opened.card = s.own.card + 2 + (s.clients kernel).card + taken.length := by
  have hdisjoint := h.disjoint
  simp only [List.pairwise_cons, List.mem_cons, List.not_mem_nil, or_false, forall_eq_or_imp,
    forall_eq] at hdisjoint
  obtain ⟨⟨hsockets, hclients, htaken⟩, ⟨hclients', htaken'⟩, htaken'', -⟩ := hdisjoint
  rw [h.opened_eq, Finset.card_union_of_disjoint, Finset.card_union_of_disjoint,
    Finset.card_union_of_disjoint hsockets, Finset.card_pair s.ne,
    List.toFinset_card_of_nodup h.nodup]
  · exact Finset.disjoint_union_left.mpr ⟨hclients, hclients'⟩
  · exact Finset.disjoint_union_left.mpr
      ⟨Finset.disjoint_union_left.mpr ⟨htaken, htaken'⟩, htaken''⟩

/-! ## What the answers are -/

/-- **The answers are in turn**: the map is that after all commands that have been handled, and each
answer is the one to its name after the commands that had been handled then. -/
structure Answering (st : Center) : Prop where
  serviceMap : st.serviceMap = mapAfter st.handled
  length_lt : ∀ command ∈ st.handled, command.length < 1024
  answered : ∀ k serverName answer, (k, serverName, answer) ∈ st.answered →
    k ≤ st.handled.length ∧
      query (mapAfter (st.handled.take k)) (recvName serverName) = some answer

theorem Answering.step (h : Answering st) (hsound : st.kernel.Sound)
    (hstep : centerStep s st e = some st') : Answering st' := by
  have hturned := turned hsound hstep
  generalize e.socket = socket at hturned
  cases hturned with
  | unchanged => exact h
  | accepted | gone => exact ⟨h.serviceMap, h.length_lt, h.answered⟩
  | handled fd command hlength hfree =>
    refine ⟨?_, fun command' hmem => ?_, fun k serverName answer hmem => ?_⟩
    · dsimp only
      rw [h.serviceMap, mapAfter, mapAfter, List.foldl_append]
      rfl
    · rcases List.mem_append.mp hmem with hold | hnew
      · exact h.length_lt command' hold
      · exact List.mem_singleton.mp hnew ▸ hlength
    · obtain ⟨hk, hquery⟩ := h.answered k serverName answer hmem
      dsimp only
      rw [List.take_append_of_le_length hk, List.length_append]
      exact ⟨hk.trans (Nat.le_add_right ..), hquery⟩
  | answered fd serverName answer hclient hanswer =>
    refine ⟨h.serviceMap, h.length_lt, fun k serverName' answer' hmem => ?_⟩
    rcases List.mem_append.mp hmem with hold | hnew
    · exact h.answered k serverName' answer' hold
    · cases List.mem_singleton.mp hnew
      dsimp only
      rw [List.take_length, ← h.serviceMap]
      exact ⟨le_rfl, hanswer⟩

/-! ## All turns -/

theorem commandSockets_snoc (es : List CenterEvent) (e : CenterEvent) :
    commandSockets (es ++ [e]) = commandSockets es ++ e.socket.toList :=
  List.filterMap_append ..

theorem accounted_of_exec {es : List CenterEvent}
    (h : exec (centerStep s) (Center.new s) es = some st) :
    Leaking s st.kernel (commandSockets es) := by
  refine exec_history (I := fun es st => Leaking s st.kernel (commandSockets es)) (leaking_new s)
    ?_ h
  intro fs st e st' _ hst hstep
  rw [commandSockets_snoc]
  exact hst.step hstep

/-- There is one descriptor for each command. -/
theorem length_commandSockets {es : List CenterEvent}
    (h : exec (centerStep s) (Center.new s) es = some st) :
    (commandSockets es).length = st.handled.length := by
  refine exec_history (I := fun es st => (commandSockets es).length = st.handled.length) rfl ?_ h
  intro fs st e st' hfs hlength hstep
  have hturned := turned (accounted_of_exec hfs).sound hstep
  rw [commandSockets_snoc, List.length_append, hlength]
  generalize e.socket = socket at hturned ⊢
  cases hturned with
  | unchanged | accepted | gone | answered => rfl
  | handled =>
    dsimp only
    rw [List.length_append]
    rfl

theorem answering_of_exec {es : List CenterEvent}
    (h : exec (centerStep s) (Center.new s) es = some st) : Answering st := by
  refine exec_history (I := fun _ st => Answering st) ?_ ?_ h
  · exact ⟨rfl, fun _ hmem => absurd hmem List.not_mem_nil,
      fun _ _ _ hmem => absurd hmem List.not_mem_nil⟩
  · intro fs st e st' hfs hst hstep
    exact hst.step (accounted_of_exec hfs).sound hstep

/-- What a run of the service center answers to a name is what the directory says then. -/
theorem answer_of_exec {es : List CenterEvent} {k : ℕ} {serverName answer : ByteString}
    (h : exec (centerStep s) (Center.new s) es = some st)
    (hmem : (k, serverName, answer) ∈ st.answered) :
    answer = (after ((st.handled.take k).filterMap commandOp)
      (cString (recvName serverName))).getD (ascii "unknown host") := by
  obtain ⟨-, hquery⟩ := (answering_of_exec h).answered k serverName answer hmem
  unfold query at hquery
  split_ifs at hquery with hnil
  rw [lookup_mapAfter] at hquery
  exact (Option.some.inj hquery).symm

/-- **The answer to a name is the right one** after the operations `ops`: the address that the last
effective one on the name has given, or, if the name was never added or was deleted last, that the
host is unknown. -/
inductive AnsweredBy (ops : List (Op ByteString ByteString)) (name : ByteString) :
    ByteString → Prop
  | known (op : Op ByteString ByteString) (addr : ByteString) (hlast : LastEffective ops name op)
      (haddr : op.addr = some addr) : AnsweredBy ops name addr
  | unknown (h : (∀ addr, .add name addr ∉ ops) ∨ LastEffective ops name (.delete name)) :
    AnsweredBy ops name (ascii "unknown host")

theorem answeredBy_after (ops : List (Op ByteString ByteString)) (name : ByteString) :
    AnsweredBy ops name ((after ops name).getD (ascii "unknown host")) := by
  cases hafter : after ops name with
  | none => exact .unknown (after_eq_none_iff.mp hafter)
  | some addr =>
    obtain ⟨op, hlast, haddr⟩ := after_eq_some_iff.mp hafter
    exact .known op addr hlast haddr

/-- **In any run of the service center every answer is the one after the commands handled before
it**, in whatever order its clients come and whatever texts they send. The name that is answered is
what has been received of it, up to its first terminator. -/
theorem answered_in_turn (s : CenterSockets) (es : List CenterEvent)
    (h : exec (centerStep s) (Center.new s) es = some st) :
    ∀ k serverName answer, (k, serverName, answer) ∈ st.answered →
      k ≤ st.handled.length ∧
        AnsweredBy ((st.handled.take k).filterMap commandOp) (cString (recvName serverName))
          answer := by
  intro k serverName answer hmem
  refine ⟨((answering_of_exec h).answered k serverName answer hmem).1, ?_⟩
  rw [answer_of_exec h hmem]
  exact answeredBy_after ..

/-- A service center with room for two more descriptors. -/
def smallCenter : CenterSockets where
  serverSocket := 3
  controlSocket := 4
  own := {0, 1, 2, 5}
  limit := 8
  ne := by decide
  server_notMem := by decide
  control_notMem := by decide
  below := by decide

/-- A service is added, and a client looks it up. -/
def smallRun : List CenterEvent :=
  [.accept (some 6) true,
    .command (some 7)
      (some (RuntimeCommand.addService (ascii "A.f") (ascii "10.0.0.7") 80).command),
    .name 6 (some (ascii "A.f")), .name 6 (some [])]

/-- The client of the small service center gets the address that has been added. -/
theorem answered_in_turn_small : ∃ st, exec (centerStep smallCenter) (Center.new smallCenter)
    smallRun = some st ∧ st.answered = [(1, ascii "A.f", ascii "10.0.0.7:80")] ∧
      AnsweredBy [.add (ascii "A.f") (ascii "10.0.0.7:80")] (ascii "A.f")
        (ascii "10.0.0.7:80") := by
  refine ⟨_, rfl, by decide, ?_⟩
  exact (answered_in_turn smallCenter smallRun rfl 1 (ascii "A.f") (ascii "10.0.0.7:80")
    (by decide)).2

/-- **Where the descriptors go**: the open ones are those of the start, the two sockets, the clients
that look up names, and one for each command that has been handled, and nothing ever closes another
one than that of a client. When commands have taken all numbers there are, nothing changes the
service center any more. -/
theorem descriptors_accounted (s : CenterSockets) (es : List CenterEvent)
    (h : exec (centerStep s) (Center.new s) es = some st) :
    st.kernel.opened = s.own ∪ {s.serverSocket, s.controlSocket} ∪ s.clients st.kernel ∪
        (commandSockets es).toFinset ∧
      [s.own, {s.serverSocket, s.controlSocket}, s.clients st.kernel,
        (commandSockets es).toFinset].Pairwise Disjoint ∧
      (commandSockets es).Nodup ∧ (commandSockets es).length = st.handled.length ∧
      (∀ fs st', exec (centerStep s) st fs = some st' →
        s.own ∪ {s.serverSocket, s.controlSocket} ∪ (commandSockets es).toFinset ⊆
          st'.kernel.opened) ∧
      st.kernel.opened.card ≤ s.limit ∧
      (s.own.card + 2 + st.handled.length = s.limit →
        ∀ e st', centerStep s st e = some st' → st' = st) := by
  have haccounted := accounted_of_exec h
  have hlength := length_commandSockets h
  have hcard := haccounted.card
  have hsub : st.kernel.opened ⊆ Finset.range s.limit :=
    fun fd hfd => Finset.mem_range.mpr (haccounted.below fd hfd)
  have hle := Finset.card_le_card hsub
  rw [Finset.card_range] at hle
  refine ⟨haccounted.opened_eq, haccounted.disjoint, haccounted.nodup, hlength,
    fun fs st' hfs => ?_, hle, fun hfull e st' hstep => ?_⟩
  · -- The descriptors of these commands are among those of the whole run.
    have hopened := (accounted_of_exec ((exec_append ..).trans (by rw [h]; exact hfs))).opened_eq
    rw [hopened, commandSockets, commandSockets, List.filterMap_append, List.toFinset_append]
    apply Finset.union_subset_union Finset.subset_union_left Finset.subset_union_left
  · -- All numbers are in use, and none of them by a client.
    have hopened : st.kernel.opened = Finset.range s.limit := by
      apply Finset.eq_of_subset_of_card_le hsub
      rw [Finset.card_range]
      omega
    have hfree (fd : ℕ) : ¬ s.Free st.kernel fd := by
      rintro ⟨hnot, hlt⟩
      rw [hopened] at hnot
      exact hnot (Finset.mem_range.mpr hlt)
    have hclients : s.clients st.kernel = ∅ := Finset.card_eq_zero.mp (by omega)
    have hturned := turned haccounted.sound hstep
    generalize e.socket = socket at hturned
    cases hturned with
    | unchanged => rfl
    | accepted fd hfd | handled fd command hcommand hfd => exact absurd hfd (hfree fd)
    | gone fd hclient | answered fd serverName answer hclient =>
      rw [hclients] at hclient
      cases hclient

/-- After two commands the small service center does nothing any more. -/
theorem descriptors_accounted_full :
    let es : List CenterEvent := [.command (some 6) (some (ascii "lookup")),
      .command (some 7) (some (ascii "lookup"))]
    ∃ st, exec (centerStep smallCenter) (Center.new smallCenter) es = some st ∧
      st.kernel.opened = smallCenter.own ∪ {3, 4} ∪ smallCenter.clients st.kernel ∪ {6, 7} ∧
      ∀ e st', centerStep smallCenter st e = some st' → st' = st := by
  intro es
  obtain ⟨hopened, -, -, -, -, -, hfull⟩ := descriptors_accounted smallCenter es rfl
  exact ⟨_, rfl, hopened, hfull rfl⟩

end TalonRPC
