import TalonRPC.Discovery.Commands

/-!
# The messages of a runtime command

A `Runtime_Command` sends a command to the service center and makes a message of what it reads back.
The message says that the command has succeeded as soon as something could be read. The reply to a
lookup has a line for each service; it is read into a buffer of a fixed size.

## Main definitions

* `RcMessage`, `toCommand`: the message of a call, from what its system calls return
* `Performed`: the service center has made the change
* `Truthful`: the message says that it has succeeded exactly if the change was made
* `Performable`: the command can be sent as text, and its service is there
* `Complete`: a lookup gives a line for each service, in the order of the names

## Main results

* `toCommand_of_succeeds`: a call whose system calls succeed has succeeded
* `truthful_iff`: the message is truthful exactly if the command is performable
* `complete_iff`: a lookup is complete exactly if its lines leave room for the terminator
-/

namespace TalonRPC

open Machine

/-- `RC_Message`. -/
structure RcMessage where
  info : ByteString := []
  isSuccess : Bool := false
  deriving DecidableEq, Repr

/-- What the system calls of `to_command` return, and the bytes that `read` stores, if it does not
fail. -/
structure SocketCalls where
  socket : ℤ
  connect : ℤ
  write : ℤ
  read : Option ByteString
  deriving DecidableEq, Repr

/-- `Runtime_Command::to_command`. The terminator is written behind what has been read, and must not
be written past the end of the buffer. -/
def toCommand (calls : SocketCalls) (message : RcMessage) : Option RcMessage :=
  if calls.socket = -1 then some { message with info := ascii "socket error" }
  else if calls.connect ≠ 0 then some { message with info := ascii "connect error" }
  else if calls.write < 0 then some { message with info := ascii "write error" }
  else
    match calls.read with
    | none => some { message with info := ascii "read error" }
    | some buff =>
      if buff.length < 1024 then some { message with info := cString buff, isSuccess := true }
      else none

/-- The system calls succeed: the command is written, and what is read is of the reply. -/
structure SocketCalls.Succeeds (calls : SocketCalls) (command reply : ByteString) : Prop where
  socket : calls.socket ≠ -1
  connect : calls.connect = 0
  write : calls.write = command.length
  read : ∃ buff, calls.read = some buff ∧ buff ≠ [] ∧ buff <+: reply ∧ buff.length ≤ 1024

/-- **The service center has made the change** that the call asks for. -/
def Performed (before after : ServiceMap) : RuntimeCommand → Prop
  | .addService serviceName ip port => ∀ name,
    after.lookup name = if name = serviceName then some (addrText ip port) else before.lookup name
  | .modifyService serviceName ip port => serviceName ∈ before ∧ ∀ name,
    after.lookup name = if name = serviceName then some (addrText ip port) else before.lookup name
  | .deleteService serviceName => serviceName ∈ before ∧ ∀ name,
    after.lookup name = if name = serviceName then none else before.lookup name

/-- **The message is truthful**: whatever its system calls return, if they succeed, it says that the
call has succeeded exactly if the change was made, and not if the service center answers that there
is no such service or command; then the map is as before. -/
def Truthful (serviceMap : ServiceMap) (c : RuntimeCommand) : Prop :=
  ∃ serviceMap' reply, recvControl serviceMap c.command = some (serviceMap', some reply) ∧
    ∀ calls : SocketCalls, calls.Succeeds c.command reply →
      ∃ message, toCommand calls {} = some message ∧
        (message.isSuccess = true ↔ Performed serviceMap serviceMap' c) ∧
        (reply = ascii "service not exist" ∨ reply = ascii "unkown command" →
          message.isSuccess = false ∧ serviceMap' = serviceMap)

/-- The call adds a service. -/
def RuntimeCommand.Adds : RuntimeCommand → Prop
  | .addService .. => True
  | _ => False

instance : DecidablePred RuntimeCommand.Adds
  | .addService .. => .isTrue trivial
  | .modifyService .. => .isFalse id
  | .deleteService .. => .isFalse id

/-- The command fits into the buffer of the service center, has no terminator, and no space in the
name of its service; and the service is there, if it is not to be added. -/
structure Performable (serviceMap : ServiceMap) (c : RuntimeCommand) : Prop where
  length_lt : c.command.length < 1024
  nul : 0 ∉ c.command
  space : 0x20 ∉ c.serviceName
  mem : c.Adds ∨ c.serviceName ∈ serviceMap

instance (serviceMap : ServiceMap) (c : RuntimeCommand) : Decidable (Performable serviceMap c) :=
  decidable_of_iff (c.command.length < 1024 ∧ 0 ∉ c.command ∧ 0x20 ∉ c.serviceName ∧
      (c.Adds ∨ c.serviceName ∈ serviceMap))
    ⟨fun ⟨h₁, h₂, h₃, h₄⟩ => ⟨h₁, h₂, h₃, h₄⟩, fun ⟨h₁, h₂, h₃, h₄⟩ => ⟨h₁, h₂, h₃, h₄⟩⟩

/-- The lines of the services, in the order of their names. -/
def IsListing (serviceMap : ServiceMap) (info : ByteString) : Prop :=
  ∃ services : List (ByteString × ByteString),
    services.Pairwise (fun i j => i.1 < j.1) ∧
    (∀ name addr, (name, addr) ∈ services ↔ serviceMap.lookup name = some addr) ∧
    info = services.flatMap fun i => i.1 ++ ascii " " ++ i.2 ++ ascii "\n"

/-- The bytes of the lines of all services. -/
def linesLength (serviceMap : ServiceMap) : ℕ :=
  (serviceMap.entries.map fun i => i.1.length + i.2.length + 2).sum

/-- **A lookup is complete**: if its system calls succeed, and its read returns as much of the reply
as fits into the buffer, the message has a line for each service. -/
def Complete (serviceMap : ServiceMap) : Prop :=
  ∃ serviceMap' reply, recvControl serviceMap (ascii "lookup") = some (serviceMap', some reply) ∧
    ∀ calls : SocketCalls, calls.Succeeds (ascii "lookup") reply →
      calls.read = some (reply.take 1024) →
        ∃ message, toCommand calls {} = some message ∧ IsListing serviceMap message.info

variable {serviceMap serviceMap' : ServiceMap} {calls : SocketCalls}
  {serviceName ip command reply s front : ByteString} {port : ℤ} {c : RuntimeCommand}

/-! ## The message -/

/-- **A call whose system calls succeed has succeeded**, whatever the service center has answered,
if what is read leaves room for the terminator. -/
theorem toCommand_of_succeeds {buff : ByteString} (h : calls.Succeeds command reply)
    (hread : calls.read = some buff) :
    toCommand calls {} = if buff.length < 1024 then some ⟨cString buff, true⟩ else none := by
  have hwrite : ¬ calls.write < 0 := by
    rw [h.write]
    omega
  rw [toCommand, if_neg h.socket, if_neg (not_not.mpr h.connect), if_neg hwrite, hread]

/-- The calls that succeed and read as much as fits. -/
theorem exists_succeeds (command : ByteString) (hreply : reply ≠ []) :
    ∃ calls : SocketCalls, calls.Succeeds command reply ∧
      calls.read = some (reply.take 1024) := by
  have hsocket : (3 : ℤ) ≠ -1 := by decide
  refine ⟨⟨3, 0, command.length, some (reply.take 1024)⟩, ⟨hsocket, rfl, rfl, _, rfl, ?_,
    List.take_prefix .., ?_⟩, rfl⟩
  · simpa using hreply
  · exact List.length_take_le ..

/-- The service center always answers with something. -/
theorem reply_ne_nil (h : (control serviceMap s).2 = some reply) : reply ≠ [] := by
  have hnotExist : ascii "service not exist" ≠ [] := by decide
  unfold control at h
  dsimp only at h
  split_ifs at h with hnil hadd hdelete hmem hlookup hempty hmodify hmem
  all_goals obtain rfl := Option.some.inj h
  · decide
  · decide
  · exact hnotExist
  · decide
  · exact List.ne_nil_of_mem (lineEnd_mem_listing hempty)
  · decide
  · exact hnotExist
  · decide

/-! ## Truthful messages -/

/-- A change that is made is reported. -/
theorem truthful_of_performed
    (hrecv : recvControl serviceMap c.command = some (serviceMap', some reply))
    (hperformed : Performed serviceMap serviceMap' c) (hreply : reply ∈ successMessages) :
    Truthful serviceMap c := by
  have hsuccess : ∀ message ∈ successMessages, message.length < 1024 ∧
      ¬ (message = ascii "service not exist" ∨ message = ascii "unkown command") := by
    decide
  obtain ⟨hlength, hnot⟩ := hsuccess reply hreply
  refine ⟨serviceMap', reply, hrecv, fun calls hcalls => ?_⟩
  obtain ⟨buff, hread, -, hprefix, -⟩ := hcalls.read
  refine ⟨_, (toCommand_of_succeeds hcalls hread).trans (if_pos ?_), ?_, fun h => absurd h hnot⟩
  · exact hprefix.length_le.trans_lt hlength
  · exact iff_of_true rfl hperformed

/-- A truthful message reports a change that is made. -/
theorem Truthful.performed (h : Truthful serviceMap c) :
    c.command.length < 1024 ∧
      Performed serviceMap (control serviceMap c.command).1 c := by
  obtain ⟨serviceMap', reply, hrecv, hcalls⟩ := h
  rw [recvControl] at hrecv
  split_ifs at hrecv with hlength
  have hcontrol := Option.some.inj hrecv
  obtain ⟨calls, hsucceeds, hread⟩ := exists_succeeds c.command
    (reply_ne_nil (congrArg Prod.snd hcontrol))
  obtain ⟨message, hmessage, hiff, -⟩ := hcalls calls hsucceeds
  rw [toCommand_of_succeeds hsucceeds hread] at hmessage
  split_ifs at hmessage
  obtain rfl := Option.some.inj hmessage
  rw [hcontrol]
  exact ⟨hlength, hiff.mp rfl⟩

/-- A change that is made is one that could be sent as text. -/
theorem Performed.performable (h : Performed serviceMap (control serviceMap c.command).1 c)
    (hplain : Plain serviceMap) (hlength : c.command.length < 1024) :
    Performable serviceMap c := by
  have hplain' : Plain (control serviceMap c.command).1 := hplain.control _
  cases c with
  | addService serviceName ip port =>
    have hlookup := h serviceName
    rw [if_pos rfl] at hlookup
    obtain ⟨hspace, hname, haddr⟩ := hplain' _ _ hlookup
    exact ⟨hlength, nul_notMem_command_iff.mpr ⟨hname, by rintro _ ⟨⟩; exact haddr⟩, hspace,
      .inl trivial⟩
  | modifyService serviceName ip port =>
    have hlookup := h.2 serviceName
    rw [if_pos rfl] at hlookup
    obtain ⟨hspace, hname, haddr⟩ := hplain' _ _ hlookup
    exact ⟨hlength, nul_notMem_command_iff.mpr ⟨hname, by rintro _ ⟨⟩; exact haddr⟩, hspace,
      .inr h.1⟩
  | deleteService serviceName =>
    obtain ⟨addr, hlookup⟩ := Option.isSome_iff_exists.mp (AList.lookup_isSome.mpr h.1)
    obtain ⟨hspace, hname, -⟩ := hplain _ _ hlookup
    exact ⟨hlength, nul_notMem_command_iff.mpr ⟨hname, nofun⟩, hspace, .inr h.1⟩

theorem lookup_insert_eq (name addr name' : ByteString) :
    (serviceMap.insert name addr).lookup name' =
      if name' = name then some addr else serviceMap.lookup name' := by
  split_ifs with h
  · rw [h, AList.lookup_insert]
  · rw [AList.lookup_insert_ne h]

theorem lookup_erase_eq (name name' : ByteString) :
    (serviceMap.erase name).lookup name' =
      if name' = name then none else serviceMap.lookup name' := by
  split_ifs with h
  · rw [h, AList.lookup_erase]
  · rw [AList.lookup_erase_ne h]

/-- A change that can be sent as text is made, and reported. -/
theorem Performable.truthful (h : Performable serviceMap c) : Truthful serviceMap c := by
  have hrecv := recvControl_eq serviceMap h.length_lt
  cases c with
  | addService serviceName ip port =>
    rw [control_command_add h.nul h.space] at hrecv
    refine truthful_of_performed hrecv (fun name => lookup_insert_eq ..) ?_
    simp [successMessages]
  | modifyService serviceName ip port =>
    have hmem : serviceName ∈ serviceMap := h.mem.resolve_left id
    rw [control_command_modify h.nul h.space, if_neg (not_not.mpr hmem)] at hrecv
    refine truthful_of_performed hrecv ⟨hmem, fun name => lookup_insert_eq ..⟩ ?_
    simp [successMessages]
  | deleteService serviceName =>
    have hmem : serviceName ∈ serviceMap := h.mem.resolve_left id
    rw [control_command_delete h.nul, if_neg (not_not.mpr hmem)] at hrecv
    refine truthful_of_performed hrecv ⟨hmem, fun name => lookup_erase_eq ..⟩ ?_
    simp [successMessages]

/-- **The message is truthful** exactly if the command is performable. -/
theorem truthful_iff (serviceMap : ServiceMap) (hreached : Reached serviceMap)
    (c : RuntimeCommand) : Truthful serviceMap c ↔ Performable serviceMap c := by
  refine ⟨fun h => ?_, Performable.truthful⟩
  obtain ⟨hlength, hperformed⟩ := h.performed
  exact hperformed.performable hreached.plain hlength

/-- A service center to which one service has been added. -/
def oneService : ServiceMap :=
  (control ∅ (RuntimeCommand.addService (ascii "Order.makeOrder") (ascii "127.0.0.1")
    12345).command).1

theorem reached_oneService : Reached oneService := reached_empty.control (by decide)

/-- The service is moved. -/
theorem truthful_iff_modified :
    Truthful oneService (.modifyService (ascii "Order.makeOrder") (ascii "10.0.0.7") 80) :=
  (truthful_iff oneService reached_oneService _).mpr (by decide)

/-- **The deletion of a service that is not there is a success**, by its message. -/
theorem not_truthful_deleted : ¬ ∀ serviceMap : ServiceMap, Reached serviceMap →
    ∀ c : RuntimeCommand, Truthful serviceMap c := by
  intro h
  obtain ⟨-, hperformed⟩ := (h ∅ reached_empty (.deleteService (ascii "Stock.query"))).performed
  exact absurd hperformed.1 (AList.notMem_empty _)

/-! ## Lookups -/

theorem control_lookup (h : serviceMap.entries ≠ []) :
    control serviceMap (ascii "lookup") = (serviceMap, some (listing serviceMap)) := by
  have hnul : cString (ascii "lookup") = ascii "lookup" := cString_of_nul (by decide)
  have hword : untilSpace (ascii "lookup") = ascii "lookup" := by decide
  have hadd : ascii "lookup" ≠ ascii "add" := by decide
  have hdelete : ascii "lookup" ≠ ascii "delete" := by decide
  have hne : ascii "lookup" ≠ [] := by decide
  unfold control
  dsimp only
  rw [hnul, hword, if_neg hne, if_neg hadd, if_neg hdelete, if_pos rfl, if_neg h]
  rfl

theorem length_listing (serviceMap : ServiceMap) :
    (listing serviceMap).length = linesLength serviceMap := by
  have hspace : (ascii " ").length = 1 := by decide
  have hend : (ascii "\n").length = 1 := by decide
  have hperm := List.mergeSort_perm serviceMap.entries fun i j => i.1 ≤ j.1
  rw [linesLength, ← (hperm.map _).sum_nat, listing, List.length_flatMap]
  congr 1
  apply List.map_congr_left
  intro i _
  simp only [List.length_append, hspace, hend]
  omega

theorem nul_notMem_listing (h : Plain serviceMap) : 0 ∉ listing serviceMap := by
  have hspace : 0 ∉ ascii " " := by decide
  have hend : 0 ∉ ascii "\n" := by decide
  intro hmem
  obtain ⟨⟨name, addr⟩, hi, hline⟩ := List.mem_flatMap.mp hmem
  rw [List.mem_mergeSort] at hi
  obtain ⟨-, hname, haddr⟩ := h name addr (AList.mem_lookup_iff.mpr hi)
  simp [hname, haddr, hspace, hend] at hline

/-- **The listing has a line for each service**, in the order of their names. -/
theorem isListing_listing (serviceMap : ServiceMap) :
    IsListing serviceMap (listing serviceMap) := by
  set entries := serviceMap.entries.mergeSort fun i j => i.1 ≤ j.1 with hentries
  have hperm : entries.Perm serviceMap.entries := List.mergeSort_perm ..
  have hle : entries.Pairwise fun i j => i.1 ≤ j.1 := by
    have hsorted : entries.Pairwise fun i j => decide (i.1 ≤ j.1) = true := by
      apply List.pairwise_mergeSort
      · intro i j k hij hjk
        simp only [decide_eq_true_eq] at hij hjk ⊢
        exact List.le_trans hij hjk
      · intro i j
        simpa using List.le_total i.1 j.1
    simpa using hsorted
  have hne : entries.Pairwise fun i j => i.1 ≠ j.1 := by
    have hnodup : (entries.map Sigma.fst).Nodup :=
      ((hperm.map _).nodup_iff).mpr serviceMap.nodupKeys
    exact List.pairwise_map.mp hnodup
  refine ⟨entries.map fun i => (i.1, i.2), ?_, fun name addr => ?_, ?_⟩
  · rw [List.pairwise_map]
    exact (hle.and hne).imp fun h => Std.lt_of_le_of_ne h.1 h.2
  · rw [← Option.mem_def, AList.mem_lookup_iff, ← hperm.mem_iff]
    simp
  · rw [List.flatMap_map]
    rfl

/-- **A lookup is complete** exactly if its lines leave room for the terminator. -/
theorem complete_iff_linesLength (hplain : Plain serviceMap) (hne : serviceMap.entries ≠ []) :
    Complete serviceMap ↔ linesLength serviceMap < 1024 := by
  have hlookup : (ascii "lookup").length < 1024 := by decide
  have hrecv := recvControl_eq serviceMap hlookup
  rw [control_lookup hne] at hrecv
  rw [← length_listing]
  constructor
  · rintro ⟨serviceMap', reply, hrecv', hcalls⟩
    obtain ⟨rfl, hreply⟩ := Prod.mk.inj (Option.some.inj (hrecv.symm.trans hrecv'))
    obtain rfl := Option.some.inj hreply
    obtain ⟨calls, hsucceeds, hread⟩ := exists_succeeds (ascii "lookup")
      (List.ne_nil_of_mem (lineEnd_mem_listing hne))
    obtain ⟨message, hmessage, -⟩ := hcalls calls hsucceeds hread
    -- A full buffer has no room for the terminator.
    rw [toCommand_of_succeeds hsucceeds hread] at hmessage
    split_ifs at hmessage with hlength
    rw [List.length_take] at hlength
    omega
  · intro hlength
    refine ⟨serviceMap, listing serviceMap, hrecv, fun calls hsucceeds hread => ?_⟩
    rw [List.take_of_length_le hlength.le] at hread
    refine ⟨_, (toCommand_of_succeeds hsucceeds hread).trans (if_pos hlength), ?_⟩
    dsimp only
    rw [cString_of_nul (nul_notMem_listing hplain)]
    exact isListing_listing serviceMap

/-- **A lookup is complete**, after any commands, exactly if its lines leave room for the
terminator. -/
theorem complete_iff (serviceMap : ServiceMap) (hreached : Reached serviceMap)
    (hne : serviceMap.entries ≠ []) : Complete serviceMap ↔ linesLength serviceMap < 1024 :=
  complete_iff_linesLength hreached.plain hne

theorem complete_iff_oneService : Complete oneService :=
  (complete_iff oneService reached_oneService (by decide)).mpr (by decide)

/-- **The lines of two services with long addresses** do not fit into the buffer. -/
theorem not_complete_long : ¬ ∀ serviceMap : ServiceMap, Reached serviceMap →
    serviceMap.entries ≠ [] → Complete serviceMap := by
  intro h
  let long : ByteString := List.replicate 600 0x31
  let serviceMap : ServiceMap :=
    (control (control ∅ (ascii "add a " ++ long)).1 (ascii "add b " ++ long)).1
  have hreached : Reached serviceMap :=
    (reached_empty.control (by decide +kernel)).control (by decide +kernel)
  have hne : serviceMap.entries ≠ [] := by decide
  have hlength : linesLength serviceMap = 1206 := by decide +kernel
  have hlt := (complete_iff_linesLength hreached.plain hne).mp (h serviceMap hreached hne)
  omega

end TalonRPC
