import TalonRPC.Discovery.Commands
import TalonRPC.Discovery.Directory

/-!
# Looking up a service

The service center is a directory: after any texts, it answers to a name with the address that the
last effective one of them gave. If these are the texts of calls, the address is one in text, and
from the text the channel gets the address back.

## Main definitions

* `commandOp received`: the operation on the directory that a text stands for
* `mapAfter commands`, `serve cmds`: the map of the service center after texts, or after calls
* `AnswersFor cmds serviceName answer`: the answer is the right one after `cmds`

## Main results

* `lookup_mapAfter`: the map of the service center refines the directory
* `commandOp_command`: the text of a call stands for the operation of the call
* `query_serve`: the service center answers rightly, whatever the commands on other names
-/

namespace TalonRPC

open Directory

/-- The operation on the directory that a call stands for. -/
def RuntimeCommand.op : RuntimeCommand → Op ByteString (ByteString × ℤ)
  | .addService serviceName ip port => .add serviceName (ip, port)
  | .modifyService serviceName ip port => .modify serviceName (ip, port)
  | .deleteService serviceName => .delete serviceName

/-- The operation on the directory that any text stands for, if it stands for one. -/
def commandOp (received : ByteString) : Option (Op ByteString ByteString) :=
  let command := cString received
  let content := behindSpace command
  if untilSpace command = ascii "add" then
    some (.add (untilSpace content) (behindSpace content))
  else if untilSpace command = ascii "modify" then
    some (.modify (untilSpace content) (behindSpace content))
  else if untilSpace command = ascii "delete" then some (.delete content)
  else none

/-- The map of the service center after any texts, one after the other. -/
def mapAfter (commands : List ByteString) : ServiceMap :=
  commands.foldl (fun serviceMap command => (control serviceMap command).1) ∅

/-- The map of the service center after the commands `cmds`, one after the other. -/
def serve (cmds : List RuntimeCommand) : ServiceMap :=
  cmds.foldl (fun serviceMap c => (control serviceMap c.command).1) ∅

/-- The last command on the service that had an effect stands for `op`. -/
def LastCommand (cmds : List RuntimeCommand) (serviceName : ByteString)
    (op : Op ByteString (ByteString × ℤ)) : Prop :=
  LastEffective (cmds.map RuntimeCommand.op) serviceName op

/-- **The answer is the right one** after the commands `cmds`: the host is unknown if the service
was never added or was deleted last, and otherwise the answer is an address, from which the channel
gets the ip and the port that were given last. -/
structure AnswersFor (cmds : List RuntimeCommand) (serviceName answer : ByteString) : Prop where
  unknown : answer = ascii "unknown host" ↔
    (∀ ip port, .addService serviceName ip port ∉ cmds) ∨
      LastCommand cmds serviceName (.delete serviceName)
  known : answer ≠ ascii "unknown host" → IPNetAddr.checkValid answer = true ∧
    ∃ op ip port, LastCommand cmds serviceName op ∧ op.addr = some (ip, port) ∧
      ∀ stubs, ∃ addr, findAddr stubs answer = some addr ∧ addr.ip = ip ∧
        (addr.port.toNat : ℤ) = port

/-! ## The map is a directory -/

section Refinement

variable {serviceMap : ServiceMap} {d : ByteString → Option ByteString} {name received : ByteString}

/-- The map holds what the directory says. -/
def Refines (serviceMap : ServiceMap) (d : ByteString → Option ByteString) : Prop :=
  ∀ name, serviceMap.lookup name = d name

/-- A name is in the map if it is in the directory. -/
theorem Refines.mem_iff (h : Refines serviceMap d) : name ∈ serviceMap ↔ (d name).isSome := by
  rw [← AList.lookup_isSome, h name]

theorem Refines.insert (h : Refines serviceMap d) (name addr : ByteString) :
    Refines (serviceMap.insert name addr) (Function.update d name (some addr)) := by
  intro name'
  by_cases hname : name' = name
  · subst hname
    rw [AList.lookup_insert, Function.update_self]
  · rw [AList.lookup_insert_ne hname, Function.update_of_ne hname, h name']

theorem Refines.erase (h : Refines serviceMap d) (name : ByteString) :
    Refines (serviceMap.erase name) (Function.update d name none) := by
  intro name'
  by_cases hname : name' = name
  · subst hname
    rw [AList.lookup_erase, Function.update_self]
  · rw [AList.lookup_erase_ne hname, Function.update_of_ne hname, h name']

/-- **A text does to the map what its operation does to the directory.** -/
theorem Refines.control (h : Refines serviceMap d) (received : ByteString) :
    Refines (control serviceMap received).1 ((commandOp received).toList.foldl apply d) := by
  obtain ⟨m, reply, heq, hcontrolled⟩ := exists_controlled serviceMap received
  rw [heq, commandOp]
  cases hcontrolled with
  | added hword =>
    rw [if_pos hword]
    exact h.insert _ _
  | modified hword hmem =>
    rw [if_neg (hword ▸ modify_ne_add), if_pos hword]
    dsimp only [Option.toList, List.foldl, apply]
    rw [if_pos (h.mem_iff.mp hmem)]
    exact h.insert _ _
  | deleted hword hmem =>
    rw [if_neg (hword ▸ delete_ne_add), if_neg (hword ▸ delete_ne_modify), if_pos hword]
    exact h.erase _
  | unheeded reply hunheeded hreply =>
    rw [if_neg hunheeded.add]
    split_ifs with hword hword
    · -- A name that is not there is not modified in the directory either.
      dsimp only [Option.toList, List.foldl, apply]
      rw [if_neg fun hthere => hunheeded.modify hword (h.mem_iff.mpr hthere)]
      exact h
    · -- Nothing is deleted from the directory either.
      have hnone : d (behindSpace (cString received)) = none := by
        rw [← Option.not_isSome_iff_eq_none, ← h.mem_iff]
        exact hunheeded.delete hword
      dsimp only [Option.toList, List.foldl, apply]
      rw [← hnone, Function.update_eq_self]
      exact h
    · exact h

/-- **The service center is a directory**, whatever texts it receives. -/
theorem lookup_mapAfter (commands : List ByteString) :
    Refines (mapAfter commands) (after (commands.filterMap commandOp)) := by
  induction commands using List.reverseRecOn with
  | nil => exact fun _ => rfl
  | append_singleton commands command ih =>
    rw [List.filterMap_append, after, List.foldl_append, mapAfter, List.foldl_append]
    exact ih.control command

/-- The address in a text is a part of the text. -/
theorem length_addr_le {op : Op ByteString ByteString} {addr : ByteString}
    (h : commandOp received = some op) (haddr : op.addr = some addr) :
    addr.length ≤ received.length := by
  have hbehind (s : ByteString) : (behindSpace s).length ≤ s.length := by
    unfold behindSpace
    split_ifs
    · exact (List.drop_sublist ..).length_le.trans (List.dropWhile_sublist _).length_le
    · exact le_rfl
  have hlength : (behindSpace (behindSpace (cString received))).length ≤ received.length :=
    calc (behindSpace (behindSpace (cString received))).length
      _ ≤ (behindSpace (cString received)).length := hbehind _
      _ ≤ (cString received).length := hbehind _
      _ ≤ received.length := (List.takeWhile_sublist _).length_le
  unfold commandOp at h
  dsimp only at h
  split_ifs at h with hadd hmodify hdelete
  · cases h
    cases haddr
    exact hlength
  · cases h
    cases haddr
    exact hlength
  · cases h
    cases haddr

end Refinement

section Calls

variable {cmds : List RuntimeCommand} {c : RuntimeCommand}

theorem op_name (c : RuntimeCommand) : c.op.name = c.serviceName := by
  cases c <;> rfl

theorem op_addr (c : RuntimeCommand) : c.op.addr = c.addr := by
  cases c <;> rfl

/-- **The text of a call stands for the operation of the call**, with the address as text. -/
theorem commandOp_command (hc : c.Valid) :
    commandOp c.command = some (c.op.map fun a => addrText a.1 a.2) := by
  unfold commandOp
  rw [cString_of_nul (nul_notMem_command hc)]
  cases c with
  | addService serviceName ip port =>
    have hspace : 0x20 ∉ serviceName := hc.isName.space
    dsimp only [RuntimeCommand.command]
    rw [untilSpace_append space_notMem_add, behindSpace_append space_notMem_add,
      untilSpace_append hspace, behindSpace_append hspace, if_pos rfl]
    rfl
  | modifyService serviceName ip port =>
    have hspace : 0x20 ∉ serviceName := hc.isName.space
    dsimp only [RuntimeCommand.command]
    rw [untilSpace_append space_notMem_modify, behindSpace_append space_notMem_modify,
      untilSpace_append hspace, behindSpace_append hspace, if_neg modify_ne_add, if_pos rfl]
    rfl
  | deleteService serviceName =>
    dsimp only [RuntimeCommand.command]
    rw [untilSpace_append space_notMem_delete, behindSpace_append space_notMem_delete,
      if_neg delete_ne_add, if_neg delete_ne_modify, if_pos rfl]
    rfl

theorem filterMap_commandOp (hcmds : ∀ c ∈ cmds, c.Valid) :
    (cmds.map RuntimeCommand.command).filterMap commandOp =
      (cmds.map RuntimeCommand.op).map (Op.map fun a => addrText a.1 a.2) := by
  rw [List.filterMap_map, List.map_map, ← List.filterMap_eq_map]
  exact List.filterMap_congr fun c hc => commandOp_command (hcmds c hc)

/-- The map after the texts of calls holds the addresses that the calls have given, as texts. -/
theorem lookup_serve (hcmds : ∀ c ∈ cmds, c.Valid) (serviceName : ByteString) :
    (serve cmds).lookup serviceName =
      (after (cmds.map RuntimeCommand.op) serviceName).map fun a => addrText a.1 a.2 := by
  have hserve : serve cmds = mapAfter (cmds.map RuntimeCommand.command) := by
    rw [serve, mapAfter, List.foldl_map]
  rw [hserve, lookup_mapAfter, filterMap_commandOp hcmds, after_map]

end Calls

/-! ## The answers -/

section Answers

variable {cmds : List RuntimeCommand} {c : RuntimeCommand} {serviceName ip : ByteString} {port : ℤ}

/-- The address a name has is one that could be sent. -/
theorem isAddr_of_after (hcmds : ∀ c ∈ cmds, c.Valid)
    (h : after (cmds.map RuntimeCommand.op) serviceName = some (ip, port)) : IsAddr ip port := by
  obtain ⟨op, hlast, haddr⟩ := after_eq_some_iff.mp h
  obtain ⟨c, hc, rfl⟩ := List.mem_map.mp hlast.mem
  exact (hcmds c hc).isAddr ip port (op_addr c ▸ haddr)

theorem never_added_iff :
    (∀ a, .add serviceName a ∉ cmds.map RuntimeCommand.op) ↔
      ∀ ip port, .addService serviceName ip port ∉ cmds := by
  constructor
  · intro h ip port hmem
    exact h (ip, port) (List.mem_map.mpr ⟨_, hmem, rfl⟩)
  · rintro h ⟨ip, port⟩ hmem
    obtain ⟨c, hc, heq⟩ := List.mem_map.mp hmem
    cases c with
    | addService serviceName' ip' port' =>
      cases heq
      exact h ip port hc
    | modifyService serviceName' ip' port' => cases heq
    | deleteService serviceName' => cases heq

/-- A name that can be added is shorter than what `recv` stores. -/
theorem length_serviceName_lt (hc : c.Valid) : c.serviceName.length < 1023 := by
  have hlt := hc.length_lt
  cases c <;> simp [RuntimeCommand.command, RuntimeCommand.serviceName] at hlt ⊢ <;> omega

theorem after_of_long (hcmds : ∀ c ∈ cmds, c.Valid) (h : 1023 ≤ serviceName.length) :
    after (cmds.map RuntimeCommand.op) serviceName = none := by
  refine after_eq_none_iff.mpr (.inl (never_added_iff.mpr fun ip port hmem => ?_))
  exact absurd (length_serviceName_lt (hcmds _ hmem)) (not_lt.mpr h)

/-- A name that does not fit into the buffer is as unknown as the part of it that does. -/
theorem after_recvName (hcmds : ∀ c ∈ cmds, c.Valid) :
    after (cmds.map RuntimeCommand.op) (recvName serviceName) =
      after (cmds.map RuntimeCommand.op) serviceName := by
  rcases le_or_gt serviceName.length 1023 with hle | hlong
  · rw [recvName, List.take_of_length_le hle]
  · have hlength : (recvName serviceName).length = 1023 := by
      rw [recvName, List.length_take, min_eq_left hlong.le]
    rw [after_of_long hcmds hlong.le, after_of_long hcmds hlength.ge]

/-- **What the service center answers** to a name. -/
theorem query_eq (hcmds : ∀ c ∈ cmds, c.Valid) (hne : serviceName ≠ []) (hnul : 0 ∉ serviceName) :
    query (serve cmds) (recvName serviceName) =
      some (((after (cmds.map RuntimeCommand.op) serviceName).map fun a =>
        addrText a.1 a.2).getD (ascii "unknown host")) := by
  have hne' : recvName serviceName ≠ [] := by
    rw [recvName, Ne, List.take_eq_nil_iff]
    simp [hne]
  have hnul' : 0 ∉ recvName serviceName := fun h => hnul (List.mem_of_mem_take h)
  rw [query, if_neg hne', cString_of_nul hnul', lookup_serve hcmds, after_recvName hcmds]

/-- **The service center answers rightly**, and commands on other names do not change its
answer. -/
theorem query_serve (cmds : List RuntimeCommand) (serviceName : ByteString)
    (hcmds : ∀ c ∈ cmds, c.Valid) (hne : serviceName ≠ []) (hnul : 0 ∉ serviceName) :
    ∃ answer, query (serve cmds) (recvName serviceName) = some answer ∧
      AnswersFor cmds serviceName answer ∧
      ∀ cmds', (∀ c ∈ cmds', c.Valid) →
        cmds'.filter (·.serviceName = serviceName) = cmds.filter (·.serviceName = serviceName) →
          query (serve cmds') (recvName serviceName) = some answer := by
  refine ⟨_, query_eq hcmds hne hnul, ?_, fun cmds' hcmds' hfilter => ?_⟩
  · have hinvalid : IPNetAddr.checkValid (ascii "unknown host") = false := by decide
    cases hafter : after (cmds.map RuntimeCommand.op) serviceName with
    | none =>
      rw [Option.map_none, Option.getD_none]
      refine ⟨iff_of_true rfl ?_, fun h => absurd rfl h⟩
      exact (after_eq_none_iff.mp hafter).imp_left never_added_iff.mp
    | some a =>
      obtain ⟨ip, port⟩ := a
      rw [Option.map_some, Option.getD_some]
      obtain ⟨hvalid, -⟩ := findAddr_addrText (isAddr_of_after hcmds hafter) []
      refine ⟨iff_of_false (fun h => ?_) (fun h => ?_), fun _ => ⟨hvalid, ?_⟩⟩
      · rw [h, hinvalid] at hvalid
        cases hvalid
      · have hnone := after_eq_none_iff.mpr (h.imp_left never_added_iff.mpr)
        cases hafter.symm.trans hnone
      · obtain ⟨op, hlast, haddr⟩ := after_eq_some_iff.mp hafter
        refine ⟨op, ip, port, hlast, haddr, fun stubs => ?_⟩
        exact (findAddr_addrText (isAddr_of_after hcmds hafter) stubs).2
  · have hops : ∀ cs : List RuntimeCommand,
        (cs.map RuntimeCommand.op).filter (·.name = serviceName) =
          (cs.filter (·.serviceName = serviceName)).map RuntimeCommand.op := by
      intro cs
      rw [List.filter_map]
      simp only [Function.comp_def, op_name]
    rw [query_eq hcmds' hne hnul, after_eq_filter, hops, hfilter, ← hops, ← after_eq_filter]

/-- A service is added, another one is deleted, and the first one moves. -/
def orderCommands : List RuntimeCommand :=
  [.addService (ascii "Order.makeOrder") (ascii "127.0.0.1") 12345,
    .deleteService (ascii "Stock.query"),
    .modifyService (ascii "Order.makeOrder") (ascii "10.0.0.7") 80]

theorem query_serve_order :
    ∃ answer, query (serve orderCommands) (recvName (ascii "Order.makeOrder")) = some answer ∧
      AnswersFor orderCommands (ascii "Order.makeOrder") answer ∧
      ∀ cmds', (∀ c ∈ cmds', c.Valid) →
        cmds'.filter (·.serviceName = ascii "Order.makeOrder") =
            orderCommands.filter (·.serviceName = ascii "Order.makeOrder") →
          query (serve cmds') (recvName (ascii "Order.makeOrder")) = some answer :=
  query_serve orderCommands (ascii "Order.makeOrder") (by decide) (by decide)
    (by decide)

example : query (serve orderCommands) (ascii "Order.makeOrder") = some (ascii "10.0.0.7:80") := by
  decide

end Answers

end TalonRPC
