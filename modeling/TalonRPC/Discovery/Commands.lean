import TalonRPC.Discovery.ServiceCenter
import TalonRPC.Machine.Run

/-!
# Malformed commands

The service center takes a command apart at its first space, whether or not there is one: without a
space, the whole text stands for what is behind it. So a command with no operands, or with too many
of them, is carried out like one with other operands.

## Main definitions

* `WellFormed`: the commands with their operands
* `Refused`: the map is as before, and the reply is none of the messages of success
* `Unheeded`: the command does not add, and what it would modify or delete is not in the map
* `Reached`: the maps that texts sent by any clients lead to
* `Plain`: the names in a map have no spaces or terminators, the addresses no terminators

## Main results

* `controlled`: what the service center can do with a command
* `serviceMap_eq_of_notMem`: a command that is not answered with a success changes nothing
* `refused_iff`: a malformed command is refused exactly if it is unheeded
* `Reached.plain`: the maps that are reached are plain
-/

namespace TalonRPC

open Machine

/-- The messages by which the service center says that it has changed the map. -/
def successMessages : List ByteString :=
  [ascii "add service success", ascii "modify service success", ascii "delete service success"]

/-- An operand of a command: it is not empty, and has no space. -/
def IsOperand (s : ByteString) : Prop := s ≠ [] ∧ 0x20 ∉ s

/-- A command with its operands. -/
inductive WellFormed : ByteString → Prop
  | add (name addr : ByteString) (hname : IsOperand name) (haddr : IsOperand addr) :
    WellFormed (ascii "add" ++ 0x20 :: (name ++ 0x20 :: addr))
  | modify (name addr : ByteString) (hname : IsOperand name) (haddr : IsOperand addr) :
    WellFormed (ascii "modify" ++ 0x20 :: (name ++ 0x20 :: addr))
  | delete (name : ByteString) (hname : IsOperand name) :
    WellFormed (ascii "delete" ++ 0x20 :: name)
  | lookup : WellFormed (ascii "lookup")

/-- A text that fits into the buffer with its terminator, and has no other one. -/
structure IsText (s : ByteString) : Prop where
  length_le : s.length ≤ 1023
  nul : 0 ∉ s

instance (s : ByteString) : Decidable (IsText s) :=
  decidable_of_iff (s.length ≤ 1023 ∧ 0 ∉ s) ⟨fun ⟨h₁, h₂⟩ => ⟨h₁, h₂⟩, fun ⟨h₁, h₂⟩ => ⟨h₁, h₂⟩⟩

/-- **The command is refused**: the map is as before, and the reply is none of the messages of
success. -/
structure Refused (serviceMap : ServiceMap) (received : ByteString) : Prop where
  serviceMap_eq : (control serviceMap received).1 = serviceMap
  reply : ∀ message, (control serviceMap received).2 = some message → message ∉ successMessages

/-- The first word is not `add`, and if it is `modify` or `delete`, the name is not in the map. -/
structure Unheeded (serviceMap : ServiceMap) (command : ByteString) : Prop where
  add : untilSpace command ≠ ascii "add"
  modify : untilSpace command = ascii "modify" → untilSpace (behindSpace command) ∉ serviceMap
  delete : untilSpace command = ascii "delete" → behindSpace command ∉ serviceMap

instance (serviceMap : ServiceMap) (command : ByteString) :
    Decidable (Unheeded serviceMap command) :=
  decidable_of_iff (untilSpace command ≠ ascii "add" ∧
      (untilSpace command = ascii "modify" → untilSpace (behindSpace command) ∉ serviceMap) ∧
      (untilSpace command = ascii "delete" → behindSpace command ∉ serviceMap))
    ⟨fun ⟨h₁, h₂, h₃⟩ => ⟨h₁, h₂, h₃⟩, fun ⟨h₁, h₂, h₃⟩ => ⟨h₁, h₂, h₃⟩⟩

/-- The control branch, with its `recv` into a buffer of 1024 bytes. The terminator is written
behind what has been received, and must not be written past the end of the buffer. -/
def recvControl (serviceMap : ServiceMap) (sent : ByteString) :
    Option (ServiceMap × Option ByteString) :=
  if sent.length < 1024 then some (control serviceMap sent) else none

/-- The maps that texts sent by any clients lead to. -/
def Reached (serviceMap : ServiceMap) : Prop :=
  ∃ sent : List ByteString,
    exec (fun m s => (recvControl m s).map Prod.fst) ∅ sent = some serviceMap

/-- No name in the map has a space or a terminator, and no address has a terminator. -/
def Plain (serviceMap : ServiceMap) : Prop :=
  ∀ name addr, serviceMap.lookup name = some addr → 0x20 ∉ name ∧ 0 ∉ name ∧ 0 ∉ addr

variable {serviceMap serviceMap' : ServiceMap} {received command name addr s : ByteString}

/-! ## What a command does -/

/-- What the service center can do: the map after a command, and the reply. -/
inductive Controlled (serviceMap : ServiceMap) (command : ByteString) :
    ServiceMap → Option ByteString → Prop
  | added (hword : untilSpace command = ascii "add") :
    Controlled serviceMap command
      (serviceMap.insert (untilSpace (behindSpace command)) (behindSpace (behindSpace command)))
      (some (ascii "add service success"))
  | modified (hword : untilSpace command = ascii "modify")
      (hmem : untilSpace (behindSpace command) ∈ serviceMap) :
    Controlled serviceMap command
      (serviceMap.insert (untilSpace (behindSpace command)) (behindSpace (behindSpace command)))
      (some (ascii "modify service success"))
  | deleted (hword : untilSpace command = ascii "delete")
      (hmem : behindSpace command ∈ serviceMap) :
    Controlled serviceMap command (serviceMap.erase (behindSpace command))
      (some (ascii "delete service success"))
  | unheeded (reply : Option ByteString) (h : Unheeded serviceMap command)
      (hreply : ∀ message, reply = some message → message ∉ successMessages) :
    Controlled serviceMap command serviceMap reply

/-- The reply to a lookup when there are services. -/
def listing (serviceMap : ServiceMap) : ByteString :=
  (serviceMap.entries.mergeSort fun i j => i.1 ≤ j.1).flatMap fun i =>
    i.1 ++ ascii " " ++ i.2 ++ ascii "\n"

theorem lineEnd_mem_listing (h : serviceMap.entries ≠ []) : 0x0a ∈ listing serviceMap := by
  obtain ⟨i, is, his⟩ := List.exists_cons_of_ne_nil h
  have hi : i ∈ serviceMap.entries.mergeSort fun i j => i.1 ≤ j.1 := by
    rw [List.mem_mergeSort, his]
    exact List.mem_cons_self ..
  have hend : 0x0a ∈ ascii "\n" := by decide
  exact List.mem_flatMap.mpr ⟨i, hi, List.mem_append_right _ hend⟩

/-- A listing has a line end, and no message of success has one. -/
theorem listing_notMem (h : serviceMap.entries ≠ []) : listing serviceMap ∉ successMessages := by
  have hmessages : ∀ message ∈ successMessages, 0x0a ∉ message := by decide
  exact fun hmem => hmessages _ hmem (lineEnd_mem_listing h)

/-- **What the service center can do** with what it has received. -/
theorem controlled (serviceMap : ServiceMap) (received : ByteString) :
    Controlled serviceMap (cString received) (control serviceMap received).1
      (control serviceMap received).2 := by
  have hlookupModify : ascii "lookup" ≠ ascii "modify" := by decide
  have hnotExist : ascii "service not exist" ∉ successMessages := by decide
  unfold control
  dsimp only
  split_ifs with hnil hadd hdelete hmem hlookup hempty hmodify hmem
  · -- Nothing has been received, and the connection is closed.
    subst hnil
    refine .unheeded none ⟨?_, fun h => ?_, fun h => ?_⟩ nofun
    · decide
    · exact absurd h (by decide)
    · exact absurd h (by decide)
  · exact .added hadd
  · exact .deleted hdelete hmem
  · refine .unheeded _ ⟨hadd, fun h => ?_, fun _ => hmem⟩ fun message h => ?_
    · exact absurd (hdelete.symm.trans h) delete_ne_modify
    · obtain rfl := Option.some.inj h
      exact hnotExist
  · refine .unheeded _ ⟨hadd, fun h => ?_, fun h => absurd h hdelete⟩ fun message h => ?_
    · exact absurd (hlookup.symm.trans h) hlookupModify
    · obtain rfl := Option.some.inj h
      decide
  · refine .unheeded _ ⟨hadd, fun h => ?_, fun h => absurd h hdelete⟩ fun message h => ?_
    · exact absurd (hlookup.symm.trans h) hlookupModify
    · obtain rfl := Option.some.inj h
      exact listing_notMem hempty
  · exact .modified hmodify hmem
  · refine .unheeded _ ⟨hadd, fun _ => hmem, fun h => absurd h hdelete⟩ fun message h => ?_
    obtain rfl := Option.some.inj h
    exact hnotExist
  · refine .unheeded _ ⟨hadd, fun h => absurd h hmodify, fun h => absurd h hdelete⟩
      fun message h => ?_
    obtain rfl := Option.some.inj h
    decide

theorem exists_controlled (serviceMap : ServiceMap) (received : ByteString) :
    ∃ serviceMap' reply, control serviceMap received = (serviceMap', reply) ∧
      Controlled serviceMap (cString received) serviceMap' reply :=
  ⟨_, _, rfl, controlled serviceMap received⟩

/-- **Only a success changes the map.** -/
theorem serviceMap_eq_of_notMem {reply : ByteString}
    (hreply : (control serviceMap received).2 = some reply) (h : reply ∉ successMessages) :
    (control serviceMap received).1 = serviceMap := by
  obtain ⟨m, r, heq, hcontrolled⟩ := exists_controlled serviceMap received
  rw [heq] at hreply ⊢
  obtain rfl : r = some reply := hreply
  cases hcontrolled with
  | added | modified | deleted => simp [successMessages] at h
  | unheeded => rfl

/-! ## Malformed commands -/

/-- **A command is refused** exactly if it is unheeded. -/
theorem refused_iff_unheeded (h : IsText received) :
    Refused serviceMap received ↔ Unheeded serviceMap received := by
  obtain ⟨m, reply, heq, hcontrolled⟩ := exists_controlled serviceMap received
  rw [cString_of_nul h.nul] at hcontrolled
  have hsuccess : ∀ message ∈ successMessages, reply = some message →
      ¬ Refused serviceMap received := by
    rintro message hmem rfl hrefused
    exact hrefused.reply message (congrArg Prod.snd heq) hmem
  cases hcontrolled with
  | added hword =>
    refine iff_of_false (hsuccess _ ?_ rfl) fun hunheeded => hunheeded.add hword
    simp [successMessages]
  | modified hword hmem =>
    refine iff_of_false (hsuccess _ ?_ rfl) fun hunheeded => hunheeded.modify hword hmem
    simp [successMessages]
  | deleted hword hmem =>
    refine iff_of_false (hsuccess _ ?_ rfl) fun hunheeded => hunheeded.delete hword hmem
    simp [successMessages]
  | unheeded _ hunheeded hnot =>
    refine iff_of_true ⟨congrArg Prod.fst heq, fun message hmessage => ?_⟩ hunheeded
    rw [heq] at hmessage
    exact hnot message hmessage

/-- **A malformed command is refused** exactly if it is unheeded. -/
theorem refused_iff (serviceMap : ServiceMap) (received : ByteString) (h : IsText received) :
    (¬ WellFormed received → Refused serviceMap received) ↔
      (¬ WellFormed received → Unheeded serviceMap received) :=
  imp_congr_right fun _ => refused_iff_unheeded h

/-- What is behind the first word of a deletion is one operand. -/
theorem WellFormed.isOperand (h : WellFormed command)
    (hword : untilSpace command = ascii "delete") : IsOperand (behindSpace command) := by
  cases h with
  | add name addr =>
    rw [untilSpace_append space_notMem_add] at hword
    exact absurd hword.symm delete_ne_add
  | modify name addr =>
    rw [untilSpace_append space_notMem_modify] at hword
    exact absurd hword.symm delete_ne_modify
  | delete name hname =>
    rw [behindSpace_append space_notMem_delete]
    exact hname
  | lookup => exact absurd hword (by decide)

/-- A deletion of two services that are not there. -/
theorem refused_iff_deleteTwo :
    ¬ WellFormed (ascii "delete a b") ∧ Refused ∅ (ascii "delete a b") := by
  have hmalformed : ¬ WellFormed (ascii "delete a b") := by
    intro h
    have hoperand := h.isOperand (by decide)
    exact hoperand.2 (by decide)
  refine ⟨hmalformed, ?_⟩
  exact (refused_iff ∅ (ascii "delete a b") (by decide)).mpr
    (fun _ => by decide) hmalformed

/-- A command without a space is a lookup. -/
theorem WellFormed.eq_lookup (h : WellFormed command) (hspace : 0x20 ∉ command) :
    command = ascii "lookup" := by
  cases h with
  | add name addr | modify name addr => simp at hspace
  | delete name => simp at hspace
  | lookup => rfl

/-- **A command to add nothing** adds a service of the name `add`. -/
theorem not_refused_add : ¬ ∀ (serviceMap : ServiceMap) (received : ByteString),
    IsText received → ¬ WellFormed received → Refused serviceMap received := by
  intro h
  have hmalformed : ¬ WellFormed (ascii "add") := by
    intro hwell
    have hlookup := hwell.eq_lookup (by decide)
    exact absurd hlookup (by decide)
  have hreply : (control ∅ (ascii "add")).2 = some (ascii "add service success") := by
    decide
  apply (h ∅ (ascii "add") (by decide) hmalformed).reply _ hreply
  simp [successMessages]

/-! ## What is in a map -/

theorem notMem_untilSpace : 0x20 ∉ untilSpace s := by
  intro h
  simpa using List.mem_takeWhile_imp h

theorem nul_notMem_cString : 0 ∉ cString s := by
  intro h
  simpa using List.mem_takeWhile_imp h

theorem mem_of_mem_untilSpace {c : UInt8} (h : c ∈ untilSpace s) : c ∈ s :=
  (List.takeWhile_sublist _).subset h

theorem mem_of_mem_behindSpace {c : UInt8} (h : c ∈ behindSpace s) : c ∈ s := by
  unfold behindSpace at h
  split_ifs at h
  · exact (List.dropWhile_sublist _).subset (List.mem_of_mem_drop h)
  · exact h

theorem Plain.insert (h : Plain serviceMap) (hspace : 0x20 ∉ name) (hname : 0 ∉ name)
    (haddr : 0 ∉ addr) : Plain (serviceMap.insert name addr) := by
  intro name' addr' hlookup
  by_cases heq : name' = name
  · subst heq
    rw [AList.lookup_insert] at hlookup
    obtain rfl := Option.some.inj hlookup
    exact ⟨hspace, hname, haddr⟩
  · rw [AList.lookup_insert_ne heq] at hlookup
    exact h name' addr' hlookup

theorem Plain.erase (h : Plain serviceMap) : Plain (serviceMap.erase name) := by
  intro name' addr' hlookup
  by_cases heq : name' = name
  · subst heq
    rw [AList.lookup_erase] at hlookup
    cases hlookup
  · rw [AList.lookup_erase_ne heq] at hlookup
    exact h name' addr' hlookup

/-- **A command keeps the map plain**, as its text ends at its first terminator. -/
theorem Plain.control (h : Plain serviceMap) (received : ByteString) :
    Plain (control serviceMap received).1 := by
  have hnul : ∀ t : ByteString, (∀ c ∈ t, c ∈ cString received) → 0 ∉ t := fun t ht hmem =>
    nul_notMem_cString (ht 0 hmem)
  obtain ⟨m, reply, heq, hcontrolled⟩ := exists_controlled serviceMap received
  rw [heq]
  cases hcontrolled with
  | added | modified =>
    apply h.insert notMem_untilSpace
    · exact hnul _ fun c hc => mem_of_mem_behindSpace (mem_of_mem_untilSpace hc)
    · exact hnul _ fun c hc => mem_of_mem_behindSpace (mem_of_mem_behindSpace hc)
  | deleted => exact h.erase
  | unheeded => exact h

theorem recvControl_eq (serviceMap : ServiceMap) (h : s.length < 1024) :
    recvControl serviceMap s = some (control serviceMap s) := if_pos h

theorem reached_empty : Reached ∅ := ⟨[], rfl⟩

theorem Reached.control (h : Reached serviceMap) (hlength : s.length < 1024) :
    Reached (control serviceMap s).1 := by
  obtain ⟨sent, hexec⟩ := h
  refine ⟨sent ++ [s], exec_snoc.mpr ⟨serviceMap, hexec, ?_⟩⟩
  rw [recvControl_eq serviceMap hlength]
  rfl

/-- **The maps that are reached are plain.** -/
theorem Reached.plain (h : Reached serviceMap) : Plain serviceMap := by
  obtain ⟨sent, hexec⟩ := h
  have hnew : Plain ∅ := fun name addr hlookup => by
    rw [AList.lookup_empty] at hlookup
    cases hlookup
  refine exec_invariant (fun m s m' hm hstep => ?_) hnew hexec
  obtain ⟨result, hresult, rfl⟩ := Option.map_eq_some_iff.mp hstep
  rw [recvControl] at hresult
  split_ifs at hresult
  obtain rfl := Option.some.inj hresult
  exact hm.control s

end TalonRPC
