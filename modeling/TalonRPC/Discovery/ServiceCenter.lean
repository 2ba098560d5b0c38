import Mathlib.Data.List.AList
import TalonRPC.Bytes.Fields
import TalonRPC.Rpc.Channel
import TalonRPC.Tcp.Addresses

/-!
# The service center

The service center keeps a map from the names of services to their addresses. A `Runtime_Command`
sends it a line of text; it takes the line apart at its first space, and the rest again, and answers
with a message. A channel sends it a name, and gets the address back.

## Main definitions

* `RuntimeCommand`, `RuntimeCommand.command`: the calls that change the map, and their texts
* `control`: what the service center does with a command
* `query`: what it answers to a name

## Main results

* `control_command_add`, `control_command_modify`, `control_command_delete`: what the service center
  does with the texts of the three calls
* `findAddr_addrText`: an address that was written as text is found again
-/

namespace TalonRPC

/-- The calls of a `Runtime_Command` that change the map of the service center. -/
inductive RuntimeCommand
  | addService (serviceName ip : ByteString) (port : ℤ)
  | modifyService (serviceName ip : ByteString) (port : ℤ)
  | deleteService (serviceName : ByteString)
  deriving DecidableEq, Repr

/-- The text of an address. -/
def addrText (ip : ByteString) (port : ℤ) : ByteString := ip ++ 0x3a :: toDecimal port

namespace RuntimeCommand

/-- The text that `to_command` sends. -/
def command : RuntimeCommand → ByteString
  | .addService serviceName ip port =>
    ascii "add" ++ 0x20 :: (serviceName ++ 0x20 :: addrText ip port)
  | .modifyService serviceName ip port =>
    ascii "modify" ++ 0x20 :: (serviceName ++ 0x20 :: addrText ip port)
  | .deleteService serviceName => ascii "delete" ++ 0x20 :: serviceName

/-- The service a call is about. -/
def serviceName : RuntimeCommand → ByteString
  | .addService serviceName _ _ => serviceName
  | .modifyService serviceName _ _ => serviceName
  | .deleteService serviceName => serviceName

/-- The address a call gives. -/
def addr : RuntimeCommand → Option (ByteString × ℤ)
  | .addService _ ip port => some (ip, port)
  | .modifyService _ ip port => some (ip, port)
  | .deleteService _ => none

end RuntimeCommand

/-- A name that can be sent as text: it is not empty, and has no space and no terminator. -/
structure IsName (s : ByteString) : Prop where
  ne_nil : s ≠ []
  space : 0x20 ∉ s
  nul : 0 ∉ s

/-- An ip and a port that can be sent as text. -/
structure IsAddr (ip : ByteString) (port : ℤ) : Prop where
  isName : IsName ip
  colon : 0x3a ∉ ip
  port_pos : 1 ≤ port
  port_le : port ≤ 65535

/-- The arguments of the call can be sent, in a command of less than 1024 bytes. -/
structure RuntimeCommand.Valid (c : RuntimeCommand) : Prop where
  isName : IsName c.serviceName
  isAddr : ∀ ip port, c.addr = some (ip, port) → IsAddr ip port
  length_lt : c.command.length < 1024

instance (s : ByteString) : Decidable (IsName s) :=
  decidable_of_iff (s ≠ [] ∧ 0x20 ∉ s ∧ 0 ∉ s)
    ⟨fun ⟨h₁, h₂, h₃⟩ => ⟨h₁, h₂, h₃⟩, fun ⟨h₁, h₂, h₃⟩ => ⟨h₁, h₂, h₃⟩⟩

instance (ip : ByteString) (port : ℤ) : Decidable (IsAddr ip port) :=
  decidable_of_iff (IsName ip ∧ 0x3a ∉ ip ∧ 1 ≤ port ∧ port ≤ 65535)
    ⟨fun ⟨h₁, h₂, h₃, h₄⟩ => ⟨h₁, h₂, h₃, h₄⟩, fun ⟨h₁, h₂, h₃, h₄⟩ => ⟨h₁, h₂, h₃, h₄⟩⟩

instance (c : RuntimeCommand) : Decidable c.Valid :=
  decidable_of_iff (IsName c.serviceName ∧ (∀ a ∈ c.addr, IsAddr a.1 a.2) ∧
    c.command.length < 1024)
    ⟨fun ⟨h₁, h₂, h₃⟩ => ⟨h₁, fun ip port h => h₂ (ip, port) h, h₃⟩,
      fun ⟨h₁, h₂, h₃⟩ => ⟨h₁, fun a h => h₂ a.1 a.2 h, h₃⟩⟩

/-! ## The service center -/

/-- `service_map`. -/
abbrev ServiceMap := AList fun _ : ByteString => ByteString

/-- A `std::string` made from a buffer, which ends at its first terminator. -/
def cString (buffer : ByteString) : ByteString := buffer.takeWhile (· ≠ 0)

/-- `s.substr(0, s.find_first_of(' '))`. -/
def untilSpace (s : ByteString) : ByteString := s.takeWhile (· ≠ 0x20)

/-- `s.substr(s.find_first_of(' ') + 1, s.length())`. -/
def behindSpace (s : ByteString) : ByteString :=
  -- Without a space, `npos + 1` is zero.
  if 0x20 ∈ s then (s.dropWhile (· ≠ 0x20)).drop 1 else s

/-- The control branch of the loop of `main`: the map, and the message that is sent back. -/
def control (serviceMap : ServiceMap) (received : ByteString) : ServiceMap × Option ByteString :=
  if received = [] then (serviceMap, none)
  else
    let command := cString received
    let content := behindSpace command
    if untilSpace command = ascii "add" then
      (serviceMap.insert (untilSpace content) (behindSpace content),
        some (ascii "add service success"))
    else if untilSpace command = ascii "delete" then
      if content ∉ serviceMap then (serviceMap, some (ascii "service not exist"))
      else (serviceMap.erase content, some (ascii "delete service success"))
    else if untilSpace command = ascii "lookup" then
      if serviceMap.entries = [] then (serviceMap, some (ascii "service map is empty"))
      else
        -- A `std::map` is iterated in the order of its keys.
        let entries := serviceMap.entries.mergeSort fun i j => i.1 ≤ j.1
        (serviceMap, some (entries.flatMap fun i => i.1 ++ ascii " " ++ i.2 ++ ascii "\n"))
    else if untilSpace command = ascii "modify" then
      if untilSpace content ∉ serviceMap then (serviceMap, some (ascii "service not exist"))
      else
        (serviceMap.insert (untilSpace content) (behindSpace content),
          some (ascii "modify service success"))
    else (serviceMap, some (ascii "unkown command"))

/-- The query branch of the loop of `main`: the answer that is sent back. -/
def query (serviceMap : ServiceMap) (received : ByteString) : Option ByteString :=
  if received = [] then none
  else some ((serviceMap.lookup (cString received)).getD (ascii "unknown host"))

/-- What `recv` stores of a name: it leaves a byte of the buffer for the terminator. -/
def recvName (serverName : ByteString) : ByteString := serverName.take 1023

/-! ## What the calls do -/

section Calls

variable {serviceMap : ServiceMap} {serviceName ip s front rest : ByteString} {port : ℤ}

theorem cString_of_nul (h : 0 ∉ s) : cString s = s := by
  apply List.takeWhile_eq_self_iff.mpr
  intro c hc
  exact decide_eq_true fun heq => h (heq ▸ hc)

theorem space_notMem_add : 0x20 ∉ ascii "add" := by decide

theorem space_notMem_modify : 0x20 ∉ ascii "modify" := by decide

theorem space_notMem_delete : 0x20 ∉ ascii "delete" := by decide

theorem modify_ne_add : ascii "modify" ≠ ascii "add" := by decide

theorem delete_ne_add : ascii "delete" ≠ ascii "add" := by decide

theorem delete_ne_modify : ascii "delete" ≠ ascii "modify" := by decide

theorem untilSpace_append (h : 0x20 ∉ front) : untilSpace (front ++ 0x20 :: rest) = front :=
  Bytes.takeWhile_ne_append h

theorem behindSpace_append (h : 0x20 ∉ front) : behindSpace (front ++ 0x20 :: rest) = rest := by
  rw [behindSpace, if_pos (by simp), Bytes.dropWhile_ne_append h]
  rfl

/-- The digits of a port. -/
theorem toDecimal_of_isAddr (h : IsAddr ip port) :
    ∃ n : ℕ, port = n ∧ 1 ≤ n ∧ n ≤ 65535 ∧ toDecimal port = toDigits n := by
  have hpos := h.port_pos
  have hle := h.port_le
  obtain ⟨n, rfl⟩ := Int.eq_ofNat_of_zero_le (show 0 ≤ port by omega)
  exact ⟨n, rfl, by omega, by omega, rfl⟩

/-- A port has neither spaces nor terminators. -/
theorem notMem_toDigits {n : ℕ} {c : UInt8} (h : isDigit c = false) : c ∉ toDigits n := by
  intro hc
  rw [isDigit_of_mem_toDigits hc] at h
  cases h

theorem nul_notMem_addrText (h : IsAddr ip port) : 0 ∉ addrText ip port := by
  obtain ⟨n, -, -, -, hn⟩ := toDecimal_of_isAddr h
  rw [addrText, hn]
  have hdigits : (0 : UInt8) ∉ toDigits n := notMem_toDigits (by decide)
  simp [h.isName.nul, hdigits]

/-- **An address that was written as text is found again.** -/
theorem findAddr_addrText (h : IsAddr ip port) (stubs : List (ByteString × IPNetAddr)) :
    IPNetAddr.checkValid (addrText ip port) = true ∧
      ∃ addr, findAddr stubs (addrText ip port) = some addr ∧ addr.ip = ip ∧
        (addr.port.toNat : ℤ) = port := by
  obtain ⟨n, rfl, hpos, hle, hn⟩ := toDecimal_of_isAddr h
  obtain ⟨hvalid, haddr⟩ := IPNetAddr.ofString_text h.isName.ne_nil h.colon hpos hle
  have htext : addrText ip n = ip ++ 0x3a :: toDigits n := by rw [addrText, hn]
  refine ⟨htext ▸ hvalid, ⟨ip, .ofNat n⟩, ?_, rfl, ?_⟩
  · rw [htext, findAddr, if_pos hvalid, haddr]
  · show ((UInt16.ofNat n).toNat : ℤ) = n
    rw [UInt16.toNat_ofNat']
    omega

/-- A command has a terminator only in its name or in its address. -/
theorem nul_notMem_command_iff {c : RuntimeCommand} :
    0 ∉ c.command ↔ 0 ∉ c.serviceName ∧ ∀ a ∈ c.addr, 0 ∉ addrText a.1 a.2 := by
  have hadd : 0 ∉ ascii "add" := by decide
  have hmodify : 0 ∉ ascii "modify" := by decide
  have hdelete : 0 ∉ ascii "delete" := by decide
  cases c with
  | addService =>
    simp [RuntimeCommand.command, RuntimeCommand.serviceName, RuntimeCommand.addr, hadd]
  | modifyService =>
    simp [RuntimeCommand.command, RuntimeCommand.serviceName, RuntimeCommand.addr, hmodify]
  | deleteService =>
    simp [RuntimeCommand.command, RuntimeCommand.serviceName, RuntimeCommand.addr, hdelete]

/-- A command that can be sent has no terminator. -/
theorem nul_notMem_command {c : RuntimeCommand} (h : c.Valid) : 0 ∉ c.command :=
  nul_notMem_command_iff.mpr
    ⟨h.isName.nul, fun a ha => nul_notMem_addrText (h.isAddr a.1 a.2 ha)⟩

/-- What the service center does with a command to add, if its text is received as it is. -/
theorem control_command_add (hnul : 0 ∉ (RuntimeCommand.addService serviceName ip port).command)
    (hspace : 0x20 ∉ serviceName) :
    control serviceMap (RuntimeCommand.addService serviceName ip port).command =
      (serviceMap.insert serviceName (addrText ip port), some (ascii "add service success")) := by
  unfold control
  rw [cString_of_nul hnul, if_neg (by simp [RuntimeCommand.command]), RuntimeCommand.command]
  simp only [untilSpace_append space_notMem_add, behindSpace_append space_notMem_add,
    untilSpace_append hspace, behindSpace_append hspace, if_true]

theorem control_command_modify
    (hnul : 0 ∉ (RuntimeCommand.modifyService serviceName ip port).command)
    (hspace : 0x20 ∉ serviceName) :
    control serviceMap (RuntimeCommand.modifyService serviceName ip port).command =
      if serviceName ∉ serviceMap then (serviceMap, some (ascii "service not exist"))
      else (serviceMap.insert serviceName (addrText ip port),
        some (ascii "modify service success")) := by
  have hlookup : ascii "modify" ≠ ascii "lookup" := by decide
  unfold control
  rw [cString_of_nul hnul, if_neg (by simp [RuntimeCommand.command]), RuntimeCommand.command]
  simp only [untilSpace_append space_notMem_modify, behindSpace_append space_notMem_modify,
    untilSpace_append hspace, behindSpace_append hspace, if_neg modify_ne_add,
    if_neg delete_ne_modify.symm, if_neg hlookup, if_true]

theorem control_command_delete
    (hnul : 0 ∉ (RuntimeCommand.deleteService serviceName).command) :
    control serviceMap (RuntimeCommand.deleteService serviceName).command =
      if serviceName ∉ serviceMap then (serviceMap, some (ascii "service not exist"))
      else (serviceMap.erase serviceName, some (ascii "delete service success")) := by
  unfold control
  rw [cString_of_nul hnul, if_neg (by simp [RuntimeCommand.command]), RuntimeCommand.command]
  simp only [untilSpace_append space_notMem_delete, behindSpace_append space_notMem_delete,
    if_neg delete_ne_add, if_true]

end Calls

end TalonRPC
