import TalonRPC.Discovery.Center
import TalonRPC.Discovery.Messages

/-!
# The client of the service center

A channel asks the service center for the address of a service: it writes the name, and takes what
a single `read` returns for the whole answer. But TCP delivers the answer in any pieces. With one
that ends within the port, the channel has an address that looks like any other, and connects to the
wrong port. With a shorter one it has no address at all, and searches its configuration for the
piece.

## Main definitions

* `serviceDiscovery`: the lookup, for what its system calls return
* `LeadsTo`: the address that a channel takes a text for

## Main results

* `leadsTo_piece`: what the channel makes of a piece of an address
* `leadsTo_iff_eq`, `channel_reaches_iff`: a channel reaches the server exactly if it has read the
  whole answer
-/

namespace TalonRPC

open Machine Directory

/-- What `serviceDiscovery` comes to: the process exits, the terminator is written past the end of
the buffer, or there is an answer. -/
inductive Discovery
  | exited
  | overrun
  | found (serverAddr : ByteString)
  deriving DecidableEq, Repr

/-- `serviceDiscovery`. -/
def serviceDiscovery (calls : SocketCalls) : Discovery :=
  if calls.socket = -1 then .exited
  else if calls.connect ≠ 0 then .exited
  else if calls.write < 0 then .exited
  else
    match calls.read with
    | none => .exited
    | some addrBuff => if addrBuff.length < 1024 then .found (cString addrBuff) else .overrun

/-- A channel takes the text for this address. -/
def LeadsTo (stubs : List (ByteString × IPNetAddr)) (text ip : ByteString) (port : ℤ) : Prop :=
  ∃ addr, findAddr stubs text = some addr ∧ addr.ip = ip ∧ (addr.port.toNat : ℤ) = port

variable {ip piece : ByteString} {port : ℤ} {n k : ℕ} {stubs : List (ByteString × IPNetAddr)}

/-! ## A piece of an address -/

/-- The text of an address, cut off behind the colon. -/
theorem take_addrText (h : IsAddr ip port) (hlt : ip.length + 1 < k)
    (hle : k ≤ (addrText ip port).length) :
    ∃ m : ℕ, (m : ℤ) = port / 10 ^ ((addrText ip port).length - k) ∧ IsAddr ip m ∧
      (addrText ip port).take k = addrText ip m := by
  obtain ⟨n, rfl, hpos, hle', hn⟩ := toDecimal_of_isAddr h
  have htext : addrText ip n = ip ++ 0x3a :: toDigits n := by rw [addrText, hn]
  obtain ⟨j, rfl⟩ : ∃ j, k = ip.length + (j + 1) := ⟨k - ip.length - 1, by omega⟩
  have hlength : (addrText ip n).length - (ip.length + (j + 1)) = (toDigits n).length - j := by
    rw [htext]
    simp
    omega
  have hj : j ≤ (toDigits n).length := by
    rw [htext] at hle
    simpa using hle
  obtain ⟨htake, hne⟩ := take_toDigits (n := n) (by omega) hj
  have hquotient := Nat.div_le_self n (10 ^ ((toDigits n).length - j))
  have hdiv : ((n / 10 ^ ((toDigits n).length - j) : ℕ) : ℤ) =
      (n : ℤ) / 10 ^ ((toDigits n).length - j) := Int.natCast_ediv ..
  rw [hlength, ← hdiv]
  generalize n / 10 ^ ((toDigits n).length - j) = m at *
  refine ⟨m, rfl, ?_, ?_⟩
  · have hne' := hne (by omega)
    exact ⟨h.isName, h.colon, by omega, by omega⟩
  · rw [htext, List.take_length_add_append, List.take_succ_cons, htake]
    rfl

/-- An address that was written as text is reached. -/
theorem reaches_addrText (h : IsAddr ip port) (stubs : List (ByteString × IPNetAddr)) :
    LeadsTo stubs (addrText ip port) ip port :=
  (findAddr_addrText h stubs).2

/-- A text that is no address is looked for in the configuration. -/
theorem findAddr_of_colon (h : piece <+: ip ++ [0x3a]) (hcolon : 0x3a ∉ ip) :
    findAddr stubs piece = stubs.lookup piece := by
  have hinvalid : ¬ IPNetAddr.checkValid piece = true := by
    rw [IPNetAddr.checkValid_iff]
    rintro ⟨hmem, -, hport, -⟩
    rcases List.prefix_concat_iff.mp h with rfl | hip
    · exact hport (IPNetAddr.portPart_append hcolon)
    · exact hcolon (hip.subset hmem)
  exact if_neg hinvalid

/-- **What a channel makes of a piece of an address**: with a part of the port, it reaches another
port, unless it is all of it; with less, what its configuration has for the piece. -/
theorem leadsTo_piece (h : IsAddr ip port) (hpiece : piece <+: addrText ip port) :
    (ip.length + 1 < piece.length → ∀ stubs, LeadsTo stubs piece ip
      (port / 10 ^ ((addrText ip port).length - piece.length))) ∧
      (piece.length ≤ ip.length + 1 → ∀ stubs, findAddr stubs piece = stubs.lookup piece) := by
  constructor
  · intro hlt stubs
    obtain ⟨m, hm, hisAddr, htake⟩ := take_addrText h hlt hpiece.length_le
    rw [← List.prefix_iff_eq_take.mp hpiece] at htake
    rw [← hm, htake]
    exact reaches_addrText hisAddr stubs
  · intro hle stubs
    have hcolon : ip ++ [0x3a] <+: addrText ip port := ⟨toDecimal port, by simp [addrText]⟩
    apply findAddr_of_colon _ h.colon
    exact List.prefix_of_prefix_length_le hpiece hcolon (by simpa using hle)

/-- A port of which digits are cut off is another one. -/
theorem div_pow_lt (hpos : 1 ≤ port) (hk : 0 < k) : port / 10 ^ k < port := by
  have hten : (1 : ℤ) < 10 ^ k := one_lt_pow₀ (by norm_num) hk.ne'
  exact Int.ediv_lt_self_of_pos_of_ne_one hpos hten.ne'

/-- **A channel reaches the server exactly if it has read the whole answer.** -/
theorem leadsTo_iff_eq (h : IsAddr ip port) (hpiece : piece <+: addrText ip port) :
    (∀ stubs, LeadsTo stubs piece ip port) ↔ piece = addrText ip port := by
  refine ⟨fun hall => ?_, fun heq => heq ▸ reaches_addrText h⟩
  obtain ⟨hlong, hshort⟩ := leadsTo_piece h hpiece
  apply hpiece.eq_of_length
  by_contra hlength
  have hlt := lt_of_le_of_ne hpiece.length_le hlength
  rcases lt_or_ge (ip.length + 1) piece.length with hport | hcolon
  · -- The channel has another port.
    obtain ⟨addr, haddr, -, hright⟩ := hall []
    obtain ⟨addr', haddr', -, hwrong⟩ := hlong hport []
    obtain rfl := Option.some.inj (haddr.symm.trans haddr')
    have hless := div_pow_lt h.port_pos (Nat.sub_pos_of_lt hlt)
    omega
  · obtain ⟨addr, haddr, -⟩ := hall []
    rw [hshort hcolon []] at haddr
    cases haddr

/-! ## From the commands to the channel -/

/-- The lookup goes through, and what it reads is of the answer. -/
structure SocketCalls.Reads (calls : SocketCalls) (serverName answer piece : ByteString) :
    Prop where
  socket : calls.socket ≠ -1
  connect : calls.connect = 0
  write : calls.write = serverName.length
  read : calls.read = some piece
  of_answer : piece <+: answer

/-- A lookup that goes through finds the piece it reads. -/
theorem serviceDiscovery_of_reads {calls : SocketCalls} {serverName answer : ByteString}
    (h : calls.Reads serverName answer piece) (hnul : 0 ∉ answer) (hlength : answer.length < 1024) :
    serviceDiscovery calls = .found piece := by
  have hwrite : ¬ calls.write < 0 := by
    rw [h.write]
    omega
  have hread : piece.length < 1024 := h.of_answer.length_le.trans_lt hlength
  rw [serviceDiscovery, if_neg h.socket, if_neg (not_not_intro h.connect), if_neg hwrite, h.read]
  dsimp only
  rw [if_pos hread, cString_of_nul fun hmem => hnul (h.of_answer.subset hmem)]

/-- What a name has been given is shorter than a command may be. -/
theorem length_lt_of_after {st : Center} (h : Answering st) {name addr : ByteString}
    (hafter : after ((st.handled.take k).filterMap commandOp) name = some addr) :
    addr.length < 1024 := by
  obtain ⟨op, hlast, haddr⟩ := after_eq_some_iff.mp hafter
  obtain ⟨command, hcommand, hop⟩ := List.mem_filterMap.mp hlast.mem
  have hlt := h.length_lt command (List.mem_of_mem_take hcommand)
  exact (length_addr_le hop haddr).trans_lt hlt

/-- **From the commands to the channel**: where the last effective command before an answer has
given an address to the name, a channel that looks the name up reaches this address, whatever its
configuration, exactly if it reads the whole answer. If the piece it reads ends within the port, it
reaches a smaller port of the same host. -/
theorem channel_reaches_iff (s : CenterSockets) (es : List CenterEvent) {st : Center}
    (h : exec (centerStep s) (Center.new s) es = some st) {serverName answer : ByteString}
    (hmem : (k, serverName, answer) ∈ st.answered)
    (hafter : after ((st.handled.take k).filterMap commandOp) (cString (recvName serverName)) =
      some (addrText ip port))
    (hisAddr : IsAddr ip port) (calls : SocketCalls)
    (hcalls : calls.Reads serverName answer piece) :
    serviceDiscovery calls = .found piece ∧
      ((∀ stubs, LeadsTo stubs piece ip port) ↔ piece = answer) ∧
      (ip.length + 1 < piece.length → piece ≠ answer →
        ∃ port' < port, ∀ stubs, LeadsTo stubs piece ip port') := by
  obtain rfl : answer = addrText ip port := by
    rw [answer_of_exec h hmem, hafter]
    rfl
  have hlength := length_lt_of_after (answering_of_exec h) hafter
  refine ⟨serviceDiscovery_of_reads hcalls (nul_notMem_addrText hisAddr) hlength,
    leadsTo_iff_eq hisAddr hcalls.of_answer, fun hlong hne => ?_⟩
  refine ⟨_, ?_, (leadsTo_piece hisAddr hcalls.of_answer).1 hlong⟩
  apply div_pow_lt hisAddr.port_pos
  have hle := hcalls.of_answer.length_le
  have hlt : piece.length ≠ (addrText ip port).length :=
    fun heq => hne (hcalls.of_answer.eq_of_length heq)
  omega

/-- A channel reads half of the port that the small service center has for it. -/
theorem channel_reaches_iff_half :
    let calls : SocketCalls :=
      { socket := 9, connect := 0, write := 3, read := some (ascii "10.0.0.7:8") }
    serviceDiscovery calls = .found (ascii "10.0.0.7:8") ∧
      ∃ port' < 80, ∀ stubs, LeadsTo stubs (ascii "10.0.0.7:8") (ascii "10.0.0.7") port' := by
  intro calls
  have hcalls : calls.Reads (ascii "A.f") (ascii "10.0.0.7:80") (ascii "10.0.0.7:8") :=
    ⟨by decide, rfl, by decide, rfl, by decide⟩
  let command := (RuntimeCommand.addService (ascii "A.f") (ascii "10.0.0.7") 80).command
  have hafter : after (([command].take 1).filterMap commandOp)
      (cString (recvName (ascii "A.f"))) = some (addrText (ascii "10.0.0.7") 80) := by
    decide
  obtain ⟨hfound, -, hport⟩ := channel_reaches_iff smallCenter smallRun rfl
    (List.mem_singleton_self _) hafter (by decide) calls hcalls
  exact ⟨hfound, hport (by decide) (by decide)⟩

end TalonRPC
