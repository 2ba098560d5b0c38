import TalonRPC.Bytes.Fields
import TalonRPC.Tcp.Decimal

/-!
# The text of an address

`CheckValid` decides whether a text is an address, and the constructor takes the text apart again.
Both read the port with `atoi`, which skips spaces, takes a sign and stops at the first byte that
is no digit; and `CheckValid` lets the port 65536 pass, which the constructor narrows to zero. A
text whose port has digits only, and is a port, is read as it stands.

## Main definitions

* `IPNetAddr.toString`: the text of an address
* `Agrees s`: a text that is accepted is an ip and a port, is read as these, and so is the text of
  the address read

## Main results

* `ofString_text`: the text of an ip and a port is accepted, and gives them back
* `agrees_iff`: a text agrees exactly if it is not accepted, or its port has digits only and is at
  most 65535
-/

namespace TalonRPC

namespace IPNetAddr

/-- `IPNetAddr::toString`. -/
def toString (a : IPNetAddr) : ByteString := a.ip ++ 0x3a :: toDecimal a.port.toNat

/-- **An accepted text** is an ip, a colon and the digits of a port; the address read from it has
these; and its own text is accepted and read as the same address. -/
def Agrees (s : ByteString) : Prop :=
  checkValid s = true → ∃ ip port, s = ip ++ 0x3a :: port ∧ ip ≠ [] ∧ 0x3a ∉ ip ∧ port ≠ [] ∧
    (∀ c ∈ port, isDigit c = true) ∧ 1 ≤ digits port ∧ digits port ≤ 65535 ∧
    (ofString s).ip = ip ∧ (ofString s).port.toNat = digits port ∧
    checkValid (ofString s).toString = true ∧ ofString (ofString s).toString = ofString s

variable {ip port s : ByteString} {n : ℕ}

/-! ## The two parts -/

theorem ipPart_append (h : 0x3a ∉ ip) : ipPart (ip ++ 0x3a :: port) = ip :=
  Bytes.takeWhile_ne_append h

theorem portPart_append (h : 0x3a ∉ ip) : portPart (ip ++ 0x3a :: port) = port := by
  rw [portPart, Bytes.dropWhile_ne_append h]
  rfl

theorem colon_notMem_ipPart (s : ByteString) : 0x3a ∉ ipPart s := fun h => by
  simpa using List.mem_takeWhile_imp h

/-- A text with a colon is its two parts. -/
theorem parts_append (h : 0x3a ∈ s) : ipPart s ++ 0x3a :: portPart s = s := by
  obtain ⟨front, rest, rfl, hfront⟩ := List.eq_append_cons_of_mem h
  rw [ipPart_append hfront, portPart_append hfront]

/-- The port of a number. -/
theorem ofInt_natCast (n : ℕ) : UInt16.ofInt n = UInt16.ofNat n := by
  rw [← UInt16.toNat_inj, UInt16.ofInt, UInt16.toNat_ofNat', UInt16.toNat_ofNat']
  omega

/-- What `CheckValid` has found out of a text it accepts. -/
theorem checkValid_iff : checkValid s = true ↔
    0x3a ∈ s ∧ ipPart s ≠ [] ∧ portPart s ≠ [] ∧ 0 < atoi (portPart s) ∧
      atoi (portPart s) ≤ 65536 := by
  by_cases hcolon : 0x3a ∈ s
  swap
  · simp [checkValid, hcolon]
  rw [checkValid, if_neg (not_not_intro hcolon), and_iff_right hcolon]
  split_ifs with hempty
  · simp only [false_iff]
    tauto
  · rw [decide_eq_true_iff]
    tauto

/-- **The text of an ip and a port** is accepted, and gives them back. -/
theorem ofString_text (hne : ip ≠ []) (hcolon : 0x3a ∉ ip) (hpos : 1 ≤ n) (hle : n ≤ 65535) :
    checkValid (ip ++ 0x3a :: toDigits n) = true ∧
      ofString (ip ++ 0x3a :: toDigits n) = ⟨ip, .ofNat n⟩ := by
  have hatoi := atoi_toDigits (show n < 2 ^ 31 by omega)
  constructor
  · rw [checkValid_iff, ipPart_append hcolon, portPart_append hcolon, hatoi]
    exact ⟨by simp, hne, toDigits_ne_nil n, by omega, by omega⟩
  · rw [ofString, ipPart_append hcolon, portPart_append hcolon, hatoi, ofInt_natCast]

/-- **A text agrees** exactly if it is not accepted, or its port has digits only and is at most
65535. -/
theorem agrees_iff (s : ByteString) : Agrees s ↔ (checkValid s = true →
    (∀ c ∈ portPart s, isDigit c = true) ∧ digits (portPart s) ≤ 65535) := by
  refine forall_congr' fun hvalid => ⟨?_, ?_⟩
  · rintro ⟨ip, port, rfl, -, hcolon, -, hdigits, -, hle, -⟩
    rw [portPart_append hcolon]
    exact ⟨hdigits, hle⟩
  · rintro ⟨hdigits, hle⟩
    obtain ⟨hmem, hip, hport, hpos, -⟩ := checkValid_iff.mp hvalid
    have hatoi : atoi (portPart s) = digits (portPart s) := by
      rw [atoi_of_isDigit hport hdigits, min_eq_left (by omega)]
      exact Bytes.wrap32_of_range (by omega) (by omega)
    have hpos' : 1 ≤ digits (portPart s) := by omega
    have haddr : ofString s = ⟨ipPart s, .ofNat (digits (portPart s))⟩ := by
      rw [ofString, hatoi, ofInt_natCast]
    have hnat : (UInt16.ofNat (digits (portPart s))).toNat = digits (portPart s) := by
      rw [UInt16.toNat_ofNat']
      omega
    -- The text of the address is the one with the digits of the port.
    have htext : (ofString s).toString = ipPart s ++ 0x3a :: toDigits (digits (portPart s)) := by
      rw [haddr, toString, hnat]
      rfl
    obtain ⟨hvalid', hread⟩ := ofString_text hip (colon_notMem_ipPart s) hpos' hle
    refine ⟨ipPart s, portPart s, (parts_append hmem).symm, hip, colon_notMem_ipPart s, hport,
      hdigits, hpos', hle, ?_, ?_, ?_, ?_⟩
    · rw [haddr]
    · rw [haddr, hnat]
    · rw [htext, hvalid']
    · rw [htext, hread, haddr]

/-- The port 65536 is accepted, and read as zero. -/
theorem not_agrees_65536 : ¬ ∀ s, Agrees s := by
  intro h
  obtain ⟨ip, port, hs, -, hcolon, -, -, -, hle, -⟩ :=
    h (ascii "127.0.0.1:65536") (by decide)
  have hport : portPart (ascii "127.0.0.1:65536") = port := by rw [hs, portPart_append hcolon]
  rw [← hport] at hle
  revert hle
  decide

end IPNetAddr

end TalonRPC
