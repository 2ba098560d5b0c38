import TalonRPC.Bytes.NetworkOrder
import TalonRPC.TinyPB.Protocol

/-!
# Network addresses

An address is written as an ip and a port with a colon between them. The ip is taken as it is; the
port is what `atoi` makes of the rest.

## Main definitions

* `ascii`: the bytes of a text
* `atoi`: the number at the front of a text
* `IPNetAddr`, `IPNetAddr.checkValid`, `IPNetAddr.ofString`: addresses, and reading them
-/

namespace TalonRPC

/-- The bytes of a text. -/
def ascii (s : String) : ByteString := s.toUTF8.data.toList

/-- `isspace`. -/
def isSpace (c : UInt8) : Bool := c = 0x20 ∨ (0x09 ≤ c ∧ c ≤ 0x0d)

/-- `isdigit`. -/
def isDigit (c : UInt8) : Bool := 0x30 ≤ c ∧ c ≤ 0x39

/-- The value of the digits at the front of a text. -/
def digits (s : ByteString) : ℕ :=
  (s.takeWhile isDigit).foldl (fun n c => 10 * n + (c.toNat - 0x30)) 0

/-- `std::atoi`: the value of `strtol`, which stops at the bounds of a long, as an int. -/
def atoi (s : ByteString) : ℤ :=
  match s.dropWhile isSpace with
  -- A sign may stand in front of the digits.
  | 0x2d :: t => Bytes.wrap32 (-(min (digits t) (2 ^ 63)))
  | 0x2b :: t => Bytes.wrap32 (min (digits t) (2 ^ 63 - 1))
  | t => Bytes.wrap32 (min (digits t) (2 ^ 63 - 1))

/-- `IPNetAddr`. -/
structure IPNetAddr where
  ip : ByteString
  port : UInt16
  deriving DecidableEq, Repr

namespace IPNetAddr

/-- The part of an address before its first colon. -/
def ipPart (addr : ByteString) : ByteString := addr.takeWhile (· ≠ 0x3a)

/-- The part of an address behind its first colon. -/
def portPart (addr : ByteString) : ByteString := (addr.dropWhile (· ≠ 0x3a)).drop 1

/-- `IPNetAddr::CheckValid`. -/
def checkValid (addr : ByteString) : Bool :=
  if 0x3a ∉ addr then false
  else if ipPart addr = [] ∨ portPart addr = [] then false
  -- The source lets the port 65536 pass, which a port number cannot hold.
  else 0 < atoi (portPart addr) ∧ atoi (portPart addr) ≤ 65536

/-- `IPNetAddr::IPNetAddr`, of an address with a colon. -/
def ofString (addr : ByteString) : IPNetAddr :=
  ⟨ipPart addr, .ofInt (atoi (portPart addr))⟩

end IPNetAddr

end TalonRPC
