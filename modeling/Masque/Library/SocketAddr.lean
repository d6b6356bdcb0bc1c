import Mathlib

/-!
# Internet addresses

IPv4 and IPv6 addresses, socket addresses and the text they are displayed as. An IPv6
address is displayed with its first longest run of zero segments elided.
-/

/-- An IPv4 address. -/
structure Ipv4Addr where
  octets : Vector UInt8 4
  deriving DecidableEq, Repr

/-- An IPv6 address. -/
structure Ipv6Addr where
  segments : Vector UInt16 8
  deriving DecidableEq, Repr

/-- An IP address, either v4 or v6. -/
inductive IpAddr where
  | v4 (addr : Ipv4Addr)
  | v6 (addr : Ipv6Addr)
  deriving DecidableEq, Repr

/-- A socket address: an IP address and a port, with the flow and scope of an IPv6 one. -/
inductive SocketAddr where
  | v4 (ip : Ipv4Addr) (port : UInt16)
  | v6 (ip : Ipv6Addr) (port : UInt16) (flowinfo scopeId : UInt32)
  deriving DecidableEq, Repr

namespace Ipv4Addr

def toString (a : Ipv4Addr) : String :=
  ".".intercalate (a.octets.toList.map fun octet => s!"{octet}")

instance : ToString Ipv4Addr := ⟨Ipv4Addr.toString⟩

end Ipv4Addr

namespace Ipv6Addr

/-- A run of segments. -/
structure Span where
  start : ℕ
  len : ℕ

/-- The longest run of zero segments, the first one of that length; `current` is the run
that ends in front of segment `i`. -/
def longestZeros : List UInt16 → ℕ → Span → Span → Span
  | [], _, longest, _ => longest
  | segment :: rest, i, longest, current =>
    if segment = 0 then
      let current : Span := ⟨if current.len = 0 then i else current.start, current.len + 1⟩
      longestZeros rest (i + 1) (if longest.len < current.len then current else longest) current
    else
      longestZeros rest (i + 1) longest ⟨0, 0⟩

/-- Segments in lower-case hexadecimal, separated by colons. -/
def displaySegments (segments : List UInt16) : String :=
  ":".intercalate (segments.map fun s => String.ofList (Nat.toDigits 16 s.toNat))

/-- The IPv4 address embedded in an address of the form `::ffff:a.b.c.d`. -/
def toIpv4Mapped (a : Ipv6Addr) : Option Ipv4Addr :=
  if a.segments.toList.take 6 = [0, 0, 0, 0, 0, 0xffff] then
    let high := a.segments[6]
    let low := a.segments[7]
    some ⟨#v[(high >>> 8).toUInt8, high.toUInt8, (low >>> 8).toUInt8, low.toUInt8]⟩
  else
    none

def toString (a : Ipv6Addr) : String :=
  match a.toIpv4Mapped with
  | some ipv4 => s!"::ffff:{ipv4}"
  | none =>
    let segments := a.segments.toList
    let zeroes := longestZeros segments 0 ⟨0, 0⟩ ⟨0, 0⟩
    if 1 < zeroes.len then
      displaySegments (segments.take zeroes.start) ++ "::" ++
        displaySegments (segments.drop (zeroes.start + zeroes.len))
    else
      displaySegments segments

instance : ToString Ipv6Addr := ⟨Ipv6Addr.toString⟩

example : s!"{(⟨#v[0x2001, 0xdb8, 0, 0, 1, 0, 0, 1]⟩ : Ipv6Addr)}" = "2001:db8::1:0:0:1" := by
  decide +kernel

end Ipv6Addr

instance : ToString IpAddr where
  toString
    | .v4 addr => toString addr
    | .v6 addr => toString addr

namespace SocketAddr

def ip : SocketAddr → IpAddr
  | .v4 ip _ => .v4 ip
  | .v6 ip _ _ _ => .v6 ip

/-- Two socket addresses of one address family. -/
def SameFamily : SocketAddr → SocketAddr → Prop
  | .v4 _ _, .v4 _ _ => True
  | .v6 _ _ _ _, .v6 _ _ _ _ => True
  | _, _ => False

end SocketAddr
