/-
  P2pFile.Net.Family

  Socket addresses and native address families (`src/net/family.rs`).

  The predicates on IP addresses are those of `std::net`, written on octets.
-/

import P2pFile.Lib.Bytes

namespace P2pFile

open Lib

/-- `std::net::IpAddr`. -/
inductive IpAddr where
  | v4 (octets : Bytes 4)
  | v6 (octets : Bytes 16)
  deriving DecidableEq

/-- `std::net::SocketAddr`. -/
inductive SocketAddr where
  | v4 (ip : Bytes 4) (port : UInt16)
  | v6 (ip : Bytes 16) (port : UInt16) (flowinfo scopeId : UInt32)
  deriving DecidableEq

namespace SocketAddr

def ip : SocketAddr → IpAddr
  | .v4 ip _ => .v4 ip
  | .v6 ip _ _ _ => .v6 ip

def port : SocketAddr → UInt16
  | .v4 _ port => port
  | .v6 _ port _ _ => port

def isIpv4 : SocketAddr → Bool
  | .v4 .. => true
  | .v6 .. => false

end SocketAddr

namespace IpAddr

def isUnspecified : IpAddr → Bool
  | .v4 o => o.toList.all (· == 0)
  | .v6 o => o.toList.all (· == 0)

def isMulticast : IpAddr → Bool
  | .v4 o => o.toList.head?.any fun b => 224 ≤ b && b ≤ 239
  | .v6 o => o.toList.head? == some 255

end IpAddr

/-- `Ipv4Addr::is_broadcast`. -/
def isBroadcast (o : Bytes 4) : Bool := o.toList.all (· == 255)

/-- `Ipv6Addr::is_unicast_link_local`: the prefix `fe80::/10`. -/
def isUnicastLinkLocal (o : Bytes 16) : Bool :=
  match o.toList with
  | a :: b :: _ => a == 0xfe && b &&& 0xc0 == 0x80
  | _ => false

/-- `Ipv6Addr::to_ipv4_mapped(..).is_some()`: the prefix `::ffff:0:0/96`. -/
def isIpv4Mapped (o : Bytes 16) : Bool := o.toList.take 12 == List.replicate 10 0 ++ [255, 255]

/-- `AddressFamily`. -/
inductive AddressFamily where
  | ipv6
  | ipv4
  deriving DecidableEq, Repr

/-- `usable_address`: no scoped link-local, mapped, unspecified, multicast or
    zero-port candidates. -/
def usableAddress (addr : SocketAddr) : Bool :=
  if addr.port == 0 || addr.ip.isUnspecified || addr.ip.isMulticast then false
  else
    match addr with
    | .v4 ip _ => !isBroadcast ip
    | .v6 ip _ flowinfo scopeId =>
      scopeId == 0 && flowinfo == 0 && !isUnicastLinkLocal ip && !isIpv4Mapped ip

namespace AddressFamily

/-- `AddressFamily::of`. -/
def of (addr : SocketAddr) : AddressFamily :=
  if addr.isIpv4 then .ipv4 else .ipv6

/-- `AddressFamily::accepts`. -/
def accepts (family : AddressFamily) (addr : SocketAddr) : Bool :=
  of addr == family && usableAddress addr

end AddressFamily

end P2pFile
