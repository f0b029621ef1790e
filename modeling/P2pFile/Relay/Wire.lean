/-
  P2pFile.Relay.Wire

  Admission packets of the relay and the bytes a client signs to bind its
  socket (`src/relay/wire.rs`).

  `toData` is what the derived serializers hand to postcard.  A `SocketAddr` of
  family V6 is handed over without its flow info and scope id, as serde does.
-/

import P2pFile.Identity
import P2pFile.Net.Family

namespace P2pFile.Relay

open Lib

/-- `PunchToken`. -/
abbrev Token := Bytes 16

def version : UInt32 := 1

/-- `BIND_DOMAIN`: the ASCII text `p2p_file/relay-bind/v1` and a zero byte. -/
def bindDomain : List UInt8 :=
  [0x70, 0x32, 0x70, 0x5f, 0x66, 0x69, 0x6c, 0x65, 0x2f, 0x72, 0x65, 0x6c, 0x61, 0x79,
   0x2d, 0x62, 0x69, 0x6e, 0x64, 0x2f, 0x76, 0x31, 0x00]

structure Hello where
  token : Token
  node : NodeId
  peer : NodeId
  publicKey : Bytes 32
  clientNonce : Bytes 32
  deriving DecidableEq

structure Challenge where
  hello : Hello
  nonce : Bytes 32
  source : SocketAddr
  deriving DecidableEq

inductive Packet where
  | hello (hello : Hello)
  | challenge (clientNonce nonce : Bytes 32) (source : SocketAddr)
  | register (challenge : Challenge) (signatureA signatureB : Bytes 32)
  | ready (token : Token) (node : NodeId) (clientNonce : Bytes 32)
  deriving DecidableEq

/-- A `SocketAddr`: the family is a variant, with the address and the port. -/
def addrData : SocketAddr → Data
  | .v4 ip port => .variant 0 [.array ip.toList, .nat port.toNat]
  | .v6 ip port _ _ => .variant 1 [.array ip.toList, .nat port.toNat]

def Hello.toData (h : Hello) : Data :=
  .record [.array h.token.toList, .array h.node.toList, .array h.peer.toList,
    .array h.publicKey.toList, .array h.clientNonce.toList]

variable (c : Crypto) (ch : Challenge)

def Challenge.toData : Data :=
  .record [ch.hello.toData, .array ch.nonce.toList, addrData ch.source]

/-- `bind_payload`.  Encoding a challenge into a growable buffer cannot fail. -/
def bindPayload : List UInt8 :=
  bindDomain ++ u32be version ++ c.postcard.write ch.toData

/-- `challenge_packet` (`src/relay/server.rs`). -/
def challengePacket : Packet := .challenge ch.hello.clientNonce ch.nonce ch.source

end P2pFile.Relay
