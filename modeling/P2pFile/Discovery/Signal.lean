/-
  P2pFile.Discovery.Signal

  Messages, configuration and registration payload of the signaling protocol
  (`src/discovery/signal.rs`).

  A candidate is handed to postcard as its kind, a variant without fields, and its
  socket address.
-/

import P2pFile.Relay.Server

namespace P2pFile.Discovery

open Lib
open Relay (Token Instant Duration secs RelayServerConfig)

/-! ## Candidates -/

inductive CandidateKind where
  | serverReflexive
  | relay
  | predicted
  | host
  deriving DecidableEq

structure Candidate where
  kind : CandidateKind
  addr : SocketAddr
  deriving DecidableEq

def CandidateKind.toData : CandidateKind → Data
  | .serverReflexive => .variant 0 []
  | .relay => .variant 1 []
  | .predicted => .variant 2 []
  | .host => .variant 3 []

def Candidate.toData (candidate : Candidate) : Data :=
  .record [candidate.kind.toData, Relay.addrData candidate.addr]

/-! ## Short device numbers -/

def firstShortId : UInt32 := 100000000
def lastShortId : UInt32 := 999999999

/-- `ShortId`.  The wire carries any `u32`; `ShortId.valid` is the range check of
    `ShortId::new`. -/
structure ShortId where
  value : UInt32
  deriving DecidableEq

def ShortId.valid (id : ShortId) : Bool := firstShortId ≤ id.value && id.value ≤ lastShortId

/-! ## Messages -/

inductive SignalMessage where
  | register (nodeId : NodeId) (publicKey : Bytes 32) (candidates : List Candidate)
      (signature : List UInt8)
  | registered
  | lookup (nodeId : NodeId)
  | peerCandidates (nodeId : NodeId) (candidates : List Candidate) (token : Token)
  | peerPending (nodeId : NodeId)
  | ping
  | pong
  | error (reason : String)
  | registerHello (protocolVersion : UInt32) (nodeId : NodeId) (publicKey : Bytes 32)
  | registerChallenge (protocolVersion : UInt32) (challenge : Bytes 32)
  | registeredShort (shortId : ShortId)
  | lookupShort (shortId : ShortId)
  | shortResolved (shortId : ShortId) (nodeId : Option NodeId)
  deriving DecidableEq

def SignalMessage.kind : SignalMessage → String
  | .registerHello .. => "RegisterHello"
  | .registerChallenge .. => "RegisterChallenge"
  | .register .. => "Register"
  | .registered => "Registered"
  | .registeredShort .. => "RegisteredShort"
  | .lookupShort .. => "LookupShort"
  | .shortResolved .. => "ShortResolved"
  | .lookup .. => "Lookup"
  | .peerCandidates .. => "PeerCandidates"
  | .peerPending .. => "PeerPending"
  | .ping => "Ping"
  | .pong => "Pong"
  | .error .. => "Error"

/-! ## Registration payload -/

def signalProtocolVersion : UInt32 := 2
def shortIdProtocolVersion : UInt32 := 3

/-- `REGISTER_DOMAIN`: the ASCII text `p2p_file/signal-register/v2`. -/
def registerDomain : List UInt8 :=
  [0x70, 0x32, 0x70, 0x5f, 0x66, 0x69, 0x6c, 0x65, 0x2f, 0x73, 0x69, 0x67, 0x6e, 0x61, 0x6c,
   0x2d, 0x72, 0x65, 0x67, 0x69, 0x73, 0x74, 0x65, 0x72, 0x2f, 0x76, 0x32]

/-- `register_payload`.  Encoding candidates into a growable buffer cannot fail. -/
def registerPayload (c : Crypto) (challenge : Bytes 32) (nodeId : NodeId) (publicKey : Bytes 32)
    (candidates : List Candidate) : List UInt8 :=
  registerDomain ++ challenge.toList ++ nodeId.toList ++ publicKey.toList ++
    (c.hash (c.postcard.write (.seq (candidates.map Candidate.toData)))).toList

/-! ## Configuration -/

/-- `SignalServerConfig`, without TLS, the short-id database and the timeouts: a
    timeout only ever ends a connection, which may happen at any time. -/
structure SignalServerConfig where
  relay : Option RelayServerConfig
  shortLookupsPerConnection : Nat
  shortLookupsPerIp : Nat
  maxShortLookupMisses : Nat
  nodeLookupsPerConnection : Nat
  nodeLookupsPerIp : Nat
  maxCandidates : Nat
  maxRegisteredPeers : Nat
  maxWaiterEntries : Nat
  maxPendingLookups : Nat
  outboxCapacity : Nat
  challengeTtl : Duration

def SignalServerConfig.default : SignalServerConfig where
  relay := none
  shortLookupsPerConnection := 5
  shortLookupsPerIp := 20
  maxShortLookupMisses := 3
  nodeLookupsPerConnection := 64
  nodeLookupsPerIp := 256
  maxCandidates := 32
  maxRegisteredPeers := 4096
  maxWaiterEntries := 16 * 1024
  maxPendingLookups := 64
  outboxCapacity := 64
  challengeTtl := secs 10

def u32Max : Nat := 4294967295

def shortLookupWindow : Duration := secs 10
def nodeLookupWindow : Duration := secs 10
def maxShortLookupIps : Nat := 1024
def maxNodeLookupIps : Nat := 1024

def shortLookupUnavailable : String := "设备查询不可用或请求过多，请稍后重试"

/-! ## Lookup budgets -/

structure LookupWindow where
  started : Instant
  requests : Nat
  misses : Nat

namespace LookupWindow

def new (now : Instant) : LookupWindow := ⟨now, 0, 0⟩

variable (w : LookupWindow)

def expiredAfter (window : Duration) (now : Instant) : Bool := now - w.started ≥ window

/-- `take_in_window`. -/
def takeInWindow (limit misses : Nat) (window : Duration) (now : Instant) : LookupWindow × Bool :=
  let w := if w.expiredAfter window now then new now else w
  if w.requests ≥ limit || w.misses ≥ misses then (w, false)
  else ({ w with requests := w.requests + 1 }, true)

/-- `short_window.misses.saturating_add(1)`. -/
def miss : LookupWindow :=
  { w with misses := min (w.misses + 1) u32Max }

end LookupWindow

/-- The buckets of one lookup budget, by source IP. -/
abbrev Buckets := FinMap IpAddr LookupWindow

/-- `take_node_lookup` and `take_short_lookup`: drop the expired buckets, refuse a
    new IP when the table is full, and charge the bucket of `ip`. -/
def takeBucket (buckets : Buckets) (limit capacity : Nat) (window : Duration) (ip : IpAddr)
    (now : Instant) : Buckets × Bool :=
  let buckets := buckets.retain fun _ bucket => !bucket.expiredAfter window now
  if (buckets.lookup ip).isNone && buckets.size ≥ capacity then (buckets, false)
  else
    let bucket := (buckets.lookup ip).getD (.new now)
    let (bucket, allowed) := bucket.takeInWindow limit u32Max window now
    (buckets.insert ip bucket, allowed)

end P2pFile.Discovery
