/-
  P2pFile.Relay.Server

  Pairing admission of the relay (`src/relay/server.rs`): tickets, challenges,
  sessions with two sides, and the reverse index from socket addresses to sides.

  The mutex serialises the five operations, so the admission is a machine whose
  events are whole calls.  Each call carries what it reads from outside: the
  clock (`issue` reads it twice), and the random nonce a new challenge would get.
  `Instant` and `Duration` are nanoseconds; `duration_since` saturates, as
  subtraction on `Nat` does.

  The time of the last sweep is kept beside the state, as history for the claims
  about expired tickets.
-/

import Mathlib.Data.Fin.VecNotation
import P2pFile.Lib.FinMap
import P2pFile.Lib.Machine
import P2pFile.Relay.Wire

namespace P2pFile.Relay

open Lib

abbrev Instant := Nat
abbrev Duration := Nat

def secs (n : Nat) : Duration := n * 1000000000

/-! ## Configuration -/

def maxTicketsPerPair : Nat := 16
def maxTicketsPerNode : Nat := 64
def maxSessionsPerPair : Nat := 16
def maxSessionsPerNode : Nat := 64
def maxArmsPerTicket : Nat := 4
def challengeTtl : Duration := secs 5

structure RelayServerConfig where
  listen : List SocketAddr
  ticketTtl : Duration
  idleTimeout : Duration
  maxSessions : Nat
  maxPendingPerIp : Nat

def RelayServerConfig.default : RelayServerConfig where
  listen := []
  ticketTtl := secs 60
  idleTimeout := secs 90
  maxSessions := 512
  maxPendingPerIp := 8

/-- A listener `validate` refuses: multicast, broadcast, scoped or mapped. -/
def listenerRefused (address : SocketAddr) : Bool :=
  address.ip.isMulticast ||
    match address with
    | .v4 ip _ => isBroadcast ip
    | .v6 ip _ flowinfo scopeId =>
      scopeId != 0 || flowinfo != 0 || isUnicastLinkLocal ip || isIpv4Mapped ip

variable (config : RelayServerConfig)

/-- `RelayServerConfig::validate`. -/
def RelayServerConfig.validate : Except Error Unit :=
  if config.listen.any listenerRefused
      || config.listen.length > 2
      || (match config.listen with
          | [a, b] => AddressFamily.of a == AddressFamily.of b
          | _ => false)
      || config.ticketTtl == 0
      || config.idleTimeout == 0
      || config.ticketTtl > secs 300
      || config.idleTimeout > secs 3600
      || !(1 ≤ config.maxSessions && config.maxSessions ≤ 4096)
      || !(1 ≤ config.maxPendingPerIp && config.maxPendingPerIp ≤ 128)
  then .error (.discovery "invalid relay limits/listeners (one native listener per family)")
  else .ok ()

/-! ## State -/

structure SessionKey where
  token : Token
  slot : Nat
  deriving DecidableEq

structure Ticket where
  nodes : Fin 2 → NodeId
  expires : Instant

/-- `t.nodes.contains(&node)`. -/
def Ticket.contains (t : Ticket) (node : NodeId) : Bool := t.nodes 0 == node || t.nodes 1 == node

/-- The ticket was issued for the unordered pair of `a` and `b`. -/
def Ticket.isFor (t : Ticket) (a b : NodeId) : Bool :=
  (t.nodes 0 == a && t.nodes 1 == b) || (t.nodes 0 == b && t.nodes 1 == a)

structure Pending where
  challenge : Challenge
  issued : Instant
  session : SessionKey
  side : Fin 2

structure Bound where
  hello : Hello
  source : SocketAddr

structure Session where
  sides : Fin 2 → Option Bound
  lastActivity : Instant

namespace Session

variable (s : Session)

/-- `self.sides.iter().flatten()`. -/
def bounds : List Bound := (s.sides 0).toList ++ (s.sides 1).toList

def ready : Bool := (s.sides 0).isSome && (s.sides 1).isSome

def containsNode (node : NodeId) : Bool :=
  s.bounds.any fun bound => bound.hello.node == node || bound.hello.peer == node

def containsPair (a b : NodeId) : Bool :=
  s.bounds.any fun bound =>
    (bound.hello.node == a && bound.hello.peer == b)
      || (bound.hello.node == b && bound.hello.peer == a)

end Session

structure State where
  config : RelayServerConfig
  tickets : FinMap Token Ticket
  pending : FinMap SocketAddr Pending
  sessions : FinMap SessionKey Session
  sources : FinMap SocketAddr (SessionKey × Fin 2)

/-- What a control call sends back. -/
abbrev Replies := List (SocketAddr × Packet)

/-- `Admission::new`. -/
def Admission.new : Except Error State :=
  match config.validate with
  | .ok () => .ok ⟨config, ∅, ∅, ∅, ∅⟩
  | .error err => .error err

/-! ## Operations -/

namespace State

variable (st : State)

/-- `tickets.get(token).is_some_and(|t| now < t.expires)`. -/
def ticketLive (token : Token) (now : Instant) : Bool :=
  (st.tickets.lookup token).any fun t => now < t.expires

/-- `State::cleanup`. -/
def cleanup (now : Instant) : State :=
  -- The tickets go last: the first two passes still read the expired ones.
  let pending := st.pending.retain fun _ p =>
    now - p.issued < challengeTtl && st.ticketLive p.session.token now
  let sessions := st.sessions.retain fun key s =>
    now - s.lastActivity < st.config.idleTimeout && (s.ready || st.ticketLive key.token now)
  let sources := st.sources.retain fun _ entry => (sessions.lookup entry.1).isSome
  let tickets := st.tickets.retain fun _ t => now < t.expires
  { st with pending, sessions, sources, tickets }

/-- `Admission::issue`, with both readings of the clock. -/
def issue (token : Token) (a b : NodeId) (now later : Instant) : State × Bool :=
  let st := st.cleanup now
  let pairLimit := min maxTicketsPerPair st.config.maxSessions
  let nodeLimit := min maxTicketsPerNode st.config.maxSessions
  if a == b
      || (st.tickets.lookup token).isSome
      || st.sessions.keys.any (fun key => key.token == token)
      || st.tickets.size ≥ st.config.maxSessions * 2
      || st.tickets.countP (fun _ t => t.contains a && t.contains b) ≥ pairLimit
      || [a, b].any (fun node => st.tickets.countP (fun _ t => t.contains node) ≥ nodeLimit)
  then (st, false)
  else
    let ticket : Ticket := ⟨![a, b], later + st.config.ticketTtl⟩
    ({ st with tickets := st.tickets.insert token ticket }, true)

variable (c : Crypto)

variable (st : State)

/-- `State::validate_hello`. -/
def validateHello (hello : Hello) (now : Instant) : Option (Fin 2) :=
  match st.tickets.lookup hello.token with
  | none => none
  | some ticket =>
    if now ≥ ticket.expires || hello.node == hello.peer then none
    else
      match publicKeyFromBytes c hello.publicKey with
      | .error _ => none
      | .ok key =>
        if c.isWeak key || NodeId.fromPublicKey c key != hello.node then none
        else if ticket.nodes 0 == hello.node then
          if ticket.nodes 1 == hello.peer then some 0 else none
        else if ticket.nodes 1 == hello.node then
          if ticket.nodes 0 == hello.peer then some 1 else none
        else none

/-- The order of `SessionKey = (Token, u8)`. -/
def keyLe (a b : SessionKey) : Bool :=
  decide (a.token ≤ b.token) && (a.token != b.token || decide (a.slot ≤ b.slot))

/-- `Iterator::min` on session keys. -/
def minKey : List SessionKey → Option SessionKey
  | [] => none
  | key :: rest => some (rest.foldl (fun best k => if keyLe best k then best else k) key)

/-- `s` waits for the opposite socket of `hello` on `side`. -/
def awaits (hello : Hello) (side : Fin 2) (s : Session) : Bool :=
  (s.sides side).isNone && (s.sides (1 - side)).any fun bound =>
    bound.hello.node == hello.peer && bound.hello.peer == hello.node

/-- `State::available_arm`. -/
def availableArm (hello : Hello) (side : Fin 2) : Option SessionKey :=
  -- A waiting opposite socket is preferred to a new session.
  let waiting := st.sessions.retain fun key s => key.token == hello.token && awaits hello side s
  match minKey waiting.keys with
  | some key => some key
  | none =>
    let fairLimit := max (st.config.maxSessions / 2) 1
    let pairLimit := min maxSessionsPerPair fairLimit
    let nodeLimit := min maxSessionsPerNode fairLimit
    if st.sessions.size ≥ st.config.maxSessions
        || st.sessions.countP (fun _ s => s.containsPair hello.node hello.peer) ≥ pairLimit
        || [hello.node, hello.peer].any
            (fun node => st.sessions.countP (fun _ s => s.containsNode node) ≥ nodeLimit)
    then none
    else
      ((List.range maxArmsPerTicket).map fun slot => (⟨hello.token, slot⟩ : SessionKey)).find?
        fun key => (st.sessions.lookup key).isNone

/-- `State::ready_packets`. -/
def readyPackets (key : SessionKey) : Replies :=
  match st.sessions.lookup key with
  | some s =>
    if s.ready then
      s.bounds.map fun b => (b.source, .ready b.hello.token b.hello.node b.hello.clientNonce)
    else []
  | none => []

/-- `State::hello`; `nonce` is what `rand::random()` would give a new challenge. -/
def hello (hello : Hello) (source : SocketAddr) (family : AddressFamily)
    (now : Instant) (nonce : Bytes 32) : State × Replies :=
  if !family.accepts source then (st, [])
  else
    match st.validateHello c hello now with
    | none => (st, [])
    | some side =>
      match st.sources.lookup source with
      | some (boundKey, boundSide) =>
        let bound := (st.sessions.lookup boundKey).bind fun s => s.sides boundSide
        if boundKey.token == hello.token && boundSide == side
            && bound.any (fun b => b.hello == hello) then
          (st, (st.readyPackets boundKey).filter fun reply => reply.1 == source)
        else (st, [])
      | none =>
        match st.pending.lookup source with
        | some pending =>
          if pending.session.token == hello.token && pending.challenge.hello == hello then
            (st, [(source, challengePacket pending.challenge)])
          else (st, [])
        | none =>
          if st.pending.size ≥ st.config.maxSessions * 2
              || st.pending.countP (fun addr _ => addr.ip == source.ip) ≥ st.config.maxPendingPerIp
              || (st.availableArm hello side).isNone
          then (st, [])
          else
            let challenge : Challenge := ⟨hello, nonce, source⟩
            -- The arm is allocated only after the signature is verified: slot 0 is a placeholder.
            let pending : Pending := ⟨challenge, now, ⟨hello.token, 0⟩, side⟩
            ({ st with pending := st.pending.insert source pending },
              [(source, challengePacket challenge)])

variable (challenge : Challenge)

/-- The checks of `State::register`, up to the signature.  `some pending` means
    that the response is about to be consumed. -/
def registerAccepts (signatureA signatureB : Bytes 32) (source : SocketAddr)
    (family : AddressFamily) (now : Instant) : Option Pending :=
  match st.pending.lookup source with
  | none => none
  | some pending =>
    if AddressFamily.of source != family
        || pending.challenge != challenge
        || challenge.source != source
        || now - pending.issued ≥ challengeTtl
        || st.validateHello c challenge.hello now != some pending.side
    then none
    else
      match publicKeyFromBytes c challenge.hello.publicKey with
      | .error _ => none
      | .ok key =>
        match c.verifyStrict key (bindPayload c challenge) (signatureA.append signatureB) with
        | .error _ => none
        | .ok () => some pending

/-- The rest of `State::register`, after the pending entry has been removed. -/
def bindSide (hello : Hello) (side : Fin 2) (source : SocketAddr) (now : Instant) :
    State × Replies :=
  if (st.sources.lookup source).isSome then (st, [])
  else
    match st.availableArm hello side with
    | none => (st, [])
    | some arm =>
      -- `entry(arm).or_insert(..)`: a new session is in the map from here on.
      let session := (st.sessions.lookup arm).getD ⟨fun _ => none, now⟩
      if (session.sides side).isSome then
        ({ st with sessions := st.sessions.insert arm session }, [])
      else
        let session : Session := ⟨Function.update session.sides side (some ⟨hello, source⟩), now⟩
        let st := { st with
          sessions := st.sessions.insert arm session
          sources := st.sources.insert source (arm, side) }
        (st, st.readyPackets arm)

/-- `State::register`. -/
def register (signatureA signatureB : Bytes 32) (source : SocketAddr) (family : AddressFamily)
    (now : Instant) : State × Replies :=
  match st.registerAccepts c challenge signatureA signatureB source family now with
  | none => (st, [])
  | some pending =>
    { st with pending := st.pending.erase source }.bindSide challenge.hello pending.side source now

/-- `Admission::control`. -/
def control (packet : Packet) (source : SocketAddr) (family : AddressFamily)
    (now : Instant) (nonce : Bytes 32) : State × Replies :=
  let st := st.cleanup now
  match packet with
  | .hello h => st.hello c h source family now nonce
  | .register challenge signatureA signatureB =>
    st.register c challenge signatureA signatureB source family now
  | _ => (st, [])

/-- `Admission::forward`. -/
def forward (source : SocketAddr) (family : AddressFamily) (now : Instant) :
    State × Option SocketAddr :=
  match st.sources.lookup source with
  | none => (st, none)
  | some (key, side) =>
    if AddressFamily.of source != family then (st, none)
    else
      match st.sessions.lookup key with
      | none => (st, none)
      | some session =>
        if !session.ready || now - session.lastActivity ≥ st.config.idleTimeout then (st, none)
        else
          ({ st with sessions := st.sessions.insert key { session with lastActivity := now } },
            (session.sides (1 - side)).map fun b => b.source)

end State

/-! ## The admission as a machine -/

inductive Event where
  | issue (token : Token) (a b : NodeId) (now later : Instant)
  | control (packet : Packet) (source : SocketAddr) (family : AddressFamily)
      (now : Instant) (nonce : Bytes 32)
  | forward (source : SocketAddr) (family : AddressFamily) (now : Instant)
  | cleanup (now : Instant)

/-- The first reading of the clock in a call. -/
def Event.now : Event → Instant
  | .issue _ _ _ now _ => now
  | .control _ _ _ now _ => now
  | .forward _ _ now => now
  | .cleanup now => now

/-- The last reading of the clock in a call. -/
def Event.last : Event → Instant
  | .issue _ _ _ _ later => later
  | e => e.now

/-- The admission state, the latest clock reading, and the time of the last
    sweep.  The sweep time is history only: no operation reads it. -/
structure Server where
  state : State
  clock : Instant
  swept : Instant

/-- The state a call works on: every call but `forward` sweeps first. -/
def State.atCall (st : State) : Event → State
  | .forward .. => st
  | e => st.cleanup e.now

variable (c : Crypto)

/-- The state after a call. -/
def State.apply (st : State) : Event → State
  | .issue token a b now later => (st.issue token a b now later).1
  | .control packet source family now nonce => (st.control c packet source family now nonce).1
  | .forward source family now => (st.forward source family now).1
  | .cleanup now => st.cleanup now

/-- One call; clock readings never go back. -/
def Server.step (s : Server) (e : Event) : Option Server :=
  if s.clock ≤ e.now && e.now ≤ e.last then
    some {
      state := s.state.apply c e
      clock := e.last
      swept := match e with
        | .forward .. => s.swept
        | e => e.now }
  else none

/-- The relay admission started with `config`. -/
def machine (config : RelayServerConfig) : Machine Server Event :=
  Machine.ofStep
    (fun s => Admission.new config = .ok s.state ∧ s.swept = s.clock)
    (Server.step c)

end P2pFile.Relay
