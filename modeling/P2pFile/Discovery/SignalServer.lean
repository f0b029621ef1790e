/-
  P2pFile.Discovery.SignalServer

  The connection handlers of the signaling server as an interleaving of their
  lock-protected sections (`handle_signal_io`, `Registry::try_pair` and
  `writer_loop` in `src/discovery/signal.rs`).

  Each connection has a handler task and a writer task.  The registry mutex is
  held for one section at a time, and between two sections of a handler any other
  handler may run, so `Phase` records where a handler stands and what it carries
  to its next section.  A message a handler sends to its own client goes into the
  bounded outbox in a step of its own, because `try_pair` in another handler may
  get in between.

  What a section reads from outside is part of its event: the clock, random
  bytes, the answer of the short-id database, and the order in which a hash set
  is enumerated.  `log` is history only: no handler reads it.
-/

import P2pFile.Discovery.Registry

namespace P2pFile.Discovery

open Lib
open Relay (Token Instant)

/-! ## Handlers -/

structure ActiveRegistration where
  protocolVersion : UInt32
  nodeId : NodeId
  connectionId : Nat

structure PendingRegistration where
  protocolVersion : UInt32
  nodeId : NodeId
  publicKey : Bytes 32
  challenge : Bytes 32
  issuedAt : Instant

/-- A Register that passed every check before the capacity check. -/
structure Verified where
  protocolVersion : UInt32
  nodeId : NodeId
  candidates : List Candidate

/-- A message a handler sends to its own client. -/
inductive Reply where
  | challenge (protocolVersion : UInt32) (nonce : Bytes 32)
  | registered
  | registeredShort (shortId : ShortId)
  | shortResolved (shortId : ShortId) (nodeId : Option NodeId)
  | pending (target : NodeId)
  | pong
  | error (reason : String)

def Reply.message : Reply → SignalMessage
  | .challenge version nonce => .registerChallenge version nonce
  | .registered => .registered
  | .registeredShort shortId => .registeredShort shortId
  | .shortResolved shortId nodeId => .shortResolved shortId nodeId
  | .pending target => .peerPending target
  | .pong => .pong
  | .error reason => .error reason

/-- What a handler does after its reply is queued.  `wake` holds the close signal
    of the replaced connection and the waiters still to be paired. -/
inductive After where
  | read
  | leave
  | wake (node : NodeId) (replaced : Option Nat) (live : List NodeId)

/-- Where a handler stands between two of its sections. -/
inductive Phase where
  /-- Accepted; the TLS handshake, if there is one, is not finished. -/
  | connecting
  /-- At the head of the loop, waiting for a frame. -/
  | reading
  /-- A Register was verified; next is the first capacity check. -/
  | admitting (r : Verified)
  /-- Waiting for the short-id database. -/
  | storing (r : Verified)
  /-- About to queue a message to its own client. -/
  | replying (reply : Reply) (after : After)
  /-- About to close the connection it replaced. -/
  | kicking (node : NodeId) (replaced : Nat) (live : List NodeId)
  /-- In the loop that pairs the waiters. -/
  | waking (node : NodeId) (live : List NodeId)
  /-- A short-id lookup before its IP budget is charged. -/
  | budgeting (shortId : ShortId)
  /-- A short-id lookup waiting for the database. -/
  | resolving (shortId : ShortId) (allowed : Bool)
  /-- Out of the loop, before `unregister`. -/
  | leaving
  | done

/-- `reject` and break, or a failed `send_or_close`, end the loop; every other
    successful send goes on. -/
def After.phase : After → Phase
  | .read => .reading
  | .leave => .leaving
  | .wake node none live => .waking node live
  | .wake node (some replaced) live => .kicking node replaced live

structure Conn where
  ip : IpAddr
  phase : Phase
  pending : Option PendingRegistration
  active : Option ActiveRegistration
  /-- Queued messages; the writer takes them from the front. -/
  outbox : List SignalMessage
  /-- The writer task still holds the receiving end. -/
  writerUp : Bool
  closeRequested : Bool
  nodeWindow : LookupWindow
  shortWindow : LookupWindow

/-- A connection that was just accepted. -/
def Conn.new (ip : IpAddr) (now : Instant) : Conn where
  ip := ip
  phase := .connecting
  pending := none
  active := none
  outbox := []
  writerUp := true
  closeRequested := false
  nodeWindow := .new now
  shortWindow := .new now

/-! ## The server -/

/-- History of the server. -/
inductive Entry where
  /-- The handler of `id` took this message from its client. -/
  | frame (id : Nat) (message : SignalMessage)
  /-- This message was put into the outbox of `id`. -/
  | queued (id : Nat) (message : SignalMessage)
  /-- A lookup of `target` by `id` was deferred; `PeerPending` is its answer. -/
  | deferred (id : Nat) (target : NodeId)
  /-- A Register took the pending challenge of `id`. -/
  | consumed (id : Nat) (challenge : Bytes 32) (nodeId : NodeId) (publicKey : Bytes 32)
      (candidates : List Candidate) (signature : List UInt8)
  /-- Connection `id` put this peer record into the registry. -/
  | inserted (id : Nat) (nodeId : NodeId) (candidates : List Candidate)
  deriving DecidableEq

/-- `nextId` is the connection counter.  It comes round to 1 after `2 ^ 64 - 1` connections;
    a run ends before that. -/
structure Server where
  registry : Registry
  conns : Nat → Option Conn
  nextId : UInt64
  log : List Entry

/-- What a section draws from outside: two readings of the clock, and random
    bytes. -/
structure Draw where
  now : Instant
  later : Instant
  challenge : Bytes 32
  token : Token

namespace Server

variable (s : Server) (id : Nat)

def setConn (conn : Conn) : Server :=
  { s with conns := Function.update s.conns id (some conn) }

def record (entry : Entry) : Server :=
  { s with log := s.log ++ [entry] }

variable (config : SignalServerConfig)

/-- Whether the outbox of `id` takes one more message besides `taken` reserved
    ones: the writer lives and the queue is not full. -/
def room (id taken : Nat) : Bool :=
  (s.conns id).any fun conn => conn.writerUp && conn.outbox.length + taken < config.outboxCapacity

/-- Put a message into the outbox of `id`. -/
def enqueue (message : SignalMessage) : Server :=
  match s.conns id with
  | none => s
  | some conn =>
    (s.setConn id { conn with outbox := conn.outbox ++ [message] }).record (.queued id message)

/-- `close.send(true)`. -/
def requestClose : Server :=
  match s.conns id with
  | none => s
  | some conn => s.setConn id { conn with closeRequested := true }

/-- The places the permit for the first outbox takes in the second one. -/
def reserved (recordA recordB : PeerRecord) : Nat :=
  if recordA.connectionId = recordB.connectionId then 1 else 0

/-- `Registry::try_pair`.  Both places are reserved before anything is sent; a
    permit that is dropped on the way out frees its place again. -/
def tryPair (a b : NodeId) (d : Draw) : Server :=
  match s.registry.peers.lookup a, s.registry.peers.lookup b with
  | some recordA, some recordB =>
    if !s.room config recordA.connectionId 0 then s.requestClose recordA.connectionId
    else if !s.room config recordB.connectionId (reserved recordA recordB) then
      s.requestClose recordB.connectionId
    else
      -- A refused ticket is only logged: direct pairing still proceeds.
      let relay := s.registry.relay.map fun relay => (relay.issue d.token a b d.now d.later).1
      let s := { s with registry := { s.registry with relay } }
      (s.enqueue recordA.connectionId (.peerCandidates b recordB.candidates d.token)).enqueue
        recordB.connectionId (.peerCandidates a recordA.candidates d.token)
  | _, _ => s

end Server

/-! ## Frames -/

section Frames

variable (c : Crypto) (config : SignalServerConfig)

/-- The checks on a `RegisterHello`; an error is the text of the rejection. -/
def checkHello (conn : Conn) (version : UInt32) (nodeId : NodeId) (publicKey : Bytes 32) :
    Except String Unit :=
  if conn.active.isSome || conn.pending.isSome then
    .error "本连接已经开始或完成注册，不能重复 RegisterHello"
  else if version != signalProtocolVersion && version != shortIdProtocolVersion then
    .error ("信令协议版本不兼容：支持 2/3，对端 " ++ toString version)
  else
    match publicKeyFromBytes c publicKey with
    | .error err => .error ("公钥非法: " ++ err.display)
    | .ok key =>
      if NodeId.fromPublicKey c key != nodeId then .error "节点 ID 与公钥不符" else .ok ()

/-- The checks on a `Register` that found the pending registration `p`, up to the
    signature. -/
def checkRegister (conn : Conn) (p : PendingRegistration) (nodeId : NodeId) (publicKey : Bytes 32)
    (candidates : List Candidate) (signature : List UInt8) (now : Instant) :
    Except String Verified :=
  if conn.active.isSome then .error "本连接已经登记过，不能再次注册"
  else if p.nodeId != nodeId || p.publicKey != publicKey then
    .error "Register 与 RegisterHello 的身份不一致"
  else if now - p.issuedAt > config.challengeTtl then .error "challenge 已过期，请重新连接"
  else if candidates.length > config.maxCandidates then
    .error ("候选地址过多：" ++ toString candidates.length ++ "，上限 " ++ toString config.maxCandidates)
  else
    match publicKeyFromBytes c publicKey with
    | .error err => .error ("公钥非法: " ++ err.display)
    | .ok key =>
      if NodeId.fromPublicKey c key != nodeId then .error "节点 ID 与公钥不符"
      else
        match signatureFromBytes c signature with
        | .error err => .error ("签名非法: " ++ err.display)
        | .ok sig =>
          match verifySignature c key (registerPayload c p.challenge nodeId publicKey candidates)
              sig with
          | .error err => .error ("注册签名校验失败: " ++ err.display)
          | .ok () => .ok ⟨p.protocolVersion, nodeId, candidates⟩

namespace Server

variable (s : Server) (id : Nat) (conn : Conn)

/-- `reject` the client and break. -/
def reject (reason : String) : Server :=
  s.setConn id { conn with phase := .replying (.error reason) .leave }

/-- Send a reply and go on reading. -/
def answer (reply : Reply) : Server := s.setConn id { conn with phase := .replying reply .read }

def onRegisterHello (version : UInt32) (nodeId : NodeId) (publicKey : Bytes 32) (d : Draw) :
    Server :=
  match checkHello c conn version nodeId publicKey with
  | .error reason => s.reject id conn reason
  | .ok () =>
    s.answer id { conn with pending := some ⟨version, nodeId, publicKey, d.challenge, d.now⟩ }
      (.challenge version d.challenge)

def onRegister (nodeId : NodeId) (publicKey : Bytes 32) (candidates : List Candidate)
    (signature : List UInt8) (now : Instant) : Server :=
  match conn.pending with
  | none => s.reject id conn "没有先发 RegisterHello 就发 Register"
  | some p =>
    -- `pending.take()`: the challenge is gone whatever the checks say.
    let conn := { conn with pending := none }
    let s := s.record (.consumed id p.challenge nodeId publicKey candidates signature)
    match checkRegister c config conn p nodeId publicKey candidates signature now with
    | .error reason => s.reject id conn reason
    | .ok r => s.setConn id { conn with phase := .admitting r }

/-- The offline branch of a lookup, after the budgets were charged. -/
def deferLookup (key : WaiterKey) (target : NodeId) : Server :=
  if key ∈ s.registry.waitersOf target then
    (s.record (.deferred id target)).answer id conn (.pending target)
  else if s.registry.pendingCount key ≥ config.maxPendingLookups then
    s.answer id conn (.error ("挂起的查询过多（上限 " ++ toString config.maxPendingLookups ++ "）"))
  else if s.registry.waiterEntries ≥ config.maxWaiterEntries then
    s.answer id conn (.error "服务器等待队列已满")
  else
    let s := { s with registry := s.registry.addWaiter key target }
    (s.record (.deferred id target)).answer id conn (.pending target)

/-- A `Lookup`: one section from the ownership check to the pairing or the waiter. -/
def onLookup (target : NodeId) (d : Draw) : Server :=
  match conn.active with
  | none => s.reject id conn "还没登记就想查询"
  | some registration =>
    let me := registration.nodeId
    if !s.registry.owns me registration.connectionId then
      s.reject id conn "本连接已被该节点的新连接取代"
    else
      let (window, ok) := conn.nodeWindow.takeInWindow config.nodeLookupsPerConnection u32Max
        nodeLookupWindow d.now
      let conn := { conn with nodeWindow := window }
      let (registry, ok) :=
        if ok then s.registry.takeNodeLookup config conn.ip d.now else (s.registry, false)
      let s := { s with registry }
      if !ok then s.answer id conn (.error shortLookupUnavailable)
      else if me = target then s.answer id conn (.error "别查自己")
      else if (s.registry.peers.lookup target).isSome then
        (s.setConn id conn).tryPair config me target d
      else s.deferLookup config id conn ⟨me, registration.connectionId⟩ target

/-- A `LookupShort`: its first section checks the ownership and the connection's
    own budget. -/
def onLookupShort (shortId : ShortId) (d : Draw) : Server :=
  match conn.active with
  | none => s.reject id conn shortLookupUnavailable
  | some registration =>
    if !s.registry.owns registration.nodeId id
        || registration.protocolVersion != shortIdProtocolVersion then
      s.reject id conn shortLookupUnavailable
    else
      let (window, ok) := conn.shortWindow.takeInWindow config.shortLookupsPerConnection
        config.maxShortLookupMisses shortLookupWindow d.now
      let conn := { conn with shortWindow := window }
      if ok then s.setConn id { conn with phase := .budgeting shortId }
      else s.setConn id { conn with phase := .resolving shortId false }

/-- One frame of the client of `id`. -/
def onFrame (message : SignalMessage) (d : Draw) : Server :=
  let s := s.record (.frame id message)
  match message with
  | .registerHello version nodeId publicKey =>
    s.onRegisterHello c id conn version nodeId publicKey d
  | .register nodeId publicKey candidates signature =>
    s.onRegister c config id conn nodeId publicKey candidates signature d.now
  | .lookup target => s.onLookup config id conn target d
  | .lookupShort shortId => s.onLookupShort config id conn shortId d
  | .ping =>
    if conn.active.isNone then s.reject id conn "还没登记就想心跳" else s.answer id conn .pong
  | message => s.reject id conn ("服务器不接受 " ++ message.kind ++ " 消息")

end Server

end Frames

/-! ## The other sections -/

namespace Server

variable (config : SignalServerConfig)

variable (s : Server)

/-- The online table has no place for `nodeId`. -/
def full (nodeId : NodeId) : Bool :=
  (s.registry.peers.lookup nodeId).isNone && s.registry.peers.size ≥ config.maxRegisteredPeers

variable (id : Nat) (conn : Conn)

/-- The capacity check before the short-id database is asked. -/
def onAdmit (r : Verified) : Server :=
  if s.full config r.nodeId then s.reject id conn "服务器在线表已满"
  else s.setConn id { conn with phase := .storing r }

/-- The answer to a successful registration. -/
def registeredReply (version : UInt32) (shortId : ShortId) : Reply :=
  if version = shortIdProtocolVersion then .registeredShort shortId else .registered

/-- The section that writes the record, after the database answered. -/
def onStore (r : Verified) (result : Except Error ShortId) (order : List WaiterKey) : Server :=
  match result with
  | .error err => s.reject id conn err.display
  | .ok shortId =>
    if s.full config r.nodeId then s.reject id conn "服务器在线表已满"
    else
      let replaced := (s.registry.peers.lookup r.nodeId).map PeerRecord.connectionId
      let registry := { s.registry with
        peers := s.registry.peers.insert r.nodeId ⟨id, r.candidates⟩ }
      let (registry, live) := registry.takeWaitersFor r.nodeId order
      let reply := registeredReply r.protocolVersion shortId
      let s := { s with registry }.record (.inserted id r.nodeId r.candidates)
      s.setConn id { conn with
        active := some ⟨r.protocolVersion, r.nodeId, id⟩
        phase := .replying reply (.wake r.nodeId replaced live) }

/-- Queue a reply: a failed `send_or_close` breaks. -/
def onReply (reply : Reply) (after : After) : Server :=
  if s.room config id 0 then
    (s.setConn id { conn with phase := after.phase }).enqueue id reply.message
  else s.setConn id { conn with phase := .leaving }

/-- One turn of the wake-up loop. -/
def onWake (node : NodeId) (live : List NodeId) (d : Draw) : Server :=
  match live with
  | [] => s.setConn id { conn with phase := .reading }
  | waiter :: rest =>
    (s.setConn id { conn with phase := .waking node rest }).tryPair config waiter node d

/-- The section of a short-id lookup that charges the IP budget. -/
def onBudget (shortId : ShortId) (now : Instant) : Server :=
  let (registry, ok) := s.registry.takeShortLookup config conn.ip now
  { s with registry }.setConn id { conn with phase := .resolving shortId (ok && shortId.valid) }

/-- The node a short-id lookup finds; a refused lookup does not ask the database. -/
def resolvedNode (allowed : Bool) (result : Except Error (Option NodeId)) : Option NodeId :=
  if allowed then
    match result with
    | .ok node => node
    | .error _ => none
  else none

/-- The database answered a short-id lookup. -/
def onResolve (shortId : ShortId) (allowed : Bool) (result : Except Error (Option NodeId)) :
    Server :=
  let nodeId := resolvedNode allowed result
  let conn := if nodeId.isNone then { conn with shortWindow := conn.shortWindow.miss } else conn
  s.answer id conn (.shortResolved shortId nodeId)

/-- The handler is out of its loop: take its own record off the table. -/
def onLeave (order : List NodeId) : Server :=
  let s :=
    match conn.active with
    | none => s
    | some registration =>
      { s with
        registry := s.registry.unregister registration.nodeId registration.connectionId order }
  s.setConn id { conn with phase := .done }

end Server

/-! ## The machine -/

inductive Event where
  /-- A connection is accepted. -/
  | accept (ip : IpAddr) (now : Instant)
  /-- `handle_signal_io` begins. -/
  | start (id : Nat) (now : Instant)
  | frame (id : Nat) (message : SignalMessage) (d : Draw)
  /-- A frame that does not parse; `err` is the text of the error. -/
  | badFrame (id : Nat) (err : String)
  /-- The client is gone, the handshake failed, a read timed out, or the connection
      was told to close. -/
  | hangup (id : Nat)
  | admission (id : Nat)
  | store (id : Nat) (result : Except Error ShortId) (order : List WaiterKey)
  | reply (id : Nat)
  | kick (id : Nat)
  | wake (id : Nat) (d : Draw)
  | budget (id : Nat) (now : Instant)
  | resolve (id : Nat) (result : Except Error (Option NodeId))
  | leave (id : Nat) (order : List NodeId)
  /-- The writer takes a message. -/
  | writerRecv (id : Nat)
  /-- The writer stops: a failed or timed out write, or the end of the connection. -/
  | writerStop (id : Nat)
  /-- The relay admission serves its own clients. -/
  | relay (e : Relay.Event)

/-- The relay's own events: tickets are issued by `try_pair` only. -/
def relayOwn : Relay.Event → Bool
  | .issue .. => false
  | _ => true

namespace Server

variable (c : Crypto) (config : SignalServerConfig)

/-- The step of a handler that stands at `phase`.  `none` means that the event
    does not belong to this phase. -/
def handle (s : Server) (id : Nat) (conn : Conn) : Event → Option Server
  | .start _ now =>
    match conn.phase with
    | .connecting =>
      some (s.setConn id
        { conn with phase := .reading, nodeWindow := .new now, shortWindow := .new now })
    | _ => none
  | .frame _ message d =>
    match conn.phase with
    | .reading => if conn.closeRequested then none else some (s.onFrame c config id conn message d)
    | _ => none
  | .badFrame _ err =>
    match conn.phase with
    | .reading =>
      if conn.closeRequested then none else some (s.reject id conn ("消息解析失败: " ++ err))
    | _ => none
  | .hangup _ =>
    match conn.phase with
    | .connecting => some (s.setConn id { conn with phase := .leaving })
    | .reading => some (s.setConn id { conn with phase := .leaving })
    | _ => none
  | .admission _ =>
    match conn.phase with
    | .admitting r => some (s.onAdmit config id conn r)
    | _ => none
  | .store _ result order =>
    match conn.phase with
    | .storing r =>
      if Enumerates order (s.registry.waitersOf r.nodeId) then
        some (s.onStore config id conn r result order)
      else none
    | _ => none
  | .reply _ =>
    match conn.phase with
    | .replying reply after => some (s.onReply config id conn reply after)
    | _ => none
  | .kick _ =>
    match conn.phase with
    | .kicking node replaced live =>
      some ((s.setConn id { conn with phase := .waking node live }).requestClose replaced)
    | _ => none
  | .wake _ d =>
    match conn.phase with
    | .waking node live => some (s.onWake config id conn node live d)
    | _ => none
  | .budget _ now =>
    match conn.phase with
    | .budgeting shortId => some (s.onBudget config id conn shortId now)
    | _ => none
  | .resolve _ result =>
    match conn.phase with
    | .resolving shortId allowed => some (s.onResolve id conn shortId allowed result)
    | _ => none
  | .leave _ order =>
    match conn.phase with
    | .leaving =>
      if conn.active.all fun registration =>
          decide (Enumerates order
            (s.registry.pendingOf ⟨registration.nodeId, registration.connectionId⟩))
      then some (s.onLeave id conn order)
      else none
    | _ => none
  | .writerRecv _ =>
    match conn.outbox with
    | _ :: rest => if conn.writerUp then some (s.setConn id { conn with outbox := rest }) else none
    | [] => none
  | .writerStop _ => some (s.setConn id { conn with outbox := [], writerUp := false })
  | _ => none

/-- The connection an event belongs to. -/
def eventConn : Event → Option Nat
  | .accept .. => none
  | .relay _ => none
  | .start id _ => some id
  | .frame id .. => some id
  | .badFrame id _ => some id
  | .hangup id => some id
  | .admission id => some id
  | .store id .. => some id
  | .reply id => some id
  | .kick id => some id
  | .wake id _ => some id
  | .budget id _ => some id
  | .resolve id _ => some id
  | .leave id _ => some id
  | .writerRecv id => some id
  | .writerStop id => some id

/-- One step of the server. -/
def step (s : Server) (e : Event) : Option Server :=
  match e with
  | .accept ip now =>
    if s.nextId + 1 = 0 then none
    else some { s.setConn s.nextId.toNat (.new ip now) with nextId := s.nextId + 1 }
  | .relay e =>
    if relayOwn e then
      some { s with registry := { s.registry with relay := s.registry.relay.map (·.apply c e) } }
    else none
  | e => do
    let id ← eventConn e
    let conn ← s.conns id
    s.handle c config id conn e

end Server

/-- The registry `run_signal_server_on_borrowed` starts with. -/
def Registry.start (config : SignalServerConfig) (reg : Registry) : Prop :=
  reg.shortLookupIps = ∅ ∧ reg.nodeLookupIps = ∅ ∧ reg.peers = ∅ ∧ reg.waiters = ∅ ∧
    reg.pendingByConnection = ∅ ∧
    match config.relay with
    | none => reg.relay = none
    | some relay => relay.listen ≠ [] ∧ ∃ st, Relay.Admission.new relay = .ok st ∧
        reg.relay = some st

/-- The signaling server started with `config`. -/
def machine (c : Crypto) (config : SignalServerConfig) : Machine Server Event :=
  Machine.ofStep
    (fun s => s.registry.start config ∧ s.conns = (fun _ => none) ∧ s.nextId = 1 ∧ s.log = [])
    (Server.step c config)

end P2pFile.Discovery
