/-
  P2pFile.Discovery.SignalSteps

  What one step of the signaling server can do.

  The properties of the server speak of three things: the tables of the registry,
  the history, and the control state of each handler (`Core`: its phase and its
  registration).  `Move` lists how a step changes these three; outboxes, close
  signals, budgets and the relay change as well, but no handler decision on the
  tables depends on them except through `room`.
-/

import P2pFile.Discovery.SignalServer

namespace P2pFile.Discovery

open Lib
open Relay (Token Instant)
open Function (update update_apply)

variable {c : Crypto} {config : SignalServerConfig}

/-! ## The control state of a handler -/

structure Core where
  phase : Phase
  pending : Option PendingRegistration
  active : Option ActiveRegistration

def Conn.core (conn : Conn) : Core := ⟨conn.phase, conn.pending, conn.active⟩

/-- The handler's wake-up list: the node it registered and the waiters it has
    taken and not yet paired. -/
def Phase.wakes : Phase → Option (NodeId × List NodeId)
  | .replying _ (.wake node _ live) => some (node, live)
  | .kicking node _ live => some (node, live)
  | .waking node live => some (node, live)
  | _ => none

/-- The handler has been rejected or is out of its loop. -/
inductive Phase.Ending : Phase → Prop
  | rejected (reason : String) : Ending (.replying (.error reason) .leave)
  | leaving : Ending .leaving
  | done : Ending .done

/-- The phases in which a handler can stand without a registration. -/
inductive Phase.Early : Phase → Prop
  | connecting : Early .connecting
  | reading : Early .reading
  | admitting (r : Verified) : Early (.admitting r)
  | storing (r : Verified) : Early (.storing r)
  | leaving : Early .leaving

/-- The phases in which a handler owes neither a reply nor a wake-up. -/
inductive Phase.Rest : Phase → Prop
  | early {phase : Phase} (h : phase.Early) : Rest phase
  | woken (node : NodeId) : Rest (.waking node [])
  | budgeting (shortId : ShortId) : Rest (.budgeting shortId)
  | resolving (shortId : ShortId) (allowed : Bool) : Rest (.resolving shortId allowed)

/-- A reply that neither offers a challenge nor puts the client off. -/
def Reply.Plain (reply : Reply) : Prop :=
  (∀ version nonce, reply ≠ .challenge version nonce) ∧ ∀ target, reply ≠ .pending target

@[simp] theorem Reply.plain_error (reason : String) : (Reply.error reason).Plain := by
  simp [Reply.Plain]

@[simp] theorem Reply.plain_registeredReply (version : UInt32) (shortId : ShortId) :
    (Server.registeredReply version shortId).Plain := by
  unfold Server.registeredReply
  split <;> simp [Reply.Plain]

@[simp] theorem Reply.plain_pong : Reply.pong.Plain := by
  simp [Reply.Plain]

@[simp] theorem Reply.plain_shortResolved (shortId : ShortId) (node : Option NodeId) :
    (Reply.shortResolved shortId node).Plain := by
  simp [Reply.Plain]

/-- The phases of a handler that has registered, outside its wake-up loop. -/
inductive Phase.Calm : Phase → Prop
  | reading : Calm .reading
  | replying {reply : Reply} (h : reply.Plain) : Calm (.replying reply .read)
  | budgeting (shortId : ShortId) : Calm (.budgeting shortId)
  | resolving (shortId : ShortId) (allowed : Bool) : Calm (.resolving shortId allowed)
  | ending {phase : Phase} (h : phase.Ending) : Calm phase

variable {phase : Phase}

theorem Phase.Ending.wakes_eq (h : phase.Ending) : phase.wakes = none := by
  cases h <;> rfl

theorem Phase.Early.wakes_eq (h : phase.Early) : phase.wakes = none := by
  cases h <;> rfl

theorem Phase.Rest.live_eq (h : phase.Rest) {node : NodeId} {live : List NodeId}
    (hw : phase.wakes = some (node, live)) : live = [] := by
  cases h with
  | early h =>
    rw [h.wakes_eq] at hw
    cases hw
  | woken node' =>
    cases hw
    rfl
  | budgeting => exact absurd hw (by simp [Phase.wakes])
  | resolving => exact absurd hw (by simp [Phase.wakes])

theorem Phase.Calm.wakes_eq (h : phase.Calm) : phase.wakes = none := by
  cases h with
  | ending h => exact h.wakes_eq
  | _ => rfl

theorem Phase.Calm.ne_pending (h : phase.Calm) (target : NodeId) (after : After) :
    phase ≠ .replying (.pending target) after := by
  cases h with
  | replying h =>
    intro heq
    exact h.2 target (Phase.replying.inj heq).1
  | ending h => cases h <;> simp
  | _ => simp

@[simp] theorem After.wakes_phase (after : After) :
    after.phase.wakes = match after with
      | .wake node _ live => some (node, live)
      | _ => none := by
  cases after with
  | read => rfl
  | leave => rfl
  | wake node replaced live => cases replaced <;> rfl

theorem Phase.wakes_replying (reply : Reply) (after : After) :
    (Phase.replying reply after).wakes = after.phase.wakes := by
  rw [After.wakes_phase]
  cases after <;> rfl

/-- The tables of two registries agree. -/
structure Registry.Same (reg reg' : Registry) : Prop where
  peers : reg'.peers = reg.peers
  waiters : reg'.waiters = reg.waiters
  pending : reg'.pendingByConnection = reg.pendingByConnection

namespace Registry.Same

variable {reg reg' reg'' : Registry}

theorem refl (reg : Registry) : reg.Same reg := ⟨rfl, rfl, rfl⟩

variable (h : reg.Same reg')

include h

theorem trans (h' : reg'.Same reg'') : reg.Same reg'' :=
  ⟨h'.peers.trans h.peers, h'.waiters.trans h.waiters, h'.pending.trans h.pending⟩

theorem waitersOf_eq (target : NodeId) : reg'.waitersOf target = reg.waitersOf target := by
  unfold waitersOf
  rw [h.waiters]

variable (key : WaiterKey)

theorem pendingOf_eq : reg'.pendingOf key = reg.pendingOf key := by
  unfold pendingOf
  rw [h.pending]

theorem pendingCount_eq : reg'.pendingCount key = reg.pendingCount key := by
  unfold pendingCount
  rw [h.pending]

theorem waiterEntries_eq : reg'.waiterEntries = reg.waiterEntries := by
  unfold waiterEntries
  rw [h.waiters]

theorem addWaiter (target : NodeId) :
    (reg.addWaiter key target).Same (reg'.addWaiter key target) := by
  unfold Registry.addWaiter
  simp only [h.waitersOf_eq, h.pendingOf_eq, h.waiters, h.pending]
  split
  · exact ⟨h.peers, rfl, rfl⟩
  · exact ⟨h.peers, rfl, rfl⟩

end Registry.Same

/-! ## The server's operations on the control state -/

namespace Server

variable {s t : Server}

def core (s : Server) (id : Nat) : Option Core := (s.conns id).map Conn.core

variable {id : Nat} {conn : Conn}

theorem core_of_conns (h : s.conns id = some conn) : s.core id = some conn.core := by
  rw [core, h]
  rfl

@[simp] theorem core_setConn (s : Server) (id : Nat) (conn : Conn) :
    (s.setConn id conn).core = update s.core id (some conn.core) := by
  funext id'
  simp only [core, setConn, update_apply]
  split <;> rfl

/-- Replacing a connection by one with the same control state changes nothing
    that `core` shows. -/
theorem core_setConn_same {conn' : Conn} (h : s.conns id = some conn)
    (hcore : conn'.core = conn.core) : (s.setConn id conn').core = s.core := by
  rw [core_setConn, hcore, ← core_of_conns h]
  exact Function.update_eq_self id s.core

@[simp] theorem core_requestClose (s : Server) (id : Nat) : (s.requestClose id).core = s.core := by
  unfold requestClose
  split
  · rfl
  next conn hconn =>
    exact core_setConn_same hconn rfl

@[simp] theorem core_enqueue (s : Server) (id : Nat) (m : SignalMessage) :
    (s.enqueue id m).core = s.core := by
  unfold enqueue
  split
  · rfl
  next conn hconn =>
    exact core_setConn_same hconn rfl

@[simp] theorem registry_requestClose (s : Server) (id : Nat) :
    (s.requestClose id).registry = s.registry := by
  unfold requestClose
  split <;> rfl

@[simp] theorem registry_enqueue (s : Server) (id : Nat) (m : SignalMessage) :
    (s.enqueue id m).registry = s.registry := by
  unfold enqueue
  split <;> rfl

@[simp] theorem nextId_requestClose (s : Server) (id : Nat) :
    (s.requestClose id).nextId = s.nextId := by
  unfold requestClose
  split <;> rfl

@[simp] theorem nextId_enqueue (s : Server) (id : Nat) (m : SignalMessage) :
    (s.enqueue id m).nextId = s.nextId := by
  unfold enqueue
  split <;> rfl

@[simp] theorem log_requestClose (s : Server) (id : Nat) : (s.requestClose id).log = s.log := by
  unfold requestClose
  split <;> rfl

variable {m : SignalMessage}

/-- A message is queued to every connection that exists. -/
theorem log_enqueue (h : (s.conns id).isSome = true) :
    (s.enqueue id m).log = s.log ++ [.queued id m] := by
  obtain ⟨conn, hconn⟩ := Option.isSome_iff_exists.mp h
  unfold enqueue
  rw [hconn]
  rfl

theorem isSome_conns_enqueue {id' : Nat} (h : (s.conns id').isSome = true) :
    ((s.enqueue id m).conns id').isSome = true := by
  unfold enqueue
  split
  · exact h
  simp only [record, setConn, update_apply]
  split
  · rfl
  · exact h

theorem isSome_of_room {taken : Nat} (h : s.room config id taken = true) :
    (s.conns id).isSome = true := by
  unfold room at h
  cases hconn : s.conns id with
  | none => rw [hconn] at h; cases h
  | some conn => rfl

/-! ## Pairing -/

/-- The two messages of a pairing, or none. -/
def pairEntries (s : Server) (config : SignalServerConfig) (a b : NodeId) (token : Token) :
    List Entry :=
  match s.registry.peers.lookup a, s.registry.peers.lookup b with
  | some recordA, some recordB =>
    if s.room config recordA.connectionId 0 &&
        s.room config recordB.connectionId (reserved recordA recordB) then
      [.queued recordA.connectionId (.peerCandidates b recordB.candidates token),
       .queued recordB.connectionId (.peerCandidates a recordA.candidates token)]
    else []
  | _, _ => []

/-- What `try_pair` does to tables, control states and history. -/
structure Pairs (config : SignalServerConfig) (a b : NodeId) (token : Token) (s t : Server) :
    Prop where
  core : t.core = s.core
  same : s.registry.Same t.registry
  nextId : t.nextId = s.nextId
  log : t.log = s.log ++ s.pairEntries config a b token

theorem tryPair_spec (s : Server) (config : SignalServerConfig) (a b : NodeId) (d : Draw) :
    Pairs config a b d.token s (s.tryPair config a b d) := by
  unfold tryPair
  split
  next recordA recordB hA hB =>
    split
    next hroom =>
      have hroom' : s.room config recordA.connectionId 0 = false := by simpa using hroom
      refine ⟨by simp, by simp [Registry.Same.refl], by simp, ?_⟩
      simp [pairEntries, hA, hB, hroom']
    rename_i hroomA
    have hroomA' : s.room config recordA.connectionId 0 = true := by simpa using hroomA
    split
    next hroom =>
      have hroom' : s.room config recordB.connectionId (reserved recordA recordB) = false := by
        simpa using hroom
      refine ⟨by simp, by simp [Registry.Same.refl], by simp, ?_⟩
      simp [pairEntries, hA, hB, hroom']
    rename_i hroomB
    have hroomB' : s.room config recordB.connectionId (reserved recordA recordB) = true := by
      simpa using hroomB
    refine ⟨by simp; rfl, by simpa using ⟨rfl, rfl, rfl⟩, by simp, ?_⟩
    -- Both connections exist, so both messages are queued.
    have hconnA := isSome_of_room hroomA'
    have hconnB := isSome_of_room hroomB'
    rw [log_enqueue, log_enqueue]
    · simp [pairEntries, hA, hB, hroomA', hroomB']
    · exact hconnA
    · exact isSome_conns_enqueue hconnB
  next hnone =>
    refine ⟨rfl, .refl _, rfl, ?_⟩
    have hempty : s.pairEntries config a b d.token = [] := by
      unfold pairEntries
      split
      next recordA recordB hA hB =>
        exact absurd hB (hnone recordA recordB hA)
      · rfl
    rw [hempty, List.append_nil]

/-- Pairing looks at the peers and at the room in the outboxes only. -/
theorem pairEntries_congr {a b : NodeId} {token : Token}
    (hpeers : t.registry.peers = s.registry.peers)
    (hroom : ∀ id taken, t.room config id taken = s.room config id taken) :
    t.pairEntries config a b token = s.pairEntries config a b token := by
  unfold pairEntries
  rw [hpeers]
  simp only [hroom]

theorem room_setConn (conn conn' : Conn) (h : s.conns id = some conn)
    (hout : conn'.outbox = conn.outbox) (hup : conn'.writerUp = conn.writerUp) (id' taken : Nat) :
    (s.setConn id conn').room config id' taken = s.room config id' taken := by
  unfold room setConn
  simp only [update_apply]
  split
  next heq =>
    rw [heq, h]
    simp only [Option.any_some, hout, hup]
  · rfl

end Server

/-! ## Verified registrations -/

/-- `key` hashes to `n`, and the signature verifies under it over the challenge, the
    node, the key and the candidates. -/
def SignedBy (c : Crypto) (challenge : Bytes 32) (n : NodeId) (key : Bytes 32)
    (candidates : List Candidate) (signature : List UInt8) : Prop :=
  NodeId.fromPublicKey c key = n ∧
    ∃ sig : Bytes 64, sig.toList = signature ∧
      c.verify key (registerPayload c challenge n key candidates) sig = .ok ()

variable {conn : Conn}

theorem checkHello_ok {version : UInt32} {n : NodeId} {key : Bytes 32}
    (h : checkHello c conn version n key = .ok ()) : conn.active = none ∧ conn.pending = none := by
  unfold checkHello at h
  split at h
  · cases h
  next hnone =>
    simpa [Option.isSome_iff_ne_none] using hnone

theorem checkRegister_ok {p : PendingRegistration} {n : NodeId} {key : Bytes 32}
    {candidates : List Candidate} {signature : List UInt8} {now : Instant} {r : Verified}
    (h : checkRegister c config conn p n key candidates signature now = .ok r) :
    conn.active = none ∧ r.nodeId = n ∧ r.candidates = candidates ∧
      SignedBy c p.challenge n key candidates signature := by
  unfold checkRegister at h
  split at h
  · cases h
  rename_i hactive
  split at h
  · cases h
  split at h
  · cases h
  split at h
  · cases h
  split at h
  · cases h
  rename_i key' hkey
  obtain ⟨rfl, -⟩ := publicKeyFromBytes_eq_ok c hkey
  split at h
  · cases h
  rename_i hnode
  split at h
  · cases h
  rename_i sig hsig
  split at h
  · cases h
  rename_i hverify
  cases h
  refine ⟨by simpa [Option.isSome_iff_ne_none] using hactive, rfl, rfl, by simpa using hnode, sig,
    signatureFromBytes_eq_ok c hsig, verifySignature_eq_ok c hverify⟩

/-! ## Moves -/

/-- A lookup that passed its checks up to the state of the target: the handler's own
    registration is current, and the target is another node. -/
structure Asking (s : Server) (k : Core) (registration : ActiveRegistration) (target : NodeId) :
    Prop where
  active : k.active = some registration
  owner : s.registry.owns registration.nodeId registration.connectionId = true
  ne : registration.nodeId ≠ target

/-- The key under which a handler waits. -/
def ActiveRegistration.key (registration : ActiveRegistration) : WaiterKey :=
  ⟨registration.nodeId, registration.connectionId⟩

/-- What the offline branch of a lookup does to the tables: nothing if the handler
    waits already, and otherwise one new waiter within the quotas. -/
inductive Defers (config : SignalServerConfig) (reg reg' : Registry) (key : WaiterKey)
    (target : NodeId) : Prop
  | again (hmem : key ∈ reg.waitersOf target) (hsame : reg.Same reg')
  | add (hmem : key ∉ reg.waitersOf target)
      (hpending : reg.pendingCount key < config.maxPendingLookups)
      (hentries : reg.waiterEntries < config.maxWaiterEntries)
      (hsame : (reg.addWaiter key target).Same reg')

/-- The table after `r` was registered by connection `id`. -/
def Registry.withPeer (reg : Registry) (id : Nat) (r : Verified) : Registry :=
  { reg with peers := reg.peers.insert r.nodeId ⟨id, r.candidates⟩ }

/-- How a step changes the control states, the tables and the history. -/
inductive Move (c : Crypto) (config : SignalServerConfig) (s : Server) (t : Server) : Event → Prop
  /-- A new connection. -/
  | accept {ip : IpAddr} {now : Instant}
      (hcore : t.core = update s.core s.nextId.toNat (some ⟨.connecting, none, none⟩))
      (hnext : t.nextId.toNat = s.nextId.toNat + 1)
      (hsame : s.registry.Same t.registry)
      (hlog : t.log = s.log) : Move c config s t (.accept ip now)
  /-- A writer, or the relay's own traffic. -/
  | outside {e : Event}
      (hcore : t.core = s.core)
      (hnext : t.nextId = s.nextId)
      (hsame : s.registry.Same t.registry)
      (hlog : t.log = s.log) : Move c config s t e
  /-- The handler begins to read. -/
  | start {id : Nat} {now : Instant} {k : Core}
      (hk : s.core id = some k)
      (hphase : k.phase = .connecting)
      (hcore : t.core = update s.core id (some { k with phase := .reading }))
      (hnext : t.nextId = s.nextId)
      (hsame : s.registry.Same t.registry)
      (hlog : t.log = s.log) : Move c config s t (.start id now)
  /-- A step of one handler that leaves tables, registration and wake-up lists
      alone.  A handler that has not registered only ends in such a step. -/
  | quiet {e : Event} {id : Nat} {k : Core} {phase : Phase} {entries : List Entry}
      (hk : s.core id = some k)
      (hrest : k.phase.Rest)
      (hcalm : phase.Calm)
      (hending : k.active = none → k.phase.Early → phase.Ending)
      (hcore : t.core = update s.core id (some { k with phase }))
      (hnext : t.nextId = s.nextId)
      (hsame : s.registry.Same t.registry)
      (hentries : ∀ x ∈ entries, ∃ m, x = .frame id m)
      (hlog : t.log = s.log ++ entries) : Move c config s t e
  /-- A `RegisterHello` gets a challenge. -/
  | hello {id : Nat} {version : UInt32} {n : NodeId} {key : Bytes 32} {d : Draw} {k : Core}
      (hk : s.core id = some k)
      (hphase : k.phase = .reading) (hpending : k.pending = none) (hactive : k.active = none)
      (hcore : t.core = update s.core id (some
        ⟨.replying (.challenge version d.challenge) .read,
          some ⟨version, n, key, d.challenge, d.now⟩, none⟩))
      (hnext : t.nextId = s.nextId)
      (hsame : s.registry.Same t.registry)
      (hlog : t.log = s.log ++ [.frame id (.registerHello version n key)]) :
      Move c config s t (.frame id (.registerHello version n key) d)
  /-- A `Register` consumes the challenge, and is verified or rejected. -/
  | consume {id : Nat} {n : NodeId} {key : Bytes 32} {candidates : List Candidate}
      {signature : List UInt8} {d : Draw} {k : Core} {p : PendingRegistration} {phase : Phase}
      (hk : s.core id = some k)
      (hphase : k.phase = .reading) (hpending : k.pending = some p)
      (hnew : phase.Ending ∨ ∃ r, phase = .admitting r ∧ k.active = none ∧ r.nodeId = n ∧
        r.candidates = candidates ∧ SignedBy c p.challenge n key candidates signature)
      (hcore : t.core = update s.core id (some ⟨phase, none, k.active⟩))
      (hnext : t.nextId = s.nextId)
      (hsame : s.registry.Same t.registry)
      (hlog : t.log = s.log ++ [.frame id (.register n key candidates signature),
        .consumed id p.challenge n key candidates signature]) :
      Move c config s t (.frame id (.register n key candidates signature) d)
  /-- The first capacity check passed. -/
  | admission {id : Nat} {k : Core} {r : Verified}
      (hk : s.core id = some k)
      (hphase : k.phase = .admitting r)
      (hcore : t.core = update s.core id (some { k with phase := .storing r }))
      (hnext : t.nextId = s.nextId)
      (hsame : s.registry.Same t.registry)
      (hlog : t.log = s.log) : Move c config s t (.admission id)
  /-- The peer record is written and its waiters are taken. -/
  | insert {id : Nat} {result : Except Error ShortId} {order : List WaiterKey} {k : Core}
      {r : Verified} {reply : Reply} (replaced : Option Nat)
      (hk : s.core id = some k)
      (hphase : k.phase = .storing r)
      (horder : Enumerates order (s.registry.waitersOf r.nodeId))
      (hroom : (s.registry.peers.lookup r.nodeId).isSome = true ∨
        s.registry.peers.size < config.maxRegisteredPeers)
      (hreply : reply.Plain)
      (hcore : t.core = update s.core id (some
        ⟨.replying reply (.wake r.nodeId replaced
            ((s.registry.withPeer id r).takeWaitersFor r.nodeId order).2),
          k.pending, some ⟨r.protocolVersion, r.nodeId, id⟩⟩))
      (hnext : t.nextId = s.nextId)
      (hsame : ((s.registry.withPeer id r).takeWaitersFor r.nodeId order).1.Same t.registry)
      (hlog : t.log = s.log ++ [.inserted id r.nodeId r.candidates]) :
      Move c config s t (.store id result order)
  /-- A reply is queued. -/
  | send {id : Nat} {k : Core} {reply : Reply} {after : After}
      (hk : s.core id = some k)
      (hphase : k.phase = .replying reply after)
      (hcore : t.core = update s.core id (some { k with phase := after.phase }))
      (hnext : t.nextId = s.nextId)
      (hsame : s.registry.Same t.registry)
      (hlog : t.log = s.log ++ [.queued id reply.message]) : Move c config s t (.reply id)
  /-- A reply does not fit: the handler breaks, and forgets its wake-up list. -/
  | drop {id : Nat} {k : Core} {reply : Reply} {after : After}
      (hk : s.core id = some k)
      (hphase : k.phase = .replying reply after)
      (hroom : s.room config id 0 = false)
      (hcore : t.core = update s.core id (some { k with phase := .leaving }))
      (hnext : t.nextId = s.nextId)
      (hsame : s.registry.Same t.registry)
      (hlog : t.log = s.log) : Move c config s t (.reply id)
  /-- The replaced connection is told to close. -/
  | kick {id : Nat} {k : Core} {node : NodeId} {replaced : Nat} {live : List NodeId}
      (hk : s.core id = some k)
      (hphase : k.phase = .kicking node replaced live)
      (hcore : t.core = update s.core id (some { k with phase := .waking node live }))
      (hnext : t.nextId = s.nextId)
      (hsame : s.registry.Same t.registry)
      (hlog : t.log = s.log) : Move c config s t (.kick id)
  /-- The wake-up loop tries to pair its next waiter. -/
  | wake {id : Nat} {d : Draw} {k : Core} {node waiter : NodeId} {rest : List NodeId}
      (hk : s.core id = some k)
      (hphase : k.phase = .waking node (waiter :: rest))
      (hcore : t.core = update s.core id (some { k with phase := .waking node rest }))
      (hnext : t.nextId = s.nextId)
      (hsame : s.registry.Same t.registry)
      (hlog : t.log = s.log ++ s.pairEntries config waiter node d.token) :
      Move c config s t (.wake id d)
  /-- A lookup of a registered target tries to pair at once. -/
  | pair {id : Nat} {target : NodeId} {d : Draw} {k : Core} {registration : ActiveRegistration}
      (hk : s.core id = some k)
      (hphase : k.phase = .reading)
      (hask : Asking s k registration target)
      (hcore : t.core = s.core)
      (hnext : t.nextId = s.nextId)
      (hsame : s.registry.Same t.registry)
      (hlog : t.log = s.log ++ .frame id (.lookup target) ::
        s.pairEntries config registration.nodeId target d.token) :
      Move c config s t (.frame id (.lookup target) d)
  /-- A lookup of an absent target is deferred. -/
  | defer {id : Nat} {target : NodeId} {d : Draw} {k : Core} {registration : ActiveRegistration}
      (hk : s.core id = some k)
      (hphase : k.phase = .reading)
      (hask : Asking s k registration target)
      (habsent : s.registry.peers.lookup target = none)
      (hdefers : Defers config s.registry t.registry registration.key target)
      (hcore : t.core = update s.core id
        (some { k with phase := .replying (.pending target) .read }))
      (hnext : t.nextId = s.nextId)
      (hlog : t.log = s.log ++ [.frame id (.lookup target), .deferred id target]) :
      Move c config s t (.frame id (.lookup target) d)
  /-- A handler takes its own record off the table. -/
  | leave {id : Nat} {order : List NodeId} {k : Core} {registration : ActiveRegistration}
      (hk : s.core id = some k)
      (hphase : k.phase = .leaving)
      (hactive : k.active = some registration)
      (horder : Enumerates order (s.registry.pendingOf registration.key))
      (hcore : t.core = update s.core id (some { k with phase := .done }))
      (hnext : t.nextId = s.nextId)
      (hsame : (s.registry.unregister registration.nodeId registration.connectionId order).Same
        t.registry)
      (hlog : t.log = s.log) : Move c config s t (.leave id order)

end P2pFile.Discovery
