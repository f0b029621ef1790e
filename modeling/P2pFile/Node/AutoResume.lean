/-
  P2pFile.Node.AutoResume

  The recovery intentions of the running process (`src/node/core/auto_resume.rs`).

  A task that has been transferred since the start has an intention.  When the network
  to its peer is lost, the intention waits, and `due` hands out tickets for it.  Copies of
  a ticket share one flag that says whether it is cancelled: a ticket has the number of
  its flag, and `cancelled` lists those that are set.

  Instants are in milliseconds.
-/

import P2pFile.Node.TaskModel

namespace P2pFile.Node

abbrev Instant := Nat

/-- `MAX_TASKS`. -/
def maxIntents : Nat := 256

def maxAttempts : UInt8 := 5

def lifetime : Nat := 300 * 1000

structure Ticket where
  id : TaskId
  peer : NodeId
  direction : TaskDirection
  nonce : UInt64
  revision : UInt64
  deadline : Option Instant
  flag : Nat
  deriving DecidableEq

structure Intent where
  ticket : Ticket
  waiting : Bool
  inflight : Bool
  network : Bool
  attempts : UInt8
  expires : Option Instant
  due : Instant
  deriving DecidableEq

/-- The intention has not expired. -/
def Intent.alive (now : Instant) (i : Intent) : Bool := i.expires.any fun t => t > now

/-- What a peer and this node may do with each other's files. -/
structure Rights where
  inbound : Bool
  outbound : Bool
  deriving DecidableEq

/-- Whether the rights allow a task of this direction. -/
def Rights.allow (rights : Rights) : TaskDirection → Bool
  | .send => rights.outbound
  | .receive => rights.inbound

structure Recovery where
  enabled : Bool
  nonce : UInt64
  /-- At most one intention for a task. -/
  tasks : List Intent
  cancelled : List Nat
  nextFlag : Nat
  deriving DecidableEq

namespace Recovery

/-- `Recovery::default`. -/
def new : Recovery := ⟨false, 0, [], [], 0⟩

variable (r : Recovery) (id : TaskId)

def get : Option Intent := r.tasks.find? fun i => i.ticket.id == id

/-- Set the flags of the intentions. -/
def cancelFlags (intents : List Intent) : Recovery :=
  { r with cancelled := intents.map (fun i => i.ticket.flag) ++ r.cancelled }

variable (ticket : Ticket)

/-- `Ticket::cancelled`. -/
def isCancelled : Bool := r.cancelled.contains ticket.flag

/-- Change the intention of one task. -/
def update (f : Intent → Intent) : Recovery :=
  { r with tasks := r.tasks.map fun i => if i.ticket.id = id then f i else i }

/-- Remove the intentions that satisfy `p`. -/
def discard (p : Intent → Bool) : Recovery :=
  { r with tasks := r.tasks.filter fun i => !p i }

def enable (enabled : Bool) : Recovery :=
  if enabled then { r with enabled }
  else
    { r.cancelFlags r.tasks with
      enabled
      tasks := r.tasks.map fun i => { i with waiting := false, inflight := false } }

def clear : Recovery := { r.cancelFlags r.tasks with tasks := [] }

/-- `cancel`: whether the task was waiting. -/
def cancel : Bool × Recovery :=
  match r.get id with
  | none => (false, r)
  | some i => (i.waiting, (r.cancelFlags [i]).discard fun i => i.ticket.id == id)

def forget : Recovery := r.discard fun i => i.ticket.id == id

variable (now : Instant) (id : TaskId) (peer : NodeId)

def enroll (direction : TaskDirection) : Recovery :=
  let r := { r with nonce := r.nonce + 1 }
  match r.get id with
  | some _ =>
    -- a received Offer or an admitted sender supersedes a pending request
    r.update id fun i =>
      { i with
        ticket := { i.ticket with revision := i.ticket.revision + 1 }
        waiting := false
        inflight := false }
  | none =>
    if r.tasks.length ≥ maxIntents then r
    else
      let nonce := r.nonce + 1
      let ticket : Ticket := ⟨id, peer, direction, nonce, 0, none, r.nextFlag⟩
      { r with
        nonce
        tasks := r.tasks ++ [⟨ticket, false, false, false, 0, none, now⟩]
        nextFlag := r.nextFlag + 1 }

/-- Whether `lost` renews the intention. -/
def renews (i : Intent) : Bool := i.ticket.peer == peer && !i.waiting

/-- The intention after a loss, with the flag of its new ticket. -/
def renewed (enabled : Bool) (nonce : UInt64) (now : Instant) (flag : Nat) (i : Intent) : Intent :=
  let expires := i.expires.getD (now + lifetime)
  { i with
    ticket :=
      { i.ticket with
        nonce, revision := i.ticket.revision + 1, deadline := some expires, flag }
    network := true
    waiting := enabled
    inflight := false
    expires := some expires
    -- the sender goes first
    due := now + if i.ticket.direction = .send then 1000 else 4000 }

/-- The loop of `lost`, with the number of the next flag. -/
def loseAll (peer : NodeId) (enabled : Bool) (nonce : UInt64) (now : Instant) :
    Nat → List Intent → List Intent
  | _, [] => []
  | flag, i :: rest =>
    if renews peer i then
      renewed enabled nonce now flag i :: loseAll peer enabled nonce now (flag + 1) rest
    else i :: loseAll peer enabled nonce now flag rest

variable (peer : NodeId)

def lost (now : Instant) : Recovery :=
  let nonce := r.nonce + 1
  { r.cancelFlags (r.tasks.filter (renews peer)) with
    nonce
    tasks := loseAll peer r.enabled nonce now r.nextFlag r.tasks
    nextFlag := r.nextFlag + r.tasks.length }

def valid (ticket : Ticket) : Bool :=
  (r.get ticket.id).any fun i => i.ticket.nonce == ticket.nonce && i.waiting && Intent.alive now i

def pending : Bool := (r.get id).any fun i => i.waiting && Intent.alive now i

def networkTasks : List Ticket :=
  (r.tasks.filter fun i => i.ticket.peer == peer && i.network).map Intent.ticket

def sameAttempt : Bool :=
  (r.get ticket.id).any fun i =>
    i.ticket.nonce == ticket.nonce && i.ticket.revision == ticket.revision

def started : Bool :=
  (r.get ticket.id).any fun i =>
    i.ticket.nonce == ticket.nonce && i.ticket.revision != ticket.revision

def stopTicket : Recovery :=
  if r.sameAttempt ticket then
    (r.cancelFlags (r.get ticket.id).toList).update ticket.id fun i =>
      { i with waiting := false, inflight := false }
  else r

def automaticAllowed : Bool := (r.get id).any fun i => i.network && Intent.alive now i

/-- `cancel_peer`: whether a task of the peer was waiting. -/
def cancelPeer : Bool × Recovery :=
  let own := r.tasks.filter fun i => i.ticket.peer == peer
  (own.any Intent.waiting, (r.cancelFlags own).discard fun i => i.ticket.peer == peer)

def cancelDenied (rights : Rights) : Recovery :=
  let denied (i : Intent) : Bool := i.ticket.peer == peer && !rights.allow i.ticket.direction
  (r.cancelFlags (r.tasks.filter denied)).discard denied

/-- `Duration::from_secs(1 << attempts.min(5))`. -/
def backoff (attempts : UInt8) : Nat := 1000 * 2 ^ min attempts.toNat 5

/-- The loop of `due`: the intentions, the peers to look up and the tickets. -/
def dueAll (now : Instant) (ready : NodeId → TaskDirection → Bool) (busy : NodeId → Bool) :
    List NodeId → List Intent → List Intent × List NodeId × List Ticket
  | peers, [] => ([], peers, [])
  | peers, i :: rest =>
    if !i.waiting || i.inflight || i.due > now then
      let (intents, peers, jobs) := dueAll now ready busy peers rest
      (i :: intents, peers, jobs)
    else if ready i.ticket.peer i.ticket.direction then
      let (intents, peers, jobs) := dueAll now ready busy peers rest
      ({ i with inflight := true, attempts := i.attempts + 1 } :: intents, peers, i.ticket :: jobs)
    else if busy i.ticket.peer then
      let (intents, peers, jobs) := dueAll now ready busy peers rest
      (i :: intents, peers, jobs)
    else
      let attempts := i.attempts + 1
      let peers := if peers.contains i.ticket.peer then peers else peers ++ [i.ticket.peer]
      let (intents, peers, jobs) := dueAll now ready busy peers rest
      ({ i with attempts, due := now + backoff attempts } :: intents, peers, jobs)

/-- `due`: the peers to look up, the tickets to use, and the recovery after it. -/
def due (ready : NodeId → TaskDirection → Bool) (busy : NodeId → Bool) :
    (List NodeId × List Ticket) × Recovery :=
  let kept := r.tasks.filter fun i =>
    (i.expires.all fun t => t > now) && (!i.waiting || i.attempts < maxAttempts || i.inflight)
  let (tasks, peers, jobs) := dueAll now ready busy [] kept
  ((peers, jobs), { r with tasks })

def admitted : Recovery := r.update id fun i => { i with waiting := false, inflight := false }

def finished (ticket : Ticket) : Recovery :=
  r.update ticket.id fun i =>
    if i.ticket.nonce = ticket.nonce then
      { i with inflight := false, due := now + backoff i.attempts }
    else i

end Recovery

end P2pFile.Node
