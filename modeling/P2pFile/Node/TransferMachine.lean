/-
  P2pFile.Node.TransferMachine

  The transfer service as a machine: its state, its events, and what each does.

  An event is one section under the service's locks of a call that a user, a peer, the
  session or the recovery makes.  A call that has sections to come is kept in `calls`; the
  attempts are kept in `sends` and `receives`, each with the phase it is in.
-/

import P2pFile.Node.Activity
import P2pFile.Node.Transfer

namespace P2pFile.Node

open Lib Protocol Storage

/-! ## State -/

/-- `Active`, with the flag that asks the attempt to pause. -/
structure ActiveAttempt extends ActiveTask where
  pause : Bool

/-- Where an attempt to send is. -/
inductive SendPhase where
  /-- A `ScheduledSend` that does not run yet. -/
  | scheduled
  /-- The slot of a peer's request is reserved. -/
  | reserved (automatic : Bool)
  /-- The task is active; `asked` is the mode of the peer's request, if it was one. -/
  | claimed (asked : Option Bool)
  | ready (mode : SendMode)
  | running (automatic : Bool)
  /-- The attempt could not begin; `finish_error` is to come. -/
  | broken
  /-- `finish_error` is about to store its verdict. -/
  | failing (verdict : Verdict)
  /-- The guards are about to be dropped. -/
  | done
  /-- The slot is about to be given back. -/
  | leaving
  deriving DecidableEq

/-- Whether the attempt can end with an error that `finish_error` handles. -/
def SendPhase.fails : SendPhase → Bool
  | .running _ | .broken => true
  | _ => false

structure SendAttempt where
  id : TaskId
  peer : NodeId
  metadata : Bool
  phase : SendPhase
  deriving DecidableEq

/-- Where an attempt to receive is. -/
inductive ReceivePhase where
  | offered (peer : NodeId) (peerId : PeerId) (offer : Offer) (automatic : Bool)
  | running (automatic : Bool)
  | failing (verdict : Verdict)
  | done

/-- A call with a section to come. -/
inductive ServiceCall where
  /-- `enqueue_tasks`. -/
  | resuming (peer : NodeId) (ids : List TaskId)
  /-- `resume` of a received task. -/
  | continuing (id : TaskId)
  /-- `request_resume`; the ticket is that of the recovery. -/
  | asking (id : TaskId) (ticket : Option Ticket)
  /-- `finish_error` of the request. -/
  | refused (id : TaskId) (verdict : Verdict) (ticket : Option Ticket)
  /-- A peer's `ResumeTask` that has passed its checks. -/
  | asked (peer : NodeId) (id : TaskId) (automatic : Bool)
  | pausing (id : TaskId) (waiting : Bool)
  | cancelling (id : TaskId)
  /-- `cancel_task` waits for the end of the attempt. -/
  | cancelled (id : TaskId)
  | settling (peer : NodeId) (tickets : List Ticket)
  | recovering (ticket : Ticket)
  /-- A stopped `auto_recover`. -/
  | stopping (ticket : Ticket)
  /-- `auto_recover` before it returns. -/
  | recovered (ticket : Ticket)
  | revoking (peer : NodeId) (rights : Rights)

/-- The ticket with which a call of the recovery is made. -/
def ServiceCall.ticket : ServiceCall → Option Ticket
  | .recovering ticket => some ticket
  | .asking _ ticket => ticket
  | .refused _ _ ticket => ticket
  | _ => none

/-- The tasks that a call is about. -/
def ServiceCall.ids : ServiceCall → List TaskId
  | .resuming _ ids => ids
  | .continuing id | .asking id _ | .refused id _ _ | .asked _ id _ | .pausing id _
  | .cancelling id | .cancelled id => [id]
  | .settling _ tickets => tickets.map Ticket.id
  | .recovering ticket | .stopping ticket | .recovered ticket => [ticket.id]
  | .revoking _ _ => []

/-- What is written down about a run. -/
inductive Note where
  /-- Data of the task was sent. -/
  | sent (id : TaskId)
  /-- Data of the task was accepted. -/
  | accepted (id : TaskId)
  /-- An attempt has begun. -/
  | began (id : TaskId) (automatic : Bool)
  /-- The recovery has queued the task. -/
  | resumed (id : TaskId)
  /-- The recovery has given a ticket up. -/
  | discarded (id : TaskId)
  /-- `pause_task` has returned `Ok`. -/
  | paused (id : TaskId)
  /-- `cancel_task` has returned `Ok`. -/
  | cancelled (id : TaskId)
  deriving DecidableEq

structure Transfer where
  desk : Desk
  recovery : Recovery
  active : FinMap TaskId ActiveAttempt
  automaticSends : FinMap TaskId Ticket
  sends : FinMap UInt64 SendAttempt
  receives : FinMap TaskId ReceivePhase
  calls : List ServiceCall
  now : Instant
  log : List Note

namespace Transfer

variable (c : Crypto) (s : Transfer)

/-! ## Parts of events -/

def note (n : Note) : Transfer := { s with log := s.log ++ [n] }

/-- Run a program on the store and the queue; nothing if the process dies. -/
def onDesk {α : Type} (p : DeskProg α) (plan : List (Fault Error)) :
    Option (Except Error α × Transfer × List (Fault Error)) :=
  match p s.desk plan with
  | (.ok a, desk, rest) => some (.ok a, { s with desk }, rest)
  | (.error err, desk, rest) => some (.error err, { s with desk }, rest)
  | (.crashed, _, _) => none

def call (call : ServiceCall) : Transfer := { s with calls := s.calls ++ [call] }

variable (i : Nat)

/-- The call goes on as another one. -/
def setCall (call : ServiceCall) : Transfer := { s with calls := s.calls.set i call }

def endCall : Transfer := { s with calls := s.calls.eraseIdx i }

variable (generation : UInt64) (a : SendAttempt)

def setSend (phase : SendPhase) : Transfer :=
  { s with sends := s.sends.insert generation { a with phase } }

def setReceive (id : TaskId) (phase : ReceivePhase) : Transfer :=
  { s with receives := s.receives.insert id phase }

/-- `recovery.cancel`. -/
def cancelRecovery (id : TaskId) : Transfer := { s with recovery := (s.recovery.cancel id).2 }

variable (peer : NodeId)

/-- `network_lost`. -/
def networkLost : Transfer :=
  let paused := s.active.entries.filter fun a => a.2.peer == peer && a.2.pause
  let recovery := paused.foldl (fun r a => (r.cancel a.1).2) s.recovery
  { s with recovery := recovery.lost peer s.now }

/-- The part of `finish_error` before the store; `lost` says that the error is one of the
    transport on a network that is gone. -/
def finishError (id : TaskId) (verdict : Verdict) (lost : Bool) : Transfer :=
  if verdict = .interrupted ∧ lost = true then
    match s.active.lookup id with
    | some a => s.networkLost a.peer
    | none => s
  else s.cancelRecovery id

/-- How many attempts to receive of a kind are active, of all peers and of one. -/
def receiving (metadata : Bool) (peer : NodeId) : Nat × Nat :=
  (s.active.countP fun _ a => a.direction == .receive && a.metadata == metadata,
   s.active.countP fun _ a =>
    a.direction == .receive && a.metadata == metadata && a.peer == peer)

/-- `claim` of a task that is to be received. -/
def claimReceive (id : TaskId) (metadata : Bool) : Option Transfer :=
  let (global, perPeer) := s.receiving metadata peer
  let (globalLimit, peerLimit) := receiveLimits metadata
  if (s.active.lookup id).isSome ∨ global ≥ globalLimit ∨ perPeer ≥ peerLimit then none
  else
    some { s with
      active := s.active.insert id ⟨⟨peer, .receive, metadata⟩, false⟩
      recovery := s.recovery.enroll s.now id peer .receive }

/-- `claim` of a task that is to be sent. -/
def claimSend (id : TaskId) (metadata : Bool) (generation : UInt64) : Option Transfer :=
  if (s.active.lookup id).isSome ∨ s.desk.queue.slotGeneration id ≠ some generation then none
  else
    some { s with
      active := s.active.insert id ⟨⟨peer, .send, metadata⟩, false⟩
      recovery := s.recovery.enroll s.now id peer .send }

/-- The state changes that `state` makes for a running attempt. -/
def storeState (id : TaskId) (next : TaskState) : Transfer :=
  if next = .pausing ∨ next = .paused ∨ next = .completed ∨ next = .failed then
    s.cancelRecovery id
  else s

/-! ## Selection, resumption, dispatch -/

/-- How records come into the store. -/
inductive Selecting where
  | file
  | directory
  | confirmed (supported : Bool)

/-- The identifiers that are in use anywhere in the service. -/
def usedIds : List TaskId :=
  s.desk.tasks.map (fun t => t.taskId) ++ s.desk.queue.pending.map QueueEntry.id
    ++ s.desk.queue.generations.keys ++ s.receives.keys ++ s.sends.entries.map (fun a => a.2.id)
    ++ s.calls.flatMap ServiceCall.ids

/-- What scanning for a peer gives: new identifiers, bound to the peer. -/
def scanned (records : List TaskRecord) : Bool :=
  records.all fun r =>
    r.peerId.text == hexEncode peer.toList && r.direction == .send
      && (r.fileDetails.isSome || r.directoryDetails.isSome) && !s.usedIds.contains r.taskId

def select (kind : Selecting) (peer : NodeId) (records : List TaskRecord) (io : StoreIo) :
    Option Transfer :=
  if s.scanned peer records = false then none
  else
    let program :=
      match kind, records with
      | .file, [record] => some (selectFile c peer record io.clocks)
      | .file, _ => none
      | .directory, records => some (selectDirectory c peer records io.clocks)
      | .confirmed supported, records => some (confirmDirectory c peer records supported io.clocks)
    program.bind fun p => (s.onDesk p io.plan).map fun r => r.2.1

/-- The first section of `enqueue_tasks`. -/
def enqueueTasks (ids : List TaskId) : Transfer :=
  let s := ids.foldl
    (fun s id => { s.cancelRecovery id with automaticSends := s.automaticSends.erase id }) s
  s.call (.resuming peer ids)

/-- `resume` of a received task, up to its check. -/
def resumeReceive (id : TaskId) : Option Transfer :=
  match boundRecord peer id s.desk.store [] with
  | (.ok record, _, _) =>
    if record.direction = .receive ∧ canContinue record = true then some (s.call (.continuing id))
    else none
  | _ => none

/-- One turn of the loop of `dispatch_ready`. -/
def dispatch (connected : NodeId → Bool) : Option Transfer :=
  match s.desk.queue.dispatch connected with
  | (some entry, queue) =>
    (queue.slotGeneration entry.id).map fun generation =>
      { s with
        desk := { s.desk with queue }
        sends := s.sends.insert generation ⟨entry.id, entry.peer, entry.metadata, .scheduled⟩ }
  | (none, _) => none

/-! ## Attempts to send -/

/-- The check of a peer's `ResumeTask`. -/
def askResume (id : TaskId) (automatic : Bool) : Option Transfer :=
  match boundRecord peer id s.desk.store [] with
  | (.ok record, _, _) =>
    let allowed :=
      if automatic then s.recovery.automaticAllowed s.now id && automaticRecordAllowed record
      else canContinue record
    if record.direction = .send ∧ record.state ≠ .completed ∧ allowed = true then
      some (s.call (.asked peer id automatic))
    else none
  | _ => none

/-- `reserve_send` for a peer's request. -/
def reserve (peer : NodeId) (id : TaskId) (automatic : Bool) : Option Transfer :=
  match boundRecord peer id s.desk.store [] with
  | (.ok record, _, _) =>
    let metadata := record.directoryDetails.isSome
    if record.direction ≠ .send then some (s.endCall i)
    else
      match s.desk.queue.reserveDirect ⟨id, peer, metadata⟩ with
      | (.ok generation, queue) =>
        some { s.endCall i with
          desk := { s.desk with queue }
          sends := s.sends.insert generation ⟨id, peer, metadata, .reserved automatic⟩ }
      | (.error _, _) => some (s.endCall i)
  | _ => some (s.endCall i)

variable (asked : Option Bool)

/-- A scheduled or reserved attempt claims its task; if it cannot, it ends. -/
def claim : Transfer :=
  match boundRecord a.peer a.id s.desk.store [] with
  | (.ok record, _, _) =>
    if record.direction ≠ .send then s.setSend generation a .leaving
    else
      match s.claimSend a.peer a.id record.directoryDetails.isSome generation with
      | some s => s.setSend generation a (.claimed asked)
      | none => s.setSend generation a .leaving
  | _ => s.setSend generation a .leaving

/-- `automatic_sends.remove`. -/
def takeTicket : Transfer :=
  let ticket := s.automaticSends.lookup a.id
  let mode : SendMode := ⟨asked.getD ticket.isSome, ticket⟩
  { s with automaticSends := s.automaticSends.erase a.id }.setSend generation a (.ready mode)

/-- The store's part of `send_inner` and what follows from its result. -/
def beginSending (mode : SendMode) (io : StoreIo) : Option Transfer :=
  let cancelled := mode.ticket.any s.recovery.isCancelled
  let allowed := s.recovery.automaticAllowed s.now a.id
  match s.onDesk (beginSend c a.peer a.id mode.automatic cancelled allowed io.clocks) io.plan with
  | none => none
  | some (.ok record, s, _) =>
    if record.state = .completed then some (s.setSend generation a .done)
    else some ((s.setSend generation a (.running mode.automatic)).note (.began a.id mode.automatic))
  | some (.error _, s, _) => some (s.setSend generation a .broken)

/-- A guard and a slot are dropped without a word: a future is not polled any more. -/
def abortSend : Transfer :=
  match a.phase with
  | .scheduled | .reserved _ | .leaving => s.setSend generation a .leaving
  | _ => s.setSend generation a .done

/-- `ActiveGuard::drop`. -/
def dropGuard : Transfer :=
  { s with active := s.active.erase a.id }.setSend generation a .leaving

/-- `SendSlot::drop`. -/
def dropSlot : Transfer :=
  { s with
    desk := { s.desk with queue := s.desk.queue.finishIf a.id generation }
    sends := s.sends.erase generation }

/-! ## Attempts to receive -/

def offer (peerId : PeerId) (offer : Offer) (automatic : Bool) : Option Transfer :=
  if peerId.text ≠ hexEncode peer.toList then none
  else
    (s.claimReceive peer offer.taskId (offer.entry == .directory)).map fun s =>
      s.setReceive offer.taskId (.offered peer peerId offer automatic)

/-- The store's part of `receive_offer` and `receive_directory`.  A refused Offer ends without
    `finish_error`. -/
def accept (peerId : PeerId) (offer : Offer) (automatic : Bool) (root : PathBuf) (io : StoreIo) :
    Option Transfer :=
  let allowed := s.recovery.automaticAllowed s.now offer.taskId
  match s.onDesk (acceptStored c peer peerId offer root automatic allowed io.clocks) io.plan with
  | none => none
  | some (.ok record, s, _) =>
    if record.receiptCommitted then some (s.setReceive offer.taskId .done)
    else
      some ((s.setReceive offer.taskId (.running automatic)).note (.began offer.taskId automatic))
  | some (.error _, s, _) => some (s.setReceive offer.taskId .done)

/-- `ActiveGuard::drop`. -/
def endReceive (id : TaskId) : Transfer :=
  { s with active := s.active.erase id, receives := s.receives.erase id }

/-! ## Running attempts -/

/-- What a running attempt does with the record of its task. -/
inductive AttemptOp where
  /-- `state(..)`. -/
  | state (next : TaskState) (clock : Clock)
  | prepare
  | receipt (now : Int)
  | skipped (now : Int)
  | progress (hint : ProgressHint)

/-- The states that the loops of an attempt ask for. -/
def AttemptOp.asks : AttemptOp → Bool
  | .state next _ =>
    next == .transferring || next == .pausing || next == .paused || next == .finalizing
  | _ => true

/-- The store's part of an operation of a running attempt. -/
def AttemptOp.program (id : TaskId) : AttemptOp → DeskProg Unit
  | .state next clock => onStore (transition c id next none clock)
  | .prepare => onStore (performOp c (.preparePublication id))
  | .receipt now => onStore (performOp c (.commitReceipt id now))
  | .skipped now => onStore (performOp c (.commitSkipped id now))
  | .progress hint => onStore (performOp c (.setProgressHint id hint))

/-- The intentions after it. -/
def AttemptOp.before (s : Transfer) (id : TaskId) : AttemptOp → Transfer
  | .state next _ => s.storeState id next
  | .receipt _ | .skipped _ => { s with recovery := s.recovery.forget id }
  | _ => s

/-- A running attempt works on the record of its task.  Whether a failure ends the attempt
    is for its next event to say. -/
def work (id : TaskId) (op : AttemptOp) (plan : List (Fault Error)) : Option Transfer :=
  if op.asks = false then none
  else ((op.before s id).onDesk (op.program c id) plan).map fun r => r.2.1

/-! ## Users and the session -/

/-- The first section of `pause_task`. -/
def pauseTask (id : TaskId) : Transfer :=
  let (waiting, recovery) := s.recovery.cancel id
  { s with recovery }.call (.pausing id waiting)

/-- The second section of `pause_task`. -/
def pauseStored (id : TaskId) (waiting : Bool) (io : StoreIo) : Option Transfer :=
  match s.active.lookup id with
  | some a =>
    some (({ s with active := s.active.insert id { a with pause := true } }.endCall i).note
      (.paused id))
  | none =>
    match s.onDesk (pauseIdle c id waiting io.clocks) io.plan with
    | none => none
    | some (.ok (), s, _) => some ((s.endCall i).note (.paused id))
    | some (.error _, s, _) => some (s.endCall i)

/-- The first section of `cancel_task`. -/
def cancelTask (id : TaskId) : Transfer := (s.cancelRecovery id).call (.cancelling id)

/-- The second section of `cancel_task`. -/
def cancelCommit (id : TaskId) (io : StoreIo) : Option Transfer :=
  let active := s.active.lookup id
  match s.onDesk (cancelStored c id active.isSome (io.clocks 0)) io.plan with
  | none => none
  | some (.ok (), s, _) =>
    let s := match active with
      | some a => { s with active := s.active.insert id { a with pause := true } }
      | none => s
    some (s.setCall i (.cancelled id))
  | some (.error _, s, _) => some (s.endCall i)

/-- `cancel_task` returns when there is no attempt any more. -/
def cancelReturn (id : TaskId) : Option Transfer :=
  if (s.active.lookup id).isSome ∨ (s.desk.queue.slotGeneration id).isSome then none
  else some ((s.endCall i).note (.cancelled id))

/-- The first section of `revoke_authorization`. -/
def revoke (rights : Rights) : Transfer :=
  let flag (a : ActiveAttempt) : Bool := a.peer == peer && !rights.allow a.direction
  let active := s.active.entries.foldl
    (fun m a => if flag a.2 then m.insert a.1 { a.2 with pause := true } else m) s.active
  { s with recovery := s.recovery.cancelDenied peer rights, active }.call (.revoking peer rights)

/-! ## Recovery -/

/-- One ticket of `settle_network_loss`. -/
def settle (peer : NodeId) (ticket : Ticket) (rest : List Ticket) (io : StoreIo) :
    Option Transfer :=
  let s := s.setCall i (.settling peer rest)
  if s.recovery.sameAttempt ticket = false then some s
  else
    match s.onDesk (settleStored c peer ticket.id (io.clocks 0)) io.plan with
    | none => none
    | some (.ok drop, s, _) => some (if drop then s.cancelRecovery ticket.id else s)
    -- an error ends `settle_network_loss`
    | some (.error _, s, _) => some (s.setCall i (.settling peer []))

/-- The tick of the session that looks for due tickets. -/
def poll (ready : NodeId → TaskDirection → Bool) (busy : NodeId → Bool) : Transfer :=
  let ((_, jobs), recovery) := s.recovery.due s.now ready busy
  { s with recovery, calls := s.calls ++ jobs.map .recovering }

variable (ticket : Ticket)

/-- The ticket is given up. -/
def giveUp : Transfer := (s.setCall i (.recovered ticket)).note (.discarded ticket.id)

/-- The store's part of `auto_recover`. -/
def recover (io : StoreIo) : Option Transfer :=
  if s.recovery.valid s.now ticket = false then some (s.giveUp i ticket)
  else
    match s.onDesk (recoverStored c ticket (io.clocks 0)) io.plan with
    | none => none
    | some (.error _, s, _) => some (s.giveUp i ticket)
    | some (.ok none, s, _) => some ((s.cancelRecovery ticket.id).giveUp i ticket)
    | some (.ok (some .send), s, plan) =>
      let s := { s with automaticSends := s.automaticSends.insert ticket.id ticket }
      match s.onDesk (admitLocked c ticket.peer [ticket.id] fun n => io.clocks (n + 1)) plan with
      | none => none
      | some (.error _, s, _) => some (s.giveUp i ticket)
      | some (.ok (), s, _) =>
        some (({ s with recovery := s.recovery.admitted ticket.id }.setCall i
          (.recovered ticket)).note (.resumed ticket.id))
    | some (.ok (some .receive), s, plan) =>
      match s.onDesk (onStore (transition c ticket.id .queued none (io.clocks 1))) plan with
      | none => none
      | some (.error _, s, _) => some (s.giveUp i ticket)
      | some (.ok (), s, _) =>
        some ((s.setCall i (.asking ticket.id (some ticket))).note (.resumed ticket.id))

/-- The ticket is cancelled or too old: `auto_recover` stops.  What it has handed to the pool
    goes on. -/
def stop : Option Transfer :=
  let cancelled := s.recovery.isCancelled ticket && !s.recovery.started ticket
  let late := ticket.deadline.any fun t => t ≤ s.now
  let owned := s.calls.any fun call => call.ticket == some ticket
  if owned = false ∨ (cancelled = false ∧ late = false) then none
  else
    let recovery := if cancelled then s.recovery else s.recovery.stopTicket ticket
    let next : ServiceCall :=
      if ticket.direction = .receive then .stopping ticket else .recovered ticket
    some ({ s with recovery }.call next)

/-- A section of a call that is under way; `io` is for those that use the store. -/
def resumeCall (io : StoreIo) : ServiceCall → Option Transfer
  | .resuming peer ids =>
    (s.onDesk (admitLocked c peer ids io.clocks) io.plan).map fun r => r.2.1.endCall i
  | .continuing id =>
    (s.onDesk (onStore (transition c id .queued none (io.clocks 0))) io.plan).map fun r =>
      match r with
      | (.ok (), s, _) => s.setCall i (.asking id none)
      | (.error _, s, _) => s.endCall i
  | .asking _ (some ticket) => some (s.setCall i (.recovered ticket))
  | .asking _ none => some (s.endCall i)
  | .refused id verdict ticket =>
    (s.onDesk (finishStored c id verdict (io.clocks 0)) io.plan).map fun r =>
      match ticket with
      | some ticket => r.2.1.setCall i (.recovered ticket)
      | none => r.2.1.endCall i
  | .asked peer id automatic => s.reserve i peer id automatic
  | .pausing id waiting => s.pauseStored c i id waiting io
  | .cancelling id => s.cancelCommit c i id io
  | .cancelled id => s.cancelReturn i id
  | .settling _ [] => some (s.endCall i)
  | .settling peer (ticket :: rest) => s.settle c i peer ticket rest io
  | .recovering ticket => s.recover c i ticket io
  | .stopping ticket =>
    if s.recovery.sameAttempt ticket = false then some (s.setCall i (.recovered ticket))
    else
      (s.onDesk (stopStored c ticket (io.clocks 0)) io.plan).map fun r =>
        r.2.1.setCall i (.recovered ticket)
  | .recovered ticket =>
    some { s.endCall i with recovery := s.recovery.finished s.now ticket }
  | .revoking peer rights =>
    (s.onDesk (revokeStored c peer rights io.clocks) io.plan).map fun r => r.2.1.endCall i

end Transfer

/-! ## Events -/

inductive TransferEvent where
  | tick (elapsed : Nat)
  | select (kind : Transfer.Selecting) (peer : NodeId) (records : List TaskRecord) (io : StoreIo)
  /-- A user continues tasks that are sent. -/
  | resume (peer : NodeId) (ids : List TaskId)
  /-- A user continues a task that is received. -/
  | resumeReceive (peer : NodeId) (id : TaskId)
  | dispatch (connected : NodeId → Bool)
  | setLimit (value : UInt8)
  /-- A peer asks for a task that this node sends. -/
  | askResume (peer : NodeId) (id : TaskId) (automatic : Bool)
  /-- An attempt to send goes on to its next phase. -/
  | proceed (generation : UInt64) (io : StoreIo)
  | abortSend (generation : UInt64)
  | workSend (generation : UInt64) (op : Transfer.AttemptOp) (plan : List (Fault Error))
  | sendData (generation : UInt64)
  | failSend (generation : UInt64) (verdict : Verdict) (lost : Bool)
  | offer (peer : NodeId) (peerId : PeerId) (offer : Offer) (automatic : Bool)
  /-- An attempt to receive goes on to its next phase. -/
  | proceedReceive (id : TaskId) (root : PathBuf) (io : StoreIo)
  | abortReceive (id : TaskId)
  | workReceive (id : TaskId) (op : Transfer.AttemptOp) (plan : List (Fault Error))
  | acceptData (id : TaskId)
  | failReceive (id : TaskId) (verdict : Verdict) (lost : Bool)
  | pause (id : TaskId)
  | cancel (id : TaskId)
  | revoke (peer : NodeId) (rights : Rights)
  | removeCompleted (op : StoreOp) (plan : List (Fault Error))
  | setAutoResume (enabled : Bool)
  | cancelPeerRecovery (peer : NodeId)
  | setReceiveRoot
  | networkLost (peer : NodeId)
  | settle (peer : NodeId)
  | poll (ready : NodeId → TaskDirection → Bool) (busy : NodeId → Bool)
  | stop (ticket : Ticket)
  /-- The peer refuses the request of a call, or it does not answer. -/
  | refuse (i : Nat) (verdict : Verdict) (lost : Bool)
  /-- The next section of a call. -/
  | goOn (i : Nat) (io : StoreIo)

namespace Transfer

variable (c : Crypto) (s : Transfer)

/-- An attempt to send goes on. -/
def proceed (generation : UInt64) (a : SendAttempt) (io : StoreIo) : Option Transfer :=
  match a.phase with
  | .scheduled => some (s.claim generation a none)
  | .reserved automatic => some (s.claim generation a (some automatic))
  | .claimed asked => some (s.takeTicket generation a asked)
  | .ready mode => s.beginSending c generation a mode io
  | .running _ => some (s.setSend generation a .done)
  | .broken => none
  | .failing verdict =>
    (s.onDesk (finishStored c a.id verdict (io.clocks 0)) io.plan).map fun r =>
      r.2.1.setSend generation a .done
  | .done => some (s.dropGuard generation a)
  | .leaving => some (s.dropSlot generation a)

/-- An attempt to receive goes on. -/
def proceedReceive (id : TaskId) (root : PathBuf) (io : StoreIo) : ReceivePhase → Option Transfer
  | .offered peer peerId offer automatic =>
    if offer.taskId ≠ id then none else s.accept c peer peerId offer automatic root io
  | .running _ => some { s.setReceive id .done with recovery := s.recovery.forget id }
  | .failing verdict =>
    (s.onDesk (finishStored c id verdict (io.clocks 0)) io.plan).map fun r =>
      r.2.1.setReceive id .done
  | .done => some (s.endReceive id)

/-- `remove_completed_task`, `remove_completed_history` and the like. -/
def removes : StoreOp → Bool
  | .removeCompleted _ _ | .removeCompletedBatch _ _ => true
  | _ => false

def step : TransferEvent → Option Transfer
  | .tick elapsed => some { s with now := s.now + elapsed }
  | .select kind peer records io => s.select c kind peer records io
  | .resume peer ids => some (s.enqueueTasks peer ids)
  | .resumeReceive peer id => s.resumeReceive peer id
  | .dispatch connected => s.dispatch connected
  | .setLimit value =>
    some { s with desk := { s.desk with queue := (s.desk.queue.setLimit value).2 } }
  | .askResume peer id automatic => s.askResume peer id automatic
  | .proceed generation io =>
    (s.sends.lookup generation).bind fun a => s.proceed c generation a io
  | .abortSend generation => (s.sends.lookup generation).map (s.abortSend generation)
  | .workSend generation op plan =>
    match s.sends.lookup generation with
    | some ⟨id, _, _, .running _⟩ => s.work c id op plan
    | _ => none
  | .sendData generation =>
    match s.sends.lookup generation with
    | some ⟨id, _, _, .running _⟩ => some (s.note (.sent id))
    | _ => none
  | .failSend generation verdict lost =>
    match s.sends.lookup generation with
    | some a =>
      if a.phase.fails then
        some ((s.finishError a.id verdict lost).setSend generation a (.failing verdict))
      else none
    | none => none
  | .offer peer peerId offer automatic => s.offer peer peerId offer automatic
  | .proceedReceive id root io =>
    (s.receives.lookup id).bind fun phase => s.proceedReceive c id root io phase
  | .abortReceive id => (s.receives.lookup id).map fun _ => s.setReceive id .done
  | .workReceive id op plan =>
    match s.receives.lookup id with
    | some (.running _) => s.work c id op plan
    | _ => none
  | .acceptData id =>
    match s.receives.lookup id with
    | some (.running _) => some (s.note (.accepted id))
    | _ => none
  | .failReceive id verdict lost =>
    match s.receives.lookup id with
    | some (.running _) => some ((s.finishError id verdict lost).setReceive id (.failing verdict))
    | _ => none
  | .pause id => some (s.pauseTask id)
  | .cancel id => some (s.cancelTask id)
  | .revoke peer rights => some (s.revoke peer rights)
  | .removeCompleted op plan =>
    if removes op then (s.onDesk (onStore (performOp c op)) plan).map fun r => r.2.1 else none
  | .setAutoResume enabled => some { s with recovery := s.recovery.enable enabled }
  | .cancelPeerRecovery peer => some { s with recovery := (s.recovery.cancelPeer peer).2 }
  | .setReceiveRoot => some { s with recovery := s.recovery.clear }
  | .networkLost peer => some (s.networkLost peer)
  | .settle peer => some (s.call (.settling peer (s.recovery.networkTasks peer)))
  | .poll ready busy => some (s.poll ready busy)
  | .stop ticket => s.stop ticket
  | .refuse i verdict lost =>
    match s.calls[i]? with
    | some (.asking id ticket) =>
      some ((s.finishError id verdict lost).setCall i (.refused id verdict ticket))
    | _ => none
  | .goOn i io => (s.calls[i]?).bind (s.resumeCall c i io)

/-- The service as it starts on a store that has just been opened. -/
def start (store : OpenStore) : Transfer := ⟨⟨store, .new, 0⟩, .new, ∅, ∅, ∅, ∅, [], 0, []⟩

/-- The store has been opened: what was under way has been interrupted. -/
def Starts (c : Crypto) (s : Transfer) : Prop :=
  ∃ store es, (storeMachine c).Run es ⟨store.dir, some store.memory⟩ ∧
    (∀ t ∈ store.memory.tasks, t.state.needsStartupRecovery = false) ∧ s = start store

end Transfer

def transferMachine (c : Crypto) : Machine Transfer TransferEvent :=
  .ofStep (Transfer.Starts c) fun s e => s.step c e

end P2pFile.Node
