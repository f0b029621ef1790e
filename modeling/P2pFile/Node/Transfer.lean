/-
  P2pFile.Node.Transfer

  The transfer service (`TransferService` of `src/node/core/transfer.rs`): the store and the
  send queue under its locks, the recovery intentions, the active attempts, and what users,
  peers, the network and the recovery do with them.

  A call of the service is cut at its locks: what it does under the store's lock is one
  program, and one event.  Between two events of a call anything else can happen, and a
  call that is dropped has no further event.  Waiting for the end of an earlier attempt only
  delays a call and is left out.

  An attempt to send is known by the generation of its slot, an attempt to receive by its
  task.  What the loops of an attempt do with the stream is any sequence of the state
  changes, the data and the ends that they can produce.
-/

import P2pFile.Node.AutoResume
import P2pFile.Node.Offers
import P2pFile.Node.Queue

namespace P2pFile.Node

open Lib Protocol Storage

variable (c : Crypto)

/-! ## The store and the queue -/

/-- What the store's lock and the queue's lock protect. -/
structure Desk where
  store : OpenStore
  queue : TaskQueue
  /-- The transitions that could not be stored, as far as they are counted. -/
  failures : Nat

namespace Desk

variable (d : Desk)

def tasks : List TaskRecord := d.store.memory.tasks

/-- `is_queued`. -/
def isQueued (id : TaskId) : Bool := d.queue.pending.any fun e => e.id == id

/-- Whether the queue knows the task: it is pending, or it has a slot. -/
def retains (id : TaskId) : Bool := d.isQueued id || (d.queue.slotGeneration id).isSome

end Desk

abbrev DeskProg := Prog Desk Error

/-- The time as a program reads it, and how the calls on the disk go. -/
structure StoreIo where
  clocks : Nat → Clock
  plan : List (Fault Error)

/-- A program of the store. -/
def onStore {α : Type} (p : StoreProg α) : DeskProg α := fun d plan =>
  match p d.store plan with
  | (out, store, rest) => (out, { d with store }, rest)

/-- A section under the queue's lock. -/
def onQueue {α : Type} (f : TaskQueue → α × TaskQueue) : DeskProg α := fun d plan =>
  (.ok (f d.queue).1, { d with queue := (f d.queue).2 }, plan)

variable (id : TaskId)

/-- `store.transition`. -/
def transition (next : TaskState) (diagnostic : Option TaskDiagnostic) (clock : Clock) :
    StoreProg Unit := do
  let now ← modelResult clock
  performOp c (.transition id next diagnostic now)

/-- The same, and the failure is counted. -/
def countedTransition (next : TaskState) (diagnostic : Option TaskDiagnostic) (clock : Clock) :
    DeskProg Unit := do
  match ← (onStore (transition c id next diagnostic clock)).attempt with
  | .ok () => pure ()
  | .error err => do
    .modify fun d => { d with failures := d.failures + 1 }
    .throw err

/-- `bound_task`, for the peer of a session. -/
def boundRecord (peer : NodeId) (id : TaskId) : StoreProg TaskRecord := do
  let record ← readTask id
  if record.peerId.text ≠ hexEncode peer.toList
      ∨ (record.fileDetails.isNone && record.directoryDetails.isNone) then
    .throw (fail "任务未授权给该对端")
  return record

variable (record : TaskRecord)

def canContinue : Bool :=
  record.state == .paused || record.state == .interrupted
    || (record.state == .failed && record.diagnostic.any fun d => d.retryable)

def automaticRecordAllowed : Bool :=
  match record.state with
  | .queued | .connecting | .negotiating | .transferring | .finalizing => true
  | .interrupted => record.diagnostic.all fun d => d.code == .networkInterrupted
  | .completed => true
  | _ => false

/-! ## Admission -/

/-- The first loop of `admit_locked`: the entries of the tasks that are to be queued. -/
def admitEntries (peer : NodeId) : List TaskId → DeskProg (List QueueEntry)
  | [] => pure []
  | id :: rest => do
    let record ← onStore (boundRecord peer id)
    if record.direction ≠ .send then .throw (fail "接收任务不能加入发送队列")
    let d ← .get
    if record.state = .completed ∨ (d.queue.slotGeneration id).isSome then
      admitEntries peer rest
    else
      if record.state ≠ .queued ∧ canContinue record = false then
        .throw (fail "任务当前不能继续")
      let entries ← admitEntries peer rest
      return ⟨id, peer, record.directoryDetails.isSome⟩ :: entries

/-- The second loop: each task is stored as queued. -/
def queueEntries (clocks : Nat → Clock) : Nat → List QueueEntry → DeskProg Unit
  | _, [] => pure ()
  | n, entry :: rest => do
    let record ← onStore (readTask entry.id)
    if record.state ≠ .queued then countedTransition c entry.id .queued none (clocks n)
    queueEntries clocks (n + 1) rest

/-- The loop after a refused admission: what the queue does not know is interrupted. -/
def withdrawEntries (clocks : Nat → Clock) : Nat → List QueueEntry → DeskProg Unit
  | _, [] => pure ()
  | n, entry :: rest => do
    let d ← .get
    if d.retains entry.id = false then
      let record ← onStore (readTask entry.id)
      if record.state = .queued then
        countedTransition c entry.id .interrupted none (clocks n)
    withdrawEntries clocks (n + 1) rest

variable (peer : NodeId)

/-- `admit_locked`; the session is the same all the time. -/
def admitLocked (ids : List TaskId) (clocks : Nat → Clock) : DeskProg Unit := do
  let entries ← admitEntries peer ids
  queueEntries c clocks 0 entries
  match ← onQueue fun q => q.enqueue entries with
  | .ok () => pure ()
  | .error message => do
    withdrawEntries c (fun n => clocks (entries.length + n)) 0 entries
    .throw (fail message)

/-! ## Selection -/

/-- The loop that stores the new tasks as queued. -/
def queueAll (clocks : Nat → Clock) : Nat → List TaskId → DeskProg Unit
  | _, [] => pure ()
  | n, id :: rest => do
    countedTransition c id .queued none (clocks n)
    queueAll clocks (n + 1) rest

/-- What the selections share: the records are created with `op`, queued and admitted. -/
def selectWith (op : StoreOp) (peer : NodeId) (ids : List TaskId)
    (clocks : Nat → Clock) : DeskProg Unit := do
  onStore (performOp c op)
  queueAll c clocks 0 ids
  admitLocked c peer ids fun n => clocks (ids.length + n)

/-- The store's part of `select_file`. -/
def selectFile (record : TaskRecord) (clocks : Nat → Clock) : DeskProg Unit :=
  selectWith c (.create record) peer [record.taskId] clocks

variable (records : List TaskRecord) (clocks : Nat → Clock)

/-- The store's part of `select_directory`. -/
def selectDirectory : DeskProg Unit :=
  selectWith c (.createSelection records) peer (records.map fun r => r.taskId) clocks

/-- `record.enable_incremental()` for the files of a preview. -/
def enableAll : Except TaskModelError (List TaskRecord) :=
  records.mapM fun r => if r.fileDetails.isSome then r.enableIncremental else .ok r

/-- The store's part of `confirm_directory`. -/
def confirmDirectory (supported : Bool) (clocks : Nat → Clock) : DeskProg Unit := do
  let records ← onStore (modelResult (if supported then enableAll records else .ok records))
  selectDirectory c peer records clocks

/-! ## Pause, cancel, revocation -/

/-- The part of `pause_task` for a task that waits for its recovery: whether it is done. -/
def pauseWaiting : DeskProg Bool := do
  let record ← onStore (readTask id)
  let active := record.state.needsStartupRecovery && record.state != .pausing
  if active then countedTransition c id .interrupted none (clocks 0)
  let state := if active then .interrupted else record.state
  if state = .interrupted then countedTransition c id .queued none (clocks 1)
  if state = .interrupted ∨ state = .queued then
    countedTransition c id .pausing none (clocks 2)
    countedTransition c id .paused none (clocks 3)
    return true
  return false

/-- The store's part of `pause_task` for a task that is not active. -/
def pauseIdle (waiting : Bool) (clocks : Nat → Clock) : DeskProg Unit := do
  let d ← .get
  let queued := d.isQueued id
  let generation := d.queue.slotGeneration id
  let idle := !queued && generation.isNone
  let paused ← if waiting && idle then pauseWaiting c id clocks else pure false
  if paused then return
  if idle then .throw (fail "任务当前未传输或排队")
  let record ← onStore (readTask id)
  if record.state ≠ .queued then .throw (fail "任务当前不能暂停")
  onStore (transition c id .pausing none (clocks 4))
  onStore (transition c id .paused none (clocks 5))
  onQueue fun q =>
    let q := (q.removeQueued id).2
    ((), match generation with
      | some generation => q.finishIf id generation
      | none => q)

/-- The store's part of `cancel_task`; `active` says whether an attempt is active. -/
def cancelStored (active : Bool) (clock : Clock) : DeskProg Unit := do
  onStore (performOp c (.cancel id clock))
  onQueue fun q =>
    let q := (q.removeQueued id).2
    ((), match active, q.slotGeneration id with
      | false, some generation => q.finishIf id generation
      | _, _ => q)

/-- The loop of `revoke_authorization` over the tasks that were under way. -/
def revokeEach (clocks : Nat → Clock) : Nat → List TaskId → DeskProg Unit
  | _, [] => pure ()
  | n, id :: rest => do
    onQueue fun q => ((), (q.removeQueued id).2)
    countedTransition c id .interrupted none (clocks n)
    revokeEach clocks (n + 1) rest

/-- The store's part of `revoke_authorization`. -/
def revokeStored (rights : Rights) (clocks : Nat → Clock) : DeskProg Unit := do
  let d ← .get
  let denied := d.tasks.filter fun t =>
    t.peerId.text == hexEncode peer.toList && !rights.allow t.direction
      && t.state.needsStartupRecovery
  revokeEach c clocks 0 (denied.map fun t => t.taskId)

/-! ## Attempts -/

variable (id : TaskId)

/-- `check_automatic`; `allowed` is what the recovery says. -/
def checkAutomatic (allowed : Bool) : DeskProg Unit := do
  let d ← .get
  if d.tasks.any fun t => t.taskId == id then
    let record ← onStore (boundRecord peer id)
    if record.state ≠ .completed ∧ (allowed = false ∨ automaticRecordAllowed record = false) then
      .throw (fail "任务需要手动继续")

/-- How an attempt to send was started. -/
structure SendMode where
  automatic : Bool
  ticket : Option Ticket
  deriving DecidableEq

/-- The store's part of `send_inner`; `cancelled` says whether the ticket is cancelled. -/
def beginSend (automatic cancelled allowed : Bool) (clocks : Nat → Clock) :
    DeskProg TaskRecord := do
  let record ← onStore (boundRecord peer id)
  if cancelled then
    if record.state = .queued then onStore (transition c id .interrupted none (clocks 3))
    .throw (fail "自动恢复已取消")
  if automatic then checkAutomatic peer id allowed
  onStore (beginAttempt c id clocks)

/-- The store's part of `receive_offer` and `receive_directory`. -/
def acceptStored (peerId : PeerId) (offer : Offer) (root : PathBuf) (automatic allowed : Bool)
    (clocks : Nat → Clock) : DeskProg TaskRecord := do
  if automatic then checkAutomatic peer offer.taskId allowed
  onStore (acceptOffer c peerId root offer clocks)

/-- What `finish_error` makes of an error. -/
inductive Verdict where
  | failed (code : TaskErrorCode) (retryable : Bool)
  | interrupted
  deriving DecidableEq

def Verdict.state : Verdict → TaskState
  | .failed _ _ => .failed
  | .interrupted => .interrupted

def Verdict.diagnostic : Verdict → TaskDiagnostic
  | .failed code retryable => ⟨code, retryable⟩
  | .interrupted => ⟨.networkInterrupted, false⟩

/-- The store's part of `finish_error`. -/
def finishStored (verdict : Verdict) (clock : Clock) : DeskProg Unit := do
  let record ← onStore (readTask id)
  if record.state = .completed ∨ record.state = .failed ∨ record.state = .interrupted then return
  countedTransition c id verdict.state (some verdict.diagnostic) clock

/-! ## Recovery -/

/-- The store's part of `settle_network_loss` for one ticket of the present attempt: whether
    the intention is dropped. -/
def settleStored (clock : Clock) : DeskProg Bool := do
  let record ← onStore (boundRecord peer id)
  if record.state.needsStartupRecovery && record.state != .pausing then
    onStore (transition c id .interrupted (some ⟨.networkInterrupted, false⟩) clock)
    return false
  return record.state != .interrupted || !automaticRecordAllowed record

/-- The store's part of `auto_recover` up to the admission: the direction of the task, or
    nothing if the user has to continue it. -/
def recoverStored (ticket : Ticket) (clock : Clock) : DeskProg (Option TaskDirection) := do
  let record ← onStore (boundRecord ticket.peer ticket.id)
  if record.state = .completed ∨ automaticRecordAllowed record = false then return none
  if record.state ≠ .interrupted then
    onStore (transition c ticket.id .interrupted (some ⟨.networkInterrupted, false⟩) clock)
  return some record.direction

/-- The store's part of a stopped `auto_recover` of a received task. -/
def stopStored (ticket : Ticket) (clock : Clock) : DeskProg Unit := do
  let record ← onStore (boundRecord ticket.peer ticket.id)
  if record.state = .queued then
    onStore (transition c ticket.id .interrupted none clock)

end P2pFile.Node
