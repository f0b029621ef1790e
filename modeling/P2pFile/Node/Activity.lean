/-
  P2pFile.Node.Activity

  Files and speed tests of one node (`src/node/core/activity.rs`, `SpeedArbiter` of
  `protocol.rs`, `SpeedPeer::prepare` and `RunGuard` of `speed.rs`, `dispatch_ready` and
  `claim` of `transfer.rs`).

  With each peer a node either transfers files or runs a speed test.  `ActivityState` counts
  the file permits of each peer and has the identifier of its speed lease.  A permit is
  given back when its guard is dropped.

  Permits, leases and connections are handles, so that two of them are told apart even if
  the remote side has chosen the same identifiers for them.  An event is one section under
  a lock.
-/

import P2pFile.Lib.Handles
import P2pFile.Node.Protocol
import P2pFile.Node.Queue

namespace P2pFile.Node

open Lib Protocol

/-! ## Admission -/

structure ActivityEntry where
  files : UInt64
  speed : Option TaskId

structure ActivityState where
  peers : FinMap NodeId ActivityEntry

namespace ActivityState

variable (s : ActivityState) (peer : NodeId)

/-- `entry(peer).or_default()`. -/
def entry : ActivityEntry := (s.peers.lookup peer).getD ⟨0, none⟩

def set (entry : ActivityEntry) : ActivityState := ⟨s.peers.insert peer entry⟩

def speedActive : Bool := (s.peers.lookup peer).any (·.speed.isSome)

/-- `State::add_file`. -/
def addFile : Except String ActivityState :=
  let entry := s.entry peer
  if entry.speed.isSome then .error "测速正在进行，不能启动文件任务"
  else
    match checkedAdd entry.files 1 with
    | none => .error "文件资源计数超限"
    | some files => .ok (s.set peer { entry with files })

/-- `Activity::speed`. -/
def addSpeed (id : TaskId) : Except String ActivityState :=
  let entry := s.entry peer
  if entry.files ≠ 0 ∨ entry.speed.isSome then
    .error "文件或测速正在进行，请先暂停文件或取消测速"
  else .ok (s.set peer { entry with speed := some id })

/-- `State::prune`. -/
def prune : ActivityState :=
  if (s.peers.lookup peer).any fun e => e.files == 0 && e.speed.isNone then
    ⟨s.peers.erase peer⟩
  else s

/-- `FilePermit::drop`. -/
def dropFile : ActivityState :=
  match s.peers.lookup peer with
  | none => s
  | some entry => (s.set peer { entry with files := entry.files - 1 }).prune peer

/-- `SpeedPermit::drop`. -/
def dropSpeed (id : TaskId) : ActivityState :=
  match s.peers.lookup peer with
  | none => s.prune peer
  | some entry =>
    if entry.speed = some id then (s.set peer { entry with speed := none }).prune peer
    else s.prune peer

end ActivityState

/-! ## Who may test -/

/-- `SpeedArbiter`; `localId` is the node itself. -/
structure SpeedArbiter where
  localId : NodeId
  peer : NodeId
  active : Option SpeedLease
  streamClaimed : Bool

namespace SpeedArbiter

def new (localId peer : NodeId) : SpeedArbiter := ⟨localId, peer, none, false⟩

variable (a : SpeedArbiter)

/-- `request`, with the token that it draws. -/
def request (requester : NodeId) (testId : TaskId) (direction : SpeedDirection)
    (seconds : UInt16) (activeFiles : Nat) (token : Bytes 16) :
    Except Error (SpeedLease × SpeedArbiter) := do
  if a.peer ≤ a.localId then throw (.protocol "测速请求必须交给较小 NodeId 的协调者")
  if requester ≠ a.localId ∧ requester ≠ a.peer then
    throw (.protocol "测速请求对端身份不符")
  SpeedControl.validateSpeedSeconds seconds
  if activeFiles ≠ 0 ∨ a.active.isSome then throw (.protocol "测速或文件任务正在进行")
  let lease : SpeedLease := ⟨testId, requester, direction, seconds, token⟩
  pure (lease, { a with active := some lease, streamClaimed := false })

def acceptGrant (grantor : NodeId) (lease : SpeedLease) (activeFiles : Nat) :
    Except Error SpeedArbiter := do
  if a.localId ≤ a.peer ∨ grantor ≠ a.peer ∨ (lease.owner ≠ a.localId ∧ lease.owner ≠ a.peer)
      ∨ a.active.isSome ∨ activeFiles ≠ 0 then
    throw (.protocol "测速授权来源、归属或状态非法")
  SpeedControl.validateSpeedSeconds lease.seconds
  pure { a with active := some lease, streamClaimed := false }

def claimStream (sender : NodeId) (lease : SpeedLease) : Except Error SpeedArbiter :=
  let source :=
    match lease.direction with
    | .upload => lease.owner
    | .download => if lease.owner = a.localId then a.peer else a.localId
  if a.active ≠ some lease ∨ a.streamClaimed = true ∨ sender ≠ source then
    .error (.protocol "测速数据流归属或令牌不符")
  else .ok { a with streamClaimed := true }

def finish (actor : NodeId) (lease : SpeedLease) : Except Error SpeedArbiter :=
  if (actor ≠ a.localId ∧ actor ≠ a.peer) ∨ a.active ≠ some lease then
    .error (.protocol "测速任务身份不符")
  else .ok { a with active := none, streamClaimed := false }

end SpeedArbiter

/-! ## The node -/

structure FilePermit where
  peer : NodeId

structure SpeedPermit where
  peer : NodeId
  id : TaskId

/-- The arguments of `prepare`, with the token that it may have to draw. -/
structure SpeedCall where
  owner : NodeId
  id : TaskId
  direction : SpeedDirection
  seconds : UInt16
  granted : Option SpeedLease
  token : Bytes 16

/-- The speed tests of one connection.  `active` is the lease with its permit; `preparing`
    is the call of `prepare` that has the lock, with the permit that it holds. -/
structure SpeedPeer where
  remote : NodeId
  arbiter : SpeedArbiter
  active : Option (SpeedLease × Nat)
  preparing : Option (SpeedCall × Nat)

/-- Whether the connection holds the permit. -/
def SpeedPeer.holds (p : SpeedPeer) (permit : Nat) : Bool :=
  p.active.any (·.2 == permit) || p.preparing.any (·.2 == permit)

/-- The guard of a test that runs.  `permit` says which lease it was made for; the code has
    the lease alone. -/
structure RunGuard where
  connection : Nat
  lease : SpeedLease
  permit : Nat

structure ActiveTask where
  peer : NodeId
  direction : TaskDirection
  metadata : Bool

def maxReceiveFiles : Nat := 3

/-- How many entries are received at once, in all and from one peer. -/
def receiveLimits (metadata : Bool) : Nat × Nat :=
  if metadata then (maxMetadataActive, 2) else (maxReceiveFiles, 3)

structure ActivityWorld where
  localId : NodeId
  activity : ActivityState
  queue : TaskQueue
  active : FinMap TaskId ActiveTask
  permits : Handles FilePermit
  leases : Handles SpeedPermit
  connections : Handles SpeedPeer
  guards : Handles RunGuard

namespace ActivityWorld

def new (localId : NodeId) : ActivityWorld :=
  ⟨localId, ⟨∅⟩, .new, ∅, .empty, .empty, .empty, .empty⟩

variable (w : ActivityWorld)

/-- `Activity::file`. -/
def file (peer : NodeId) : Except String ActivityWorld :=
  match w.activity.addFile peer with
  | .error err => .error err
  | .ok activity => .ok { w with activity, permits := w.permits.issue ⟨peer⟩ }

/-- `claim`: a transfer that is sent has the permit of its slot already. -/
def claim (peer : NodeId) (id : TaskId) (direction : TaskDirection) (metadata : Bool)
    (sendGeneration : Option UInt64) : Except String ActivityWorld :=
  let task : ActiveTask := ⟨peer, direction, metadata⟩
  if (w.active.lookup id).isSome then .error "同一任务已有传输活动"
  else
    match direction with
    | .send =>
      if w.queue.slotGeneration id ≠ sendGeneration ∨ sendGeneration = none then
        .error "发送槽已失效"
      else .ok { w with active := w.active.insert id task }
    | .receive =>
      let global := w.active.countP fun _ a => a.direction = .receive && a.metadata == metadata
      let perPeer := w.active.countP fun _ a =>
        a.direction = .receive && a.metadata == metadata && a.peer == peer
      if global ≥ (receiveLimits metadata).1 ∨ perPeer ≥ (receiveLimits metadata).2 then
        .error "接收资源忙，请稍后继续"
      else
        match w.file peer with
        | .error err => .error err
        | .ok w => .ok { w with active := w.active.insert id task }

/-- One turn of the loop of `dispatch_ready`.  The loop keeps its locks; here the other
    events may come between its turns. -/
def dispatch (connected : NodeId → Bool) : Option ActivityWorld :=
  match w.queue.dispatch fun peer => !w.activity.speedActive peer && connected peer with
  | (none, queue) => some { w with queue }
  | (some entry, queue) =>
    match w.file entry.peer with
    | .error _ => none -- `expect("dispatch admission lock")`
    | .ok w => some { w with queue }

/-- The lease of a call of `prepare`, with the arbiter after it. -/
def grantLease (p : SpeedPeer) (call : SpeedCall) : Except Error (SpeedLease × SpeedArbiter) :=
  match call.granted with
  | some lease =>
    match p.arbiter.acceptGrant p.remote lease 0 with
    | .ok arbiter => .ok (lease, arbiter)
    | .error err => .error err
  | none => p.arbiter.request call.owner call.id call.direction call.seconds 0 call.token

/-- A permit of a speed test is given back. -/
def releaseSpeed (permit : Nat) (speed : SpeedPermit) : ActivityWorld :=
  { w with
    activity := w.activity.dropSpeed speed.peer speed.id
    leases := w.leases.release permit }

/-- `prepare` up to its permit. -/
def prepare (connection : Nat) (p : SpeedPeer) (call : SpeedCall) : ActivityWorld :=
  match w.activity.addSpeed p.remote call.id with
  | .error _ => w
  | .ok activity =>
    { w with
      activity
      leases := w.leases.issue ⟨p.remote, call.id⟩
      connections := w.connections.modify connection fun p =>
        { p with preparing := some (call, w.leases.next) } }

/-- The rest of `prepare`.  If there is no lease its permit is dropped. -/
def grant (connection : Nat) (p : SpeedPeer) (call : SpeedCall) (permit : Nat) : ActivityWorld :=
  match grantLease p call with
  | .error _ =>
    { w.releaseSpeed permit ⟨p.remote, call.id⟩ with
      connections := w.connections.modify connection fun p => { p with preparing := none } }
  | .ok (lease, arbiter) =>
    { w with
      connections := w.connections.modify connection fun p =>
        { p with arbiter, active := some (lease, permit), preparing := none }
      guards := w.guards.issue ⟨connection, lease, permit⟩ }

/-- `RunGuard::drop`, up to the drop of the permit. -/
def dropRun (guard : Nat) (run : RunGuard) (p : SpeedPeer) : ActivityWorld :=
  if p.active.map (·.1) ≠ some run.lease then { w with guards := w.guards.release guard }
  else
    { w with
      connections := w.connections.modify run.connection fun p =>
        { p with
          arbiter := (p.arbiter.finish w.localId run.lease).toOption.getD p.arbiter
          active := none }
      guards := w.guards.release guard }

end ActivityWorld

inductive ActivityEvent where
  | file (peer : NodeId)
  | queue (op : QueueOp)
  | dispatch (connected : NodeId → Bool)
  | claim (peer : NodeId) (id : TaskId) (direction : TaskDirection) (metadata : Bool)
      (sendGeneration : Option UInt64)
  | endActive (id : TaskId)
  | dropFile (permit : Nat)
  | connect (remote : NodeId)
  | prepare (connection : Nat) (call : SpeedCall)
  | grant (connection : Nat)
  | claimStream (connection : Nat) (sender : NodeId) (lease : SpeedLease)
  | dropRun (guard : Nat)
  | dropSpeed (permit : Nat)

/-- A permit of a file is dropped by whoever holds it, at any time.  That of a speed test is
    dropped when no connection holds it any more. -/
def ActivityWorld.step (w : ActivityWorld) : ActivityEvent → Option ActivityWorld
  | .file peer => some ((w.file peer).toOption.getD w)
  | .queue op => some { w with queue := w.queue.step op }
  | .dispatch connected => w.dispatch connected
  | .claim peer id direction metadata sendGeneration =>
    some ((w.claim peer id direction metadata sendGeneration).toOption.getD w)
  | .endActive id => some { w with active := w.active.erase id }
  | .dropFile permit =>
    match w.permits.get permit with
    | none => none
    | some file =>
      some { w with
        activity := w.activity.dropFile file.peer, permits := w.permits.release permit }
  | .connect remote =>
    some { w with connections := w.connections.issue ⟨remote, .new w.localId remote, none, none⟩ }
  | .prepare connection call =>
    match w.connections.get connection with
    | none => none
    | some p => if p.preparing.isSome then none else some (w.prepare connection p call)
  | .grant connection =>
    match w.connections.get connection with
    | none => none
    | some p =>
      match p.preparing with
      | none => none
      | some (call, permit) => some (w.grant connection p call permit)
  | .claimStream connection sender lease =>
    match w.connections.get connection with
    | none => none
    | some p =>
      if p.preparing.isSome then none
      else
        some { w with
          connections := w.connections.modify connection fun p =>
            { p with arbiter := (p.arbiter.claimStream sender lease).toOption.getD p.arbiter } }
  | .dropRun guard =>
    match w.guards.get guard with
    | none => none
    | some run =>
      match w.connections.get run.connection with
      | none => none
      | some p => if p.preparing.isSome then none else some (w.dropRun guard run p)
  | .dropSpeed permit =>
    match w.leases.get permit with
    | none => none
    | some speed =>
      if w.connections.live.countP (fun _ p => p.holds permit) = 0 then
        some (w.releaseSpeed permit speed)
      else none

def activityMachine (localId : NodeId) : Machine ActivityWorld ActivityEvent :=
  .ofStep (fun w => w = .new localId) ActivityWorld.step

end P2pFile.Node
