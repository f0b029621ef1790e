/-
  P2pFile.Node.Protocol

  File and speed frames, and the gate that checks them (`src/node/core/protocol.rs`).

  A `TaskProtocol` holds one binding for each task of a connection: who sends, what is
  sent, the state of the task, the last request number of each actor, and the pause of
  each actor that has not been acknowledged.  Arrays indexed by the actor are functions
  of the actor.

  `observe` returns the gate it leaves behind together with its result, so that what a
  rejected frame changes is a question about the model.
-/

import P2pFile.Lib.FinMap
import P2pFile.Node.TaskModel

namespace P2pFile.Node

open Lib Protocol Storage

def maxTasksPerPeer : Nat := 128

/-! ## Messages -/

inductive Entry where
  | file (manifest : FileManifest)
  | directory
  deriving DecidableEq

namespace Entry

def validate (c : Crypto) (entry : Entry) (relativePath : String) : Except Error Unit := do
  validateRelativePath relativePath
  match entry with
  | .file manifest =>
    manifest.validate c
    if manifest.chunks.length > maxChunks || manifest.totalLen > (1 : UInt64) <<< 40
        || manifest.fileName != lastComponent relativePath then
      throw (.protocol "文件清单超限或文件名与相对路径不一致")
  | .directory => pure ()

/-- The root hash and the number of chunks. -/
def identity (c : Crypto) (entry : Entry) (path : String) : ChunkHash × Nat :=
  match entry with
  | .file manifest => (manifest.rootHash, manifest.chunks.length)
  | .directory => (c.hash path.toUTF8.data.toList, 0)

end Entry

inductive ErrorCode where
  | unsupportedVersion
  | unsupportedCapability
  | unknownTask
  | wrongPeer
  | invalidState
  | invalidPath
  | invalidManifest
  | busy
  | sourceChanged
  | sourceMissing
  | storage
  | interrupted
  deriving DecidableEq

inductive Difference where
  | added
  | changed
  | unchanged
  deriving DecidableEq

inductive SpeedDirection where
  | upload
  | download
  deriving DecidableEq

structure SpeedLease where
  testId : TaskId
  owner : NodeId
  direction : SpeedDirection
  seconds : UInt16
  streamToken : Bytes 16
  deriving DecidableEq

inductive SpeedControl where
  | request (testId : TaskId) (direction : SpeedDirection) (seconds : UInt16)
  | granted (lease : SpeedLease)
  | busy (testId : TaskId)
  | cancel (lease : SpeedLease)
  | finished (lease : SpeedLease)
  | ready (lease : SpeedLease)
  | result (lease : SpeedLease) (bytes elapsedMs : UInt64)
  deriving DecidableEq

namespace SpeedControl

def testId : SpeedControl → TaskId
  | .request testId _ _ | .busy testId => testId
  | .granted lease | .cancel lease | .finished lease | .ready lease | .result lease _ _ =>
    lease.testId

def validateSpeedSeconds (seconds : UInt16) : Except Error Unit :=
  if seconds ≠ 30 ∧ (¬ (60 ≤ seconds ∧ seconds ≤ 600) ∨ seconds % 60 ≠ 0) then
    .error (.protocol "测速时长非法")
  else .ok ()

def validate : SpeedControl → Except Error Unit
  | .request _ _ seconds => validateSpeedSeconds seconds
  | .granted lease | .cancel lease | .finished lease | .ready lease | .result lease _ _ =>
    validateSpeedSeconds lease.seconds
  | .busy _ => .ok ()

end SpeedControl

inductive Message where
  | offer (taskId : TaskId) (groupId : Option TaskId) (relativePath : String) (entry : Entry)
  | resume (taskId : TaskId) (rootHash : ChunkHash) (have' : List UInt8)
  | pause (taskId : TaskId)
  | paused (taskId : TaskId) (pauseRequestId : UInt64)
  | resumeTask (taskId : TaskId)
  | completed (taskId : TaskId) (rootHash : ChunkHash) (receiptVersion : UInt16)
  | error (taskId : TaskId) (code : ErrorCode)
  | speed (control : SpeedControl)
  | requestChunk (taskId : TaskId) (index : UInt32)
  | chunk (taskId : TaskId) (index : UInt32) (data : List UInt8)
  | chunkAck (taskId : TaskId) (index : UInt32)
  | flowWait (taskId : TaskId)
  | automaticOffer (taskId : TaskId) (groupId : Option TaskId) (relativePath : String)
      (entry : Entry)
  | automaticResumeTask (taskId : TaskId)
  | compareFile (taskId : TaskId) (relativePath : String) (manifest : FileManifest)
  | comparedFile (taskId : TaskId) (rootHash : ChunkHash) (difference : Difference)
  | incrementalOffer (taskId groupId : TaskId) (relativePath : String) (entry : Entry)
      (automatic : Bool)
  deriving DecidableEq

namespace Message

/-- `Message::manual`: the message an automatic one stands for. -/
def manual : Message → Option Message
  | .automaticOffer taskId groupId relativePath entry =>
    some (.offer taskId groupId relativePath entry)
  | .automaticResumeTask taskId => some (.resumeTask taskId)
  | _ => none

/-- `Message::task_id`.  It is never `None`. -/
def taskId : Message → TaskId
  | .speed control => control.testId
  | .compareFile taskId _ _ | .comparedFile taskId _ _ | .incrementalOffer taskId _ _ _ _
  | .automaticOffer taskId _ _ _ | .automaticResumeTask taskId | .offer taskId _ _ _
  | .resume taskId _ _ | .pause taskId | .paused taskId _ | .resumeTask taskId
  | .completed taskId _ _ | .error taskId _ | .requestChunk taskId _ | .chunk taskId _ _
  | .chunkAck taskId _ | .flowWait taskId => taskId

def validate (c : Crypto) : Message → Except Error Unit
  | .offer _ _ relativePath entry | .automaticOffer _ _ relativePath entry =>
    entry.validate c relativePath
  | .incrementalOffer _ _ relativePath entry _ =>
    match entry with
    | .file _ => entry.validate c relativePath
    | .directory => .error (.protocol "增量请求必须为目录内文件")
  | .compareFile _ relativePath manifest => (Entry.file manifest).validate c relativePath
  | .speed control => control.validate
  | .chunk _ _ data =>
    if data.length > 1024 * 1024 then .error (.protocol "文件数据分片超限") else .ok ()
  | .resume _ _ have' =>
    if have'.length > (maxChunks + 7) / 8 then .error (.protocol "文件恢复位图超限") else .ok ()
  | .completed _ _ receiptVersion =>
    if receiptVersion ≠ 1 ∧ receiptVersion ≠ 2 then .error (.protocol "不支持的完成回执版本")
    else .ok ()
  | _ => .ok ()

end Message

structure Frame where
  requestId : UInt64
  message : Message
  deriving DecidableEq

def Frame.validate (c : Crypto) (frame : Frame) : Except Error Unit :=
  if frame.requestId = 0 then .error (.protocol "文件请求编号非法")
  else frame.message.validate c

/-- The frame that `observe` checks in place of an automatic one. -/
def Frame.manual (frame : Frame) : Frame :=
  match frame.message.manual with
  | some message => ⟨frame.requestId, message⟩
  | none => frame

/-! ## The gate -/

inductive Actor where
  | localNode
  | remoteNode
  deriving DecidableEq

def Actor.opposite : Actor → Actor
  | .localNode => .remoteNode
  | .remoteNode => .localNode

inductive WireTaskState where
  | offered
  | transferring
  | pausing
  | paused
  | interrupted
  | resumeRequested
  | completed
  | failed
  deriving DecidableEq

structure Binding where
  incremental : Bool
  sender : Actor
  root : ChunkHash
  chunks : Nat
  state : WireTaskState
  sequence : Actor → UInt64
  pauses : Actor → Option UInt64

structure TaskProtocol where
  peer : NodeId
  tasks : FinMap TaskId Binding

namespace TaskProtocol

def new (authenticatedPeer : NodeId) : TaskProtocol := ⟨authenticatedPeer, ∅⟩

variable (g : TaskProtocol) (task : TaskId)

/-- `state`. -/
def state : Option WireTaskState := (g.tasks.lookup task).map Binding.state

def nextRequestId (actor : Actor) : Except Error UInt64 :=
  let next := match g.tasks.lookup task with
    | none => some 1
    | some binding => checkedAdd (binding.sequence actor) 1
  match next with
  | some id => .ok id
  | none => .error (.protocol "文件请求序号已耗尽")

/-- `restore` of a task from the durable store. -/
def restore (sender : Actor) (root : ChunkHash) (chunks : Nat) (paused : Bool) :
    TaskProtocol × Except Error Unit :=
  if g.tasks.size ≥ maxTasksPerPeer || (g.tasks.lookup task).isSome || chunks > maxChunks then
    (g, .error (.protocol "已授权文件任务恢复冲突或超限"))
  else
    let binding : Binding :=
      ⟨false, sender, root, chunks, if paused then .paused else .interrupted, fun _ => 0,
        fun _ => none⟩
    ({ g with tasks := g.tasks.insert task binding }, .ok ())

end TaskProtocol

namespace Binding

variable (b : Binding)

/-- Chunks flow in these two states. -/
def flows : Bool := b.state == .transferring || b.state == .pausing

/-- The bitmap has a bit for each chunk and no others. -/
def bitmapFits (have' : List UInt8) : Bool :=
  have'.length == (b.chunks + 7) / 8
    && !(b.chunks % 8 != 0 &&
      have'.getLast?.any fun last => last >>> UInt8.ofNat (b.chunks % 8) != 0)

/-- The `match` of `observe` on a clone of the binding. -/
def advance (actor : Actor) (requestId : UInt64) : Message → Except Error Binding
  | .requestChunk _ index | .chunkAck _ index =>
    if actor == b.sender || index.toNat ≥ b.chunks || !b.flows then
      .error (.protocol "文件分片请求方向、索引或状态不符")
    else .ok b
  | .chunk _ index _ =>
    if actor != b.sender || index.toNat ≥ b.chunks || !b.flows then
      .error (.protocol "文件分片方向、索引或状态不符")
    else .ok b
  | .resume _ rootHash have' =>
    if actor == b.sender || rootHash != b.root
        || !(b.state == .offered || b.state == .resumeRequested || b.state == .interrupted)
        || !b.bitmapFits have' then
      .error (.protocol "恢复位图、清单身份或任务状态不符")
    else .ok { b with state := .transferring }
  | .flowWait _ =>
    if actor == b.sender || (!b.flows && !(b.incremental && b.state == .offered)) then
      .error (.protocol "限速保活任务状态不符")
    else .ok b
  | .pause _ =>
    if !b.flows || (b.pauses actor).isSome then .error (.protocol "暂停请求状态不符")
    else
      .ok { b with
        pauses := Function.update b.pauses actor (some requestId)
        state := .pausing }
  | .paused _ pauseRequestId =>
    if b.state != .pausing || b.pauses actor.opposite != some pauseRequestId then
      .error (.protocol "暂停确认未绑定对应请求")
    else
      let pauses := Function.update b.pauses actor.opposite none
      -- Both slots are empty.
      if pauses .localNode == none && pauses .remoteNode == none then
        .ok { b with pauses := pauses, state := .paused }
      else .ok { b with pauses := pauses }
  | .resumeTask _ =>
    if !(b.state == .paused || b.state == .interrupted) then
      .error (.protocol "只能继续已授权的暂停或中断任务")
    else .ok { b with state := .resumeRequested }
  | .completed _ rootHash receiptVersion =>
    if (receiptVersion == 2 && !b.incremental) || actor == b.sender || b.root != rootHash
        || !(b.state == .offered || b.flows) then
      .error (.protocol "完成回执身份、方向或任务状态不符")
    else .ok { b with state := .completed, pauses := fun _ => none }
  | .error _ _ =>
    if b.state == .completed || b.state == .failed then .error (.protocol "终态任务不能重复失败")
    else .ok { b with state := .failed }
  | _ => .error (.protocol "文件消息顺序错误")

end Binding

namespace TaskProtocol

/-- The first frame of a task. -/
def observeOffer (c : Crypto) (g : TaskProtocol) (actor : Actor) (requestId : UInt64)
    (incremental : Bool) (task : TaskId) (relativePath : String) (entry : Entry) :
    TaskProtocol × Except Error Unit :=
  if (g.tasks.lookup task).isSome || g.tasks.size ≥ maxTasksPerPeer || requestId != 1 then
    (g, .error (.protocol "重复、乱序或超限的文件 Offer"))
  else
    let (root, chunks) := entry.identity c relativePath
    let binding : Binding :=
      ⟨incremental, actor, root, chunks, .offered, Function.update (fun _ => 0) actor 1,
        fun _ => none⟩
    ({ g with tasks := g.tasks.insert task binding }, .ok ())

/-- A later frame of a task. -/
def observeTask (g : TaskProtocol) (actor : Actor) (frame : Frame) :
    TaskProtocol × Except Error Unit :=
  match g.tasks.lookup frame.message.taskId with
  | none => (g, .error (.protocol "未授权或未知的文件任务"))
  | some binding =>
    if checkedAdd (binding.sequence actor) 1 != some frame.requestId then
      (g, .error (.protocol "重复或乱序的文件任务请求"))
    else
      match binding.advance actor frame.requestId frame.message with
      | .error err => (g, .error err)
      | .ok binding =>
        let binding := { binding with
          sequence := Function.update binding.sequence actor frame.requestId }
        ({ g with tasks := g.tasks.insert frame.message.taskId binding }, .ok ())

/-- `observe` of a frame that is not automatic. -/
def observeManual (c : Crypto) (g : TaskProtocol) (authenticatedPeer : NodeId) (actor : Actor)
    (frame : Frame) : TaskProtocol × Except Error Unit :=
  if authenticatedPeer ≠ g.peer then (g, .error (.protocol "文件任务对端身份不符"))
  else
    match frame.validate c with
    | .error err => (g, .error err)
    | .ok () =>
      match frame.message with
      | .offer task _ relativePath entry =>
        g.observeOffer c actor frame.requestId false task relativePath entry
      -- The incremental offer is treated as an offer, with its flag set.
      | .incrementalOffer task _ relativePath entry _ =>
        g.observeOffer c actor frame.requestId true task relativePath entry
      | _ => g.observeTask actor frame

def observe (c : Crypto) (g : TaskProtocol) (authenticatedPeer : NodeId) (actor : Actor)
    (frame : Frame) : TaskProtocol × Except Error Unit :=
  g.observeManual c authenticatedPeer actor frame.manual

end TaskProtocol

end P2pFile.Node
