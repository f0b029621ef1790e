/-
  P2pFile.Node.Queue

  The send queue (`TaskQueue` of `src/node/core/queue.rs`): entries wait in the order in
  which they were added, and own a slot while they are sent.

  Files and directory entries (`metadata`) have limits of their own.  A slot has a
  generation, so that whoever gives it back late does not free the slot of a retry.
-/

import P2pFile.Lib.FinMap
import P2pFile.Lib.Machine
import P2pFile.Node.TaskModel

namespace P2pFile.Node

open Lib Protocol

def maxQueued : Nat := 4096

def maxMetadataActive : Nat := 8

structure QueueEntry where
  id : TaskId
  peer : NodeId
  metadata : Bool
  deriving DecidableEq

structure TaskQueue where
  pending : List QueueEntry
  active : FinMap TaskId QueueEntry
  limit : UInt8
  generations : FinMap TaskId UInt64
  nextGeneration : UInt64

structure QueueMetrics where
  pending : Nat
  activeFiles : Nat
  activeMetadata : Nat
  limit : UInt8
  converging : Bool

namespace TaskQueue

/-- `TaskQueue::default`. -/
def new : TaskQueue := ⟨[], ∅, 1, ∅, 0⟩

variable (q : TaskQueue)

def metrics : QueueMetrics :=
  let activeFiles := q.active.countP fun _ e => !e.metadata
  { pending := q.pending.length
    activeFiles
    activeMetadata := q.active.size - activeFiles
    limit := q.limit
    converging := activeFiles > q.limit.toNat }

/-- The directory entries of a peer that are being sent. -/
def peerMetadata (peer : NodeId) : Nat := q.active.countP fun _ e => e.metadata && e.peer == peer

/-! ## Operations

Each gives its result and the queue after it. -/

def setLimit (value : UInt8) : Except String Unit × TaskQueue :=
  if 1 ≤ value ∧ value ≤ 3 then (.ok (), { q with limit := value })
  else (.error "发送并发数仅支持 1、2 或 3", q)

/-- The loop of `enqueue` over the new entries. -/
def enqueueAll (active : FinMap TaskId QueueEntry) :
    List QueueEntry → List QueueEntry → Except String (List QueueEntry)
  | candidate, [] => .ok candidate
  | candidate, entry :: rest =>
    match (active.lookup entry.id).or (candidate.find? fun e => e.id == entry.id) with
    | some existing =>
      if existing ≠ entry then .error "队列任务绑定不能改变"
      else enqueueAll active candidate rest
    | none =>
      if candidate.length = maxQueued then .error "发送队列已达上限"
      else enqueueAll active (candidate ++ [entry]) rest

def enqueue (entries : List QueueEntry) : Except String Unit × TaskQueue :=
  match enqueueAll q.active q.pending entries with
  | .ok candidate => (.ok (), { q with pending := candidate })
  | .error err => (.error err, q)

variable (entry : QueueEntry)

/-- Whether there is room for the entry among the active ones. -/
def hasRoom : Bool :=
  if entry.metadata then
    q.metrics.activeMetadata < maxMetadataActive && q.peerMetadata entry.peer < 2
  else q.metrics.activeFiles < q.limit.toNat

variable (connected : NodeId → Bool)

/-- The entry can be dispatched. -/
def eligible (entry : QueueEntry) : Bool := connected entry.peer && q.hasRoom entry

/-- The entry gets a slot. -/
def activate (generation : UInt64) : TaskQueue :=
  { q with
    active := q.active.insert entry.id entry
    generations := q.generations.insert entry.id generation
    nextGeneration := generation }

def dispatch : Option QueueEntry × TaskQueue :=
  match q.pending.find? (q.eligible connected), checkedAdd q.nextGeneration 1 with
  | some entry, some generation =>
    (some entry, { q with pending := q.pending.eraseP (q.eligible connected) }.activate entry
      generation)
  | _, _ => (none, q)

variable (id : TaskId)

def slotGeneration : Option UInt64 := q.generations.lookup id

def finishIf (generation : UInt64) : TaskQueue :=
  if q.slotGeneration id = some generation then
    { q with active := q.active.erase id, generations := q.generations.erase id }
  else q

def removeQueued : Option QueueEntry × TaskQueue :=
  match q.pending.find? fun e => e.id == id with
  | some entry => (some entry, { q with pending := q.pending.eraseP fun e => e.id == id })
  | none => (none, q)

def reserveDirect : Except String UInt64 × TaskQueue :=
  if (q.active.lookup entry.id).isSome then (.error "任务已有发送槽", q)
  else if q.hasRoom entry = false then (.error "发送活动已达上限", q)
  else
    match checkedAdd q.nextGeneration 1 with
    | none => (.error "发送槽代数已耗尽", q)
    | some generation =>
      if (q.pending.find? fun e => e.id == entry.id).any fun existing => existing ≠ entry then
        (.error "队列任务绑定不能改变", q)
      else (.ok generation, (q.removeQueued entry.id).2.activate entry generation)

/-- The generations go on, so that a late guard cannot release a new slot. -/
def clear : TaskQueue := { q with pending := [], active := ∅, generations := ∅ }

end TaskQueue

/-! ## The machine -/

inductive QueueOp where
  | enqueue (entries : List QueueEntry)
  | dispatch (connected : NodeId → Bool)
  | reserveDirect (entry : QueueEntry)
  | finishIf (id : TaskId) (generation : UInt64)
  | removeQueued (id : TaskId)
  | setLimit (value : UInt8)
  | clear

/-- The queue after an operation. -/
def TaskQueue.step (q : TaskQueue) : QueueOp → TaskQueue
  | .enqueue entries => (q.enqueue entries).2
  | .dispatch connected => (q.dispatch connected).2
  | .reserveDirect entry => (q.reserveDirect entry).2
  | .finishIf id generation => q.finishIf id generation
  | .removeQueued id => (q.removeQueued id).2
  | .setLimit value => (q.setLimit value).2
  | .clear => q.clear

/-- Whether an operation fails: it gives an error, or nothing. -/
def TaskQueue.Fails (q : TaskQueue) : QueueOp → Prop
  | .enqueue entries => ∃ err, (q.enqueue entries).1 = .error err
  | .dispatch connected => (q.dispatch connected).1 = none
  | .reserveDirect entry => ∃ err, (q.reserveDirect entry).1 = .error err
  | .finishIf id generation => q.slotGeneration id ≠ some generation
  | .removeQueued id => (q.removeQueued id).1 = none
  | .setLimit value => ∃ err, (q.setLimit value).1 = .error err
  | .clear => False

def queueMachine : Machine TaskQueue QueueOp :=
  .ofStep (fun q => q = .new) fun q op => some (q.step op)

end P2pFile.Node
