/-
  P2pFile.Node.TaskStore

  The task store (`src/node/core/task_store.rs`, `task_events.rs`, `task_recovery.rs`).

  An operation first decides, on a clone of the tasks, what it is going to commit and
  which events will follow; nothing has changed until then.  The commit then writes a
  temporary file, syncs it, puts it in the place of the snapshot and syncs the directory.
  Each of these calls can fail, and the process can die in each.  A process that ends
  changes nothing in the directory; only a loss of power does, and it can bring back any
  of the snapshots that were replaced since the directory was synced.

  The file holds the snapshot itself: writing and reading its JSON text are each
  other's inverse.  The size of the text is modelled, since it is limited.
-/

import Mathlib.Data.List.Sort
import P2pFile.Lib.File
import P2pFile.Lib.Prog
import P2pFile.Node.TaskJson

namespace P2pFile.Node

open Lib Protocol Storage

/-! ## Events -/

inductive TaskEventKind where
  | created
  | stateChanged (old new : TaskState)
  | removed
  | recoveredAfterRestart
  | progressHintChanged
  deriving DecidableEq

structure TaskEvent where
  taskId : TaskId
  atUnixMs : Int
  kind : TaskEventKind
  deriving DecidableEq

def maxPendingEvents : Nat := 256

structure TaskEventBuffer where
  events : List TaskEvent
  resyncRequired : Bool
  deriving DecidableEq

namespace TaskEventBuffer

def empty : TaskEventBuffer := ⟨[], false⟩

/-- Replace the first event that satisfies `p`. -/
def replaceFirst (p : TaskEvent → Bool) (event : TaskEvent) : List TaskEvent → List TaskEvent
  | [] => []
  | old :: rest => if p old then event :: rest else old :: replaceFirst p event rest

variable (buffer : TaskEventBuffer)

/-- Make room for one more event: drop a progress event, or the oldest one. -/
def makeRoom : TaskEventBuffer :=
  if buffer.events.any fun old => old.kind == .progressHintChanged then
    { buffer with events := buffer.events.eraseP fun old => old.kind == .progressHintChanged }
  else ⟨buffer.events.tail, true⟩

def push (event : TaskEvent) : TaskEventBuffer :=
  let same (old : TaskEvent) : Bool :=
    old.taskId == event.taskId && old.kind == .progressHintChanged
  if event.kind = .progressHintChanged ∧ buffer.events.any same = true then
    { buffer with events := replaceFirst same event buffer.events }
  else if event.kind = .progressHintChanged ∧ buffer.events.length = maxPendingEvents then buffer
  else
    let buffer := if buffer.events.length = maxPendingEvents then buffer.makeRoom else buffer
    { buffer with events := buffer.events ++ [event] }

def takeResyncRequired : Bool × TaskEventBuffer :=
  (buffer.resyncRequired, { buffer with resyncRequired := false })

def drain : List TaskEvent × TaskEventBuffer := (buffer.events, { buffer with events := [] })

end TaskEventBuffer

/-! ## Snapshots -/

def storeFormatVersion : UInt32 := 1

/-- `MAX_STORE_BYTES`, 16 MiB. -/
def maxStoreBytes : Nat := 16 * 1024 * 1024

inductive TaskStoreError where
  | io (err : Error)
  | corrupt
  | unsupportedVersion (version : UInt32)
  | model (err : TaskModelError)
  | taskNotFound
  | notCompleted
  | alreadyRunning
  | commitUncertain
  | generationExhausted
  deriving DecidableEq

structure StoreSnapshot where
  formatVersion : UInt32
  generation : UInt64
  tasks : List TaskRecord
  deriving DecidableEq

def StoreSnapshot.toValue (s : StoreSnapshot) : Option Json.Value := do
  let tasks ← s.tasks.mapM TaskRecord.toValue
  return .obj
    [("format_version", .num s.formatVersion.toNat), ("generation", .num s.generation.toNat),
     ("tasks", .arr tasks)]

/-- The size of the JSON text. -/
def StoreSnapshot.jsonSize (c : Crypto) (s : StoreSnapshot) : Option Nat := s.toValue.map c.json.len

def sortTasks (tasks : List TaskRecord) : List TaskRecord :=
  tasks.insertionSort fun a b => a.taskId.le b.taskId = true

variable (c : Crypto) (tasks : List TaskRecord)

def validateTasks : Except TaskStoreError Unit :=
  match tasks.forM (TaskRecord.validate c) with
  | .ok () => .ok ()
  | .error err => .error (.model err)

def validateUniqueIds : Except TaskStoreError Unit :=
  if (tasks.map fun t => t.taskId).Nodup then .ok () else .error .corrupt

variable (snapshot : StoreSnapshot)

def validateSnapshot : Except TaskStoreError Unit := do
  if snapshot.formatVersion ≠ storeFormatVersion then
    throw (.unsupportedVersion snapshot.formatVersion)
  validateTasks c snapshot.tasks
  validateUniqueIds snapshot.tasks

/-! ## The directory of the store -/

/-- A file with the text of a snapshot, or with a text that is cut short. -/
structure SnapshotFile where
  text : Option StoreSnapshot
  synced : Bool

/-- What the store's directory holds under the name of the snapshot. -/
structure StoreDir where
  file : Option SnapshotFile
  /-- The entries since the directory was synced, the latest first. -/
  older : List (Option SnapshotFile)

variable (f : SnapshotFile)

/-- A text that was never synced does not survive. -/
def SnapshotFile.crash : SnapshotFile :=
  { f with text := if f.synced then f.text else none }

/-- The power is lost, and up to `back` replacements that were not synced with it. -/
def StoreDir.lose (d : StoreDir) (back : Nat) : StoreDir :=
  ⟨(revive d.file d.older back).map SnapshotFile.crash, []⟩

abbrev StoreCall := Prog StoreDir Error

/-- `create_unique_temp`. -/
def createUniqueTemp : StoreCall SnapshotFile := .atomic fun d => .ok (⟨none, false⟩, d)

variable (temp : SnapshotFile)

/-- `temp_file.write_all`. -/
def writeTemp : StoreCall SnapshotFile :=
  .atomic fun d => .ok ({ temp with text := some snapshot }, d)

/-- `temp_file.sync_all`. -/
def syncTemp : StoreCall SnapshotFile := .atomic fun d => .ok ({ temp with synced := true }, d)

def replaceAtomic : StoreCall Unit := .atomic fun d => .ok ((), ⟨some temp, d.file :: d.older⟩)

def syncParentDirectory : StoreCall Unit := .atomic fun d => .ok ((), { d with older := [] })

/-- How `write_snapshot` ends. -/
inductive SnapshotWrite where
  | done
  | beforeReplace (err : Error)
  | afterReplace

/-- `write_snapshot` up to the replacement. -/
def writeAndReplace : StoreCall Unit := do
  let temp ← createUniqueTemp
  let temp ← writeTemp snapshot temp
  let temp ← syncTemp temp
  replaceAtomic temp

/-- `write_snapshot`.  The text and its size are checked before the first call. -/
def writeSnapshot : StoreCall SnapshotWrite :=
  match snapshot.jsonSize c with
  | none => pure (.beforeReplace (.io .other "path contains invalid UTF-8 characters"))
  | some size =>
    if size > maxStoreBytes then
      pure (.beforeReplace (.io .other "task store exceeds its size limit"))
    else do
      match ← (writeAndReplace snapshot).attempt with
      | .error err => pure (.beforeReplace err)
      | .ok () =>
        match ← syncParentDirectory.attempt with
        | .error _ => pure .afterReplace
        | .ok () => pure .done

/-- `symlink_metadata`; `none` if there is no file. -/
def snapshotMetadata : StoreCall (Option SnapshotFile) := .atomic fun d => .ok (d.file, d)

/-- `File::open` and `read_to_end`. -/
def readFile (file : SnapshotFile) : StoreCall SnapshotFile := .atomic fun d => .ok (file, d)

/-- `path.exists()`: an error counts as no. -/
def snapshotExists : StoreCall Bool := do
  match ← snapshotMetadata.attempt with
  | .ok found => pure found.isSome
  | .error _ => pure false

/-- `metadata.len()`. -/
def SnapshotFile.len : Nat := (f.text.bind (StoreSnapshot.jsonSize c)).getD 0

/-- `serde_json::from_slice` and the check of the version. -/
def SnapshotFile.parse : Except TaskStoreError StoreSnapshot :=
  match f.text with
  | none => .error .corrupt
  | some snapshot =>
    if snapshot.formatVersion ≠ storeFormatVersion then
      .error (.unsupportedVersion snapshot.formatVersion)
    else .ok snapshot

def readSnapshot : StoreCall (Except TaskStoreError (Option StoreSnapshot)) := do
  match ← snapshotMetadata.attempt with
  | .error err => pure (.error (.io err))
  | .ok none => pure (.ok none)
  | .ok (some file) =>
    if file.len c > maxStoreBytes then pure (.error .corrupt)
    else
      match ← (readFile file).attempt with
      | .error err => pure (.error (.io err))
      | .ok file => pure (file.parse.map some)

/-! ## The store -/

structure TaskStore where
  tasks : List TaskRecord
  generation : UInt64
  events : TaskEventBuffer
  poisoned : Bool
  deriving DecidableEq

/-- What an operation does once its checks have passed. -/
inductive Decision where
  /-- There is nothing to do. -/
  | keep (result : List TaskId)
  /-- The tasks are changed in memory only. -/
  | display (tasks : List TaskRecord) (event : TaskEvent)
  /-- The candidate is committed, and the events follow. -/
  | commit (candidate : List TaskRecord) (events : List TaskEvent) (result : List TaskId)

namespace TaskStore

variable (c : Crypto) (s : TaskStore)

def record (events : List TaskEvent) : TaskStore :=
  { s with events := events.foldl TaskEventBuffer.push s.events }

def ensureHealthy : Except TaskStoreError Unit :=
  if s.poisoned then .error .commitUncertain else .ok ()

variable (taskId : TaskId)

def task : Except TaskStoreError TaskRecord :=
  match s.tasks.find? fun t => t.taskId == taskId with
  | some t => .ok t
  | none => .error .taskNotFound

variable (candidate : List TaskRecord)

/-- `commit_tasks` up to the write: the snapshot that will be written. -/
def candidateSnapshot : Except TaskStoreError StoreSnapshot := do
  s.ensureHealthy
  let candidate := sortTasks candidate
  validateTasks c candidate
  validateUniqueIds candidate
  match checkedAdd s.generation 1 with
  | none => throw .generationExhausted
  | some generation => return ⟨storeFormatVersion, generation, candidate⟩

/-- `commit_tasks`. -/
def commitTasks : StoreCall (TaskStore × Except TaskStoreError Unit) :=
  match s.candidateSnapshot c candidate with
  | .error err => pure (s, .error err)
  | .ok snapshot => do
    match ← writeSnapshot c snapshot with
    | .beforeReplace err => pure (s, .error (.io err))
    | .afterReplace => pure ({ s with poisoned := true }, .error .commitUncertain)
    | .done =>
      pure ({ s with tasks := snapshot.tasks, generation := snapshot.generation }, .ok ())

/-! ## Operations -/

/-- The candidate in which `f` has changed the task, with the task as it was and as it
    is after the change.  No two tasks have the same identifier. -/
def mutate (f : TaskRecord → Except TaskModelError TaskRecord) :
    Except TaskStoreError (List TaskRecord × TaskRecord × TaskRecord) := do
  let old ← s.task taskId
  match f old with
  | .error err => throw (.model err)
  | .ok new =>
    return (s.tasks.map fun t => if t.taskId = taskId then new else t, old, new)

variable (clock : Clock)

/-- `system_time_unix_ms`. -/
def now : Except TaskStoreError Int :=
  match clock with
  | .ok t => .ok t
  | .error err => .error (.model err)

def removeCompleted : Except TaskStoreError Decision := do
  s.ensureHealthy
  let task ← s.task taskId
  if task.state ≠ .completed then throw .notCompleted
  let removedAt ← now clock
  return .commit (s.tasks.filter fun t => t.taskId ≠ taskId) [⟨taskId, removedAt, .removed⟩] []

variable (requested : List TaskId)

/-- The groups that keep a member: one that is not completed or not requested. -/
def blocked : List TaskId :=
  (s.tasks.filter fun t => t.state ≠ .completed ∨ t.taskId ∉ requested).filterMap fun t => t.groupId

/-- The requested tasks that are removed, in their order. -/
def removable : List TaskId :=
  (s.tasks.filter fun t =>
    t.state = .completed ∧ t.taskId ∈ requested ∧ ∀ g ∈ t.groupId, g ∉ s.blocked requested).map
    fun t => t.taskId

def removeCompletedBatch (clock : Clock) : Except TaskStoreError Decision := do
  s.ensureHealthy
  let removed := s.removable requested
  if removed = [] then return .keep []
  let timestamp ← now clock
  return .commit (s.tasks.filter fun t => t.taskId ∉ removed)
    (removed.map fun id => ⟨id, timestamp, .removed⟩) removed

def create (task : TaskRecord) : Except TaskStoreError Decision := do
  s.ensureHealthy
  validateTasks c [task]
  if task.state ≠ .scanning then throw (.model .newTaskMustStartScanning)
  if s.tasks.any fun t => t.taskId == task.taskId then throw .corrupt
  return .commit (sortTasks (s.tasks ++ [task]))
    [⟨task.taskId, task.createdAtUnixMs, .created⟩] [task.taskId]

/-- The loop of `create_selection` over the scanned records. -/
def addAll (candidate : List TaskRecord) : List TaskRecord → Except TaskStoreError (List TaskRecord)
  | [] => .ok candidate
  | record :: rest => do
    validateTasks c [record]
    if record.state ≠ .scanning || candidate.any fun t => t.taskId == record.taskId then
      throw .corrupt
    addAll (candidate ++ [record]) rest

def createSelection (records : List TaskRecord) : Except TaskStoreError Decision := do
  s.ensureHealthy
  let candidate ← addAll c s.tasks records
  return .commit (sortTasks candidate)
    (records.map fun r => ⟨r.taskId, r.createdAtUnixMs, .created⟩) (records.map fun r => r.taskId)

def transition (next : TaskState) (diagnostic : Option TaskDiagnostic) (nowUnixMs : Int) :
    Except TaskStoreError Decision := do
  s.ensureHealthy
  let (candidate, old, new) ← s.mutate taskId fun t => do
    let updated ← t.transitionTo c next diagnostic nowUnixMs
    updated.validateBindingUnchanged t
    return updated
  return .commit candidate [⟨taskId, new.updatedAtUnixMs, .stateChanged old.state next⟩] []

def cancel : Except TaskStoreError Decision := do
  s.ensureHealthy
  let task ← s.task taskId
  if task.diagnostic.any fun d => d.code == .userCancelled then return .keep []
  let now ← now clock
  let (candidate, old, new) ← s.mutate taskId fun t => t.cancel c now
  return .commit candidate [⟨taskId, new.updatedAtUnixMs, .stateChanged old.state .failed⟩] []

def preparePublication : Except TaskStoreError Decision := do
  s.ensureHealthy
  let (candidate, _, _) ← s.mutate taskId TaskRecord.preparePublication
  return .commit candidate [] []

def enableIncremental : Except TaskStoreError Decision := do
  s.ensureHealthy
  let (candidate, _, _) ← s.mutate taskId TaskRecord.enableIncremental
  return .commit candidate [] []

def commitSkipped (now : Int) : Except TaskStoreError Decision := do
  s.ensureHealthy
  let (candidate, old, _) ← s.mutate taskId fun t => t.commitSkipped c now
  return .commit candidate [⟨taskId, now, .stateChanged old.state .completed⟩] []

def commitReceipt (now : Int) : Except TaskStoreError Decision := do
  s.ensureHealthy
  let (candidate, old, _) ← s.mutate taskId fun t => t.commitReceipt c now
  return .commit candidate [⟨taskId, now, .stateChanged old.state .completed⟩] []

def setProgressHint (hint : ProgressHint) : Except TaskStoreError Decision := do
  s.ensureHealthy
  let (candidate, _, _) ← s.mutate taskId fun t => t.setProgressHint hint
  return .display candidate ⟨taskId, hint.sampledAtUnixMs, .progressHintChanged⟩

end TaskStore

/-- The operations that change tasks, with their arguments and the clock they read. -/
inductive StoreOp where
  | create (task : TaskRecord)
  | createSelection (records : List TaskRecord)
  | transition (taskId : TaskId) (next : TaskState) (diagnostic : Option TaskDiagnostic) (now : Int)
  | cancel (taskId : TaskId) (clock : Clock)
  | preparePublication (taskId : TaskId)
  | enableIncremental (taskId : TaskId)
  | commitSkipped (taskId : TaskId) (now : Int)
  | commitReceipt (taskId : TaskId) (now : Int)
  | setProgressHint (taskId : TaskId) (hint : ProgressHint)
  | removeCompleted (taskId : TaskId) (clock : Clock)
  | removeCompletedBatch (requested : List TaskId) (clock : Clock)

variable (s : TaskStore)

/-- What the operation decides. -/
def StoreOp.decision : StoreOp → Except TaskStoreError Decision
  | .create task => s.create c task
  | .createSelection records => s.createSelection c records
  | .transition taskId next diagnostic now => s.transition c taskId next diagnostic now
  | .cancel taskId clock => s.cancel c taskId clock
  | .preparePublication taskId => s.preparePublication taskId
  | .enableIncremental taskId => s.enableIncremental taskId
  | .commitSkipped taskId now => s.commitSkipped c taskId now
  | .commitReceipt taskId now => s.commitReceipt c taskId now
  | .setProgressHint taskId hint => s.setProgressHint taskId hint
  | .removeCompleted taskId clock => s.removeCompleted taskId clock
  | .removeCompletedBatch requested clock => s.removeCompletedBatch requested clock

/-- One call of an operation: the store after it and its result. -/
def TaskStore.perform (op : StoreOp) :
    StoreCall (TaskStore × Except TaskStoreError (List TaskId)) :=
  match op.decision c s with
  | .error err => pure (s, .error err)
  | .ok (.keep result) => pure (s, .ok result)
  | .ok (.display tasks event) => pure ({ s with tasks }.record [event], .ok [])
  | .ok (.commit candidate events result) => do
    match ← s.commitTasks c candidate with
    | (s, .ok ()) => pure (s.record events, .ok result)
    | (s, .error err) => pure (s, .error err)

/-! ## Opening the store -/

/-- The body of the loop of `recover_startup`. -/
def recoverTask (now : Int) (t : TaskRecord) : Except TaskModelError TaskRecord :=
  if t.state.needsStartupRecovery then
    t.transitionTo c .interrupted (some ⟨.applicationRestarted, false⟩) now
  else .ok t

variable (clock : Clock)

/-- `recover_startup`: the tasks after it and those it has interrupted. -/
def recoverStartup (tasks : List TaskRecord) :
    Except TaskModelError (List TaskRecord × List TaskId) := do
  let now ← clock
  let recovered ← tasks.mapM (recoverTask c now)
  return (recovered, (tasks.filter fun t => t.state.needsStartupRecovery).map fun t => t.taskId)

/-- What `open` makes of the snapshot it has read. -/
def loadSnapshot (found : Option StoreSnapshot) :
    Except TaskStoreError (TaskStore × List TaskId) := do
  let (tasks, generation) ← match found with
    | none => pure (([] : List TaskRecord), (0 : UInt64))
    | some snapshot => do
      validateSnapshot c snapshot
      pure (snapshot.tasks, snapshot.generation)
  match recoverStartup c clock tasks with
  | .error err => throw (.model err)
  | .ok (tasks, interrupted) => return (⟨tasks, generation, .empty, false⟩, interrupted)

/-- The events of `open` for the tasks it has interrupted. -/
def TaskStore.recovered (interrupted : List TaskId) : TaskStore :=
  s.record (interrupted.filterMap fun id =>
    match s.task id with
    | .ok t => some ⟨id, t.updatedAtUnixMs, .recoveredAfterRestart⟩
    | .error _ => none)

/-- `TaskStore::open`, once the directory and its lock are there. -/
def openStore : StoreCall (Except TaskStoreError (TaskStore × List TaskId)) := do
  match ← readSnapshot c with
  | .error err => pure (.error err)
  | .ok found =>
    match loadSnapshot c clock found with
    | .error err => pure (.error err)
    | .ok (store, interrupted) =>
      let present ← snapshotExists
      let store := if present then store.recovered interrupted else store
      let present ← snapshotExists
      if present = false ∨ interrupted ≠ [] then
        match ← store.commitTasks c store.tasks with
        | (store, .ok ()) => pure (.ok (store, interrupted))
        | (_, .error err) => pure (.error err)
      else pure (.ok (store, interrupted))

/-- The open task store and its directory. -/
structure OpenStore where
  memory : TaskStore
  dir : StoreDir

/-! ## Texts of errors -/

/-- The `Debug` text of a state. -/
def TaskState.debug : TaskState → String
  | .scanning => "Scanning"
  | .queued => "Queued"
  | .connecting => "Connecting"
  | .negotiating => "Negotiating"
  | .transferring => "Transferring"
  | .pausing => "Pausing"
  | .paused => "Paused"
  | .finalizing => "Finalizing"
  | .completed => "Completed"
  | .interrupted => "Interrupted"
  | .failed => "Failed"

def TaskModelError.display : TaskModelError → String
  | .invalidTaskId => "task ID must be 32 lowercase hexadecimal characters"
  | .invalidPeerId => "peer ID is invalid"
  | .invalidManifestIdentity => "manifest identity is invalid"
  | .relativeLocalPath => "local task path must be an absolute path"
  | .directionPathMismatch => "local task path does not match the task direction"
  | .unsupportedSchemaVersion version =>
    "task record has an unsupported schema version: " ++ toString version
  | .invalidTimestamps => "task record timestamps are invalid"
  | .invalidProgressHint => "task progress hint fields are invalid"
  | .missingFailureDiagnostic => "a Failed task requires a diagnostic"
  | .newTaskMustStartScanning =>
    "a new task must be persisted in Scanning before it can be queued"
  | .invalidTransition old new =>
    "task state transition is not allowed: " ++ old.debug ++ " -> " ++ new.debug
  | .wrongDirection => "task direction does not match the requested recovery API"
  | .notRecoverable => "task is not in a recoverable state"
  | .immutableBinding => "task binding fields are immutable"
  | .clockOutOfRange => "system clock is outside the supported timestamp range"

def TaskStoreError.display : TaskStoreError → String
  | .io _ => "任务存储暂时不可用"
  | .corrupt => "任务存储格式损坏；原文件已保留"
  | .unsupportedVersion version =>
    "任务存储版本 " ++ toString version ++ " 不受支持；原文件已保留"
  | .model err => err.display
  | .taskNotFound => "任务记录不存在"
  | .notCompleted => "只能移除已完成任务的历史记录"
  | .alreadyRunning => "任务目录已由另一个写入者使用"
  | .commitUncertain => "任务存储提交状态不确定；请重启应用后重试"
  | .generationExhausted => "任务存储代数已耗尽"

/-- `fs::fail`. -/
def fail (message : String) : Error := .protocol message

end P2pFile.Node
