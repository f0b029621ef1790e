/-
  P2pFile.Node.TaskViews

  What the user is shown of the tasks (`src/node/core/task_details.rs`, the list of
  `snapshot.rs`): the details of a task or of a group, the place that is revealed for it,
  and the rows of the list.

  All of it is read off the stored records.  What the process knows besides (rates,
  measured attempts, tasks that wait for recovery) is looked up by task and enters as
  `ViewEnv`; the filter of the list enters as the two questions it answers.
-/

import P2pFile.Lib.Sort
import P2pFile.Node.TaskStoreRuns
import P2pFile.Storage.PartialDownload

namespace P2pFile.Node

open Lib Protocol Storage

/-! ## Texts -/

/-- `TaskDiagnostic::safe_message`. -/
def TaskDiagnostic.safeMessage (d : TaskDiagnostic) : String :=
  match d.code with
  | .sourceUnavailable => "本机源文件不可用"
  | .sourceChanged => "本机源文件内容已变化"
  | .peerUnavailable => "对端当前不可用"
  | .peerBusy => "对端资源忙，请稍后继续"
  | .permissionDenied => "本机目录权限不足"
  | .diskFull => "本机磁盘空间不足"
  | .integrityMismatch => "内容完整性校验失败"
  | .invalidRemoteData => "对端数据无效"
  | .unsupportedPeer => "对端不支持此任务能力"
  | .networkInterrupted => "网络连接中断"
  | .applicationRestarted => "应用退出时任务被中断"
  | .storageUnavailable => "任务存储不可用"
  | .spaceCheckUnavailable => "接收磁盘空间检查不可用，请手动重试"
  | .receiveBudgetBusy => "接收空间预算正忙，请稍后手动继续"
  | .filesystemMismatch => "暂存和目标不在同一文件系统，请检查接收目录"
  | .userCancelled => "任务已取消"
  | .other => "任务失败，详情不可用"

/-- `snapshot::state_label`. -/
def TaskState.label : TaskState → String
  | .scanning => "扫描中"
  | .queued => "排队中"
  | .connecting => "连接中"
  | .negotiating => "协商中"
  | .transferring => "传输中"
  | .pausing => "正在暂停"
  | .paused => "已暂停"
  | .finalizing => "正在发布确认"
  | .completed => "已完成"
  | .interrupted => "中断待继续"
  | .failed => "失败"

def TaskState.isTerminal (state : TaskState) : Bool := state == .completed || state == .failed

/-- The text of a task that waits for its peer. -/
def waitingLabel : String := "等待连接和重新授权"

/-! ## What a view reads besides the records -/

/-- `Sample`: the attempts of a task in this process, with the time they took. -/
structure AttemptSample where
  attempts : UInt32
  automatic : UInt32
  elapsedNanos : Nat

structure ViewEnv where
  rate : TaskRecord → Float
  sample : TaskId → Option AttemptSample
  waiting : TaskId → Bool
  nowMs : Int
  /-- `OsStr::to_string_lossy`. -/
  lossy : List UInt8 → String

variable (env : ViewEnv) (r : TaskRecord)

/-- The name that a record is shown under. -/
def ViewEnv.nameOf : String := r.relativePath.getD (env.lossy (r.localPath.path.fileName.getD []))

/-! ## Selections -/

inductive Selection where
  | task (id : TaskId)
  | group (id : TaskId)
  deriving DecidableEq

def Selection.isGroup : Selection → Bool
  | .task _ => false
  | .group _ => true

/-- Whether the record is one of those selected. -/
def Selection.selects : Selection → TaskRecord → Bool
  | .task id, r => r.taskId == id
  | .group id, r => r.groupId == some id

variable (records : List TaskRecord)

def recordsFor (selected : Selection) : List TaskRecord := records.filter selected.selects

/-- `Iterator::min_by_key`: the first of the least elements. -/
def minBy {α : Type} (le : α → α → Bool) : List α → Option α
  | [] => none
  | a :: rest =>
    match minBy le rest with
    | none => some a
    | some b => if le a b then some a else some b

/-- `path.split('/').count()`, or `usize::MAX` without a path. -/
def TaskRecord.depth : Nat :=
  match r.relativePath with
  | some path => (Storage.components path).length
  | none => 2 ^ 64 - 1

/-- The order of the keys of `anchor`: directories first, then by depth, then by task. -/
def anchorLe (a b : TaskRecord) : Bool :=
  match a.directoryDetails.isNone, b.directoryDetails.isNone with
  | false, true => true
  | true, false => false
  | _, _ => a.depth < b.depth || (a.depth == b.depth && a.taskId.le b.taskId)

/-- `anchor`; there is none only if nothing is selected. -/
def anchor : Option TaskRecord := minBy anchorLe records

variable (record : TaskRecord)

/-- `location`, for the record that `anchor` gives. -/
def location (records : List TaskRecord) (selection : Selection) :
    Except Error (PathBuf × String) :=
  if selection.isGroup && record.direction == .receive then
    .ok (record.localPath.path, "定位原接收目录")
  else
    match selection.isGroup, record.fileDetails, record.direction with
    | true, some details, .send =>
      match details.sourceRoot with
      | none => .error (.protocol "目录源绑定不可用")
      | some root => .ok (root, "定位源目录")
    | _, _, .send =>
      .ok (record.localPath.path,
        if record.directoryDetails.isNone then "定位源文件" else "定位源目录")
    | _, _, .receive =>
      if records.all fun r => r.state == .completed && r.receiptCommitted then
        match record.relativePath with
        | none => .error (.protocol "任务缺少相对路径")
        | some relative =>
          match validateRelativePath relative with
          | .error err => .error err
          | .ok () =>
            .ok (record.localPath.path.join (.ofString relative),
              if record.fileDetails.isSome then "定位接收文件" else "定位接收目录")
      else .ok (record.localPath.path, "定位原接收目录")

/-- The selected records are not of one peer, one direction and, for receivers, one
    directory. -/
def mixedBinding (first : TaskRecord) (records : List TaskRecord) : Bool :=
  records.any fun r =>
    r.peerId != first.peerId || r.direction != first.direction
      || (first.direction == .receive
        && r.localPath.path.components != first.localPath.path.components)

/-! ## Details -/

structure Member where
  id : TaskId
  name : String
  directory : Bool
  state : String
  total : UInt64
  confirmed : UInt64
  diagnostic : Option String

structure Counts where
  files : Nat := 0
  directories : Nat := 0
  completed : Nat := 0
  failed : Nat := 0
  paused : Nat := 0
  interrupted : Nat := 0
  waiting : Nat := 0
  queued : Nat := 0
  active : Nat := 0

structure RunTotals where
  covered : Nat := 0
  attempts : UInt64 := 0
  retries : UInt64 := 0
  automatic : UInt64 := 0
  seconds : Nat := 0

/-- The errors with one text: how many there are, and whether one may be retried. -/
structure ErrorCount where
  message : String
  count : Nat
  retryable : Bool

structure Detail where
  scopeLabel : String
  parentGroup : Option TaskId
  selection : Selection
  name : String
  peer : PeerId
  direction : TaskDirection
  state : String
  total : UInt64
  confirmed : UInt64
  skippedFiles : Nat
  savedBytes : UInt64
  rate : Float
  eta : Option UInt64
  wallSeconds : Option Nat
  run : RunTotals
  counts : Counts
  members : List Member
  localPath : PathBuf
  revealLabel : String
  errors : List ErrorCount

/-- `eta`. -/
def eta (remaining : UInt64) (rate : Float) (blocked : Bool) : Option UInt64 :=
  if blocked || remaining == 0 || !rate.isFinite || rate ≤ 0 then none
  else
    let seconds := (remaining.toFloat / rate).ceil
    if seconds.isFinite && seconds < (18446744073709551615 : UInt64).toFloat then
      some seconds.toUInt64
    else none

/-- The record counts by its kind and, unless it waits, by its state. -/
def Counts.add (counts : Counts) (isDirectory pending : Bool) (state : TaskState) : Counts :=
  let counts :=
    if isDirectory then { counts with directories := counts.directories + 1 }
    else { counts with files := counts.files + 1 }
  if pending then { counts with waiting := counts.waiting + 1 }
  else
    match state with
    | .completed => { counts with completed := counts.completed + 1 }
    | .failed => { counts with failed := counts.failed + 1 }
    | .paused => { counts with paused := counts.paused + 1 }
    | .interrupted => { counts with interrupted := counts.interrupted + 1 }
    | .scanning | .queued => { counts with queued := counts.queued + 1 }
    | .connecting | .negotiating | .transferring | .pausing | .finalizing =>
      { counts with active := counts.active + 1 }

def RunTotals.add (run : RunTotals) (sample : AttemptSample) : RunTotals :=
  { run with
    covered := run.covered + 1
    attempts := saturatingAdd run.attempts sample.attempts.toUInt64
    retries := saturatingAdd run.retries (saturatingSub sample.attempts.toUInt64 1)
    automatic := saturatingAdd run.automatic sample.automatic.toUInt64 }

/-- `Duration::saturating_add`, in nanoseconds. -/
def durationAdd (a b : Nat) : Nat := min (a + b) (2 ^ 64 * 1000000000 - 1)

def addError (errors : List ErrorCount) (d : TaskDiagnostic) : List ErrorCount :=
  match errors with
  | [] => [⟨d.safeMessage, 1, d.retryable⟩]
  | e :: rest =>
    if e.message = d.safeMessage then ⟨e.message, e.count + 1, e.retryable || d.retryable⟩ :: rest
    else e :: addError rest d

/-- The variables of the loop of `project`. -/
structure Tally where
  activityNanos : Nat := 0
  counts : Counts := {}
  run : RunTotals := {}
  total : UInt64 := 0
  confirmed : UInt64 := 0
  speed : Float := 0
  blocked : Bool := false
  members : List Member := []
  errors : List ErrorCount := []
  started : Int := 2 ^ 63 - 1
  ended : Int := 0

/-- A state in which a task does not move. -/
def TaskState.stalls (state : TaskState) : Bool :=
  state == .failed || state == .paused || state == .pausing || state == .interrupted

/-- The body of the loop of `project`. -/
def Tally.add (tally : Tally) (r : TaskRecord) : Tally :=
  let isDirectory := r.directoryDetails.isSome
  let pending := env.waiting r.taskId
  let size := if isDirectory then 0 else r.manifestIdentity.totalBytes
  let bytes :=
    if r.state = .completed then size
    else min ((r.progressHint.map fun hint => hint.verifiedBytes).getD 0) size
  let value := env.rate r
  { activityNanos := ((env.sample r.taskId).map fun sample =>
      durationAdd tally.activityNanos sample.elapsedNanos).getD tally.activityNanos
    counts := tally.counts.add isDirectory pending r.state
    run := ((env.sample r.taskId).map tally.run.add).getD tally.run
    total := saturatingAdd tally.total size
    confirmed := saturatingAdd tally.confirmed bytes
    speed :=
      if r.state == .transferring && !pending && !isDirectory && value.isFinite && value > 0 then
        tally.speed + value
      else tally.speed
    blocked := tally.blocked || pending || r.state.stalls
    members := tally.members ++
      [{ id := r.taskId, name := env.nameOf r, directory := isDirectory,
         state := if pending then waitingLabel else r.state.label,
         total := size, confirmed := bytes,
         diagnostic := r.diagnostic.map TaskDiagnostic.safeMessage }]
    errors := (r.diagnostic.map (addError tally.errors)).getD tally.errors
    started := min tally.started r.createdAtUnixMs
    ended := max tally.ended r.updatedAtUnixMs }

variable (selection : Selection) (first : TaskRecord)

/-- The state of the whole selection. -/
def overallState (n : Nat) (tally : Tally) : String :=
  match selection, n, tally.members with
  | .task _, 1, member :: _ => member.state
  | _, _, _ =>
    if tally.counts.completed = n then
      if first.direction = .receive then "已接纳子项均完成" else "已完成"
    else if tally.counts.failed > 0 then "含失败任务"
    else if tally.counts.paused > 0 then "含暂停任务"
    else if tally.counts.waiting > 0 then waitingLabel
    else if tally.counts.interrupted > 0 then "含中断任务"
    else if tally.counts.active > 0 then "传输中"
    else "排队"

/-- `end.checked_sub(started)`, if it is not negative, in seconds. -/
def wallSeconds (started ended : Int) : Option Nat :=
  let elapsed := ended - started
  if 0 ≤ elapsed ∧ elapsed < 2 ^ 63 then some (elapsed.toNat / 1000) else none

def scopeLabel : String :=
  match selection, first.direction with
  | .group _, .receive => "当前保留的全部已接纳子项；后续到达项会更新，与主列表筛选无关"
  | .group _, .send => "完整本机目录清单，与主列表筛选无关"
  | .task _, _ => "单个任务"

/-- `relative.split('/').next()`. -/
def firstComponent (path : String) : String :=
  String.ofList ((Storage.components path).head?.getD [])

def memberLe (a b : Member) : Bool :=
  decide (utf8 a.name < utf8 b.name) || (a.name == b.name && a.id.le b.id)

/-- `project`, once the records are selected. -/
def projectSelected (selected : List TaskRecord) (selection : Selection) (env : ViewEnv) :
    Option Detail := do
  let first ← selected.head?
  if mixedBinding first selected then none
  let tally := selected.foldl (Tally.add env) {}
  let speed := if tally.speed.isFinite then tally.speed else 0
  let ended := if selected.all fun r => r.state.isTerminal then tally.ended else env.nowMs
  let root ← anchor selected
  let name :=
    if selection.isGroup then (root.relativePath.map firstComponent).getD "目录组"
    else (tally.members.head?.map fun member => member.name).getD ""
  let (localPath, revealLabel) ← (location root selected selection).toOption
  let skipped := selected.filterMap fun r =>
    r.fileDetails.filter fun details => details.skippedExisting
  return {
    scopeLabel := scopeLabel selection first
    parentGroup := if selection.isGroup then none else first.groupId
    selection, name, peer := first.peerId, direction := first.direction
    state := overallState selection first selected.length tally
    total := tally.total, confirmed := tally.confirmed
    skippedFiles := skipped.length
    savedBytes := (skipped.map fun details => details.manifest.totalLen).foldl (· + ·) 0
    rate := speed
    eta := eta (saturatingSub tally.total tally.confirmed) speed tally.blocked
    wallSeconds := wallSeconds tally.started ended
    run := { tally.run with seconds := tally.activityNanos / 1000000000 }
    counts := tally.counts
    members := tally.members.insertionSort fun a b => memberLe a b = true
    localPath, revealLabel
    errors := tally.errors.insertionSort fun a b => utf8 a.message ≤ utf8 b.message }

def project (env : ViewEnv) : Option Detail :=
  projectSelected (recordsFor records selection) selection env

/-! ## The place that is revealed -/

/-- The calls of `secure_fs` that `reveal` makes, on the file system as it is then. -/
structure RevealFs where
  Dir : Type
  /-- `secure_fs::root`. -/
  root : PathBuf → Except Error Dir
  /-- `Dir::open_ambient_dir`. -/
  openAmbientDir : PathBuf → Except Error Dir
  /-- `secure_fs::parent`. -/
  parent : Dir → String → Except Error (Dir × String)
  /-- `secure_fs::child`. -/
  child : Dir → String → Except Error Unit
  /-- `secure_fs::open`, for reading. -/
  openFile : Dir → String → Except Error Unit
  /-- `Path::parent` of a path of the host. -/
  parentPath : PathBuf → Option PathBuf

/-- `path.split_once('/')`, the second part. -/
def afterFirst (path : String) : Option String :=
  match Storage.components path with
  | _ :: next :: rest => some (String.ofList (['/'].intercalate (next :: rest)))
  | _ => none

variable (fs : RevealFs)

/-- `source_parent` of a file below a selected directory. -/
def sourceParent (r : TaskRecord) (details : FileTaskDetails) (root : PathBuf) :
    Except Error (fs.Dir × String) := do
  let dir ← fs.root root
  match afterFirst details.relativePath with
  | none => throw (.protocol "目录源绑定非法")
  | some relative =>
    if (root.join (.ofString relative)).components ≠ r.localPath.path.components then
      throw (.protocol "目录源绑定非法")
    fs.parent dir relative

/-- The directory and the name of a selected file. -/
def plainParent (r : TaskRecord) : Except Error (fs.Dir × String) := do
  match fs.parentPath r.localPath.path with
  | none => throw (.protocol "源目录不可用")
  | some path =>
    let parent ← if (fs.parentPath path).isSome then fs.root path else fs.openAmbientDir path
    match r.localPath.path.fileName.bind fun name => (PathBuf.mk name).toStr with
    | none => throw (.protocol "源文件名不可用")
    | some name => return (parent, name)

/-- The directory task of the group that is nearest to its root, among those of `record`'s
    own peer and direction. -/
def groupRoot : Option TaskRecord :=
  record.groupId.bind fun id =>
    minBy (fun a b => a.depth ≤ b.depth) <| records.filter fun r =>
      r.groupId == some id && r.direction == .send && r.peerId == record.peerId
        && r.directoryDetails.isSome

/-- What `reveal` checks of a directory task that is being sent. -/
def revealDirectory (records : List TaskRecord) (record : TaskRecord) : Except Error Unit := do
  let rootRecord := (groupRoot records record).getD record
  let root ← fs.root rootRecord.localPath.path
  if rootRecord.taskId ≠ record.taskId then
    match record.relativePath.bind afterFirst with
    | none => throw (.protocol "源目录绑定无效")
    | some relative =>
      if (rootRecord.localPath.path.join (.ofString relative)).components
          ≠ record.localPath.path.components then
        throw (.protocol "源目录绑定无效")
      let (parent, name) ← fs.parent root relative
      fs.child parent name

/-- What `reveal` checks of a task that is being sent. -/
def revealSend (records : List TaskRecord) (selection : Selection)
    (record : TaskRecord) (path : PathBuf) : Except Error Unit :=
  if selection.isGroup && record.fileDetails.isSome then do
    let _ ← fs.root path
  else if record.directoryDetails.isNone then do
    let (parent, name) ←
      match record.fileDetails with
      | some details =>
        match details.sourceRoot with
        | some root => sourceParent fs record details root
        | none => plainParent fs record
      | none => plainParent fs record
    fs.openFile parent name
  else revealDirectory fs records record

/-- What `reveal` checks of a task that is being received. -/
def revealReceive (record : TaskRecord) (path : PathBuf) : Except Error Unit := do
  let root ← fs.root record.localPath.path
  if path.components ≠ record.localPath.path.components then
    let (parent, name) ← fs.parent root (record.relativePath.getD "")
    if record.fileDetails.isSome then fs.openFile parent name else fs.child parent name

def reveal (records : List TaskRecord) (selection : Selection) : Except Error PathBuf := do
  let selected := recordsFor records selection
  match selected.head?, anchor selected with
  | some first, some record =>
    if mixedBinding first selected then throw (.protocol "任务组绑定不一致")
    let (path, _) ← location record selected selection
    match record.direction with
    | .send => revealSend fs records selection record path
    | .receive => revealReceive fs record path
    return path
  | _, _ => throw (.protocol "任务或目录组记录已不存在")

/-! ## The list -/

structure TaskRow where
  id : TaskId
  group : Option TaskId
  name : String
  peer : PeerId
  direction : TaskDirection
  state : TaskState
  total : UInt64
  confirmed : UInt64
  rate : Float
  diagnostic : Option String
  retryable : Bool
  autoWaiting : Bool
  canDeleteFile : Bool

/-- `TaskRow::from_record`, with the mark of a task that waits. -/
def TaskRow.fromRecord : TaskRow :=
  let total := r.manifestIdentity.totalBytes
  { id := r.taskId, group := r.groupId, name := env.nameOf r, peer := r.peerId
    direction := r.direction, state := r.state, total
    confirmed :=
      if r.state = .completed then total
      else min ((r.progressHint.map fun hint => hint.verifiedBytes).getD 0) total
    rate := if r.state = .transferring ∧ env.rate r > 0 then env.rate r else 0
    diagnostic := r.diagnostic.map TaskDiagnostic.safeMessage
    retryable := r.diagnostic.any fun d => d.retryable
    autoWaiting := env.waiting r.taskId
    canDeleteFile := r.direction == .receive && r.state == .completed
      && r.fileDetails.any fun details => details.receiptCommitted }

/-- The order of the list: by the time of creation, then by task. -/
def listLe (a b : TaskRecord) : Prop :=
  a.createdAtUnixMs < b.createdAtUnixMs
    ∨ (a.createdAtUnixMs = b.createdAtUnixMs ∧ a.taskId.le b.taskId = true)

instance : DecidableRel listLe := fun a b => by unfold listLe; infer_instance

/-- The rows of `ui_snapshot`. -/
def taskRows : List TaskRow := (records.insertionSort listLe).map (TaskRow.fromRecord env)

structure GroupRow where
  id : TaskId
  name : String
  children : Nat
  matched : Nat
  complete : Nat
  failures : Nat
  total : UInt64
  confirmed : UInt64

inductive ListRow where
  | group (row : GroupRow)
  | task (row : TaskRow)

/-- A filter and the expanded groups: which rows match, whether the filter is active. -/
structure ListQuery where
  isMatch : TaskRow → Bool
  active : Bool
  expanded : TaskId → Bool

variable (id : TaskId)

/-- `or_insert_with`: the row of a group at its first member. -/
def GroupRow.start (t : TaskRow) : GroupRow := ⟨id, firstComponent t.name, 0, 0, 0, 0, 0, 0⟩

variable (query : ListQuery)

def GroupRow.add (g : GroupRow) (t : TaskRow) : GroupRow :=
  { g with
    children := g.children + 1
    matched := g.matched + (query.isMatch t).toNat
    complete := g.complete + (t.state == .completed).toNat
    failures := g.failures + (t.state == .failed || t.state == .interrupted).toNat
    total := saturatingAdd g.total t.total
    confirmed := saturatingAdd g.confirmed t.confirmed }

/-- The entry of the map `groups`: only the members of a group change its row. -/
def groupRow (rows : List TaskRow) (id : TaskId) : Option GroupRow :=
  match rows.filter fun t => t.group == some id with
  | [] => none
  | t :: rest => some ((t :: rest).foldl (GroupRow.add query) (.start id t))

/-- The loop of `filtered_list`. -/
def listLoop (query : ListQuery) (groups : TaskId → Option GroupRow) :
    List TaskId → List TaskRow → List ListRow
  | _, [] => []
  | seen, t :: rest =>
    if query.isMatch t = false then listLoop query groups seen rest
    else
      match t.group with
      | none => .task t :: listLoop query groups seen rest
      | some id =>
        let header := if id ∈ seen then [] else ((groups id).map ListRow.group).toList
        let row := if query.active || query.expanded id then [ListRow.task t] else []
        header ++ row ++ listLoop query groups (id :: seen) rest

/-- `Snapshot::filtered_list`. -/
def filteredList (rows : List TaskRow) : List ListRow :=
  listLoop query (groupRow query rows) [] rows

/-! ## What a view depends on -/

/-- The row of the group. -/
def ListRow.isGroup (g : TaskId) : ListRow → Bool
  | .group row => row.id == g
  | .task _ => false

/-- The row of the task. -/
def ListRow.isTask : ListRow → Bool
  | .group _ => false
  | .task row => row.id == id

open ListRow (isGroup isTask)

/-- A row that the list shows if its turn comes. -/
def ListQuery.shows (t : TaskRow) : Bool :=
  query.isMatch t && (match t.group with
    | none => true
    | some id => query.active || query.expanded id)

/-- The header with the totals of the whole group. -/
def GroupRow.whole (g : TaskId) (members : List TaskRow) : GroupRow where
  id := g
  name := (members.head?.map fun t => firstComponent t.name).getD ""
  children := members.length
  matched := members.countP query.isMatch
  complete := members.countP fun t => t.state == .completed
  failures := members.countP fun t => t.state == .failed || t.state == .interrupted
  total := members.foldl (fun sum t => saturatingAdd sum t.total) 0
  confirmed := members.foldl (fun sum t => saturatingAdd sum t.confirmed) 0

theorem GroupRow.foldl_add (g : TaskId) (t : TaskRow) (members : List TaskRow) :
    members.foldl (GroupRow.add query) (.start g t) =
      { GroupRow.whole query g members with name := firstComponent t.name } := by
  induction members using List.reverseRecOn with
  | nil => rfl
  | append_singleton members u ih =>
    rw [List.foldl_append, ih]
    simp [GroupRow.add, GroupRow.whole, List.countP_singleton, Bool.toNat, cond_eq_ite]

variable {query : ListQuery} {id : TaskId}

theorem groupRow_id {rows : List TaskRow} {row : GroupRow} (h : groupRow query rows id = some row) :
    row.id = id := by
  unfold groupRow at h
  split at h
  · cases h
  · cases h
    rw [GroupRow.foldl_add]
    rfl

variable {groups : TaskId → Option GroupRow}

/-- The list has one row for a group with a match, wherever its members are. -/
theorem listLoop_filter_group (hid : ∀ id row, groups id = some row → row.id = id) (g : TaskId) :
    ∀ (rows : List TaskRow) (seen : List TaskId),
      (listLoop query groups seen rows).filter (isGroup g) =
        if g ∉ seen ∧ (rows.filter fun t => t.group == some g).any query.isMatch = true then
          ((groups g).map ListRow.group).toList
        else [] := by
  intro rows
  induction rows with
  | nil =>
    intro seen
    simp [listLoop]
  | cons t rows ih =>
    intro seen
    unfold listLoop
    cases hmatch : query.isMatch t with
    | false =>
      rw [if_pos rfl, ih seen]
      by_cases hgroup : t.group = some g
      · simp [hgroup, hmatch]
      · simp [hgroup]
    | true =>
      rw [if_neg (by simp)]
      cases hgroup : t.group with
      | none => simp [isGroup, ih seen, hgroup]
      | some id =>
        have hrow : ∀ b : Bool, (if b then [ListRow.task t] else []).filter (isGroup g) = [] := by
          intro b
          cases b <;> simp [isGroup]
        simp only [List.filter_append, hrow, List.append_nil, ih (id :: seen)]
        by_cases hg : id = g
        · subst hg
          have hheader : ((groups id).map ListRow.group).toList.filter
              (isGroup id) = ((groups id).map ListRow.group).toList := by
            cases hrows : groups id with
            | none => rfl
            | some row => simp [isGroup, hid id row hrows]
          by_cases hseen : id ∈ seen
          · simp [hseen]
          · simp [hseen, hgroup, hmatch, hheader]
        · have hheader : (if id ∈ seen then []
              else ((groups id).map ListRow.group).toList).filter (isGroup g) = [] := by
            split
            · rfl
            cases hrows : groups id with
            | none => rfl
            | some row =>
              have hne : (row.id == g) = false := by
                rw [hid id row hrows]
                simpa using hg
              simp [isGroup, hne]
          have hne : ¬ g = id := fun heq => hg heq.symm
          rw [hheader]
          simp [hgroup, hg, hne]

/-- The rows of a task are those of its own that are shown. -/
theorem listLoop_filter_task : ∀ (rows : List TaskRow) (seen : List TaskId),
      (listLoop query groups seen rows).filter (isTask id) =
        ((rows.filter fun t => t.id == id).filter query.shows).map ListRow.task := by
  intro rows
  induction rows with
  | nil =>
    intro seen
    rfl
  | cons t rows ih =>
    intro seen
    unfold listLoop
    cases hmatch : query.isMatch t with
    | false =>
      have hshows : query.shows t = false := by simp [ListQuery.shows, hmatch]
      rw [if_pos rfl, ih seen]
      by_cases hid : t.id = id
      · simp [hid, hshows]
      · simp [hid]
    | true =>
      rw [if_neg (by simp)]
      cases hgroup : t.group with
      | none =>
        have hshows : query.shows t = true := by simp [ListQuery.shows, hmatch, hgroup]
        by_cases hid : t.id = id
        · simp [isTask, ih seen, hid, hshows]
        · simp [isTask, ih seen, hid]
      | some g =>
        have hshows : query.shows t = (query.active || query.expanded g) := by
          simp [ListQuery.shows, hmatch, hgroup]
        have hheader : (if g ∈ seen then []
            else ((groups g).map ListRow.group).toList).filter (isTask id) = [] := by
          split
          · rfl
          · cases groups g with
            | none => rfl
            | some row => simp [isTask]
        simp only [List.filter_append, hheader, List.nil_append, ih (g :: seen)]
        cases hb : query.active || query.expanded g with
        | false =>
          rw [hb] at hshows
          by_cases hid : t.id = id
          · simp [hid, hshows]
          · simp [hid]
        | true =>
          rw [hb] at hshows
          by_cases hid : t.id = id
          · simp [isTask, hid, hshows]
          · simp [isTask, hid]

theorem filter_taskRows (q : TaskRow → Bool) :
    (taskRows env records).filter q =
      taskRows env (records.filter fun r => q (TaskRow.fromRecord env r)) := by
  have htotal : Std.Total listLe := by
    refine ⟨fun a b => ?_⟩
    have hids := TaskId.le_total a.taskId b.taskId
    rcases Int.lt_trichotomy a.createdAtUnixMs b.createdAtUnixMs with h | h | h
    · exact .inl (.inl h)
    · rcases hids with hid | hid
      · exact .inl (.inr ⟨h, hid⟩)
      · exact .inr (.inr ⟨h.symm, hid⟩)
    · exact .inr (.inl h)
  have htrans : IsTrans TaskRecord listLe := by
    refine ⟨fun a b d hab hbd => ?_⟩
    rcases hab with hab | ⟨hab, hle⟩ <;> rcases hbd with hbd | ⟨hbd, hle'⟩
    · exact .inl (Int.lt_trans hab hbd)
    · exact .inl (hbd ▸ hab)
    · exact .inl (hab ▸ hbd)
    · exact .inr ⟨hab.trans hbd, TaskId.le_trans hle hle'⟩
  unfold taskRows
  rw [List.filter_map, ← filter_insertionSort]
  rfl

/-- The two stores hold the same records of the task's identifier, and of its group. -/
structure SameAround (t : TaskRecord) (old new : List TaskRecord) : Prop where
  task : recordsFor new (.task t.taskId) = recordsFor old (.task t.taskId)
  group : ∀ g ∈ t.groupId, recordsFor new (.group g) = recordsFor old (.group g)

theorem SameAround.refl (t : TaskRecord) (tasks : List TaskRecord) : SameAround t tasks tasks :=
  ⟨rfl, fun _ _ => rfl⟩

variable {t : TaskRecord}

theorem SameAround.trans {l₁ l₂ l₃ : List TaskRecord} (h : SameAround t l₁ l₂)
    (h' : SameAround t l₂ l₃) : SameAround t l₁ l₃ :=
  ⟨h'.task.trans h.task, fun g hg => (h'.group g hg).trans (h.group g hg)⟩

variable {records : List TaskRecord} {selection : Selection} {r : TaskRecord}

theorem mem_recordsFor :
    r ∈ recordsFor records selection ↔ r ∈ records ∧ selection.selects r = true :=
  List.mem_filter

variable {old new : List TaskRecord}

theorem SameAround.mem (h : SameAround t old new) (ht : t ∈ old) : t ∈ new := by
  have hmem : t ∈ recordsFor old (.task t.taskId) := mem_recordsFor.mpr ⟨ht, beq_self_eq_true _⟩
  rw [← h.task] at hmem
  exact (mem_recordsFor.mp hmem).1

/-- The selection is the task itself or its group. -/
def Selection.Shows (t : TaskRecord) : Selection → Prop
  | .task id => id = t.taskId
  | .group id => t.groupId = some id

theorem SameAround.recordsFor (h : SameAround t old new) (hshows : selection.Shows t) :
    recordsFor new selection = recordsFor old selection := by
  cases selection with
  | task id =>
    obtain rfl : id = t.taskId := hshows
    exact h.task
  | group g => exact h.group g hshows

/-- With unique identifiers, what a selection of the task shows is in the task's group. -/
theorem Selection.Shows.groupId (hshows : selection.Shows t) (hids : UniqueIds records)
    (ht : t ∈ records) (hr : r ∈ P2pFile.Node.recordsFor records selection) :
    r.groupId = t.groupId := by
  obtain ⟨hmem, hselects⟩ := mem_recordsFor.mp hr
  cases selection with
  | task id =>
    obtain rfl : id = t.taskId := hshows
    have hid : r.taskId = t.taskId := by simpa [Selection.selects] using hselects
    rw [hids.eq hmem ht hid]
  | group g =>
    have hgroup : r.groupId = some g := by simpa [Selection.selects] using hselects
    rw [hgroup]
    exact hshows.symm

theorem minBy_mem {α : Type} {le : α → α → Bool} :
    ∀ {l : List α} {a : α}, minBy le l = some a → a ∈ l := by
  intro l
  induction l with
  | nil =>
    intro a h
    cases h
  | cons b l ih =>
    intro a h
    unfold minBy at h
    split at h
    · cases h
      exact .head _
    rename_i m hm
    split at h
    · cases h
      exact .head _
    · cases h
      exact .tail _ (ih hm)

/-- The root of a group is looked up among the members of the group. -/
theorem groupRoot_congr {record : TaskRecord}
    (h : ∀ g ∈ record.groupId, recordsFor new (.group g) = recordsFor old (.group g)) :
    groupRoot new record = groupRoot old record := by
  have hfilter : ∀ (records : List TaskRecord) (g : TaskId),
      (records.filter fun r => r.groupId == some g && r.direction == .send
        && r.peerId == record.peerId && r.directoryDetails.isSome) =
      (recordsFor records (.group g)).filter fun r => r.direction == .send
        && r.peerId == record.peerId && r.directoryDetails.isSome := by
    intro records g
    unfold recordsFor
    rw [List.filter_filter]
    refine List.filter_congr fun r _ => ?_
    simp only [Selection.selects]
    cases r.groupId == some g <;> simp
  unfold groupRoot
  cases hg : record.groupId with
  | none => rfl
  | some g =>
    simp only [Option.bind_some]
    rw [hfilter, hfilter, h g hg]

theorem reveal_congr {fs : RevealFs}
    (hselected : recordsFor new selection = recordsFor old selection)
    (hgroup : ∀ r ∈ recordsFor old selection, ∀ g ∈ r.groupId,
      recordsFor new (.group g) = recordsFor old (.group g)) :
    reveal fs new selection = reveal fs old selection := by
  have hsend : ∀ r ∈ recordsFor old selection, ∀ path,
      revealSend fs new selection r path = revealSend fs old selection r path := by
    intro r hr path
    unfold revealSend revealDirectory
    rw [groupRoot_congr (hgroup r hr)]
  unfold reveal
  dsimp only
  rw [hselected]
  cases hanchor : anchor (recordsFor old selection) with
  | none => cases (recordsFor old selection).head? <;> rfl
  | some record =>
    have hmem : record ∈ recordsFor old selection := minBy_mem hanchor
    cases (recordsFor old selection).head? with
    | none => rfl
    | some first => simp only [hsend record hmem]

variable {s : TaskStore} {requested : List TaskId}

theorem TaskStore.mem_blocked {g : TaskId} :
    g ∈ s.blocked requested ↔ ∃ u ∈ recordsFor s.tasks (.group g),
      u.state ≠ .completed ∨ u.taskId ∉ requested := by
  unfold blocked
  simp only [List.mem_filterMap, List.mem_filter, mem_recordsFor, Selection.selects,
    decide_eq_true_eq, beq_iff_eq]
  constructor
  · rintro ⟨u, ⟨hmem, hblocks⟩, hgroup⟩
    exact ⟨u, ⟨hmem, hgroup⟩, hblocks⟩
  · rintro ⟨u, ⟨hmem, hgroup⟩, hblocks⟩
    exact ⟨u, ⟨hmem, hblocks⟩, hgroup⟩

theorem TaskStore.mem_removable : id ∈ s.removable requested ↔ ∃ u ∈ recordsFor s.tasks (.task id),
      u.state = .completed ∧ id ∈ requested ∧ ∀ g ∈ u.groupId, g ∉ s.blocked requested := by
  unfold removable
  simp only [List.mem_map, List.mem_filter, mem_recordsFor, Selection.selects,
    decide_eq_true_eq, beq_iff_eq]
  constructor
  · rintro ⟨u, ⟨hmem, hstate, hrequested, hfree⟩, rfl⟩
    exact ⟨u, ⟨hmem, rfl⟩, hstate, hrequested, hfree⟩
  · rintro ⟨u, ⟨hmem, rfl⟩, hstate, hrequested, hfree⟩
    exact ⟨u, ⟨hmem, hstate, hrequested, hfree⟩, rfl⟩

/-- Everything that is shown of the task and of its group, and whether it can be removed
    with others, is the same in the two stores. -/
structure SameViews (t : TaskRecord) (s s' : TaskStore) : Prop where
  detail : ∀ env selection, selection.Shows t →
    project s'.tasks selection env = project s.tasks selection env
  reveal : ∀ fs selection, selection.Shows t →
    reveal fs s'.tasks selection = reveal fs s.tasks selection
  taskRow : ∀ env query,
    (filteredList query (taskRows env s'.tasks)).filter (isTask t.taskId) =
      (filteredList query (taskRows env s.tasks)).filter (isTask t.taskId)
  groupRow : ∀ g ∈ t.groupId, ∀ env query,
    (filteredList query (taskRows env s'.tasks)).filter (isGroup g) =
      (filteredList query (taskRows env s.tasks)).filter (isGroup g)
  removable : ∀ requested, t.taskId ∈ s'.removable requested ↔ t.taskId ∈ s.removable requested

/-- The views of a task read nothing but the records around it. -/
theorem SameAround.sameViews {s' : TaskStore} (h : SameAround t s.tasks s'.tasks)
    (hids : UniqueIds s.tasks) (ht : t ∈ s.tasks) : SameViews t s s' where
  detail env selection hshows := by
    unfold project
    rw [h.recordsFor hshows]
  reveal fs selection hshows := by
    refine reveal_congr (h.recordsFor hshows) ?_
    intro r hr g hg
    rw [hshows.groupId hids ht hr] at hg
    exact h.group g hg
  taskRow env query := by
    have hrows : (taskRows env s'.tasks).filter (fun row => row.id == t.taskId) =
        (taskRows env s.tasks).filter (fun row => row.id == t.taskId) := by
      rw [filter_taskRows, filter_taskRows]
      exact congrArg (taskRows env) h.task
    unfold filteredList
    rw [listLoop_filter_task, listLoop_filter_task, hrows]
  groupRow g hg env query := by
    have hrows : (taskRows env s'.tasks).filter (fun row => row.group == some g) =
        (taskRows env s.tasks).filter (fun row => row.group == some g) := by
      rw [filter_taskRows, filter_taskRows]
      exact congrArg (taskRows env) (h.group g hg)
    have hgroup : P2pFile.Node.groupRow query (taskRows env s'.tasks) g =
        P2pFile.Node.groupRow query (taskRows env s.tasks) g := by
      unfold P2pFile.Node.groupRow
      rw [hrows]
    unfold filteredList
    rw [listLoop_filter_group (fun _ _ => groupRow_id), listLoop_filter_group
      (fun _ _ => groupRow_id), hrows, hgroup]
  removable requested := by
    have hblocked : ∀ g ∈ t.groupId, (g ∈ s'.blocked requested ↔ g ∈ s.blocked requested) := by
      intro g hg
      rw [TaskStore.mem_blocked, TaskStore.mem_blocked, h.group g hg]
    rw [TaskStore.mem_removable, TaskStore.mem_removable, h.task]
    refine exists_congr fun u => and_congr_right fun hu => ?_
    have hshows : (Selection.task t.taskId).Shows t := rfl
    have hgroup := hshows.groupId hids ht hu
    refine and_congr_right fun _ => and_congr_right fun _ => ?_
    refine forall_congr' fun g => forall_congr' fun hg => not_congr ?_
    rw [hgroup] at hg
    exact hblocked g hg

end P2pFile.Node
