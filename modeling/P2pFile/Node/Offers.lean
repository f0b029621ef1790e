/-
  P2pFile.Node.Offers

  Accepting the Offer of a peer (`transfer_files.rs`, and the store calls of
  `receive_offer` and `receive_directory` in `transfer.rs`), and what it changes for the
  tasks of others.

  An Offer names its task and, if it likes, a group.  The task is bound to the peer that
  offers it; the group is not.  The details, the revealed place, the row in the list and
  the removal of completed tasks go by the group alone, so an Offer is kept away from
  the tasks of others only as long as its group is not one of theirs.
-/

import P2pFile.Transfer.Chunker
import P2pFile.Node.Protocol
import P2pFile.Node.TaskViews

namespace P2pFile.Node

open Lib Protocol Storage
open TaskRecord (guard_ok newDirectory newFile unit_bind_ok)

variable (c : Crypto)

/-! ## Calls on the open store -/

abbrev StoreProg := Prog OpenStore Error

/-- An operation of the store, with its error as `local_error` gives it. -/
def performOp (op : StoreOp) : StoreProg Unit := fun w plan =>
  match w.memory.perform c op w.dir plan with
  | (.ok (memory, .ok _), dir, rest) => (.ok (), ⟨memory, dir⟩, rest)
  | (.ok (memory, .error err), dir, rest) => (.error (fail err.display), ⟨memory, dir⟩, rest)
  | (.error err, dir, rest) => (.error err, { w with dir }, rest)
  | (.crashed, dir, rest) => (.crashed, { w with dir }, rest)

/-- `store.task(id)`. -/
def readTask (id : TaskId) : StoreProg TaskRecord := do
  let w ← .get
  match w.memory.task id with
  | .ok t => pure t
  | .error err => .throw (fail err.display)

def modelResult {α : Type} : Except TaskModelError α → StoreProg α
  | .ok a => pure a
  | .error err => .throw (fail err.display)

/-- `transfer_files::transition`. -/
def moveTask (id : TaskId) (state : TaskState) (clock : Clock) : StoreProg Unit := do
  let now ← modelResult clock
  performOp c (.transition id state none now)

def beginAttempt (id : TaskId) (clocks : Nat → Clock) : StoreProg TaskRecord := do
  let record ← readTask id
  if record.state = .completed then return record
  if record.state = .paused ∨ record.state = .interrupted ∨ record.state = .failed then
    moveTask c id .queued (clocks 0)
  moveTask c id .connecting (clocks 1)
  moveTask c id .negotiating (clocks 2)
  readTask id

/-- `bound_task`. -/
def boundTask (peer : PeerId) (id : TaskId) : StoreProg TaskRecord := do
  let record ← readTask id
  if record.peerId ≠ peer ∨ (record.fileDetails.isNone && record.directoryDetails.isNone) then
    .throw (fail "任务未授权给该对端")
  return record

/-! ## Accepting -/

/-- `MAX_DESKTOP_CHUNK`. -/
def maxDesktopChunk : UInt32 := 1024 * 1024

def validateSingleFile (manifest : FileManifest) (relative : String) : Except Error Unit := do
  validateRelativePath relative
  manifest.validate c
  if lastComponent relative ≠ manifest.fileName ∨ manifest.chunkSize > maxDesktopChunk
      ∨ manifest.chunks.length > maxChunks then
    throw (fail "单文件任务清单或名称不受支持")

/-- The directory of the group's earlier members from this peer, else the one that is
    set now. -/
def receiveSelectionRoot (tasks : List TaskRecord) (peer : PeerId) (group : Option TaskId)
    (root : PathBuf) : PathBuf :=
  match group.bind fun g => tasks.find? fun t =>
      t.direction == .receive && t.peerId == peer && t.groupId == some g with
  | some existing => existing.localPath.path
  | none => root

/-- The new record is stored, queued and begun. -/
def startRecord (record : TaskRecord) (clocks : Nat → Clock) : StoreProg TaskRecord := do
  performOp c (.create record)
  moveTask c record.taskId .queued (clocks 0)
  beginAttempt c record.taskId fun n => clocks (n + 1)

def acceptEntry (peer : PeerId) (id : TaskId) (root : PathBuf) (relative : String)
    (manifest : FileManifest) (group : Option TaskId)
    (clocks : Nat → Clock) : StoreProg TaskRecord := do
  .ofExcept (validateSingleFile c manifest relative)
  let w ← .get
  if w.memory.tasks.any fun t => t.taskId == id then
    let existing ← boundTask peer id
    match existing.fileDetails with
    | none => .throw (fail "已有目录任务不能变成文件")
    | some details =>
      if existing.direction ≠ .receive ∨ details.relativePath ≠ relative
          ∨ details.manifest ≠ manifest ∨ existing.groupId ≠ group then
        .throw (fail "已有任务与 Offer 身份不符")
      beginAttempt c id clocks
  else
    let now ← modelResult (clocks 0)
    let record ← modelResult (newFile c id peer .receive
      (receiveSelectionRoot w.memory.tasks peer group root) relative manifest now)
    let record ← modelResult (record.setSelectionBinding c group none)
    startRecord c record fun n => clocks (n + 1)

def acceptDirectory (peer : PeerId) (id : TaskId) (root : PathBuf) (relative : String)
    (group : Option TaskId) (clocks : Nat → Clock) : StoreProg TaskRecord := do
  .ofExcept (validateRelativePath relative)
  let w ← .get
  if w.memory.tasks.any fun t => t.taskId == id then
    let existing ← boundTask peer id
    if existing.direction ≠ .receive
        ∨ (existing.directoryDetails.map fun d => d.relativePath) ≠ some relative
        ∨ existing.groupId ≠ group then
      .throw (fail "已有目录任务与 Offer 不符")
    beginAttempt c id clocks
  else
    let now ← modelResult (clocks 0)
    let record ← modelResult (newDirectory c id peer .receive
      (receiveSelectionRoot w.memory.tasks peer group root) relative group now)
    startRecord c record fun n => clocks (n + 1)

/-- An Offer, with the kind of stream it came on. -/
structure Offer where
  taskId : TaskId
  groupId : Option TaskId
  relativePath : String
  entry : Entry
  incremental : Bool

/-- The store calls of `receive_offer` and `receive_directory` up to the accepted record. -/
def acceptOffer (peer : PeerId) (root : PathBuf) (offer : Offer)
    (clocks : Nat → Clock) : StoreProg TaskRecord :=
  match offer.entry with
  | .directory =>
    acceptDirectory c peer offer.taskId root offer.relativePath offer.groupId clocks
  | .file manifest => do
    let record ← acceptEntry c peer offer.taskId root offer.relativePath manifest offer.groupId
      clocks
    if offer.incremental && record.state != .completed
        && !(record.fileDetails.any fun details => details.incremental) then
      performOp c (.enableIncremental offer.taskId)
      readTask offer.taskId
    else return record

/-! ## What accepting leaves alone -/

variable {c}

/-- The record is the offered task, bound to the peer that offers it. -/
structure TaskRecord.IsOf (id : TaskId) (peer : PeerId) (group : Option TaskId)
    (t : TaskRecord) : Prop where
  taskId : t.taskId = id
  peerId : t.peerId = peer
  direction : t.direction = .receive
  groupId : t.groupId = group

variable {t : TaskRecord}

theorem TaskRecord.IsOf.later {id : TaskId} {peer : PeerId} {group : Option TaskId}
    {t' : TaskRecord} (h : t.IsOf id peer group) (hbind : t.SameBinding t') :
    t'.IsOf id peer group :=
  ⟨hbind.taskId.trans h.taskId, hbind.peerId.trans h.peerId,
    hbind.direction.trans h.direction, hbind.groupId.trans h.groupId⟩

section Frame

variable {id : TaskId} {peer : PeerId} {group : Option TaskId}

/-- The tasks have changed in nothing but the offered one: what a question finds that is
    not about that task is the same list as before. -/
structure Spares (id : TaskId) (peer : PeerId) (group : Option TaskId)
    (old new : List TaskRecord) : Prop where
  own : ∀ t ∈ old, t.taskId = id → t.IsOf id peer group
  ours : ∀ t ∈ new, t.taskId = id → t.IsOf id peer group
  sorted : SortedIds new
  unique : UniqueIds new
  same : ∀ q : TaskRecord → Bool, (∀ t, t.IsOf id peer group → q t = false) →
    new.filter q = old.filter q

variable {tasks : List TaskRecord}

theorem Spares.start (hsorted : SortedIds tasks) (huniq : UniqueIds tasks)
    (hown : ∀ t ∈ tasks, t.taskId = id → t.IsOf id peer group) : Spares id peer group tasks tasks :=
  ⟨hown, hown, hsorted, huniq, fun _ _ => rfl⟩

variable {candidate : List TaskRecord} {q : TaskRecord → Bool}

/-- Sorting does not disturb what a filter finds in a sorted list. -/
theorem filter_sortTasks (hsorted : SortedIds tasks) (h : candidate.filter q = tasks.filter q) :
    (sortTasks candidate).filter q = tasks.filter q := by
  have htotal : Std.Total fun a b : TaskRecord => a.taskId.le b.taskId = true :=
    ⟨fun a b => TaskId.le_total a.taskId b.taskId⟩
  have htrans : IsTrans TaskRecord fun a b => a.taskId.le b.taskId = true :=
    ⟨fun _ _ _ hab hbd => TaskId.le_trans hab hbd⟩
  unfold sortTasks
  rw [filter_insertionSort, h]
  exact ((List.pairwise_map.mp hsorted).filter q).insertionSort_eq

/-- A candidate that differs in the offered task only is committed. -/
theorem Spares.commit {old new : List TaskRecord} (h : Spares id peer group old new)
    (hours : ∀ t ∈ candidate, t.taskId = id → t.IsOf id peer group)
    (huniq : UniqueIds (sortTasks candidate))
    (hsame : ∀ q : TaskRecord → Bool, (∀ t, t.IsOf id peer group → q t = false) →
      candidate.filter q = new.filter q) : Spares id peer group old (sortTasks candidate) where
  own := h.own
  ours t ht := hours t ((sortTasks_perm candidate).mem_iff.mp ht)
  sorted := sortTasks_sorted candidate
  unique := huniq
  same q hq := (filter_sortTasks h.sorted (hsame q hq)).trans (h.same q hq)

theorem filter_replaceTask {t' : TaskRecord} (hold : ∀ t ∈ tasks, t.taskId = id → q t = false)
    (hnew : q t' = false) : (replaceTask tasks id t').filter q = tasks.filter q := by
  unfold replaceTask
  induction tasks with
  | nil => rfl
  | cons u tasks ih =>
    have hrest := ih fun t ht => hold t (.tail _ ht)
    rw [List.map_cons]
    by_cases hid : u.taskId = id
    · have hu := hold u (.head _) hid
      rw [if_pos hid, List.filter_cons_of_neg (by simp [hnew]),
        List.filter_cons_of_neg (by simp [hu]), hrest]
    · rw [if_neg hid, List.filter_cons, List.filter_cons, hrest]

/-- The operations that accepting performs. -/
inductive Touches (id : TaskId) (peer : PeerId) (group : Option TaskId) : StoreOp → Prop
  | transition {next : TaskState} {diagnostic : Option TaskDiagnostic} {now : Int} :
      Touches id peer group (.transition id next diagnostic now)
  | enableIncremental : Touches id peer group (.enableIncremental id)
  | create {r : TaskRecord} (hr : r.IsOf id peer group) : Touches id peer group (.create r)

/-- What such an operation commits: the offered task is changed or added. -/
inductive TouchDecision (tasks : List TaskRecord) (id : TaskId) (peer : PeerId)
    (group : Option TaskId) : Decision → Prop
  | change {t t' : TaskRecord} {events : List TaskEvent} {result : List TaskId}
      (ht : t ∈ tasks) (hid : t.taskId = id) (hbinding : t.SameBinding t') :
      TouchDecision tasks id peer group (.commit (replaceTask tasks id t') events result)
  | add {r : TaskRecord} {events : List TaskEvent} {result : List TaskId}
      (hr : r.IsOf id peer group) :
      TouchDecision tasks id peer group (.commit (sortTasks (tasks ++ [r])) events result)

variable {op : StoreOp} {s : TaskStore}

theorem Touches.decision (h : Touches id peer group op) {dec : Decision}
    (hdec : op.decision c s = .ok dec) : TouchDecision s.tasks id peer group dec := by
  cases h with
  | transition =>
    obtain ⟨-, t, t', _, ht, rfl, hft, rfl⟩ := mutates_ok hdec
    obtain ⟨updated, hupdated, hunchanged⟩ := bind_eq_ok.mp hft
    obtain ⟨-, hsame⟩ := unit_bind_ok.mp hunchanged
    cases hsame
    exact .change ht rfl (TaskRecord.Changed.of_transitionTo hupdated).later.binding
  | enableIncremental =>
    obtain ⟨-, t, t', _, ht, rfl, hft, rfl⟩ := mutates_ok hdec
    exact .change ht rfl (TaskRecord.Changed.of_enableIncremental hft).later.binding
  | create hr =>
    obtain ⟨-, hrest⟩ := healthy_bind_ok.mp hdec
    simp only [unit_bind_ok, guard_ok] at hrest
    obtain ⟨-, -, -, hcommit⟩ := hrest
    cases hcommit
    exact .add hr

variable {old : List TaskRecord}

theorem TouchDecision.spares (hs : Spares id peer group old s.tasks) {events : List TaskEvent}
    {result : List TaskId}
    (h : TouchDecision s.tasks id peer group (.commit candidate events result))
    {snapshot : StoreSnapshot} (hsnap : s.candidateSnapshot c candidate = .ok snapshot) :
    Spares id peer group old snapshot.tasks := by
  obtain ⟨-, htasks, -, -, huniq⟩ := candidateSnapshot_ok hsnap
  rw [htasks] at huniq ⊢
  cases h with
  | @change t t' _ _ ht hid hbind =>
    have ht' : t'.IsOf id peer group := (hs.ours t ht hid).later hbind
    refine hs.commit ?_ huniq ?_
    · intro u hu huid
      obtain ⟨v, hv, rfl⟩ := List.mem_map.mp hu
      by_cases hvid : v.taskId = id
      · rw [if_pos hvid]
        exact ht'
      · rw [if_neg hvid] at huid
        exact absurd huid hvid
    · intro q hq
      exact filter_replaceTask (fun u hu huid => hq u (hs.ours u hu huid)) (hq t' ht')
  | @add r _ _ hr =>
    refine hs.commit ?_ huniq ?_
    · intro u hu huid
      rcases List.mem_append.mp ((sortTasks_perm _).mem_iff.mp hu) with hu | hu
      · exact hs.ours u hu huid
      · rw [List.mem_singleton.mp hu]
        exact hr
    · intro q hq
      refine filter_sortTasks hs.sorted ?_
      rw [List.filter_append, List.filter_cons_of_neg (by simp [hq r hr])]
      simp

theorem Performed.spares {s' : TaskStore} {d d' : StoreDir}
    {result : Except TaskStoreError (List TaskId)} (hs : Spares id peer group old s.tasks)
    (hop : Touches id peer group op) (h : Performed c s d op (.ok (s', result)) d') :
    Spares id peer group old s'.tasks := by
  cases h with
  | displayed hdec => nomatch hop.decision hdec
  | done hdec hsnap => exact (hop.decision hdec).spares hs hsnap
  | _ => exact hs

/-! ## The programs -/

/-- The program keeps `R`, whether it returns or fails. -/
def Keeps {α : Type} (R : OpenStore → Prop) (p : StoreProg α) : Prop :=
  Prog.Triple R p (fun _ => R) R fun _ => True

variable {α : Type} {R : OpenStore → Prop}

theorem Keeps.pure (a : α) : Keeps R (Pure.pure a) := Prog.Triple.pure fun _ hw => hw

variable {β : Type} {f : α → StoreProg β}

theorem Keeps.bind {p : StoreProg α} (hp : Keeps R p) (hf : ∀ a, Keeps R (f a)) :
    Keeps R (p >>= f) :=
  Prog.Triple.bind hp hf

variable {x : Except TaskModelError α}

theorem keeps_modelResult : Keeps R (modelResult x) := by
  cases x with
  | ok a => exact .pure a
  | error err => exact .throw fun _ hw => hw

theorem readTask_spec (id : TaskId) :
    Prog.Triple R (readTask id) (fun t w => R w ∧ t ∈ w.memory.tasks ∧ t.taskId = id) R
      fun _ => True := by
  intro w plan hw
  show Prog.Ends _ _ _ ((match w.memory.task id with
    | .ok t => pure t
    | .error err => .throw (fail err.display) : StoreProg TaskRecord) w plan)
  cases htask : w.memory.task id with
  | ok t => exact ⟨hw, TaskStore.task_ok htask⟩
  | error err => exact hw

theorem keeps_readTask : Keeps R (readTask id) := (readTask_spec id).post fun _ _ hw => hw.1

variable {old : List TaskRecord} {clocks : Nat → Clock}

/-- The tasks of the open store spare the others. -/
def SparesIn (id : TaskId) (peer : PeerId) (group : Option TaskId) (old : List TaskRecord)
    (w : OpenStore) : Prop :=
  Spares id peer group old w.memory.tasks

theorem keeps_performOp (hop : Touches id peer group op) :
    Keeps (SparesIn id peer group old) (performOp c op) := by
  intro w plan hw
  unfold performOp
  cases hperform : w.memory.perform c op w.dir plan with
  | mk out r =>
    have hcases := TaskStore.perform_cases hperform
    cases out with
    | ok a =>
      obtain ⟨memory, result⟩ := a
      have hspares := hcases.spares hw hop
      cases result with
      | ok _ => exact hspares
      | error _ => exact hspares
    | error err => exact hw
    | crashed => exact trivial

theorem keeps_moveTask (state : TaskState) (clock : Clock) :
    Keeps (SparesIn id peer group old) (moveTask c id state clock) := by
  exact keeps_modelResult.bind fun _ => keeps_performOp .transition

/-- What every transition of the task keeps, the start of an attempt keeps. -/
theorem Keeps.beginAttempt (hmove : ∀ state clock, Keeps R (moveTask c id state clock)) :
    Keeps R (beginAttempt c id clocks) := by
  have hmoves : Keeps R (do
      moveTask c id .connecting (clocks 1)
      moveTask c id .negotiating (clocks 2)
      readTask id) :=
    (hmove _ _).bind fun _ => (hmove _ _).bind fun _ => keeps_readTask
  refine keeps_readTask.bind fun record => ?_
  split
  · exact .pure record
  · split
    · exact (hmove _ _).bind fun _ => hmoves
    · exact hmoves

theorem keeps_beginAttempt : Keeps (SparesIn id peer group old) (beginAttempt c id clocks) :=
  Keeps.beginAttempt keeps_moveTask

theorem keeps_startRecord {record : TaskRecord} (hrec : record.IsOf id peer group) :
    Keeps (SparesIn id peer group old) (startRecord c record clocks) := by
  unfold startRecord
  rw [hrec.taskId]
  exact (keeps_performOp (.create hrec)).bind fun _ =>
    (keeps_moveTask _ _).bind fun _ => keeps_beginAttempt

/-- Either nothing has changed, or only the offered task has. -/
def Left (id : TaskId) (peer : PeerId) (group : Option TaskId) (old : List TaskRecord)
    (w : OpenStore) : Prop :=
  w.memory.tasks = old ∨ Spares id peer group old w.memory.tasks

/-- The store holds the tasks `old`. -/
def HoldsTasks (old : List TaskRecord) (w : OpenStore) : Prop := w.memory.tasks = old

/-- Accepting, from the tasks `old`, changes the offered task only. -/
def LeavesOthers {α : Type} (id : TaskId) (peer : PeerId) (group : Option TaskId)
    (old : List TaskRecord) (p : StoreProg α) : Prop :=
  Prog.Triple (HoldsTasks old) p (fun _ => SparesIn id peer group old)
    (Left id peer group old) fun _ => True

/-- Once the offered task is known to be the peer's own, it may be changed. -/
theorem Keeps.leavesOthers {p : StoreProg α} (hp : Keeps (SparesIn id peer group old) p)
    (hsorted : SortedIds old) (huniq : UniqueIds old)
    (hown : ∀ t ∈ old, t.taskId = id → t.IsOf id peer group) :
    LeavesOthers id peer group old p := by
  refine .conseq hp ?_ (fun _ _ hw => hw) (fun _ hw => .inr hw) fun _ h => h
  intro w hw
  show Spares id peer group old w.memory.tasks
  rw [show w.memory.tasks = old from hw]
  exact .start hsorted huniq hown

theorem leavesOthers_throw {err : Error} :
    LeavesOthers id peer group old (Prog.throw err : StoreProg α) :=
  .throw fun _ hw => .inl hw

theorem boundTask_spec : Prog.Triple (HoldsTasks old) (boundTask peer id)
      (fun t w => HoldsTasks old w ∧ t ∈ old ∧ t.taskId = id ∧ t.peerId = peer)
      (HoldsTasks old) fun _ => True := by
  refine (readTask_spec id).bind fun t => ?_
  split
  · exact .throw fun _ hw => hw.1
  rename_i hbound
  push Not at hbound
  refine .pure fun w hw => ?_
  obtain ⟨hold, hmem, hid⟩ := hw
  exact ⟨hold, hold ▸ hmem, hid, hbound.1⟩

/-- A task with the offered identifier that passes the checks is the peer's own. -/
theorem own_of_bound {existing : TaskRecord} (huniq : UniqueIds old) (hmem : existing ∈ old)
    (hid : existing.taskId = id) (hpeer : existing.peerId = peer)
    (hdir : existing.direction = .receive) (hgroup : existing.groupId = group) :
    ∀ t ∈ old, t.taskId = id → t.IsOf id peer group := by
  intro t ht htid
  obtain rfl := huniq.eq hmem ht (hid.trans htid.symm)
  exact ⟨hid, hpeer, hdir, hgroup⟩

/-- Without a task of the offered identifier there is nothing to check. -/
theorem own_of_absent (h : ¬ (old.any fun t => t.taskId == id) = true) :
    ∀ t ∈ old, t.taskId = id → t.IsOf id peer group := by
  intro t ht htid
  exact absurd (List.any_eq_true.mpr ⟨t, ht, by simp [htid]⟩) h

variable {now : Int} {direction : TaskDirection} {r : TaskRecord}

theorem new_ok {localPath : LocalTaskPath} {identity : ManifestIdentity}
    (h : TaskRecord.new c id peer direction localPath identity now = .ok r) :
    r.taskId = id ∧ r.peerId = peer ∧ r.direction = direction := by
  obtain ⟨-, hr⟩ := unit_bind_ok.mp h
  cases hr
  exact ⟨rfl, rfl, rfl⟩

variable {path : PathBuf} {relative : String}

theorem newFile_ok {manifest : FileManifest}
    (h : newFile c id peer direction path relative manifest now = .ok r) :
    r.taskId = id ∧ r.peerId = peer ∧ r.direction = direction := by
  obtain ⟨_, -, h⟩ := bind_eq_ok.mp h
  obtain ⟨_, -, h⟩ := bind_eq_ok.mp h
  obtain ⟨base, hbase, h⟩ := bind_eq_ok.mp h
  obtain ⟨-, hr⟩ := unit_bind_ok.mp h
  cases hr
  obtain ⟨hid, hpeer, hdir⟩ := new_ok hbase
  exact ⟨hid, hpeer, hdir⟩

theorem newDirectory_ok
    (h : newDirectory c id peer .receive path relative group now = .ok r) :
    r.IsOf id peer group := by
  obtain ⟨_, -, h⟩ := bind_eq_ok.mp h
  obtain ⟨_, -, h⟩ := bind_eq_ok.mp h
  obtain ⟨base, hbase, h⟩ := bind_eq_ok.mp h
  obtain ⟨-, hr⟩ := unit_bind_ok.mp h
  cases hr
  obtain ⟨hid, hpeer, hdir⟩ := new_ok hbase
  exact ⟨hid, hpeer, hdir, rfl⟩

theorem setSelectionBinding_ok {r' : TaskRecord} {root : Option PathBuf}
    (hr : r.taskId = id ∧ r.peerId = peer ∧ r.direction = .receive)
    (h : r.setSelectionBinding c group root = .ok r') : r'.IsOf id peer group := by
  obtain ⟨-, h⟩ := guard_ok.mp h
  obtain ⟨-, hr'⟩ := unit_bind_ok.mp h
  cases hr'
  exact ⟨hr.1, hr.2.1, hr.2.2, rfl⟩

/-- A result of the model is used: what follows may assume it. -/
theorem leavesOthers_modelResult (hf : ∀ a, x = .ok a → LeavesOthers id peer group old (f a)) :
    LeavesOthers id peer group old (modelResult x >>= f) := by
  cases x with
  | ok a => exact hf a rfl
  | error err => exact leavesOthers_throw

theorem leavesOthers_ofExcept {x : Except Error α}
    (hf : ∀ a, LeavesOthers id peer group old (f a)) :
    LeavesOthers id peer group old (Prog.ofExcept x >>= f) := by
  cases x with
  | ok a => exact hf a
  | error err => exact leavesOthers_throw

theorem leavesOthers_get {f : OpenStore → StoreProg β}
    (hf : ∀ w, w.memory.tasks = old → LeavesOthers id peer group old (f w)) :
    LeavesOthers id peer group old (Prog.get >>= f) :=
  fun w plan hw => hf w hw w plan hw

theorem leavesOthers_boundTask {f : TaskRecord → StoreProg β}
    (hf : ∀ t, t ∈ old → t.taskId = id → t.peerId = peer → LeavesOthers id peer group old (f t)) :
    LeavesOthers id peer group old (boundTask peer id >>= f) := by
  have hbound : Prog.Triple (HoldsTasks old) (boundTask peer id)
      (fun t w => HoldsTasks old w ∧ t ∈ old ∧ t.taskId = id ∧ t.peerId = peer)
      (Left id peer group old) fun _ => True :=
    boundTask_spec.exits (fun _ h => .inl h) fun _ h => h
  refine hbound.bind fun t => ?_
  intro w plan hw
  obtain ⟨hold, hmem, hid, hpeer⟩ := hw
  exact hf t hmem hid hpeer w plan hold

section Accepting

variable {root : PathBuf} (hsorted : SortedIds old) (huniq : UniqueIds old)

include hsorted huniq

theorem acceptEntry_leavesOthers {manifest : FileManifest} : LeavesOthers id peer group old
      (acceptEntry c peer id root relative manifest group clocks) := by
  refine leavesOthers_ofExcept fun _ => leavesOthers_get fun w hw => ?_
  split
  · refine leavesOthers_boundTask fun existing hmem hid hpeer => ?_
    split
    · exact leavesOthers_throw
    split
    · exact leavesOthers_throw
    rename_i hchk
    push Not at hchk
    obtain ⟨hdir, -, -, hgroup⟩ := hchk
    exact keeps_beginAttempt.leavesOthers hsorted huniq
      (own_of_bound huniq hmem hid hpeer hdir hgroup)
  next habsent =>
    rw [hw] at habsent
    refine leavesOthers_modelResult fun now _ => leavesOthers_modelResult fun base hbase =>
      leavesOthers_modelResult fun record hrec => ?_
    exact (keeps_startRecord (setSelectionBinding_ok (newFile_ok hbase) hrec)).leavesOthers
      hsorted huniq (own_of_absent habsent)

theorem acceptDirectory_leavesOthers :
    LeavesOthers id peer group old (acceptDirectory c peer id root relative group clocks) := by
  refine leavesOthers_ofExcept fun _ => leavesOthers_get fun w hw => ?_
  split
  · refine leavesOthers_boundTask fun existing hmem hid hpeer => ?_
    split
    · exact leavesOthers_throw
    rename_i hchk
    push Not at hchk
    obtain ⟨hdir, -, hgroup⟩ := hchk
    exact keeps_beginAttempt.leavesOthers hsorted huniq
      (own_of_bound huniq hmem hid hpeer hdir hgroup)
  next habsent =>
    rw [hw] at habsent
    refine leavesOthers_modelResult fun now _ => leavesOthers_modelResult fun record hrec => ?_
    exact (keeps_startRecord (newDirectory_ok hrec)).leavesOthers hsorted huniq
      (own_of_absent habsent)

theorem acceptOffer_leavesOthers {offer : Offer} :
    LeavesOthers offer.taskId peer offer.groupId old (acceptOffer c peer root offer clocks) := by
  unfold acceptOffer
  split
  · exact acceptDirectory_leavesOthers hsorted huniq
  refine (acceptEntry_leavesOthers hsorted huniq).bind fun record => ?_
  have hrest : Keeps (SparesIn offer.taskId peer offer.groupId old)
      (if offer.incremental && record.state != .completed
          && !(record.fileDetails.any fun details => details.incremental) then do
        performOp c (.enableIncremental offer.taskId)
        readTask offer.taskId
      else pure record) := by
    split
    · exact (keeps_performOp .enableIncremental).bind fun _ => keeps_readTask
    · exact .pure record
  exact .conseq hrest (fun _ h => h) (fun _ _ h => h) (fun _ h => .inr h) fun _ h => h

end Accepting

end Frame

/-! ## Runs of Offers -/

/-- An Offer of the peer, with the receive directory that is set, the clock and how the
    calls on the disk go. -/
structure OfferEvent where
  offer : Offer
  root : PathBuf
  clocks : Nat → Clock
  plan : List (Fault Error)

/-- The Offer is handled; the process does not die in it. -/
def offerStep (c : Crypto) (peer : PeerId) (w : OpenStore) (e : OfferEvent) : Option OpenStore :=
  match acceptOffer c peer e.root e.offer e.clocks w e.plan with
  | (.crashed, _, _) => none
  | (_, w', _) => some w'

/-- Offers of one peer, from any store that calls, failures, crashes and restarts can
    lead to. -/
def offerMachine (c : Crypto) (peer : PeerId) : Machine OpenStore OfferEvent :=
  .ofStep (fun w => ∃ es, (storeMachine c).Run es ⟨w.dir, some w.memory⟩) (offerStep c peer)

/-- A task that the peer's Offers are not about: it is bound to another peer, or this
    side sends it. -/
def TaskRecord.Others (peer : PeerId) (t : TaskRecord) : Prop :=
  t.peerId ≠ peer ∨ t.direction = .send

instance (peer : PeerId) (t : TaskRecord) : Decidable (t.Others peer) :=
  inferInstanceAs (Decidable (_ ∨ _))

/-- The Offer names no group that such a task is in. -/
def Apart (peer : PeerId) (w : OpenStore) (e : OfferEvent) (_ : OpenStore) : Prop :=
  ∀ t ∈ w.memory.tasks, t.Others peer → ∀ g ∈ e.offer.groupId, t.groupId ≠ some g

theorem TaskRecord.IsOf.not_others {id : TaskId} {peer : PeerId} {group : Option TaskId}
    (h : t.IsOf id peer group) : ¬ t.Others peer := by
  rintro (hpeer | hsend)
  · exact hpeer h.peerId
  · exact absurd (h.direction.symm.trans hsend) (by decide)

/-- What one Offer leaves as it is around a task of others. -/
theorem Spares.sameAround {id : TaskId} {peer : PeerId} {group : Option TaskId}
    {old new : List TaskRecord} (h : Spares id peer group old new) (ht : t ∈ old)
    (hothers : t.Others peer) (hapart : ∀ g ∈ group, t.groupId ≠ some g) :
    SameAround t old new where
  task := by
    refine h.same _ fun u hu => ?_
    have hne : u.taskId ≠ t.taskId := by
      intro heq
      exact (h.own t ht (heq.symm.trans hu.taskId)).not_others hothers
    simpa [Selection.selects] using hne
  group g hg := by
    refine h.same _ fun u hu => ?_
    have hne : u.groupId ≠ some g := by
      intro heq
      exact hapart g (hu.groupId.symm.trans heq) hg
    simpa [Selection.selects] using hne

variable {w w' : OpenStore} {e : OfferEvent}

theorem offerStep_cases {c : Crypto} {peer : PeerId} (hsorted : SortedIds w.memory.tasks)
    (huniq : UniqueIds w.memory.tasks) (h : offerStep c peer w e = some w') :
    Left e.offer.taskId peer e.offer.groupId w.memory.tasks w' := by
  have hspec : LeavesOthers e.offer.taskId peer e.offer.groupId w.memory.tasks
      (acceptOffer c peer e.root e.offer e.clocks) :=
    acceptOffer_leavesOthers hsorted huniq
  have hends := hspec w e.plan rfl
  unfold offerStep at h
  cases hrun : acceptOffer c peer e.root e.offer e.clocks w e.plan with
  | mk out r =>
    rw [hrun] at h hends
    cases out with
    | ok record =>
      cases h
      exact .inr hends
    | error err =>
      cases h
      exact hends
    | crashed => cases h

/-- What holds in a run of Offers that are kept apart, for each task of others that was
    there at the beginning. -/
structure OfferInv (peer : PeerId) (w₀ w : OpenStore) : Prop where
  sorted : SortedIds w.memory.tasks
  unique : UniqueIds w.memory.tasks
  around : ∀ t ∈ w₀.memory.tasks, t.Others peer → SameAround t w₀.memory.tasks w.memory.tasks

theorem OfferInv.step {c : Crypto} {peer : PeerId} {w₀ : OpenStore} (h : OfferInv peer w₀ w)
    (hstep : offerStep c peer w e = some w') (hapart : Apart peer w e w') :
    OfferInv peer w₀ w' := by
  rcases offerStep_cases h.sorted h.unique hstep with hsame | hspares
  · refine ⟨?_, ?_, ?_⟩ <;> rw [hsame]
    · exact h.sorted
    · exact h.unique
    · exact h.around
  · refine ⟨hspares.sorted, hspares.unique, fun t ht hothers => ?_⟩
    have haround := h.around t ht hothers
    have hmem := haround.mem ht
    exact haround.trans (hspares.sameAround hmem hothers (hapart t hmem hothers))

/-- **Offers and the tasks of others.**  For every store that can be reached and every
    sequence of Offers of one peer, accepted or refused, none of which names a group that
    a task of others is in: for each task that is bound to another peer or that this side
    sends, the details of it and of its group, the revealed place, its row and its
    group's row in the list and its removal with other completed tasks stay the same. -/
theorem offers_keep_others {c : Crypto} {peer : PeerId} {w w' : OpenStore}
    {es : List OfferEvent} (hinit : (offerMachine c peer).init w)
    (hsteps : ((offerMachine c peer).restrict (Apart peer)).Steps w es w') :
    ∀ t ∈ w.memory.tasks, t.Others peer → SameViews t w.memory w'.memory := by
  obtain ⟨events, hrun⟩ := hinit
  have hinv := run_inv hrun
  have hunique : UniqueIds w.memory.tasks := hinv.unique
  have hkeep : ∀ w₁ e w₂, OfferInv peer w w₁ →
      ((offerMachine c peer).restrict (Apart peer)).step w₁ e w₂ → OfferInv peer w w₂ := by
    rintro w₁ e w₂ h ⟨hstep, hapart⟩
    exact h.step hstep hapart
  have hfinal : OfferInv peer w w' :=
    hsteps.inv hkeep ⟨hinv.sorted, hunique, fun t _ _ => .refl t _⟩
  intro t ht hothers
  exact (hfinal.around t ht hothers).sameViews hunique ht

namespace OfferSample

def id : TaskId := ⟨_, canonical_ascending⟩

def offered : TaskId := ⟨_, canonical_descending⟩

def group : TaskId := ⟨"0123456789abcdef0123456789abcdef", by decide⟩

def peer : PeerId := ⟨_, canonical_descending⟩

/-- A directory that is sent to the peer, which so learns the group. -/
def sent : TaskRecord :=
  { schemaVersion := 1, taskId := id, peerId := peer, direction := .send
    localPath := .source (.ofString "/d")
    manifestIdentity := ⟨hexEncode (Crypto.sample.hash (utf8 "d")).toList, 0, 1, 0⟩
    state := .scanning, createdAtUnixMs := 1, updatedAtUnixMs := 1, diagnostic := none
    progressHint := none, fileDetails := none
    directoryDetails := some ⟨"d", false, false⟩, groupId := some group }

/-- The directory is sent to the end. -/
def sending : List StoreEvent :=
  [.openStore (.ok 1) [], .call (.create sent) [],
   .call (.transition id .queued none 2) [],
   .call (.transition id .connecting none 3) [],
   .call (.transition id .negotiating none 4) [],
   .call (.transition id .transferring none 5) [],
   .call (.transition id .finalizing none 6) [],
   .call (.commitReceipt id 7) []]

def store : Option OpenStore :=
  (Machine.exec (StoreWorld.step .sample) .start sending).bind fun w =>
    w.store.map fun memory => ⟨memory, w.dir⟩

theorem store_isSome : store.isSome = true := by
  decide +kernel

def before : OpenStore := store.get store_isSome

theorem before_init : (offerMachine .sample peer).init before := by
  have hstore : store = some before := (Option.some_get store_isSome).symm
  obtain ⟨⟨dir, running⟩, hexec, hrest⟩ := Option.bind_eq_some_iff.mp hstore
  obtain ⟨memory, hmemory, hbefore⟩ := Option.map_eq_some_iff.mp hrest
  obtain rfl : running = some memory := hmemory
  rw [← hbefore]
  exact ⟨sending, Machine.run_of_exec rfl hexec⟩

/-- The peer offers a directory of its own in the group `g`. -/
def event (g : TaskId) : OfferEvent :=
  ⟨⟨offered, some g, "e", .directory, false⟩, .ofString "/r", fun _ => .ok 8, []⟩

def env : ViewEnv := ⟨fun _ => 0, fun _ => none, fun _ => false, 9, fun _ => ""⟩

end OfferSample

open OfferSample in
/-- The peer answers a directory that was sent to it with an Offer in the same group: the
    details of the group are no longer shown, and the completed task can no longer be
    removed with its group. -/
theorem offer_joins_foreign_group : (offerMachine .sample peer).init before ∧
      ∃ w', offerStep .sample peer before (event group) = some w' ∧
        (∃ t ∈ before.memory.tasks, t.Others peer ∧
          t.taskId = OfferSample.id ∧ t.groupId = some group) ∧
        (project before.memory.tasks (.group group) env).isSome = true ∧
        project w'.memory.tasks (.group group) env = none ∧
        OfferSample.id ∈ before.memory.removable [OfferSample.id] ∧
        OfferSample.id ∉ w'.memory.removable [OfferSample.id] := by
  have hafter : ((offerStep .sample peer before
      (event group)).any fun w' =>
        (project w'.memory.tasks (.group group) env).isNone &&
          decide (OfferSample.id ∉ w'.memory.removable [OfferSample.id])) = true := by
    decide +kernel
  have hbefore : (before.memory.tasks.any fun t =>
      decide (t.Others peer) && t.taskId == OfferSample.id && t.groupId == some group) = true := by
    decide +kernel
  have hdetail : (project before.memory.tasks (.group group) env).isSome = true := by
    decide +kernel
  have hremovable : OfferSample.id ∈ before.memory.removable [OfferSample.id] := by
    decide +kernel
  obtain ⟨w', hstep, hviews⟩ := (Option.any_eq_true _ _).mp hafter
  obtain ⟨t, ht, hchecks⟩ := List.any_eq_true.mp hbefore
  simp only [Bool.and_eq_true, decide_eq_true_eq, beq_iff_eq, Option.isNone_iff_eq_none]
    at hviews hchecks
  exact ⟨before_init, w', hstep, ⟨t, ht, hchecks.1.1, hchecks.1.2, hchecks.2⟩,
    hdetail, hviews.1, hremovable, hviews.2⟩

open OfferSample in
/-- An Offer in a group of the peer's own: the directory that was sent is shown as before. -/
theorem offers_keep_others_directory :
    ∃ w', ((offerMachine .sample peer).restrict (Apart peer)).Steps before [event offered] w' ∧
      w'.memory.tasks.length = 2 ∧
      ∀ t ∈ before.memory.tasks, t.Others peer → SameViews t before.memory w'.memory := by
  have hafter : ((offerStep .sample peer before
      (event offered)).any fun w' =>
        w'.memory.tasks.length == 2) = true := by
    decide +kernel
  have hgroups : (before.memory.tasks.all fun t =>
      t.groupId != some offered) = true := by
    decide +kernel
  obtain ⟨w', hstep, hlength⟩ := (Option.any_eq_true _ _).mp hafter
  have hapart : Apart peer before (event offered) w' := by
    intro t ht _ g hg
    obtain rfl : offered = g := Option.some.inj hg
    simpa using List.all_eq_true.mp hgroups t ht
  have hsteps : ((offerMachine .sample peer).restrict (Apart peer)).Steps
      before [event offered] w' :=
    .single ⟨hstep, hapart⟩
  exact ⟨w', hsteps, by simpa using hlength, offers_keep_others before_init hsteps⟩

end P2pFile.Node
