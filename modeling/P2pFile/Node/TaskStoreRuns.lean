/-
  P2pFile.Node.TaskStoreRuns

  Runs of the task store: it is opened, called any number of times, and the process
  ends at any moment, also in the middle of a call, or the machine loses its power.

  The invariant has one case for each situation the directory and the store can be in.
  `Evolves` is what a step does to the tasks, whichever of the two holds them.  A loss of
  power may bring back an older snapshot; the tasks then evolve from that one.
-/

import P2pFile.Lib.Machine
import P2pFile.Node.TaskStoreSteps

namespace P2pFile.Node

open Lib Protocol Storage
open TaskRecord (unit_bind_ok)

variable {c : Crypto}

/-! ## The machine -/

/-- The directory, and the store while a process has it open. -/
structure StoreWorld where
  dir : StoreDir
  store : Option TaskStore

inductive StoreEvent where
  | openStore (clock : Clock) (plan : List (Fault Error))
  | call (op : StoreOp) (plan : List (Fault Error))
  | drainEvents
  | takeEventResyncRequired
  /-- The process ends. -/
  | stop
  /-- The power is lost, and up to `back` replacements that were not synced with it. -/
  | powerLoss (back : Nat)

namespace StoreWorld

/-- No file and no process. -/
def start : StoreWorld := ⟨⟨none, []⟩, none⟩

/-- One step.  A store that cannot be opened ends the process, and so does a crash in
    the middle of a call. -/
def step (c : Crypto) (w : StoreWorld) (e : StoreEvent) : Option StoreWorld :=
  match e, w.store with
  | .openStore clock plan, none =>
    match openStore c clock w.dir plan with
    | (.ok (.ok (s, _)), d, _) => some ⟨d, some s⟩
    | (_, d, _) => some ⟨d, none⟩
  | .call op plan, some s =>
    match s.perform c op w.dir plan with
    | (.ok (s', _), d, _) => some ⟨d, some s'⟩
    | (_, d, _) => some ⟨d, none⟩
  | .drainEvents, some s => some ⟨w.dir, some { s with events := s.events.drain.2 }⟩
  | .takeEventResyncRequired, some s =>
    some ⟨w.dir, some { s with events := s.events.takeResyncRequired.2 }⟩
  | .stop, _ => some ⟨w.dir, none⟩
  | .powerLoss back, _ => some ⟨w.dir.lose back, none⟩
  | _, _ => none

/-- The tasks: those of the open store, or those of the file. -/
def tasks (w : StoreWorld) : List TaskRecord :=
  match w.store, w.dir.file with
  | some s, _ => s.tasks
  | none, some ⟨some snapshot, _⟩ => snapshot.tasks
  | none, _ => []

end StoreWorld

def storeMachine (c : Crypto) : Machine StoreWorld StoreEvent :=
  .ofStep (fun w => w = .start) (StoreWorld.step c)

/-! ## What a step does to the tasks -/

/-- What one step does to a record. -/
structure TaskRecord.Next (t t' : TaskRecord) : Prop where
  later : t.Later t'
  finishes : t.direction = .receive → ∀ d' ∈ t'.fileDetails, t.state ≠ .completed →
    t'.state = .completed → t.state = .finalizing ∧
      ((t.publishPrepared = true ∧ d'.skippedExisting = false) ∨
        (d'.skippedExisting = true ∧ d'.publishPrepared = false))

theorem TaskRecord.Next.refl (t : TaskRecord) : t.Next t :=
  ⟨.refl t, fun _ _ _ hopen hcomp => absurd hcomp hopen⟩

variable {t t' : TaskRecord}

theorem TaskRecord.Changed.next (h : t.Changed t') (hvalid : t.Valid c) (hvalid' : t'.Valid c) :
    t.Next t' :=
  ⟨h.later, fun hdir _ hfile => h.finishes hvalid hvalid' hdir hfile⟩

/-- What one step does to the tasks: records go on, new ones are being scanned, and only
    completed ones are removed. -/
structure Evolves (old new : List TaskRecord) : Prop where
  kept : ∀ t ∈ old, ∀ t' ∈ new, t'.taskId = t.taskId → t.Next t'
  added : ∀ t' ∈ new, (∀ t ∈ old, t.taskId ≠ t'.taskId) → t'.state = .scanning
  removed : ∀ t ∈ old, (∀ t' ∈ new, t'.taskId ≠ t.taskId) → t.state = .completed

variable {old new : List TaskRecord}

/-- Since identifiers are unique it is enough to give the predecessor of each record. -/
theorem Evolves.of_predecessors (hold : UniqueIds old)
    (hcame : ∀ t' ∈ new, (∃ t ∈ old, t.taskId = t'.taskId ∧ t.Next t') ∨
      (t'.state = .scanning ∧ ∀ t ∈ old, t.taskId ≠ t'.taskId))
    (hwent : ∀ t ∈ old, (∃ t' ∈ new, t'.taskId = t.taskId) ∨ t.state = .completed) :
    Evolves old new where
  kept := by
    intro t ht t' ht' hid
    rcases hcame t' ht' with ⟨u, hu, huid, hnext⟩ | ⟨-, hfresh⟩
    · rw [hold.eq ht hu (hid.symm.trans huid.symm)]
      exact hnext
    · exact absurd hid.symm (hfresh t ht)
  added := by
    intro t' ht' hnew
    rcases hcame t' ht' with ⟨u, hu, huid, -⟩ | ⟨hscan, -⟩
    · exact absurd huid (hnew u hu)
    · exact hscan
  removed := by
    intro t ht hgone
    rcases hwent t ht with ⟨t', ht', hid⟩ | hcomp
    · exact absurd hid (hgone t' ht')
    · exact hcomp

theorem Evolves.map (hold : UniqueIds old) {f : TaskRecord → TaskRecord}
    (hf : ∀ t ∈ old, (f t).taskId = t.taskId ∧ t.Next (f t)) : Evolves old (old.map f) := by
  refine .of_predecessors hold ?_ ?_
  · intro t' ht'
    obtain ⟨t, ht, rfl⟩ := List.mem_map.mp ht'
    exact Or.inl ⟨t, ht, (hf t ht).1.symm, (hf t ht).2⟩
  · intro t ht
    exact Or.inl ⟨f t, List.mem_map_of_mem ht, (hf t ht).1⟩

variable {tasks : List TaskRecord}

theorem Evolves.refl (h : UniqueIds tasks) : Evolves tasks tasks := by
  have hmap := Evolves.map h (f := fun t => t) fun t _ => ⟨rfl, .refl t⟩
  rwa [List.map_id'] at hmap

/-- Only the members of the new list count. -/
theorem Evolves.of_perm {new' : List TaskRecord} (h : Evolves old new) (hperm : new'.Perm new) :
    Evolves old new' where
  kept := fun t ht t' ht' => h.kept t ht t' (hperm.mem_iff.mp ht')
  added := fun t' ht' => h.added t' (hperm.mem_iff.mp ht')
  removed := fun t ht hgone => h.removed t ht fun t' ht' => hgone t' (hperm.mem_iff.mpr ht')

theorem Evolves.replaceTask (hold : UniqueIds old) (ht : t ∈ old) (hnext : t.Next t') :
    Evolves old (replaceTask old t.taskId t') := by
  refine .map hold ?_
  intro u hu
  by_cases hid : u.taskId = t.taskId
  · rw [if_pos hid, hold.eq hu ht hid]
    exact ⟨hnext.later.binding.taskId, hnext⟩
  · rw [if_neg hid]
    exact ⟨rfl, .refl u⟩

theorem Evolves.append {records : List TaskRecord} (huniq : UniqueIds (old ++ records))
    (hscan : ∀ r ∈ records, r.state = .scanning) : Evolves old (old ++ records) := by
  unfold UniqueIds at huniq
  rw [List.map_append, List.nodup_append] at huniq
  refine .of_predecessors huniq.1 ?_ ?_
  · intro t' ht'
    rcases List.mem_append.mp ht' with hold | hnew
    · exact Or.inl ⟨t', hold, rfl, .refl t'⟩
    · refine Or.inr ⟨hscan t' hnew, ?_⟩
      intro t ht
      exact huniq.2.2 _ (List.mem_map_of_mem ht) _ (List.mem_map_of_mem hnew)
  · intro t ht
    exact Or.inl ⟨t, List.mem_append_left _ ht, rfl⟩

theorem Evolves.filter (hold : UniqueIds old) {p : TaskRecord → Bool}
    (hcomp : ∀ t ∈ old, p t = false → t.state = .completed) : Evolves old (old.filter p) := by
  refine .of_predecessors hold ?_ ?_
  · intro t' ht'
    exact Or.inl ⟨t', (List.mem_filter.mp ht').1, rfl, .refl t'⟩
  · intro t ht
    by_cases hp : p t = true
    · exact Or.inl ⟨t, List.mem_filter.mpr ⟨ht, hp⟩, rfl⟩
    · exact Or.inr (hcomp t ht (by simpa using hp))

/-! ## Snapshots and their copies in memory -/

/-- The tasks are in the order of their identifiers. -/
def SortedIds (tasks : List TaskRecord) : Prop :=
  (tasks.map fun t => t.taskId).Pairwise fun a b => a.le b = true

/-- A snapshot as the store writes it. -/
structure SnapshotOk (c : Crypto) (snapshot : StoreSnapshot) : Prop where
  version : snapshot.formatVersion = storeFormatVersion
  valid : ∀ t ∈ snapshot.tasks, t.Valid c
  sorted : SortedIds snapshot.tasks
  unique : UniqueIds snapshot.tasks
  fits : snapshot.fits c = true

theorem TaskId.le_total (a b : TaskId) : a.le b = true ∨ b.le a = true := by
  unfold TaskId.le
  simp only [decide_eq_true_eq]
  exact List.le_total _ _

theorem TaskId.le_trans {a b d : TaskId} (h : a.le b = true) (h' : b.le d = true) :
    a.le d = true := by
  unfold TaskId.le at *
  simp only [decide_eq_true_eq] at *
  exact List.le_trans h h'

theorem sortTasks_sorted (tasks : List TaskRecord) : SortedIds (sortTasks tasks) := by
  have htotal : Std.Total fun a b : TaskRecord => a.taskId.le b.taskId = true :=
    ⟨fun a b => TaskId.le_total a.taskId b.taskId⟩
  have htrans : IsTrans TaskRecord fun a b => a.taskId.le b.taskId = true :=
    ⟨fun _ _ _ hab hbd => TaskId.le_trans hab hbd⟩
  exact List.pairwise_map.mpr (List.pairwise_insertionSort _ _)

theorem validateTasks_ok : validateTasks c tasks = .ok () ↔ ∀ t ∈ tasks, t.Valid c := by
  have hforM : tasks.forM (TaskRecord.validate c) = .ok () ↔ ∀ t ∈ tasks, t.Valid c := by
    induction tasks with
    | nil => simp [pure, Except.pure]
    | cons t rest ih =>
      rw [List.forall_mem_cons, ← ih]
      exact unit_bind_ok
  rw [← hforM]
  unfold validateTasks
  cases tasks.forM (TaskRecord.validate c) with
  | _ => simp

theorem validateUniqueIds_ok : validateUniqueIds tasks = .ok () ↔ UniqueIds tasks := by
  unfold validateUniqueIds UniqueIds
  split <;> simp_all

variable {s : TaskStore} {candidate : List TaskRecord} {snapshot : StoreSnapshot}

/-- What a store commits. -/
theorem candidateSnapshot_ok (h : s.candidateSnapshot c candidate = .ok snapshot) :
    snapshot.formatVersion = storeFormatVersion ∧ snapshot.tasks = sortTasks candidate ∧
      checkedAdd s.generation 1 = some snapshot.generation ∧
      (∀ t ∈ snapshot.tasks, t.Valid c) ∧ UniqueIds snapshot.tasks := by
  obtain ⟨-, h⟩ := healthy_bind_ok.mp h
  obtain ⟨hvalid, h⟩ := unit_bind_ok.mp h
  obtain ⟨huniq, h⟩ := unit_bind_ok.mp h
  split at h
  · exact absurd h (by simp [throw, throwThe, MonadExceptOf.throw])
  next generation hgen =>
    cases h
    exact ⟨rfl, rfl, hgen, validateTasks_ok.mp hvalid, validateUniqueIds_ok.mp huniq⟩

theorem candidateSnapshot_snapshotOk (h : s.candidateSnapshot c candidate = .ok snapshot)
    (hfits : snapshot.fits c = true) : SnapshotOk c snapshot := by
  obtain ⟨hvers, htasks, -, hvalid, huniq⟩ := candidateSnapshot_ok h
  refine ⟨hvers, hvalid, ?_, huniq, hfits⟩
  rw [htasks]
  exact sortTasks_sorted candidate

/-- The record without its progress hint, which is for display only. -/
def TaskRecord.forget (t : TaskRecord) : TaskRecord := { t with progressHint := none }

theorem TaskRecord.Next.of_forget (h : t.forget = t'.forget) : t.Next t' := by
  obtain ⟨_, _, _, _, _, _, _, _, _, _, _, _, _, _⟩ := t'
  obtain ⟨rfl, rfl, rfl, rfl, rfl, rfl, rfl, rfl, rfl, rfl, -, rfl, rfl, rfl⟩ := h
  refine ⟨⟨⟨rfl, rfl, rfl, rfl, rfl, rfl, rfl, rfl⟩, Int.le_refl _, fun h => h, fun h => h⟩, ?_⟩
  intro _ _ _ hopen hcomp
  exact absurd hcomp hopen

/-- The tasks are the same but for progress hints. -/
def SameButHints (tasks tasks' : List TaskRecord) : Prop :=
  tasks.map TaskRecord.forget = tasks'.map TaskRecord.forget

variable {tasks' : List TaskRecord} (h : SameButHints tasks tasks')

include h

theorem SameButHints.ids : (tasks.map fun t => t.taskId) = tasks'.map fun t => t.taskId := by
  have hids := congrArg (List.map fun t => t.taskId) h
  rw [List.map_map, List.map_map] at hids
  exact hids

theorem SameButHints.sorted (hsorted : SortedIds tasks') : SortedIds tasks := by
  unfold SortedIds
  rw [h.ids]
  exact hsorted

theorem SameButHints.unique (huniq : UniqueIds tasks') : UniqueIds tasks := by
  unfold UniqueIds
  rw [h.ids]
  exact huniq

theorem SameButHints.evolves (huniq : UniqueIds tasks) : Evolves tasks tasks' := by
  have hpred : ∀ {l l' : List TaskRecord}, SameButHints l l' → ∀ t' ∈ l', ∃ t ∈ l,
      t.forget = t'.forget := by
    intro l l' hl t' ht'
    have hmem : t'.forget ∈ l.map TaskRecord.forget := by
      rw [hl]
      exact List.mem_map_of_mem ht'
    exact List.mem_map.mp hmem
  refine .of_predecessors huniq ?_ ?_
  · intro t' ht'
    obtain ⟨t, ht, hforget⟩ := hpred h t' ht'
    have hid : t.forget.taskId = t'.forget.taskId := congrArg TaskRecord.taskId hforget
    exact Or.inl ⟨t, ht, hid, .of_forget hforget⟩
  · intro t ht
    obtain ⟨t', ht', hforget⟩ := hpred h.symm t ht
    have hid : t'.forget.taskId = t.forget.taskId := congrArg TaskRecord.taskId hforget
    exact Or.inl ⟨t', ht', hid⟩

omit h

/-- The open store is a copy of the snapshot, but for progress hints. -/
structure Mirrors (c : Crypto) (s : TaskStore) (snapshot : StoreSnapshot) : Prop where
  tasks : SameButHints s.tasks snapshot.tasks
  generation : s.generation = snapshot.generation
  valid : ∀ t ∈ s.tasks, t.Valid c

/-! ## Recovery -/

/-- What the startup makes of a record. -/
def TaskRecord.restarted (now : Int) (t : TaskRecord) : TaskRecord :=
  if t.state.needsStartupRecovery then
    t.moved .interrupted (some ⟨.applicationRestarted, false⟩) now
  else t

theorem TaskState.open_of_recovery {state : TaskState} (h : state.needsStartupRecovery = true) :
    state ≠ .completed ∧ ∀ b, state.allows .interrupted b = true := by
  cases state <;> simp_all [TaskState.needsStartupRecovery, TaskState.allows]

variable {now : Int}

/-- A valid record can always be recovered. -/
theorem recoverTask_eq (h : t.Valid c) :
    recoverTask c now t = .ok (t.restarted now) ∧ (t.restarted now).Valid c := by
  unfold recoverTask TaskRecord.restarted
  split
  next hrecover =>
    obtain ⟨hopen, hallows⟩ := TaskState.open_of_recovery hrecover
    have hvalid : (t.moved .interrupted (some ⟨.applicationRestarted, false⟩) now).Valid c :=
      h.interrupted hopen
    refine ⟨?_, hvalid⟩
    unfold TaskRecord.transitionTo
    simp only [hallows, Bool.not_true, Bool.false_eq_true, if_false, reduceCtorEq, false_and]
    exact unit_bind_ok.mpr ⟨hvalid, rfl⟩
  · exact ⟨rfl, h⟩

theorem TaskRecord.restarted_next (h : t.Valid c) :
    (t.restarted now).taskId = t.taskId ∧ t.Next (t.restarted now) := by
  unfold TaskRecord.restarted
  split
  next hrecover =>
    obtain ⟨hopen, hallows⟩ := TaskState.open_of_recovery hrecover
    have hchanged : t.Changed (t.moved .interrupted (some ⟨.applicationRestarted, false⟩) now) :=
      .transition (hallows _)
    exact ⟨rfl, hchanged.next h (h.interrupted hopen)⟩
  · exact ⟨rfl, .refl t⟩

theorem mapM_recoverTask (h : ∀ t ∈ tasks, t.Valid c) :
    tasks.mapM (recoverTask c now) = .ok (tasks.map (TaskRecord.restarted now)) := by
  induction tasks with
  | nil => rfl
  | cons t rest ih =>
    rw [List.forall_mem_cons] at h
    rw [List.mapM_cons, (recoverTask_eq h.1).1, ih h.2]
    rfl

/-- The tasks that the startup interrupts. -/
def interruptedIds (tasks : List TaskRecord) : List TaskId :=
  (tasks.filter fun t => t.state.needsStartupRecovery).map fun t => t.taskId

theorem map_restarted_of_idle (h : interruptedIds tasks = []) :
    tasks.map (TaskRecord.restarted now) = tasks := by
  have hidle : ∀ t ∈ tasks, ¬ t.state.needsStartupRecovery = true := by
    intro t ht hrecover
    have hmem : t.taskId ∈ interruptedIds tasks :=
      List.mem_map_of_mem (List.mem_filter.mpr ⟨ht, hrecover⟩)
    rw [h] at hmem
    cases hmem
  calc tasks.map (TaskRecord.restarted now) = tasks.map fun t => t :=
        List.map_congr_left fun t ht => if_neg (hidle t ht)
    _ = tasks := List.map_id' tasks

/-- What is loaded from a snapshot that the store has written. -/
theorem loadSnapshot_eq (h : SnapshotOk c snapshot) (now : Int) :
    loadSnapshot c (.ok now) (some snapshot) =
      .ok (⟨snapshot.tasks.map (TaskRecord.restarted now), snapshot.generation, .empty, false⟩,
        interruptedIds snapshot.tasks) := by
  have hvalid : validateSnapshot c snapshot = .ok () := by
    unfold validateSnapshot
    rw [if_neg (not_not.mpr h.version)]
    refine unit_bind_ok.mpr ⟨validateTasks_ok.mpr h.valid, ?_⟩
    exact validateUniqueIds_ok.mpr h.unique
  have hrecover : recoverStartup c (.ok now) snapshot.tasks =
      .ok (snapshot.tasks.map (TaskRecord.restarted now), interruptedIds snapshot.tasks) := by
    show (snapshot.tasks.mapM (recoverTask c now) >>= _) = _
    rw [mapM_recoverTask h.valid]
    rfl
  unfold loadSnapshot
  simp only [hvalid, bind, Except.bind, pure, Except.pure, hrecover]

variable {found : Option StoreSnapshot} {clock : Clock}

/-- Without a clock nothing is loaded. -/
theorem loadSnapshot_clock {r : TaskStore × List TaskId} (h : loadSnapshot c clock found = .ok r) :
    ∃ now, clock = .ok now := by
  cases clock with
  | ok now => exact ⟨now, rfl⟩
  | error err =>
    have hrecover : ∀ tasks, recoverStartup c (.error err) tasks = .error err := fun _ => rfl
    cases found with
    | none => exact absurd h (by simp [loadSnapshot, hrecover, pure, Except.pure, bind,
        Except.bind, throw, throwThe, MonadExceptOf.throw])
    | some snapshot =>
      obtain ⟨-, h⟩ := unit_bind_ok.mp h
      exact absurd h (by simp [hrecover, pure, Except.pure, bind, Except.bind, throw, throwThe,
        MonadExceptOf.throw])

/-! ## The invariant -/

/-- The file with a snapshot. -/
def StoreSnapshot.file (snapshot : StoreSnapshot) : SnapshotFile := ⟨some snapshot, true⟩

/-- An entry that the store has left: no file, or a snapshot. -/
def EntryOk (c : Crypto) (entry : Option SnapshotFile) : Prop :=
  ∀ f ∈ entry, ∃ snapshot : StoreSnapshot, f = snapshot.file ∧ SnapshotOk c snapshot

/-- The situations of the store. -/
inductive StoreInv (c : Crypto) : StoreWorld → Prop
  /-- Nothing has been written. -/
  | fresh : StoreInv c ⟨⟨none, []⟩, none⟩
  /-- No process, and a file. -/
  | down {snapshot : StoreSnapshot} {older : List (Option SnapshotFile)}
      (hsnapshot : SnapshotOk c snapshot) (holder : ∀ entry ∈ older, EntryOk c entry) :
      StoreInv c ⟨⟨some snapshot.file, older⟩, none⟩
  /-- A healthy store is a copy of the file. -/
  | up {s : TaskStore} {snapshot : StoreSnapshot} {older : List (Option SnapshotFile)}
      (hsnapshot : SnapshotOk c snapshot) (holder : ∀ entry ∈ older, EntryOk c entry)
      (hmirrors : Mirrors c s snapshot) (hhealthy : s.poisoned = false) :
      StoreInv c ⟨⟨some snapshot.file, older⟩, some s⟩
  /-- A poisoned store is a copy of the file before the last replacement. -/
  | poisoned {s : TaskStore} {snapshot new : StoreSnapshot} {older : List (Option SnapshotFile)}
      (hsnapshot : SnapshotOk c snapshot) (hnew : SnapshotOk c new)
      (holder : ∀ entry ∈ older, EntryOk c entry) (hmirrors : Mirrors c s snapshot)
      (hpoisoned : s.poisoned = true) (hevolves : Evolves s.tasks new.tasks) :
      StoreInv c ⟨⟨some new.file, some snapshot.file :: older⟩, some s⟩

theorem Mirrors.unique (h : Mirrors c s snapshot) (hsnap : SnapshotOk c snapshot) :
    UniqueIds s.tasks :=
  h.tasks.unique hsnap.unique

theorem Mirrors.sorted (h : Mirrors c s snapshot) (hsnap : SnapshotOk c snapshot) :
    SortedIds s.tasks :=
  h.tasks.sorted hsnap.sorted

variable {w : StoreWorld}

theorem StoreInv.valid (h : StoreInv c w) : ∀ t ∈ w.tasks, t.Valid c := by
  cases h with
  | fresh => simp [StoreWorld.tasks]
  | down hsnap => exact hsnap.valid
  | up hsnap holder hmirrors | poisoned hsnap hnew holder hmirrors => exact hmirrors.valid

theorem StoreInv.unique (h : StoreInv c w) : UniqueIds w.tasks := by
  cases h with
  | fresh => exact List.nodup_nil
  | down hsnap => exact hsnap.unique
  | up hsnap holder hmirrors | poisoned hsnap hnew holder hmirrors =>
    exact hmirrors.unique hsnap

theorem StoreInv.sorted (h : StoreInv c w) : SortedIds w.tasks := by
  cases h with
  | fresh => exact List.Pairwise.nil
  | down hsnap => exact hsnap.sorted
  | up hsnap holder hmirrors | poisoned hsnap hnew holder hmirrors =>
    exact hmirrors.sorted hsnap

variable {events : List TaskEvent}

/-- The store that a commit has installed is a copy of the snapshot. -/
theorem Mirrors.installed (h : SnapshotOk c snapshot) :
    Mirrors c ((s.installed snapshot).record events) snapshot :=
  ⟨rfl, rfl, h.valid⟩

/-- What a commit decided by an operation does to the tasks. -/
theorem Decided.evolves {result : List TaskId}
    (hdecided : Decided s (.commit candidate events result)) (huniq : UniqueIds s.tasks)
    (hvalid : ∀ t ∈ s.tasks, t.Valid c) (hsnap : s.candidateSnapshot c candidate = .ok snapshot)
    : Evolves s.tasks snapshot.tasks := by
  obtain ⟨-, htasks, -, hvalid', huniq'⟩ := candidateSnapshot_ok hsnap
  rw [htasks] at hvalid' huniq' ⊢
  have hperm := sortTasks_perm candidate
  refine Evolves.of_perm ?_ hperm
  cases hdecided with
  | change hmem hchanged =>
    rename_i t t'
    refine .replaceTask huniq hmem (hchanged.next (hvalid t hmem) (hvalid' t' ?_))
    refine hperm.mem_iff.mpr (List.mem_map.mpr ⟨t, hmem, if_pos rfl⟩)
  | add hscan hcand =>
    refine Evolves.of_perm (.append ?_ hscan) hcand
    have hids : ((sortTasks candidate).map fun t => t.taskId).Perm
        ((s.tasks ++ _).map fun t => t.taskId) := (hperm.trans hcand).map _
    exact hids.nodup_iff.mp huniq'
  | remove hcomp => exact .filter huniq hcomp

/-! ## Steps keep the invariant -/

theorem SnapshotOk.parse (h : SnapshotOk c snapshot) : snapshot.file.parse = .ok snapshot := by
  unfold SnapshotFile.parse StoreSnapshot.file
  simp only [h.version, ne_eq, not_true_eq_false, if_false]

theorem Reads.eq {older : List (Option SnapshotFile)} (h : SnapshotOk c snapshot)
    (hreads : StoreDir.Reads ⟨some snapshot.file, older⟩ found) : found = some snapshot := by
  cases found with
  | none => exact hreads.elim
  | some snapshot' =>
    have hparse : snapshot.file.parse = .ok snapshot' := hreads
    rw [h.parse] at hparse
    rw [Except.ok.inj hparse]

variable {d d' : StoreDir}

theorem Replaced.tasks_eq {new : StoreSnapshot} (h : Replaced c d new d') :
    StoreWorld.tasks ⟨d', none⟩ = new.tasks := by
  cases h with
  | _ => rfl

theorem Replaced.file_eq {new : StoreSnapshot} (h : Replaced c d new d') :
    d'.file = some new.file := by
  cases h with
  | _ => rfl

/-- A replacement adds one entry; a sync forgets the others. -/
theorem Replaced.entries {new : StoreSnapshot} (h : Replaced c d new d') :
    ∀ entry ∈ d'.file :: d'.older, entry = some new.file ∨ entry ∈ d.file :: d.older := by
  intro entry hentry
  cases h with
  | unsynced => exact List.mem_cons.mp hentry
  | settled => exact .inl (List.mem_singleton.mp hentry)

theorem EntryOk.file (h : SnapshotOk c snapshot) : EntryOk c (some snapshot.file) := by
  intro f hf
  cases hf
  exact ⟨snapshot, rfl, h⟩

/-- The entries that a loss of power can leave. -/
theorem StoreInv.entries (h : StoreInv c w) :
    ∀ entry ∈ w.dir.file :: w.dir.older, EntryOk c entry := by
  cases h with
  | fresh =>
    rintro entry hentry f hf
    rw [List.mem_singleton.mp hentry] at hf
    cases hf
  | down hsnap holder | up hsnap holder =>
    exact List.forall_mem_cons.mpr ⟨.file hsnap, holder⟩
  | poisoned hsnap hnew holder =>
    exact List.forall_mem_cons.mpr ⟨.file hnew, List.forall_mem_cons.mpr ⟨.file hsnap, holder⟩⟩

/-- The directory after a replacement, with the process gone. -/
theorem StoreInv.replaced {new : StoreSnapshot} (h : StoreInv c w) (hnew : SnapshotOk c new)
    (hrepl : Replaced c w.dir new d') : StoreInv c ⟨d', none⟩ := by
  cases hrepl with
  | unsynced => exact .down hnew h.entries
  | settled => exact .down hnew (by simp)

/-- A new progress hint. -/
theorem sameButHints_display (hint : ProgressHint) (huniq : UniqueIds tasks) (ht : t ∈ tasks) :
    SameButHints (replaceTask tasks t.taskId { t with progressHint := some hint }) tasks := by
  unfold SameButHints replaceTask
  rw [List.map_map]
  refine List.map_congr_left ?_
  intro u hu
  show TaskRecord.forget (if _ then _ else _) = _
  split
  next hid =>
    rw [huniq.eq hu ht hid]
    rfl
  · rfl

theorem SameButHints.trans {l₁ l₂ l₃ : List TaskRecord} (h : SameButHints l₁ l₂)
    (h' : SameButHints l₂ l₃) : SameButHints l₁ l₃ :=
  Eq.trans h h'

variable {s' : TaskStore} {op : StoreOp} {plan rest : List (Fault Error)}

/-- A call keeps the invariant, and the tasks evolve. -/
theorem perform_inv {result : Except TaskStoreError (List TaskId)} (hinv : StoreInv c ⟨d, some s⟩)
    (h : s.perform c op d plan = (.ok (s', result), d', rest)) :
    StoreInv c ⟨d', some s'⟩ ∧ Evolves s.tasks s'.tasks := by
  have hperf := TaskStore.perform_cases h
  cases hinv with
  | up hsnap holder hmirrors hhealthy =>
    have huniq := hmirrors.unique hsnap
    cases hperf with
    | displayed hdecision =>
      obtain ⟨-, hdecided⟩ := StoreOp.decision_ok huniq hdecision
      cases hdecided with
      | display hmem hhint =>
        rename_i t hint
        have hsame := sameButHints_display hint huniq hmem
        refine ⟨.up hsnap holder ⟨hsame.trans hmirrors.tasks, hmirrors.generation, ?_⟩ hhealthy,
          .replaceTask huniq hmem (.of_forget rfl)⟩
        intro u hu
        obtain ⟨v, hv, hvu⟩ := List.mem_map.mp hu
        rw [← hvu]
        split
        · exact (hmirrors.valid t hmem).withHint hhint
        · exact hmirrors.valid v hv
    | uncertain hdecision hcand hfits =>
      obtain ⟨-, hdecided⟩ := StoreOp.decision_ok huniq hdecision
      have hevolves := hdecided.evolves huniq hmirrors.valid hcand
      refine ⟨.poisoned hsnap (candidateSnapshot_snapshotOk hcand hfits) holder
        { hmirrors with } rfl hevolves, .refl huniq⟩
    | done hdecision hcand hfits =>
      obtain ⟨-, hdecided⟩ := StoreOp.decision_ok huniq hdecision
      have hnew := candidateSnapshot_snapshotOk hcand hfits
      exact ⟨.up hnew (by simp) (.installed hnew) hhealthy,
        hdecided.evolves huniq hmirrors.valid hcand⟩
    | _ => exact ⟨.up hsnap holder hmirrors hhealthy, .refl huniq⟩
  | poisoned hsnap hnew holder hmirrors hpois hevolves =>
    have hdecision := StoreOp.decision_poisoned (c := c) hpois op
    cases hperf with
    | refused =>
      exact ⟨.poisoned hsnap hnew holder hmirrors hpois hevolves, .refl (hmirrors.unique hsnap)⟩
    | kept hdec | displayed hdec | uncertain hdec | done hdec =>
      exact absurd hdec (by simp [hdecision])

/-- The tasks of a process that has ended. -/
theorem tasks_down (snapshot : StoreSnapshot) (older : List (Option SnapshotFile)) :
    StoreWorld.tasks ⟨⟨some snapshot.file, older⟩, none⟩ = snapshot.tasks := rfl

/-- The process ends between two calls. -/
theorem stop_inv (hinv : StoreInv c w) :
    StoreInv c ⟨w.dir, none⟩ ∧ Evolves w.tasks (StoreWorld.tasks ⟨w.dir, none⟩) := by
  cases hinv with
  | fresh => exact ⟨.fresh, .refl (by simp [UniqueIds, StoreWorld.tasks])⟩
  | down hsnap holder => exact ⟨.down hsnap holder, .refl hsnap.unique⟩
  | up hsnap holder hmirrors hhealthy =>
    exact ⟨.down hsnap holder, hmirrors.tasks.evolves (hmirrors.unique hsnap)⟩
  | poisoned hsnap hnew holder hmirrors hpois hevolves =>
    exact ⟨.down hnew (List.forall_mem_cons.mpr ⟨.file hsnap, holder⟩), hevolves⟩

/-- The power is lost: one of the snapshots since the last sync is there. -/
theorem lose_inv (hinv : StoreInv c w) (back : Nat) : StoreInv c ⟨w.dir.lose back, none⟩ := by
  have hentry : EntryOk c (revive w.dir.file w.dir.older back) :=
    hinv.entries _ (revive_mem _ _ _)
  unfold StoreDir.lose
  cases hrevive : revive w.dir.file w.dir.older back with
  | none => exact .fresh
  | some f =>
    obtain ⟨snapshot, rfl, hsnap⟩ := hentry f hrevive
    exact .down hsnap (by simp)

/-- A directory that is synced is not changed by it. -/
theorem lose_settled (hinv : StoreInv c w) (hsettled : w.dir.older = []) (back : Nat) :
    w.dir.lose back = w.dir := by
  unfold StoreDir.lose
  rw [hsettled, revive_nil]
  cases hinv with
  | fresh => rfl
  | down | up =>
    obtain rfl := hsettled
    rfl
  | poisoned => cases hsettled

/-- The process dies in a call. -/
theorem perform_crashed_inv (hinv : StoreInv c ⟨d, some s⟩)
    (h : s.perform c op d plan = (.crashed, d', rest)) :
    StoreInv c ⟨d', none⟩ ∧ Evolves s.tasks (StoreWorld.tasks ⟨d', none⟩) := by
  have hperf := TaskStore.perform_cases h
  cases hperf with
  | died => exact stop_inv hinv
  | diedReplaced hdecision hcand hrepl =>
    have huniq : UniqueIds s.tasks := hinv.unique
    obtain ⟨-, hdecided⟩ := StoreOp.decision_ok huniq hdecision
    refine ⟨hinv.replaced (candidateSnapshot_snapshotOk hcand hrepl.fits) hrepl, ?_⟩
    rw [hrepl.tasks_eq]
    exact hdecided.evolves huniq hinv.valid hcand

variable {interrupted : List TaskId}

/-- What is loaded from the directory of a process that has ended. -/
theorem load_cases (hinv : StoreInv c ⟨d, none⟩) (hreads : d.Reads found)
    (hload : loadSnapshot c clock found = .ok (s, interrupted)) (hsame : s.SameTasks s') :
    s'.poisoned = false ∧ ∃ now, clock = .ok now ∧
      s'.tasks = (StoreWorld.tasks ⟨d, none⟩).map (TaskRecord.restarted now) ∧
      interrupted = interruptedIds (StoreWorld.tasks ⟨d, none⟩) ∧
      (∀ snapshot : StoreSnapshot, d.file = some snapshot.file →
        s'.generation = snapshot.generation) ∧
      Evolves (StoreWorld.tasks ⟨d, none⟩) s'.tasks := by
  obtain ⟨now, rfl⟩ := loadSnapshot_clock hload
  obtain ⟨htasks, hgen, hpois⟩ := hsame
  cases hinv with
  | fresh =>
    cases found with
    | some snapshot => exact hreads.elim
    | none =>
      cases hload
      refine ⟨hpois, now, rfl, htasks, rfl, by simp, ?_⟩
      rw [htasks]
      exact .refl (by simp [UniqueIds, StoreWorld.tasks])
  | down hsnap =>
    obtain rfl := Reads.eq hsnap hreads
    rw [loadSnapshot_eq hsnap] at hload
    cases hload
    refine ⟨hpois, now, rfl, htasks, rfl, ?_, ?_⟩
    · intro snapshot' hfile
      have hsame : some _ = some snapshot' := congrArg (fun f => f.bind SnapshotFile.text) hfile
      rw [← Option.some.inj hsame]
      exact hgen
    rw [htasks]
    exact .map hsnap.unique fun t ht => TaskRecord.restarted_next (hsnap.valid t ht)

theorem sortTasks_of_sorted (h : SortedIds tasks) : sortTasks tasks = tasks :=
  (List.pairwise_map.mp h).insertionSort_eq

theorem map_restarted_ids (now : Int) (tasks : List TaskRecord) :
    ((tasks.map (TaskRecord.restarted now)).map fun t => t.taskId) =
      tasks.map fun t => t.taskId := by
  rw [List.map_map]
  refine List.map_congr_left fun t _ => ?_
  unfold Function.comp TaskRecord.restarted
  split <;> rfl

variable (hinv : StoreInv c ⟨d, none⟩)

include hinv

/-- What was loaded is committed: the snapshot has the tasks in their order. -/
theorem load_commit (hreads : d.Reads found)
    (hload : loadSnapshot c clock found = .ok (s, interrupted)) (hsame : s.SameTasks s')
    (hcand : s'.candidateSnapshot c s'.tasks = .ok snapshot) (hfits : snapshot.fits c = true) :
    SnapshotOk c snapshot ∧ ∃ now, clock = .ok now ∧
      snapshot.tasks = (StoreWorld.tasks ⟨d, none⟩).map (TaskRecord.restarted now) ∧
      Evolves (StoreWorld.tasks ⟨d, none⟩) snapshot.tasks := by
  obtain ⟨-, now, hclock, htasks, -, -, hevolves⟩ := load_cases hinv hreads hload hsame
  have hsorted : SortedIds s'.tasks := by
    unfold SortedIds
    rw [htasks, map_restarted_ids]
    exact hinv.sorted
  have hsnap : snapshot.tasks = s'.tasks := by
    rw [(candidateSnapshot_ok hcand).2.1, sortTasks_of_sorted hsorted]
  rw [hsnap]
  exact ⟨candidateSnapshot_snapshotOk hcand hfits, now, hclock, htasks, hevolves⟩

/-- Opening a store that was closed, crashed in a call or never written. -/
theorem open_inv (h : Opened c d clock (.ok (.ok (s, interrupted))) d') :
    StoreInv c ⟨d', some s⟩ ∧ Evolves (StoreWorld.tasks ⟨d, none⟩) s.tasks := by
  cases h with
  | loaded hreads hload hfound hsame =>
    obtain ⟨hhealthy, now, -, htasks, hidle, hgen, hevolves⟩ := load_cases hinv hreads hload hsame
    refine ⟨?_, hevolves⟩
    -- Nothing was interrupted, so the store is the file.
    rw [map_restarted_of_idle hidle.symm] at htasks
    cases hinv with
    | fresh => cases hfound
    | down hsnap holder =>
      refine .up hsnap holder ⟨?_, hgen _ rfl, ?_⟩ hhealthy
      · unfold SameButHints
        rw [htasks, tasks_down]
      · rw [htasks]
        exact hsnap.valid
  | done hreads hload hsame hcand hfits =>
    have hhealthy := (load_cases hinv hreads hload hsame).1
    obtain ⟨hnew, -, -, -, hevolves⟩ := load_commit hinv hreads hload hsame hcand hfits
    exact ⟨.up hnew (by simp) ⟨rfl, rfl, hnew.valid⟩ hhealthy, hevolves⟩

variable {out : Outcome Error (Except TaskStoreError (TaskStore × List TaskId))}

/-- Opening leaves the directory, or replaces the snapshot by what was recovered. -/
theorem Opened.dir (h : Opened c d clock out d') : d' = d ∨
    ∃ snapshot, Replaced c d snapshot d' ∧ SnapshotOk c snapshot ∧ ∃ now, clock = .ok now ∧
      snapshot.tasks = (StoreWorld.tasks ⟨d, none⟩).map (TaskRecord.restarted now) ∧
      Evolves (StoreWorld.tasks ⟨d, none⟩) snapshot.tasks := by
  cases h with
  | uncertain hreads hload hsame hcand hfits =>
    exact .inr ⟨_, .unsynced hfits, load_commit hinv hreads hload hsame hcand hfits⟩
  | done hreads hload hsame hcand hfits =>
    exact .inr ⟨_, .settled hfits, load_commit hinv hreads hload hsame hcand hfits⟩
  | diedReplaced hreads hload hsame hcand hrepl =>
    exact .inr ⟨_, hrepl, load_commit hinv hreads hload hsame hcand hrepl.fits⟩
  | _ => exact .inl rfl

/-- The store is not opened, and the process ends. -/
theorem open_failed_inv (h : Opened c d clock out d') :
    StoreInv c ⟨d', none⟩ ∧
      Evolves (StoreWorld.tasks ⟨d, none⟩) (StoreWorld.tasks ⟨d', none⟩) := by
  obtain rfl | ⟨snapshot, hrepl, hnew, -, -, -, hevolves⟩ := h.dir hinv
  · exact stop_inv hinv
  · refine ⟨hinv.replaced hnew hrepl, ?_⟩
    rw [hrepl.tasks_eq]
    exact hevolves

omit hinv

/-- Reading the events changes nothing else. -/
theorem StoreInv.withEvents (h : StoreInv c ⟨d, some s⟩) (events : TaskEventBuffer) :
    StoreInv c ⟨d, some { s with events }⟩ ∧ Evolves s.tasks s.tasks := by
  cases h with
  | up hsnap holder hmirrors hhealthy =>
    exact ⟨.up hsnap holder { hmirrors with } hhealthy, .refl (hmirrors.unique hsnap)⟩
  | poisoned hsnap hnew holder hmirrors hpois hevolves =>
    exact ⟨.poisoned hsnap hnew holder { hmirrors with } hpois hevolves,
      .refl (hmirrors.unique hsnap)⟩

/-- The step does not undo a replacement: it is no loss of power, or all are synced. -/
def StoreWorld.Kept (w : StoreWorld) (e : StoreEvent) : Prop :=
  ∀ back, e = .powerLoss back → w.dir.older = []

/-- A step keeps the invariant, and the tasks evolve if no replacement is undone. -/
theorem step_inv {w' : StoreWorld} {e : StoreEvent} (hinv : StoreInv c w) (h : w.step c e = some w')
    : StoreInv c w' ∧ (w.Kept e → Evolves w.tasks w'.tasks) := by
  obtain ⟨d, store⟩ := w
  cases e with
  | openStore clock plan =>
    cases store with
    | some s => exact absurd h (by simp [StoreWorld.step])
    | none =>
      have hopened := openStore_spec (c := c) d clock d plan rfl
      simp only [StoreWorld.step] at h
      generalize openStore c clock d plan = r at h hopened
      obtain ⟨out, d', rest⟩ := r
      rcases out with (err | ⟨s, interrupted⟩) | err | -
      · cases h
        exact (open_failed_inv hinv hopened).imp_right fun hevolves _ => hevolves
      · cases h
        exact (open_inv hinv hopened).imp_right fun hevolves _ => hevolves
      · exact hopened.elim
      · cases h
        exact (open_failed_inv hinv hopened).imp_right fun hevolves _ => hevolves
  | call op plan =>
    cases store with
    | none => exact absurd h (by simp [StoreWorld.step])
    | some s =>
      simp only [StoreWorld.step] at h
      cases hrun : s.perform c op d plan with
      | mk out r =>
        rw [hrun] at h
        rcases out with ⟨s', result⟩ | err | -
        · cases h
          exact (perform_inv hinv hrun).imp_right fun hevolves _ => hevolves
        · cases TaskStore.perform_cases hrun
        · cases h
          exact (perform_crashed_inv hinv hrun).imp_right fun hevolves _ => hevolves
  | stop =>
    cases h
    exact (stop_inv hinv).imp_right fun hevolves _ => hevolves
  | powerLoss back =>
    cases h
    refine ⟨lose_inv hinv back, fun hkept => ?_⟩
    rw [lose_settled hinv (hkept back rfl)]
    exact (stop_inv hinv).2
  | _ =>
    cases store with
    | none => exact absurd h (by simp [StoreWorld.step])
    | some s =>
      cases h
      exact (hinv.withEvents _).imp_right fun hevolves _ => hevolves

theorem run_inv {es : List StoreEvent} (h : (storeMachine c).Run es w) : StoreInv c w := by
  refine Machine.Run.inv ?_ ?_ h
  · rintro w rfl
    exact .fresh
  · intro w e w' hinv hstep
    exact (step_inv hinv hstep).1

end P2pFile.Node
