/-
  P2pFile.Node.TaskLifecycle

  The life of a task record under every sequence of operations on the task store.
-/

import P2pFile.Node.TaskStoreRuns

namespace P2pFile.Node

open Lib Protocol Storage
open Option (any_none any_some map_map some_get)

variable {c : Crypto}

/-! ## Facts about the tasks of a state -/

/-- The snapshot with the tasks of the store: the file, or the one that was replaced while
    the store does not know what became of the replacement. -/
def StoreWorld.committed (w : StoreWorld) : Option StoreSnapshot :=
  let entry := if w.store.any fun s => s.poisoned then w.dir.older.head?.join else w.dir.file
  entry.bind SnapshotFile.text

variable {w : StoreWorld} {t : TaskRecord}

/-- Every task is in the committed snapshot, but for its progress hint. -/
theorem StoreInv.committed (h : StoreInv c w) (ht : t ∈ w.tasks) :
    ∃ snapshot, w.committed = some snapshot ∧ ∃ u ∈ snapshot.tasks, u.forget = t.forget := by
  have hmirror : ∀ {s : TaskStore} {snapshot : StoreSnapshot}, Mirrors c s snapshot →
      t ∈ s.tasks → ∃ u ∈ snapshot.tasks, u.forget = t.forget := by
    intro s snapshot hmirrors hmem
    have hforget : t.forget ∈ snapshot.tasks.map TaskRecord.forget := by
      rw [← hmirrors.tasks]
      exact List.mem_map_of_mem hmem
    exact List.mem_map.mp hforget
  cases h with
  | fresh => exact absurd ht (by simp [StoreWorld.tasks])
  | down hsnap => exact ⟨_, rfl, t, ht, rfl⟩
  | up hsnap holder hmirrors hhealthy =>
    refine ⟨_, ?_, hmirror hmirrors ht⟩
    simp [StoreWorld.committed, hhealthy, StoreSnapshot.file]
  | poisoned hsnap hnew holder hmirrors hpois =>
    refine ⟨_, ?_, hmirror hmirrors ht⟩
    simp [StoreWorld.committed, hpois, StoreSnapshot.file]

/-- A record with details is completed exactly if its receipt is committed. -/
theorem TaskRecord.Valid.completed_iff (h : t.Valid c)
    (hdetails : t.fileDetails.isSome = true ∨ t.directoryDetails.isSome = true) :
    t.state = .completed ↔ t.receiptCommitted = true := by
  have hchk := valid_iff.mp h
  unfold TaskRecord.receiptCommitted
  cases hfile : t.fileDetails with
  | some d =>
    have hnone : t.directoryDetails = none := by
      rcases hchk.exclusive with hno | hno
      · rw [hfile] at hno
        cases hno
      · exact hno
    rw [hnone]
    simp only [any_some, any_none, Bool.or_false]
    exact (hchk.file d hfile).1.receipt.symm
  | none =>
    cases hdirectory : t.directoryDetails with
    | none => simp [hfile, hdirectory] at hdetails
    | some d =>
      exact (hchk.directory d hdirectory).1.receipt.symm

/-! ## Cancelling -/

variable {s : TaskStore} {clock : Clock}

theorem TaskStore.cancel_ok {id : TaskId} {dec : Decision} (h : s.cancel c id clock = .ok dec) :
    ∃ t ∈ s.tasks, t.taskId = id ∧
      (((t.diagnostic.any fun e => e.code == .userCancelled) = true ∧ dec = .keep []) ∨
        (t.publishPrepared = false ∧ t.receiptCommitted = false)) := by
  obtain ⟨-, h⟩ := healthy_bind_ok.mp h
  obtain ⟨t, ht, h⟩ := bind_eq_ok.mp h
  obtain ⟨hmem, hid⟩ := task_ok ht
  refine ⟨t, hmem, hid, ?_⟩
  split at h
  next hcanc =>
    exact Or.inl ⟨hcanc, (Except.ok.inj h).symm⟩
  right
  obtain ⟨now, -, h⟩ := bind_eq_ok.mp h
  obtain ⟨r, hmutate, -⟩ := bind_eq_ok.mp h
  unfold mutate at hmutate
  rw [ht] at hmutate
  obtain ⟨u, hu, hmutate⟩ := bind_eq_ok.mp hmutate
  cases hu
  split at hmutate
  · exact absurd hmutate (by simp [throw, throwThe, MonadExceptOf.throw])
  next t' hcancel =>
    obtain ⟨-, hprep, hreceipt, -⟩ := TaskRecord.cancel_ok hcancel
    exact ⟨hprep, hreceipt⟩

/-- A cancellation that succeeds finds the task cancelled already and does nothing, or
    the task was neither prepared for publication nor completed. -/
theorem cancel_cases {s' : TaskStore} {d d' : StoreDir} {id : TaskId} {result : List TaskId}
    (huniq : UniqueIds s.tasks) (ht : t ∈ s.tasks) (hid : t.taskId = id)
    (h : Performed c s d (.cancel id clock) (.ok (s', .ok result)) d') :
    ((t.diagnostic.any fun e => e.code == .userCancelled) = true ∧ s' = s ∧ d' = d) ∨
      (t.publishPrepared = false ∧ t.receiptCommitted = false) := by
  have hcases : ∀ {dec : Decision}, StoreOp.decision c s (.cancel id clock) = .ok dec →
      ((t.diagnostic.any fun e => e.code == .userCancelled) = true ∧ dec = .keep []) ∨
        (t.publishPrepared = false ∧ t.receiptCommitted = false) := by
    intro dec hdec
    obtain ⟨u, hu, huid, hcase⟩ := TaskStore.cancel_ok hdec
    rw [huniq.eq ht hu (hid.trans huid.symm)]
    exact hcase
  cases h with
  | kept hdec =>
    rcases hcases hdec with ⟨hcanc, -⟩ | hopen
    · exact Or.inl ⟨hcanc, rfl, rfl⟩
    · exact Or.inr hopen
  | displayed hdec | done hdec hcand hfits =>
    rcases hcases hdec with ⟨-, hkeep⟩ | hopen
    · cases hkeep
    · exact Or.inr hopen

/-! ## The lifecycle -/

/-- What one step does to a record, in the fields of the record. -/
structure TaskRecord.Lives (committed : Option StoreSnapshot) (t t' : TaskRecord) : Prop where
  finishes : t.direction = .receive → ∀ d', t'.fileDetails = some d' → t.state ≠ .completed →
    t'.state = .completed → t.state = .finalizing ∧
      (((∃ snapshot, committed = some snapshot ∧ ∃ u ∈ snapshot.tasks, u.taskId = t.taskId ∧
          u.publishPrepared = true) ∧ d'.skippedExisting = false) ∨
        (d'.skippedExisting = true ∧ d'.publishPrepared = false))
  completed : t.state = .completed → t'.state = .completed
  cancelled : t.state = .failed → (∀ d ∈ t.diagnostic, d.retryable = false) →
    t'.state = .failed ∧ ∀ d ∈ t'.diagnostic, d.retryable = false
  updated : t.updatedAtUnixMs ≤ t'.updatedAtUnixMs
  peerId : t'.peerId = t.peerId
  direction : t'.direction = t.direction
  localPath : t'.localPath = t.localPath
  relativePath : t'.relativePath = t.relativePath
  manifestIdentity : t'.manifestIdentity = t.manifestIdentity
  manifest : (t'.fileDetails.map fun d => d.manifest) = t.fileDetails.map fun d => d.manifest
  groupId : t'.groupId = t.groupId

theorem TaskRecord.retryable_eq_false :
    t.retryable = false ↔ ∀ d ∈ t.diagnostic, d.retryable = false := by
  unfold TaskRecord.retryable
  cases t.diagnostic with
  | _ => simp

theorem StoreInv.lives (hinv : StoreInv c w) {t' : TaskRecord} (ht : t ∈ w.tasks)
    (hnext : t.Next t') : t.Lives w.committed t' where
  __ := hnext.later
  __ := hnext.later.binding
  finishes := by
    intro hdir d' hd' hopen hcomp
    obtain ⟨hfinalizing, hcase⟩ := hnext.finishes hdir d' hd' hopen hcomp
    refine ⟨hfinalizing, ?_⟩
    rcases hcase with ⟨hprep, hskipped⟩ | hskipped
    · left
      obtain ⟨snapshot, hcommitted, u, hu, hforget⟩ := hinv.committed ht
      have hid : u.forget.taskId = t.forget.taskId := congrArg TaskRecord.taskId hforget
      have hsame : u.forget.publishPrepared = t.forget.publishPrepared :=
        congrArg TaskRecord.publishPrepared hforget
      exact ⟨⟨snapshot, hcommitted, u, hu, hid, hsame.trans hprep⟩, hskipped⟩
    · exact Or.inr hskipped
  cancelled := by
    intro hfailed hretryable
    obtain ⟨hfailed', hretryable'⟩ :=
      hnext.later.dead ⟨hfailed, TaskRecord.retryable_eq_false.mpr hretryable⟩
    exact ⟨hfailed', TaskRecord.retryable_eq_false.mp hretryable'⟩
  relativePath := hnext.later.binding.relativePath
  manifest := by
    have hall := congrArg (Option.map fun p => p.2.1) hnext.later.binding.file
    rw [map_map, map_map] at hall
    exact hall

/-- **Task lifecycle.**  In every state that calls, failures, restarts and losses of power
    can lead to: the records are valid, and one with details is completed exactly if its
    receipt is committed.  A step that does not undo a replacement removes only completed
    records, adds records that are being scanned, and keeps the others as `Lives` says.  A
    cancellation that is not a repetition succeeds only before the publication is
    prepared. -/
theorem task_lifecycle {es : List StoreEvent} {w : StoreWorld} (h : (storeMachine c).Run es w) :
    (∀ t ∈ w.tasks, t.validate c = .ok () ∧
      (t.fileDetails.isSome = true ∨ t.directoryDetails.isSome = true →
        (t.state = .completed ↔ t.receiptCommitted = true))) ∧
    (∀ e w', w.Kept e → w.step c e = some w' →
      (∀ t ∈ w.tasks, (∀ t' ∈ w'.tasks, t'.taskId ≠ t.taskId) → t.state = .completed) ∧
      (∀ t' ∈ w'.tasks, (∀ t ∈ w.tasks, t.taskId ≠ t'.taskId) → t'.state = .scanning) ∧
      ∀ t ∈ w.tasks, ∀ t' ∈ w'.tasks, t'.taskId = t.taskId → t.Lives w.committed t') ∧
    (∀ s id clock plan s' result d' rest, w.store = some s →
      s.perform c (.cancel id clock) w.dir plan = (.ok (s', .ok result), d', rest) →
      ∀ t ∈ s.tasks, t.taskId = id →
        ((t.diagnostic.any fun e => e.code == .userCancelled) = true ∧ s' = s ∧ d' = w.dir) ∨
          (t.publishPrepared = false ∧ t.receiptCommitted = false)) := by
  have hinv := run_inv h
  refine ⟨?_, ?_, ?_⟩
  · intro t ht
    have hvalid := hinv.valid t ht
    exact ⟨hvalid, hvalid.completed_iff⟩
  · intro e w' hkept hstep
    have hevolves := (step_inv hinv hstep).2 hkept
    refine ⟨hevolves.removed, hevolves.added, ?_⟩
    intro t ht t' ht' hid
    exact hinv.lives ht (hevolves.kept t ht t' ht' hid)
  · intro s id clock plan s' result d' rest hs hperform t ht hid
    obtain ⟨d, store⟩ := w
    obtain rfl : store = some s := hs
    exact cancel_cases hinv.unique ht hid (TaskStore.perform_cases hperform)

namespace LifecycleSample

def id : TaskId := ⟨_, canonical_ascending⟩

def other : PeerId := ⟨_, canonical_descending⟩

def path : PathBuf := .ofString "/a"

def identity : ManifestIdentity := ⟨hexEncode (Bytes.fill 32 7).toList, 10, 4, 3⟩

/-- A record of `new_sender`, which has no details. -/
def plain : TaskRecord :=
  { schemaVersion := 1, taskId := id, peerId := other, direction := .send,
    localPath := .source path, manifestIdentity := identity, state := .scanning,
    createdAtUnixMs := 1, updatedAtUnixMs := 1, diagnostic := none, progressHint := none,
    fileDetails := none, directoryDetails := none, groupId := none }

/-- A record of `new_directory`. -/
def directory : TaskRecord :=
  { plain with
    direction := .receive
    localPath := .receiveRoot path
    manifestIdentity := ⟨hexEncode (Crypto.sample.hash "d".toUTF8.data.toList).toList, 0, 1, 0⟩
    directoryDetails := some ⟨"d", false, false⟩ }

/-- The task is queued, connected and transferred. -/
def transferred (t : TaskRecord) : List StoreEvent :=
  [.openStore (.ok 1) [], .call (.create t) [],
   .call (.transition id .queued none 2) [],
   .call (.transition id .connecting none 3) [],
   .call (.transition id .negotiating none 4) [],
   .call (.transition id .transferring none 5) []]

/-- A plain transition completes a record without details. -/
def completing : List StoreEvent :=
  transferred plain ++
    [.call (.transition id .finalizing none 6) [],
     .call (.transition id .completed none 7) []]

/-- A diagnostic says that the user has cancelled, but the task goes on. -/
def preparing : List StoreEvent :=
  transferred directory ++
    [.call (.transition id .finalizing (some ⟨.userCancelled, false⟩) 6) [],
     .call (.preparePublication id) []]

/-- Only the last sync fails. -/
def unsynced : List (Fault Error) := List.replicate 4 .done ++ [.fail 0 (.io .other "sync")]

/-- The task is cancelled, but the directory is not synced; then the application restarts. -/
def cancelling : List StoreEvent :=
  [.openStore (.ok 1) [], .call (.create plain) [], .call (.cancel id (.ok 2)) unsynced, .stop,
   .openStore (.ok 3) []]

theorem completing_isSome :
    (Machine.exec (StoreWorld.step .sample) .start completing).isSome = true := by
  decide +kernel

theorem preparing_isSome :
    (Machine.exec (StoreWorld.step .sample) .start preparing).isSome = true := by
  decide +kernel

def completed : StoreWorld :=
  (Machine.exec (StoreWorld.step .sample) .start completing).get completing_isSome

def prepared : StoreWorld :=
  (Machine.exec (StoreWorld.step .sample) .start preparing).get preparing_isSome

theorem completed_run : (storeMachine .sample).Run completing completed :=
  Machine.run_of_exec rfl (some_get completing_isSome).symm

theorem prepared_run : (storeMachine .sample).Run preparing prepared :=
  Machine.run_of_exec rfl (some_get preparing_isSome).symm

end LifecycleSample

open LifecycleSample in
/-- A record without details is completed and has no receipt; and a task that was
    prepared for publication can be cancelled if its diagnostic says that it already was. -/
theorem plain_and_marked_records : (TaskRecord.newPlain .sample LifecycleSample.id other .send
        path identity 1 = .ok plain ∧
      ∃ es w, (storeMachine .sample).Run es w ∧ ∃ t ∈ w.tasks,
        t.state = .completed ∧ t.receiptCommitted = false) ∧
    ∃ es w s, (storeMachine .sample).Run es w ∧ w.store = some s ∧
      (∃ t ∈ s.tasks, t.taskId = LifecycleSample.id ∧ t.publishPrepared = true) ∧
      (s.perform .sample (.cancel LifecycleSample.id (.ok 9)) w.dir []).1 = .ok (s, .ok []) := by
  have hcompleted : (completed.tasks.any fun t =>
      t.state == .completed && t.receiptCommitted == false) = true := by
    decide +kernel
  have hprepared : (prepared.store.any fun s =>
      (s.tasks.any fun t => t.taskId == LifecycleSample.id && t.publishPrepared) &&
        (s.perform .sample (.cancel LifecycleSample.id (.ok 9)) prepared.dir []).1
          == .ok (s, .ok [])) = true := by
    decide +kernel
  refine ⟨⟨by decide +kernel, _, _, completed_run, ?_⟩, ?_⟩
  · obtain ⟨t, ht, hboth⟩ := List.any_eq_true.mp hcompleted
    simp only [Bool.and_eq_true, beq_iff_eq] at hboth
    exact ⟨t, ht, hboth⟩
  · cases hs : prepared.store with
    | none =>
      rw [hs] at hprepared
      cases hprepared
    | some s =>
      rw [hs, any_some] at hprepared
      simp only [Bool.and_eq_true, List.any_eq_true, beq_iff_eq] at hprepared
      exact ⟨_, _, s, prepared_run, hs, hprepared⟩

open LifecycleSample in
/-- A loss of power that undoes a replacement brings a cancelled task back, also after a
    restart that has found it cancelled. -/
theorem cancelled_task_comes_back :
    ∃ w w', (storeMachine .sample).Run cancelling w ∧
      (w.tasks.map fun t => (t.taskId, t.state)) = [(LifecycleSample.id, .failed)] ∧
      w.step .sample (.powerLoss 1) = some w' ∧
      (w'.tasks.map fun t => (t.taskId, t.state)) = [(LifecycleSample.id, .scanning)] := by
  have hafter : ((Machine.exec (StoreWorld.step .sample) .start cancelling).any fun w =>
      (w.tasks.map fun t => (t.taskId, t.state)) == [(LifecycleSample.id, .failed)] &&
      (w.step .sample (.powerLoss 1)).any fun w' =>
        (w'.tasks.map fun t => (t.taskId, t.state)) == [(LifecycleSample.id, .scanning)]) =
      true := by
    decide +kernel
  obtain ⟨w, hexec, hw⟩ := (Option.any_eq_true _ _).mp hafter
  rw [Bool.and_eq_true, beq_iff_eq, Option.any_eq_true] at hw
  obtain ⟨hfailed, w', hstep, hback⟩ := hw
  exact ⟨w, w', Machine.run_of_exec rfl hexec, hfailed, hstep, beq_iff_eq.mp hback⟩

open LifecycleSample in
/-- The prepared directory of the sample: its record is valid, and no call, failure or
    restart moves it to another peer. -/
theorem task_lifecycle_prepared : (prepared.tasks.map fun t => (t.state, t.publishPrepared)) =
        [(.finalizing, true)] ∧ ∀ t ∈ prepared.tasks, t.validate .sample = .ok () ∧
      ∀ e w', prepared.Kept e → prepared.step .sample e = some w' → ∀ t' ∈ w'.tasks,
        t'.taskId = t.taskId → t'.peerId = t.peerId := by
  obtain ⟨hvalid, hsteps, -⟩ := task_lifecycle prepared_run
  refine ⟨by decide +kernel, fun t ht => ⟨(hvalid t ht).1, ?_⟩⟩
  intro e w' hkept hstep t' ht' hid
  exact ((hsteps e w' hkept hstep).2.2 t ht t' ht' hid).peerId

end P2pFile.Node
