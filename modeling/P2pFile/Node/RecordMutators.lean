/-
  P2pFile.Node.RecordMutators

  What a failed call of a mutator leaves in a `TaskRecord` (`src/node/core/task_model.rs`).

  `TaskModel` gives the new record or an error, which is all the store needs: it calls the
  mutators on clones.  As calls on `&mut self` they also leave a record when they fail: the
  fields that were assigned before the failure stay assigned.
-/

import P2pFile.Node.TaskLifecycle

namespace P2pFile.Node.TaskRecord

variable (c : Crypto) (r : TaskRecord)

/-- What `set_selection_binding` leaves: the binding is assigned before the validation. -/
def leftBound (group : Option TaskId) (sourceRoot : Option PathBuf) : TaskRecord :=
  if r.state ≠ .scanning then r
  else
    { r with
      groupId := group
      fileDetails := r.fileDetails.map fun d => { d with sourceRoot := sourceRoot } }

/-- What `commit_receipt` leaves: the receipt is set before the transition, which works on a
    clone. -/
def leftReceipt : TaskRecord :=
  match r.fileDetails, r.directoryDetails with
  | some d, _ =>
    if r.direction = .receive ∧ (d.publishPrepared || d.skippedExisting) = false then r
    else r.withFile { d with receiptCommitted := true }
  | none, some d =>
    if r.direction = .receive ∧ d.publishPrepared = false then r
    else r.withDirectory { d with receiptCommitted := true }
  | none, none => r

/-- What `commit_skipped` leaves: the mark is set before the receipt. -/
def leftSkipped : TaskRecord :=
  match r.fileDetails with
  | none => r
  | some d =>
    if d.incremental = false ∨ d.publishPrepared = true ∨ r.state ≠ .finalizing then r
    else (r.withFile { d with skippedExisting := true }).leftReceipt

inductive Mutator where
  | setSelectionBinding (group : Option TaskId) (sourceRoot : Option PathBuf)
  | setProgressHint (hint : ProgressHint)
  | preparePublication
  | commitReceipt (now : Int)
  | enableIncremental
  | commitSkipped (now : Int)
  | cancel (now : Int)
  | transitionTo (next : TaskState) (diagnostic : Option TaskDiagnostic) (now : Int)

namespace Mutator

def result : Mutator → Except TaskModelError TaskRecord
  | .setSelectionBinding group sourceRoot => r.setSelectionBinding c group sourceRoot
  | .setProgressHint hint => r.setProgressHint hint
  | .preparePublication => r.preparePublication
  | .commitReceipt now => r.commitReceipt c now
  | .enableIncremental => r.enableIncremental
  | .commitSkipped now => r.commitSkipped c now
  | .cancel now => r.cancel c now
  | .transitionTo next diagnostic now => r.transitionTo c next diagnostic now

/-- The record after a failure.  The other mutators assign nothing before their last check,
    or work on a clone. -/
def left : Mutator → TaskRecord
  | .setSelectionBinding group sourceRoot => r.leftBound group sourceRoot
  | .commitReceipt _ => r.leftReceipt
  | .commitSkipped _ => r.leftSkipped
  | _ => r

/-- A call: what it returns, and the record afterwards. -/
def call (m : Mutator) : Except TaskModelError Unit × TaskRecord :=
  match m.result c r with
  | .ok updated => (.ok (), updated)
  | .error err => (.error err, m.left r)

/-- The calls that may assign a field and fail then. -/
def Early : Mutator → Prop
  | .setSelectionBinding _ _ => r.state = .scanning
  | .commitReceipt _ => r.state ≠ .finalizing ∧ r.state ≠ .completed
  | _ => False

end Mutator

variable {c r} {now : Int} {err : TaskModelError} {d : FileTaskDetails}

variable (now) in
/-- A receipt is valid together with the state `Completed`. -/
theorem Valid.receiptFile (h : r.Valid c) (hfile : r.fileDetails = some d) (skipped : Bool)
    (hprepared : r.direction = .receive → d.publishPrepared = true ∨ skipped)
    (hskipped : skipped = true → d.incremental = true ∧ d.publishPrepared = false) :
    ((r.withFile { d with receiptCommitted := true, skippedExisting := skipped }).moved
      .completed none now).Valid c := by
  have hchecks := valid_iff.mp h
  obtain ⟨hflags, hbound⟩ := hchecks.file d hfile
  have hnone : r.directoryDetails = none := hchecks.exclusive.resolve_left (by simp [hfile])
  refine valid_iff.mpr { hchecks with
    file := ?_, exclusive := .inr hnone, directory := ?_, root := ?_
    rest := { hchecks.rest.moved (by decide) with } }
  · intro d' hd'
    cases hd'
    refine ⟨⟨by simp [moved], hflags.sender, fun hdir _ => hprepared hdir, hflags.grouped, ?_⟩,
      { hbound with }⟩
    exact fun hskip => ⟨(hskipped hskip).1, rfl, (hskipped hskip).2⟩
  · intro d' hd'
    cases hnone.symm.trans hd'
  · intro d' hd'
    cases hd'
    exact hchecks.root d hfile

variable (now) in
theorem Valid.receiptDirectory {d : DirectoryTaskDetails} (h : r.Valid c)
    (hdirectory : r.directoryDetails = some d)
    (hprepared : r.direction = .receive → d.publishPrepared = true) :
    ((r.withDirectory { d with receiptCommitted := true }).moved .completed none now).Valid c := by
  have hchecks := valid_iff.mp h
  obtain ⟨hflags, hbound⟩ := hchecks.directory d hdirectory
  have hnone : r.fileDetails = none := hchecks.exclusive.resolve_right (by simp [hdirectory])
  refine valid_iff.mpr { hchecks with
    file := ?_, exclusive := .inl hnone, directory := ?_
    rest := { hchecks.rest.moved (by decide) with } }
  · intro d' hd'
    cases hnone.symm.trans hd'
  · intro d' hd'
    cases hd'
    exact ⟨⟨by simp [moved], hflags.sender, fun hdir _ => hprepared hdir⟩, { hbound with }⟩

end P2pFile.Node.TaskRecord
