/-
  P2pFile.Node.TaskRecords

  What a valid task record is, and what the operations do to one.

  `Changed` has one constructor for each way in which an operation changes a record,
  with the guards of the source.  `Later` is what every change keeps, and what a whole
  run keeps since it is transitive.
-/

import P2pFile.Node.TaskModel

namespace P2pFile.Node

open Lib Protocol Storage

variable {c : Crypto}

namespace TaskRecord

/-! ## Valid records -/

/-- The record passes `validate`. -/
def Valid (c : Crypto) (r : TaskRecord) : Prop := r.validate c = .ok ()

instance (r : TaskRecord) : Decidable (r.Valid c) := inferInstanceAs (Decidable (_ = _))

/-- What `validate` checks of the file details that later changes can affect. -/
structure FileFlags (r : TaskRecord) (d : FileTaskDetails) : Prop where
  receipt : d.receiptCommitted = true ↔ r.state = .completed
  sender : r.direction = .send → d.publishPrepared = false
  published : r.direction = .receive → d.receiptCommitted = true →
    d.publishPrepared = true ∨ d.skippedExisting = true
  grouped : d.incremental = true → r.groupId.isNone = false
  skipped : d.skippedExisting = true →
    d.incremental = true ∧ d.receiptCommitted = true ∧ d.publishPrepared = false

/-- The checks of the file details that no change affects. -/
structure FileBound (c : Crypto) (identity : ManifestIdentity) (d : FileTaskDetails) : Prop where
  manifest : (d.manifest.validate c).toBool = true
  path : (validateRelativePath d.relativePath).toBool = true
  name : lastComponent d.relativePath = d.manifest.fileName
  identity : ManifestIdentity.blake3 d.manifest.rootHash d.manifest.totalLen
    d.manifest.chunkSize = .ok identity
  chunks : d.manifest.chunks.length ≤ maxChunks

variable {ε α : Type}

/-- A check before the rest of a validator. -/
theorem guard_ok {β : Type} {p : Prop} [Decidable p] {err : ε} {f : β → Except ε α} {x : Except ε α}
    {a : α} : (if p then (throw err : Except ε β) >>= f else x) = .ok a ↔ ¬ p ∧ x = .ok a := by
  by_cases h : p
  · simp [h, throw, throwThe, MonadExceptOf.throw, bind, Except.bind]
  · simp [h]

/-- One validator after the other. -/
theorem unit_bind_ok {x : Except ε Unit} {f : Unit → Except ε α} {a : α} :
    (x >>= f) = .ok a ↔ x = .ok () ∧ f () = .ok a := by
  rw [bind_eq_ok]
  exact ⟨fun ⟨_, hx, hf⟩ => ⟨hx, hf⟩, fun ⟨hx, hf⟩ => ⟨(), hx, hf⟩⟩

/-- The last check of a validator. -/
theorem last_guard_ok {p : Prop} [Decidable p] {err : ε} :
    (if p then (throw err : Except ε Unit) else pure ()) = .ok () ↔ ¬ p := by
  by_cases h : p
  · simp [h, throw, throwThe, MonadExceptOf.throw]
  · simp [h, pure, Except.pure]

/-- The identity that the details give is that of the record. -/
theorem identityDiffers_iff (r : TaskRecord) (root : Bytes 32) (total : UInt64) (size : UInt32) :
    (∃ b, r.identityDiffers root total size = .ok b ∧ ¬ b = true) ↔
      ManifestIdentity.blake3 root total size = .ok r.manifestIdentity := by
  unfold identityDiffers
  simp only [bind_eq_ok]
  constructor
  · rintro ⟨b, ⟨identity, hident, hb⟩, hsame⟩
    have hb : (r.manifestIdentity != identity) = b := Except.ok.inj hb
    rw [← hb] at hsame
    simp only [bne_iff_ne, ne_eq, not_not] at hsame
    rw [hident, hsame]
  · intro hident
    exact ⟨false, ⟨_, hident, by simp [pure, Except.pure]⟩, by simp⟩

/-- The last check of the file details. -/
theorem fileFlags_iff (r : TaskRecord) (d : FileTaskDetails) :
    ¬ (decide (d.manifest.chunks.length > maxChunks)
      || d.receiptCommitted != (r.state == .completed)
      || (r.direction == .send && d.publishPrepared)
      || (r.direction == .receive && d.receiptCommitted && !d.publishPrepared && !d.skippedExisting)
      || (d.incremental && r.groupId.isNone)
      || (d.skippedExisting && (!d.incremental || !d.receiptCommitted || d.publishPrepared)))
        = true ↔ d.manifest.chunks.length ≤ maxChunks ∧ r.FileFlags d := by
  constructor
  · intro h
    simp only [Bool.not_eq_true, Bool.or_eq_false_iff, decide_eq_false_iff_not, gt_iff_lt,
      Nat.not_lt] at h
    obtain ⟨⟨⟨⟨⟨hchunks, hreceipt⟩, hsender⟩, hpublished⟩, hgrouped⟩, hskipped⟩ := h
    refine ⟨hchunks, ?_, ?_, ?_, ?_, ?_⟩ <;> grind
  · rintro ⟨hchunks, hreceipt, hsender, hpublished, hgrouped, hskipped⟩
    grind

variable {r : TaskRecord}

theorem validateFile_iff {d : FileTaskDetails} :
    r.validateFile c d = .ok () ↔ r.FileFlags d ∧ FileBound c r.manifestIdentity d := by
  unfold validateFile
  simp only [bind_eq_ok, guard_ok, last_guard_ok, fileFlags_iff, Bool.not_eq_false, ne_eq, not_not]
  constructor
  · rintro ⟨hmanifest, hpath, hname, b, hb, hsame, hchunks, hflags⟩
    have hident := (identityDiffers_iff ..).mp ⟨b, hb, hsame⟩
    exact ⟨hflags, hmanifest, hpath, hname, hident, hchunks⟩
  · rintro ⟨hflags, hmanifest, hpath, hname, hident, hchunks⟩
    obtain ⟨b, hb, hsame⟩ := (identityDiffers_iff ..).mpr hident
    exact ⟨hmanifest, hpath, hname, b, hb, hsame, hchunks, hflags⟩

/-- What `validate` checks of the directory details that later changes can affect. -/
structure DirectoryFlags (r : TaskRecord) (d : DirectoryTaskDetails) : Prop where
  receipt : d.receiptCommitted = true ↔ r.state = .completed
  sender : r.direction = .send → d.publishPrepared = false
  published : r.direction = .receive → d.receiptCommitted = true → d.publishPrepared = true

/-- The checks of the directory details that no change affects. -/
structure DirectoryBound (c : Crypto) (identity : ManifestIdentity) (d : DirectoryTaskDetails) :
    Prop where
  path : (validateRelativePath d.relativePath).toBool = true
  identity : ManifestIdentity.blake3 (c.hash (utf8 d.relativePath)) 0 1 = .ok identity

theorem directoryFlags_iff (r : TaskRecord) (d : DirectoryTaskDetails) :
    ¬ (d.receiptCommitted != (r.state == .completed)
      || (r.direction == .send && d.publishPrepared)
      || (r.direction == .receive && d.receiptCommitted && !d.publishPrepared)) = true ↔
      r.DirectoryFlags d := by
  constructor
  · intro h
    simp only [Bool.not_eq_true, Bool.or_eq_false_iff] at h
    refine ⟨?_, ?_, ?_⟩ <;> grind
  · rintro ⟨hreceipt, hsender, hpublished⟩
    grind

variable {d : DirectoryTaskDetails}

theorem validateDirectory_iff : r.validateDirectory c d = .ok () ↔
      r.DirectoryFlags d ∧ DirectoryBound c r.manifestIdentity d := by
  unfold validateDirectory
  simp only [bind_eq_ok, guard_ok, last_guard_ok, directoryFlags_iff, Bool.not_eq_false]
  constructor
  · rintro ⟨hpath, b, hb, hsame, hflags⟩
    exact ⟨hflags, hpath, (identityDiffers_iff ..).mp ⟨b, hb, hsame⟩⟩
  · rintro ⟨hflags, hpath, hident⟩
    obtain ⟨b, hb, hsame⟩ := (identityDiffers_iff ..).mpr hident
    exact ⟨hpath, b, hb, hsame, hflags⟩

/-- What `validate` checks of the other fields. -/
@[mk_iff]
structure RestOk (r : TaskRecord) : Prop where
  absolute : r.localPath.path.isAbsolute = true
  direction : (r.direction == .send) = r.localPath.isSenderSource
  created : 0 ≤ r.createdAtUnixMs
  updated : r.createdAtUnixMs ≤ r.updatedAtUnixMs
  hint : ∀ hint ∈ r.progressHint,
    hint.verifiedBytes ≤ r.manifestIdentity.totalBytes ∧ 0 ≤ hint.sampledAtUnixMs
  diagnosed : r.state = .failed → r.diagnostic ≠ none

theorem validateRest_iff : r.validateRest = .ok () ↔ r.RestOk := by
  unfold validateRest
  simp only [guard_ok, last_guard_ok, Bool.not_eq_false, ne_eq, not_not, not_or, Int.not_lt,
    not_and]
  have hhint : (¬ (r.progressHint.any fun hint =>
      hint.verifiedBytes > r.manifestIdentity.totalBytes || hint.sampledAtUnixMs < 0) = true) ↔
      ∀ hint ∈ r.progressHint,
        hint.verifiedBytes ≤ r.manifestIdentity.totalBytes ∧ 0 ≤ hint.sampledAtUnixMs := by
    cases r.progressHint with
    | none => simp
    | some hint => simp [UInt64.not_lt]
  rw [hhint, restOk_iff, and_assoc]

/-- What `validate` has checked. -/
@[mk_iff]
structure Checks (c : Crypto) (r : TaskRecord) : Prop where
  schema : r.schemaVersion = taskRecordSchemaVersion
  identity : r.manifestIdentity.validate = .ok ()
  file : ∀ d ∈ r.fileDetails, r.FileFlags d ∧ FileBound c r.manifestIdentity d
  exclusive : r.fileDetails = none ∨ r.directoryDetails = none
  directory : ∀ d ∈ r.directoryDetails, r.DirectoryFlags d ∧ DirectoryBound c r.manifestIdentity d
  root : ∀ d ∈ r.fileDetails, ∀ root ∈ d.sourceRoot, r.validateSourceRoot d root = .ok ()
  rest : r.RestOk

theorem option_forM_ok {o : Option α} {f : α → Except ε Unit} :
    o.forM f = .ok () ↔ ∀ a ∈ o, f a = .ok () := by
  cases o with
  | none => simp [Option.forM, pure, Except.pure]
  | some a => simp [Option.forM]

theorem valid_iff : r.Valid c ↔ r.Checks c := by
  have hexclusive : (r.fileDetails.isSome && r.directoryDetails.isSome) = true ↔
      ¬ (r.fileDetails = none ∨ r.directoryDetails = none) := by
    cases r.fileDetails <;> cases r.directoryDetails <;> simp
  unfold Valid validate
  simp only [unit_bind_ok, guard_ok, option_forM_ok, validateFile_iff, validateDirectory_iff,
    validateRest_iff, ne_eq, not_not, hexclusive]
  exact (checks_iff c r).symm

/-! ## Changes of a record -/

/-- The diagnostic of the record says that it may be retried. -/
def retryable (r : TaskRecord) : Bool := r.diagnostic.any fun d => d.retryable

/-- The record after a transition. -/
def moved (r : TaskRecord) (next : TaskState) (diagnostic : Option TaskDiagnostic) (now : Int) :
    TaskRecord :=
  { r with
    state := next
    diagnostic := r.nextDiagnostic next diagnostic
    updatedAtUnixMs := r.touchedAt now }

/-- The record after it has been cancelled. -/
def cancelled (r : TaskRecord) (now : Int) : TaskRecord :=
  { r with
    state := .failed
    diagnostic := some ⟨.userCancelled, false⟩
    updatedAtUnixMs := r.touchedAt now }

def withFile (r : TaskRecord) (d : FileTaskDetails) : TaskRecord := { r with fileDetails := some d }

def withDirectory (r : TaskRecord) (d : DirectoryTaskDetails) : TaskRecord :=
  { r with directoryDetails := some d }

/-- How an operation changes a record. -/
inductive Changed (r : TaskRecord) : TaskRecord → Prop
  | transition {next : TaskState} {diagnostic : Option TaskDiagnostic} {now : Int}
      (hallows : r.state.allows next r.retryable = true) :
      Changed r (r.moved next diagnostic now)
  | cancel {now : Int} (hstate : r.state ≠ .completed) (hprepared : r.publishPrepared = false)
      (hreceipt : r.receiptCommitted = false) : Changed r (r.cancelled now)
  | prepareFile {d : FileTaskDetails} (hfile : r.fileDetails = some d)
      (hstate : r.state = .finalizing) :
      Changed r (r.withFile { d with publishPrepared := true })
  | prepareDirectory {d : DirectoryTaskDetails} (hdirectory : r.directoryDetails = some d)
      (hstate : r.state = .finalizing) :
      Changed r (r.withDirectory { d with publishPrepared := true })
  | receiptFile {d : FileTaskDetails} {now : Int} (hfile : r.fileDetails = some d)
      (hprepared : r.direction = .receive → d.publishPrepared = true ∨ d.skippedExisting = true)
      (hstate : r.state = .finalizing) :
      Changed r ((r.withFile { d with receiptCommitted := true }).moved .completed none now)
  | receiptDirectory {d : DirectoryTaskDetails} {now : Int}
      (hdirectory : r.directoryDetails = some d)
      (hprepared : r.direction = .receive → d.publishPrepared = true)
      (hstate : r.state = .finalizing) :
      Changed r ((r.withDirectory { d with receiptCommitted := true }).moved .completed none now)
  | skip {d : FileTaskDetails} {now : Int} (hfile : r.fileDetails = some d)
      (hprepared : d.publishPrepared = false) (hstate : r.state = .finalizing) :
      Changed r ((r.withFile { d with skippedExisting := true, receiptCommitted := true }).moved
        .completed none now)
  | incremental {d : FileTaskDetails} (hfile : r.fileDetails = some d) :
      Changed r (r.withFile { d with incremental := true })
  | hint {hint : ProgressHint} : Changed r { r with progressHint := some hint }

variable {state : TaskState}

/-- Only a record that is being finalized can be completed. -/
theorem allows_completed {b : Bool} (h : state.allows .completed b = true) :
    state = .finalizing := by
  cases state <;> simp_all [TaskState.allows]

variable {r' : TaskRecord} {next : TaskState} {diagnostic : Option TaskDiagnostic} {now : Int}

variable (h : r.transitionTo c next diagnostic now = .ok r')

include h

theorem transitionTo_ok :
    r.state.allows next r.retryable = true ∧ r' = r.moved next diagnostic now := by
  unfold transitionTo at h
  simp only [guard_ok, unit_bind_ok] at h
  obtain ⟨hallows, -, -, hr⟩ := h
  simp only [Bool.not_eq_true', Bool.not_eq_false] at hallows
  exact ⟨hallows, (Except.ok.inj hr).symm⟩

theorem Changed.of_transitionTo : r.Changed r' := by
  obtain ⟨hallows, rfl⟩ := transitionTo_ok h
  exact .transition hallows

omit h

theorem any_or_false {o : Option α} {f g : α → Bool} (h : ¬ (o.any fun a => f a || g a) = true) :
    o.any f = false ∧ o.any g = false := by
  cases o with
  | none => exact ⟨rfl, rfl⟩
  | some a => simpa using h

theorem cancel_ok (h : r.cancel c now = .ok r') :
    r.state ≠ .completed ∧ r.publishPrepared = false ∧ r.receiptCommitted = false ∧
      r' = r.cancelled now := by
  unfold cancel at h
  simp only [guard_ok, unit_bind_ok] at h
  obtain ⟨hopen, -, hr⟩ := h
  simp only [not_or] at hopen
  have hfile := any_or_false hopen.2.1
  have hdirectory := any_or_false hopen.2.2
  refine ⟨hopen.1, ?_, ?_, (Except.ok.inj hr).symm⟩
  · rw [publishPrepared, hfile.1, hdirectory.1]
    rfl
  · rw [receiptCommitted, hfile.2, hdirectory.2]
    rfl

theorem Changed.of_cancel (h : r.cancel c now = .ok r') : r.Changed r' := by
  obtain ⟨hopen, hprep, hreceipt, rfl⟩ := cancel_ok h
  exact .cancel hopen hprep hreceipt

theorem Changed.of_preparePublication (h : r.preparePublication = .ok r') : r.Changed r' := by
  unfold preparePublication at h
  split at h
  · cases h
  rename_i hstate
  simp only [ne_eq, not_or, not_not] at hstate
  split at h
  next d _ hfile =>
    cases h
    exact .prepareFile hfile hstate.2
  next d hfile hdirectory =>
    cases h
    exact .prepareDirectory hdirectory hstate.2
  · cases h

theorem Changed.of_commitReceipt (h : r.commitReceipt c now = .ok r') : r.Changed r' := by
  unfold commitReceipt at h
  split at h
  next d _ hfile =>
    split at h
    · cases h
    rename_i hprep
    obtain ⟨hallows, rfl⟩ := transitionTo_ok h
    refine .receiptFile hfile ?_ (allows_completed hallows)
    intro hdir
    by_contra hneither
    simp only [not_or, Bool.not_eq_true] at hneither
    exact hprep ⟨hdir, by rw [hneither.1, hneither.2]; rfl⟩
  next d hfile hdirectory =>
    split at h
    · cases h
    rename_i hprep
    obtain ⟨hallows, rfl⟩ := transitionTo_ok h
    refine .receiptDirectory hdirectory ?_ (allows_completed hallows)
    intro hdir
    simpa [hdir] using hprep
  · cases h

theorem Changed.of_commitSkipped (h : r.commitSkipped c now = .ok r') : r.Changed r' := by
  unfold commitSkipped at h
  split at h
  · cases h
  rename_i d hfile
  split at h
  · cases h
  rename_i hguard
  simp only [not_or, ne_eq, not_not, Bool.not_eq_true] at hguard
  simp only [commitReceipt] at h
  split at h
  · cases h
  · obtain ⟨-, rfl⟩ := transitionTo_ok h
    exact .skip hfile hguard.2.1 hguard.2.2

theorem Changed.of_enableIncremental (h : r.enableIncremental = .ok r') : r.Changed r' := by
  unfold enableIncremental at h
  split at h
  next group d hgroup hfile =>
    split at h
    · cases h
    · cases h
      exact .incremental hfile
  · cases h

variable {hint : ProgressHint}

theorem setProgressHint_ok (h : r.setProgressHint hint = .ok r') :
    (hint.verifiedBytes ≤ r.manifestIdentity.totalBytes ∧ 0 ≤ hint.sampledAtUnixMs) ∧
      r' = { r with progressHint := some hint } := by
  unfold setProgressHint at h
  split at h
  · cases h
  next hok =>
    simp only [gt_iff_lt, not_or, UInt64.not_lt, Int.not_lt] at hok
    exact ⟨hok, (Except.ok.inj h).symm⟩

theorem Valid.withHint (h : r.Valid c)
    (hhint : hint.verifiedBytes ≤ r.manifestIdentity.totalBytes ∧ 0 ≤ hint.sampledAtUnixMs) :
    { r with progressHint := some hint }.Valid c := by
  have hchk := valid_iff.mp h
  refine valid_iff.mpr { hchk with file := ?_, directory := ?_, rest := ?_ }
  · intro d hd
    obtain ⟨hflags, hbound⟩ := hchk.file d hd
    exact ⟨{ hflags with }, hbound⟩
  · intro d hd
    obtain ⟨hflags, hbound⟩ := hchk.directory d hd
    exact ⟨{ hflags with }, hbound⟩
  · refine { hchk.rest with hint := ?_ }
    intro hint' hmem
    obtain rfl : hint = hint' := Option.some.inj hmem
    exact hhint

theorem RestOk.moved (h : r.RestOk) (hnext : next ≠ .failed) :
    (r.moved next diagnostic now).RestOk :=
  { h with
    updated := Int.le_trans h.updated (Int.le_max_right _ _)
    diagnosed := fun hfailed => absurd hfailed hnext }

/-- A record that is not completed stays valid when it is interrupted. -/
theorem Valid.interrupted (h : r.Valid c) (hopen : r.state ≠ .completed) :
    (r.moved .interrupted diagnostic now).Valid c := by
  have hchk := valid_iff.mp h
  have hreceipt : ∀ {p : Prop}, (p ↔ r.state = .completed) →
      (p ↔ TaskState.interrupted = .completed) := by
    intro p hp
    rw [hp]
    exact ⟨fun hc => absurd hc hopen, fun hc => absurd hc (by decide)⟩
  refine valid_iff.mpr { hchk with
    file := ?_, directory := ?_, rest := hchk.rest.moved (by decide) }
  · intro d hd
    obtain ⟨hflags, hbound⟩ := hchk.file d hd
    exact ⟨{ hflags with receipt := hreceipt hflags.receipt }, hbound⟩
  · intro d hd
    obtain ⟨hflags, hbound⟩ := hchk.directory d hd
    exact ⟨{ hflags with receipt := hreceipt hflags.receipt }, hbound⟩

/-! ## What every change keeps -/

/-- The two records are of the same task. -/
structure SameBinding (r r' : TaskRecord) : Prop where
  taskId : r'.taskId = r.taskId
  peerId : r'.peerId = r.peerId
  direction : r'.direction = r.direction
  localPath : r'.localPath = r.localPath
  manifestIdentity : r'.manifestIdentity = r.manifestIdentity
  groupId : r'.groupId = r.groupId
  file : (r'.fileDetails.map fun d => (d.relativePath, d.manifest, d.sourceRoot)) =
    r.fileDetails.map fun d => (d.relativePath, d.manifest, d.sourceRoot)
  directory : (r'.directoryDetails.map fun d => d.relativePath) =
    r.directoryDetails.map fun d => d.relativePath

/-- The record has failed for good, as one that the user has cancelled. -/
def Dead (r : TaskRecord) : Prop := r.state = .failed ∧ r.retryable = false

structure Later (r r' : TaskRecord) : Prop where
  binding : SameBinding r r'
  updated : r.updatedAtUnixMs ≤ r'.updatedAtUnixMs
  completed : r.state = .completed → r'.state = .completed
  dead : r.Dead → r'.Dead

theorem SameBinding.refl (r : TaskRecord) : SameBinding r r :=
  ⟨rfl, rfl, rfl, rfl, rfl, rfl, rfl, rfl⟩

theorem SameBinding.trans {r₁ r₂ r₃ : TaskRecord} (h : SameBinding r₁ r₂)
    (h' : SameBinding r₂ r₃) : SameBinding r₁ r₃ where
  taskId := h'.taskId.trans h.taskId
  peerId := h'.peerId.trans h.peerId
  direction := h'.direction.trans h.direction
  localPath := h'.localPath.trans h.localPath
  manifestIdentity := h'.manifestIdentity.trans h.manifestIdentity
  groupId := h'.groupId.trans h.groupId
  file := h'.file.trans h.file
  directory := h'.directory.trans h.directory

variable {d' : FileTaskDetails}

theorem SameBinding.withFile {d : FileTaskDetails} (hfile : r.fileDetails = some d)
    (hsame : (d'.relativePath, d'.manifest, d'.sourceRoot) =
      (d.relativePath, d.manifest, d.sourceRoot)) : SameBinding r (r.withFile d') :=
  ⟨rfl, rfl, rfl, rfl, rfl, rfl, by rw [hfile]; exact congrArg some hsame, rfl⟩

theorem SameBinding.withDirectory {d' : DirectoryTaskDetails}
    (hdirectory : r.directoryDetails = some d) (hsame : d'.relativePath = d.relativePath) :
    SameBinding r (r.withDirectory d') :=
  ⟨rfl, rfl, rfl, rfl, rfl, rfl, rfl, by rw [hdirectory]; exact congrArg some hsame⟩

theorem SameBinding.moved (h : SameBinding r r') : SameBinding r (r'.moved next diagnostic now) :=
  h.trans ⟨rfl, rfl, rfl, rfl, rfl, rfl, rfl, rfl⟩

theorem SameBinding.relativePath (h : SameBinding r r') : r'.relativePath = r.relativePath := by
  have hfile : (r'.fileDetails.map fun d => d.relativePath) =
      r.fileDetails.map fun d => d.relativePath := by
    have hall := congrArg (Option.map Prod.fst) h.file
    simpa only [Option.map_map, Function.comp_def] using hall
  unfold TaskRecord.relativePath
  rw [hfile, h.directory]

theorem Later.refl (r : TaskRecord) : Later r r := ⟨.refl r, Int.le_refl _, fun h => h, fun h => h⟩

theorem le_touchedAt (r : TaskRecord) (now : Int) : r.updatedAtUnixMs ≤ r.touchedAt now :=
  Int.le_max_right _ _

/-- From the two end states there is no transition, but for a failure that may be
    retried. -/
theorem not_allows_of_final {b : Bool} (h : state = .completed ∨ (state = .failed ∧ b = false)) :
    state.allows next b = false := by
  rcases h with rfl | ⟨rfl, rfl⟩ <;> cases next <;> rfl

theorem Changed.later (h : r.Changed r') : Later r r' := by
  cases h with
  | transition hallows =>
    refine ⟨.moved (.refl r), r.le_touchedAt _, ?_, ?_⟩
    · intro hcomp
      exact absurd hallows (by simp [not_allows_of_final (Or.inl hcomp)])
    · intro hdead
      exact absurd hallows (by simp [not_allows_of_final (Or.inr hdead)])
  | cancel hstate =>
    exact ⟨⟨rfl, rfl, rfl, rfl, rfl, rfl, rfl, rfl⟩, r.le_touchedAt _,
      fun hcomp => absurd hcomp hstate, fun _ => ⟨rfl, rfl⟩⟩
  | prepareFile hfile hstate | incremental hfile =>
    exact ⟨.withFile hfile rfl, Int.le_refl _, fun h => h, fun h => h⟩
  | prepareDirectory hdirectory hstate =>
    exact ⟨.withDirectory hdirectory rfl, Int.le_refl _, fun h => h, fun h => h⟩
  | receiptFile hfile hprep hstate | skip hfile hprep hstate =>
    exact ⟨.moved (.withFile hfile rfl), r.le_touchedAt _,
      fun _ => rfl, fun hdead => absurd (hdead.1.symm.trans hstate) (by decide)⟩
  | receiptDirectory hdirectory hprep hstate =>
    exact ⟨.moved (.withDirectory hdirectory rfl), r.le_touchedAt _,
      fun _ => rfl, fun hdead => absurd (hdead.1.symm.trans hstate) (by decide)⟩
  | hint =>
    exact ⟨⟨rfl, rfl, rfl, rfl, rfl, rfl, rfl, rfl⟩, Int.le_refl _, fun h => h, fun h => h⟩

/-- How a received file becomes completed. -/
theorem Changed.finishes (h : r.Changed r') (hvalid : r.Valid c) (hvalid' : r'.Valid c)
    (hdir : r.direction = .receive) (hfile' : r'.fileDetails = some d')
    (hopen : r.state ≠ .completed) (hcomp : r'.state = .completed) : r.state = .finalizing ∧
      ((r.publishPrepared = true ∧ d'.skippedExisting = false) ∨
        (d'.skippedExisting = true ∧ d'.publishPrepared = false)) := by
  have hflags' := ((valid_iff.mp hvalid').file d' hfile').1
  have hflags : ∀ d, r.fileDetails = some d → r.FileFlags d :=
    fun d hd => ((valid_iff.mp hvalid).file d hd).1
  cases h with
  | transition hallows =>
    -- The receipt is not committed by a plain transition.
    have hreceipt : d'.receiptCommitted = true := hflags'.receipt.mpr hcomp
    exact absurd ((hflags d' hfile').receipt.mp hreceipt) hopen
  | cancel => exact absurd hcomp (by decide : ¬ TaskState.failed = .completed)
  | receiptFile hfile hprep hstate =>
    rename_i d now
    obtain rfl : { d with receiptCommitted := true } = d' := Option.some.inj hfile'
    refine ⟨hstate, Or.inl ?_⟩
    have hskipped : d.skippedExisting = false := by
      by_contra hne
      have hreceipt := ((hflags d hfile).skipped (by simpa using hne)).2.1
      exact hopen ((hflags d hfile).receipt.mp hreceipt)
    have hpublished : d.publishPrepared = true := by
      rcases hprep hdir with hp | hs
      · exact hp
      · exact absurd hs (by simp [hskipped])
    exact ⟨by simp [publishPrepared, hfile, hpublished], hskipped⟩
  | receiptDirectory hdirectory hprep hstate =>
    -- A record with directory details has no file.
    rcases (valid_iff.mp hvalid').exclusive with hnone | hnone
    · rw [hnone] at hfile'
      cases hfile'
    · exact absurd hnone (by simp [withDirectory, moved])
  | skip hfile hprep hstate =>
    rename_i d now
    obtain rfl : { d with skippedExisting := true, receiptCommitted := true } = d' :=
      Option.some.inj hfile'
    exact ⟨hstate, Or.inr ⟨rfl, hprep⟩⟩
  | _ => exact absurd hcomp hopen

end TaskRecord

end P2pFile.Node
