/-
  P2pFile.Node.TaskModel

  Durable task records and their lifecycle (`src/node/core/task_model.rs`).

  The mutators of a record work on a clone that their callers drop on an error, so each
  is a function that returns the changed record or an error.  Timestamps are `i64`
  values that are only compared, hence integers.
-/

import P2pFile.Node.HostPath

namespace P2pFile.Node

open Lib Protocol Storage

/-! ## Identifiers -/

/-- The bytes of a text. -/
def utf8 (text : String) : List UInt8 := text.toUTF8.data.toList

/-- `b'0'..=b'9'` or `b'a'..=b'f'`. -/
def isLowerHex (b : UInt8) : Bool := (0x30 ≤ b && b ≤ 0x39) || (0x61 ≤ b && b ≤ 0x66)

/-- The value of a hexadecimal digit. -/
def hexDigit (b : UInt8) : Option UInt8 :=
  if 0x30 ≤ b ∧ b ≤ 0x39 then some (b - 0x30)
  else if 0x61 ≤ b ∧ b ≤ 0x66 then some (b - 0x61 + 10)
  else if 0x41 ≤ b ∧ b ≤ 0x46 then some (b - 0x41 + 10)
  else none

/-- `hex::decode`. -/
def hexDecode : List UInt8 → Option (List UInt8)
  | [] => some []
  | [_] => none
  | a :: b :: rest => do
    let high ← hexDigit a
    let low ← hexDigit b
    let bytes ← hexDecode rest
    some ((high * 16 + low) :: bytes)

/-- The text of `n` bytes in canonical lowercase hexadecimal. -/
def isCanonicalHex (n : Nat) (text : String) : Bool :=
  (utf8 text).length == 2 * n && (utf8 text).all isLowerHex
    && (hexDecode (utf8 text)).any fun bytes => bytes.length == n

/-- `TaskId`: 32 lowercase hexadecimal characters. -/
structure TaskId where
  text : String
  canonical : isCanonicalHex 16 text = true
  deriving DecidableEq

/-- The order of identifiers is that of their texts, byte by byte. -/
def TaskId.le (a b : TaskId) : Bool := decide (utf8 a.text ≤ utf8 b.text)

/-- `PeerId`: a node identifier as lowercase hexadecimal. -/
structure PeerId where
  text : String
  canonical : isCanonicalHex 16 text = true
  deriving DecidableEq

/-- Two texts that the identifiers of concrete runs have. -/
theorem canonical_ascending : isCanonicalHex 16 "00112233445566778899aabbccddeeff" = true := by
  decide

theorem canonical_descending : isCanonicalHex 16 "ffeeddccbbaa99887766554433221100" = true := by
  decide

/-! ## States and diagnostics -/

inductive TaskDirection where
  | send
  | receive
  deriving DecidableEq

inductive TaskState where
  | scanning
  | queued
  | connecting
  | negotiating
  | transferring
  | pausing
  | paused
  | finalizing
  | completed
  | interrupted
  | failed
  deriving DecidableEq

namespace TaskState

def needsStartupRecovery : TaskState → Bool
  | .scanning | .queued | .connecting | .negotiating | .transferring | .pausing
  | .finalizing => true
  | .paused | .completed | .interrupted | .failed => false

/-- The transition table. -/
def allows (state next : TaskState) (retryableFailure : Bool) : Bool :=
  match state, next with
  | .scanning, .queued | .scanning, .interrupted | .scanning, .failed => true
  | .queued, .connecting | .queued, .pausing | .queued, .interrupted | .queued, .failed => true
  | .connecting, .negotiating | .connecting, .pausing | .connecting, .interrupted
  | .connecting, .failed => true
  | .negotiating, .transferring | .negotiating, .pausing | .negotiating, .interrupted
  | .negotiating, .failed => true
  | .transferring, .pausing | .transferring, .finalizing | .transferring, .interrupted
  | .transferring, .failed => true
  | .pausing, .paused | .pausing, .finalizing | .pausing, .interrupted | .pausing, .failed => true
  | .paused, .queued | .paused, .interrupted | .paused, .failed => true
  | .finalizing, .completed | .finalizing, .interrupted | .finalizing, .failed => true
  | .interrupted, .queued | .interrupted, .failed => true
  | .failed, .queued => retryableFailure
  | _, _ => false

end TaskState

inductive TaskErrorCode where
  | sourceUnavailable
  | sourceChanged
  | peerUnavailable
  | peerBusy
  | permissionDenied
  | diskFull
  | integrityMismatch
  | invalidRemoteData
  | unsupportedPeer
  | networkInterrupted
  | applicationRestarted
  | storageUnavailable
  | userCancelled
  | other
  | spaceCheckUnavailable
  | receiveBudgetBusy
  | filesystemMismatch
  deriving DecidableEq

structure TaskDiagnostic where
  code : TaskErrorCode
  retryable : Bool
  deriving DecidableEq

inductive TaskModelError where
  | invalidTaskId
  | invalidPeerId
  | invalidManifestIdentity
  | relativeLocalPath
  | directionPathMismatch
  | unsupportedSchemaVersion (version : UInt32)
  | invalidTimestamps
  | invalidProgressHint
  | missingFailureDiagnostic
  | newTaskMustStartScanning
  | invalidTransition (old new : TaskState)
  | wrongDirection
  | notRecoverable
  | immutableBinding
  | clockOutOfRange
  deriving DecidableEq

/-- A reading of the wall clock, `system_time_unix_ms`. -/
abbrev Clock := Except TaskModelError Int

/-! ## Parts of a record -/

/-- `ManifestIdentity`; the only algorithm is `Blake3V1`. -/
structure ManifestIdentity where
  rootHash : String
  totalBytes : UInt64
  chunkSize : UInt32
  chunkCount : UInt64
  deriving DecidableEq

namespace ManifestIdentity

def validate (identity : ManifestIdentity) : Except TaskModelError Unit :=
  if !isCanonicalHex 32 identity.rootHash
      || identity.chunkSize == 0
      || identity.chunkCount != divCeil identity.totalBytes identity.chunkSize.toUInt64
  then .error .invalidManifestIdentity
  else .ok ()

/-- `ManifestIdentity::blake3`. -/
def blake3 (rootHash : Bytes 32) (totalBytes : UInt64) (chunkSize : UInt32) :
    Except TaskModelError ManifestIdentity :=
  if chunkSize == 0 then .error .invalidManifestIdentity
  else
    let identity : ManifestIdentity :=
      ⟨hexEncode rootHash.toList, totalBytes, chunkSize, divCeil totalBytes chunkSize.toUInt64⟩
    match identity.validate with
    | .ok () => .ok identity
    | .error err => .error err

end ManifestIdentity

inductive LocalTaskPath where
  | source (path : PathBuf)
  | receiveRoot (path : PathBuf)
  deriving DecidableEq

namespace LocalTaskPath

def path : LocalTaskPath → PathBuf
  | .source path => path
  | .receiveRoot path => path

def isSenderSource : LocalTaskPath → Bool
  | .source _ => true
  | .receiveRoot _ => false

/-- `LocalTaskPath::source`, or `receive_root` for a receiver. -/
def new (direction : TaskDirection) (path : PathBuf) : Except TaskModelError LocalTaskPath :=
  if !path.isAbsolute then .error .relativeLocalPath
  else
    match direction with
    | .send => .ok (.source path)
    | .receive => .ok (.receiveRoot path)

end LocalTaskPath

structure ProgressHint where
  verifiedBytes : UInt64
  sampledAtUnixMs : Int
  deriving DecidableEq

structure FileTaskDetails where
  relativePath : String
  manifest : FileManifest
  publishPrepared : Bool
  receiptCommitted : Bool
  sourceRoot : Option PathBuf
  incremental : Bool
  skippedExisting : Bool
  deriving DecidableEq

structure DirectoryTaskDetails where
  relativePath : String
  publishPrepared : Bool
  receiptCommitted : Bool
  deriving DecidableEq

/-! ## Records -/

def taskRecordSchemaVersion : UInt32 := 1

/-- `MAX_CHUNKS` of the node protocol. -/
def maxChunks : Nat := 65536

structure TaskRecord where
  schemaVersion : UInt32
  taskId : TaskId
  peerId : PeerId
  direction : TaskDirection
  localPath : LocalTaskPath
  manifestIdentity : ManifestIdentity
  state : TaskState
  createdAtUnixMs : Int
  updatedAtUnixMs : Int
  diagnostic : Option TaskDiagnostic
  progressHint : Option ProgressHint
  fileDetails : Option FileTaskDetails
  directoryDetails : Option DirectoryTaskDetails
  groupId : Option TaskId
  deriving DecidableEq

namespace TaskRecord

variable (c : Crypto) (r : TaskRecord)

def relativePath : Option String :=
  (r.fileDetails.map fun d => d.relativePath) <|> r.directoryDetails.map fun d => d.relativePath

def receiptCommitted : Bool :=
  (r.fileDetails.any fun d => d.receiptCommitted)
    || r.directoryDetails.any fun d => d.receiptCommitted

/-- Whether the publication of the record has been prepared. -/
def publishPrepared : Bool :=
  (r.fileDetails.any fun d => d.publishPrepared)
    || r.directoryDetails.any fun d => d.publishPrepared

/-- The identity that the details give does not match that of the record. -/
def identityDiffers (rootHash : Bytes 32) (totalBytes : UInt64)
    (chunkSize : UInt32) : Except TaskModelError Bool := do
  let identity ← ManifestIdentity.blake3 rootHash totalBytes chunkSize
  return r.manifestIdentity != identity

variable (d : FileTaskDetails)

/-- What `validate` checks of the file details. -/
def validateFile : Except TaskModelError Unit := do
  if (d.manifest.validate c).toBool = false then throw .invalidManifestIdentity
  if (validateRelativePath d.relativePath).toBool = false then throw .invalidManifestIdentity
  if lastComponent d.relativePath ≠ d.manifest.fileName then throw .invalidManifestIdentity
  if ← r.identityDiffers d.manifest.rootHash d.manifest.totalLen d.manifest.chunkSize then
    throw .invalidManifestIdentity
  if d.manifest.chunks.length > maxChunks
      || d.receiptCommitted != (r.state == .completed)
      || (r.direction == .send && d.publishPrepared)
      || (r.direction == .receive && d.receiptCommitted && !d.publishPrepared && !d.skippedExisting)
      || (d.incremental && r.groupId.isNone)
      || (d.skippedExisting && (!d.incremental || !d.receiptCommitted || d.publishPrepared))
  then throw .invalidManifestIdentity

/-- What `validate` checks of the directory details. -/
def validateDirectory (d : DirectoryTaskDetails) : Except TaskModelError Unit := do
  if (validateRelativePath d.relativePath).toBool = false then throw .invalidManifestIdentity
  if ← r.identityDiffers (c.hash (utf8 d.relativePath)) 0 1 then
    throw .invalidManifestIdentity
  if d.receiptCommitted != (r.state == .completed)
      || (r.direction == .send && d.publishPrepared)
      || (r.direction == .receive && d.receiptCommitted && !d.publishPrepared)
  then throw .invalidManifestIdentity

/-- What `validate` checks of the source root of a file below a selected directory. -/
def validateSourceRoot (root : PathBuf) : Except TaskModelError Unit := do
  if r.direction ≠ .send ∨ root.isAbsolute = false ∨ r.localPath.path.startsWith root = false then
    throw .invalidManifestIdentity
  match Storage.components d.relativePath with
  | top :: next :: rest =>
    let relative := PathBuf.ofString (String.ofList (['/'].intercalate (next :: rest)))
    if root.fileName ≠ some (PathBuf.ofString (String.ofList top)).bytes
        ∨ (root.join relative).components ≠ r.localPath.path.components
        ∨ root.toStr.isNone then
      throw .invalidManifestIdentity
  | _ => throw .invalidManifestIdentity

/-- What `validate` checks of the other fields. -/
def validateRest : Except TaskModelError Unit := do
  if r.localPath.path.isAbsolute = false then throw .relativeLocalPath
  if (r.direction == .send) ≠ r.localPath.isSenderSource then throw .directionPathMismatch
  if r.createdAtUnixMs < 0 ∨ r.updatedAtUnixMs < r.createdAtUnixMs then throw .invalidTimestamps
  if r.progressHint.any fun hint =>
      hint.verifiedBytes > r.manifestIdentity.totalBytes || hint.sampledAtUnixMs < 0 then
    throw .invalidProgressHint
  if r.state = .failed ∧ r.diagnostic = none then throw .missingFailureDiagnostic

def validate : Except TaskModelError Unit := do
  if r.schemaVersion ≠ taskRecordSchemaVersion then
    throw (.unsupportedSchemaVersion r.schemaVersion)
  r.manifestIdentity.validate
  r.fileDetails.forM (r.validateFile c)
  if r.fileDetails.isSome && r.directoryDetails.isSome then throw .invalidManifestIdentity
  r.directoryDetails.forM (r.validateDirectory c)
  r.fileDetails.forM fun d => d.sourceRoot.forM (r.validateSourceRoot d)
  r.validateRest

/-! ## Making and changing records -/

variable (taskId : TaskId) (peerId : PeerId) (direction : TaskDirection)

/-- The private `new`: a record that is being scanned, without details. -/
def new (localPath : LocalTaskPath) (manifestIdentity : ManifestIdentity) (now : Int) :
    Except TaskModelError TaskRecord := do
  let record : TaskRecord :=
    { schemaVersion := taskRecordSchemaVersion, taskId, peerId, direction, localPath,
      manifestIdentity, state := .scanning, createdAtUnixMs := now, updatedAtUnixMs := now,
      diagnostic := none, progressHint := none, fileDetails := none, directoryDetails := none,
      groupId := none }
  record.validate c
  return record

variable (path : PathBuf)

/-- `new_sender` and `new_receiver`; the identifier is a fresh one. -/
def newPlain (manifestIdentity : ManifestIdentity) (now : Int) :
    Except TaskModelError TaskRecord := do
  let localPath ← LocalTaskPath.new direction path
  new c taskId peerId direction localPath manifestIdentity now

variable (relativePath : String)

def newFile (manifest : FileManifest) (now : Int) : Except TaskModelError TaskRecord := do
  let identity ← ManifestIdentity.blake3 manifest.rootHash manifest.totalLen manifest.chunkSize
  let localPath ← LocalTaskPath.new direction path
  let record ← new c taskId peerId direction localPath identity now
  let record :=
    { record with
      fileDetails := some
        { relativePath, manifest, publishPrepared := false, receiptCommitted := false,
          sourceRoot := none, incremental := false, skippedExisting := false } }
  record.validate c
  return record

def newDirectory (groupId : Option TaskId) (now : Int) : Except TaskModelError TaskRecord := do
  let localPath ← LocalTaskPath.new direction path
  let identity ← ManifestIdentity.blake3 (c.hash (utf8 relativePath)) 0 1
  let record ← new c taskId peerId direction localPath identity now
  let record :=
    { record with
      directoryDetails := some { relativePath, publishPrepared := false, receiptCommitted := false }
      groupId := groupId }
  record.validate c
  return record

def setSelectionBinding (group : Option TaskId) (sourceRoot : Option PathBuf) :
    Except TaskModelError TaskRecord := do
  if r.state ≠ .scanning then throw .immutableBinding
  let record :=
    { r with
      groupId := group
      fileDetails := r.fileDetails.map fun d => { d with sourceRoot := sourceRoot } }
  record.validate c
  return record

/-- The diagnostic after a transition: queueing clears it, and a new one replaces it. -/
def nextDiagnostic (next : TaskState) (diagnostic : Option TaskDiagnostic) :
    Option TaskDiagnostic :=
  if next = .queued then none else if diagnostic.isSome then diagnostic else r.diagnostic

variable (now : Int)

/-- `now.max(created_at).max(updated_at)`. -/
def touchedAt : Int := max (max now r.createdAtUnixMs) r.updatedAtUnixMs

def transitionTo (next : TaskState) (diagnostic : Option TaskDiagnostic)
    (now : Int) : Except TaskModelError TaskRecord := do
  if !r.state.allows next (r.diagnostic.any fun d => d.retryable) then
    throw (.invalidTransition r.state next)
  if next = .failed ∧ diagnostic = none then throw .missingFailureDiagnostic
  let updated :=
    { r with
      state := next
      diagnostic := r.nextDiagnostic next diagnostic
      updatedAtUnixMs := r.touchedAt now }
  updated.validate c
  return updated

def cancel : Except TaskModelError TaskRecord := do
  if r.state = .completed
      ∨ (r.fileDetails.any fun d => d.publishPrepared || d.receiptCommitted) = true
      ∨ (r.directoryDetails.any fun d => d.publishPrepared || d.receiptCommitted) = true then
    throw (.invalidTransition r.state .failed)
  let updated :=
    { r with
      state := .failed
      diagnostic := some ⟨.userCancelled, false⟩
      updatedAtUnixMs := r.touchedAt now }
  updated.validate c
  return updated

def preparePublication : Except TaskModelError TaskRecord :=
  if r.direction ≠ .receive ∨ r.state ≠ .finalizing then .error .notRecoverable
  else
    match r.fileDetails, r.directoryDetails with
    | some d, _ => .ok { r with fileDetails := some { d with publishPrepared := true } }
    | none, some d => .ok { r with directoryDetails := some { d with publishPrepared := true } }
    | none, none => .error .invalidManifestIdentity

def commitReceipt : Except TaskModelError TaskRecord :=
  match r.fileDetails, r.directoryDetails with
  | some d, _ =>
    if r.direction = .receive ∧ (d.publishPrepared || d.skippedExisting) = false then
      .error .notRecoverable
    else
      { r with fileDetails := some { d with receiptCommitted := true } }.transitionTo c
        .completed none now
  | none, some d =>
    if r.direction = .receive ∧ d.publishPrepared = false then .error .notRecoverable
    else
      { r with directoryDetails := some { d with receiptCommitted := true } }.transitionTo c
        .completed none now
  | none, none => .error .invalidManifestIdentity

def enableIncremental : Except TaskModelError TaskRecord :=
  match r.groupId, r.fileDetails with
  | some _, some d =>
    if r.state = .completed then .error .notRecoverable
    else .ok { r with fileDetails := some { d with incremental := true } }
  | _, _ => .error .notRecoverable

def commitSkipped : Except TaskModelError TaskRecord :=
  match r.fileDetails with
  | none => .error .notRecoverable
  | some d =>
    if d.incremental = false ∨ d.publishPrepared = true ∨ r.state ≠ .finalizing then
      .error .notRecoverable
    else
      { r with fileDetails := some { d with skippedExisting := true } }.commitReceipt c now

def setProgressHint (hint : ProgressHint) : Except TaskModelError TaskRecord :=
  if hint.verifiedBytes > r.manifestIdentity.totalBytes ∨ hint.sampledAtUnixMs < 0 then
    .error .invalidProgressHint
  else .ok { r with progressHint := some hint }

/-- Equality of local paths: the source compares `PathBuf`s by their components. -/
def samePath : LocalTaskPath → LocalTaskPath → Bool
  | .source p, .source q | .receiveRoot p, .receiveRoot q => p.components == q.components
  | _, _ => false

def validateBindingUnchanged (r current : TaskRecord) : Except TaskModelError Unit :=
  if r.taskId ≠ current.taskId ∨ r.peerId ≠ current.peerId ∨ r.direction ≠ current.direction
      ∨ samePath r.localPath current.localPath = false
      ∨ r.manifestIdentity ≠ current.manifestIdentity
      ∨ r.groupId ≠ current.groupId
      ∨ (r.directoryDetails.map fun d => d.relativePath) ≠
        (current.directoryDetails.map fun d => d.relativePath)
      ∨ (r.fileDetails.map fun d => d.sourceRoot.map PathBuf.components) ≠
        (current.fileDetails.map fun d => d.sourceRoot.map PathBuf.components)
      ∨ (r.fileDetails.map fun d => (d.relativePath, d.manifest)) ≠
        (current.fileDetails.map fun d => (d.relativePath, d.manifest)) then
    .error .immutableBinding
  else .ok ()

end TaskRecord

end P2pFile.Node
