/-
  P2pFile.Node.TaskJson

  The JSON value of a task record in the task store (the derived `Serialize` of
  `src/node/core/task_model.rs`).

  A path that is not UTF-8 has no JSON text, so the value is partial.
-/

import P2pFile.Lib.JsonValue
import P2pFile.Node.TaskModel

namespace P2pFile.Node

open Lib Protocol Storage
open Json (Fields Value ofOption skipFalse skipNone)

def TaskDirection.name : TaskDirection → String
  | .send => "send"
  | .receive => "receive"

def TaskState.name : TaskState → String
  | .scanning => "scanning"
  | .queued => "queued"
  | .connecting => "connecting"
  | .negotiating => "negotiating"
  | .transferring => "transferring"
  | .pausing => "pausing"
  | .paused => "paused"
  | .finalizing => "finalizing"
  | .completed => "completed"
  | .interrupted => "interrupted"
  | .failed => "failed"

def TaskErrorCode.name : TaskErrorCode → String
  | .sourceUnavailable => "source_unavailable"
  | .sourceChanged => "source_changed"
  | .peerUnavailable => "peer_unavailable"
  | .peerBusy => "peer_busy"
  | .permissionDenied => "permission_denied"
  | .diskFull => "disk_full"
  | .integrityMismatch => "integrity_mismatch"
  | .invalidRemoteData => "invalid_remote_data"
  | .unsupportedPeer => "unsupported_peer"
  | .networkInterrupted => "network_interrupted"
  | .applicationRestarted => "application_restarted"
  | .storageUnavailable => "storage_unavailable"
  | .userCancelled => "user_cancelled"
  | .other => "other"
  | .spaceCheckUnavailable => "space_check_unavailable"
  | .receiveBudgetBusy => "receive_budget_busy"
  | .filesystemMismatch => "filesystem_mismatch"

/-- A path is written as a string if it is UTF-8. -/
def PathBuf.toValue (p : PathBuf) : Option Value := p.toStr.map .str

def ManifestIdentity.toValue (identity : ManifestIdentity) : Value :=
  .obj
    [("algorithm", .str "blake3_v1"), ("root_hash", .str identity.rootHash),
     ("total_bytes", .num identity.totalBytes.toNat),
     ("chunk_size", .num identity.chunkSize.toNat),
     ("chunk_count", .num identity.chunkCount.toNat)]

def TaskDiagnostic.toValue (d : TaskDiagnostic) : Value :=
  .obj [("code", .str d.code.name), ("retryable", .bool d.retryable)]

def ProgressHint.toValue (hint : ProgressHint) : Value :=
  .obj
    [("verified_bytes", .num hint.verifiedBytes.toNat),
     ("sampled_at_unix_ms", .int hint.sampledAtUnixMs)]

/-- A digest is an array of 32 numbers. -/
def hashValue (h : ChunkHash) : Value := .arr (h.toList.map fun b => .num b.toNat)

def manifestValue (m : FileManifest) : Value :=
  .obj
    [("file_name", .str m.fileName), ("total_len", .num m.totalLen.toNat),
     ("chunk_size", .num m.chunkSize.toNat), ("chunks", .arr (m.chunks.map hashValue)),
     ("root_hash", hashValue m.rootHash)]

def FileTaskDetails.toValue (d : FileTaskDetails) : Option Value := do
  let root ← match d.sourceRoot with
    | none => some []
    | some root => root.toValue.map fun value => [("source_root", value)]
  return .obj
    ([("relative_path", .str d.relativePath), ("manifest", manifestValue d.manifest),
      ("publish_prepared", .bool d.publishPrepared),
      ("receipt_committed", .bool d.receiptCommitted)] ++ root
      ++ skipFalse "incremental" d.incremental
      ++ skipFalse "skipped_existing" d.skippedExisting)

def DirectoryTaskDetails.toValue (d : DirectoryTaskDetails) : Value :=
  .obj
    [("relative_path", .str d.relativePath), ("publish_prepared", .bool d.publishPrepared),
     ("receipt_committed", .bool d.receiptCommitted)]

/-- The kind of a local path, which is written beside the path. -/
def LocalTaskPath.name (p : LocalTaskPath) : String :=
  if p.isSenderSource then "source" else "receive_root"

/-- A record whose path and file details have the given values. -/
def TaskRecord.valueWith (r : TaskRecord) (path : Value) (file : Fields) : Value :=
  .obj
    ([("schema_version", .num r.schemaVersion.toNat),
      ("task_id", .str r.taskId.text), ("peer_id", .str r.peerId.text),
      ("direction", .str r.direction.name),
      ("local_path", .obj [("kind", .str r.localPath.name), ("path", path)]),
      ("manifest_identity", r.manifestIdentity.toValue),
      ("state", .str r.state.name),
      ("created_at_unix_ms", .int r.createdAtUnixMs),
      ("updated_at_unix_ms", .int r.updatedAtUnixMs),
      ("diagnostic", ofOption TaskDiagnostic.toValue r.diagnostic),
      ("progress_hint", ofOption ProgressHint.toValue r.progressHint)] ++ file
      ++ skipNone "directory_details" DirectoryTaskDetails.toValue r.directoryDetails
      ++ skipNone "group_id" (fun id => .str id.text) r.groupId)

def TaskRecord.toValue (r : TaskRecord) : Option Value := do
  let path ← r.localPath.path.toValue
  let file ← match r.fileDetails with
    | none => some []
    | some d => d.toValue.map fun value => [("file_details", value)]
  return r.valueWith path file

end P2pFile.Node
