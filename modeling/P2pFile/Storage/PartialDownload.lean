/-
  P2pFile.Storage.PartialDownload

  Downloads that can be resumed (`src/storage/mod.rs`).

  The functions are those of the source, call by call.  A method with `&mut self` is a
  program on the disk and the download, so that an error keeps what was changed before
  it.  The readings of the clock and the random name of a temporary file are inputs.
-/

import P2pFile.Storage.Disk
import P2pFile.Transfer.Resume

namespace P2pFile.Storage

open Lib Protocol Transfer

/-! ## Data -/

inductive Platform where
  | unix
  | windows
  deriving DecidableEq

/-- `MAX_FINALIZE_SUFFIX`. -/
def maxFinalizeSuffix : Nat := 10000

/-- `CheckpointPolicy`; the interval is in nanoseconds. -/
structure CheckpointPolicy where
  bytes : UInt64
  interval : Nat
  deriving DecidableEq

def CheckpointPolicy.default : CheckpointPolicy := ⟨64 * 1024 * 1024, 1000000000⟩

/-- `DownloadDirectory`.  With a capability the calls go through a directory handle. -/
structure DownloadDirectory where
  path : Path
  capability : Bool
  deriving DecidableEq

/-- `PartialDownload`.  The open file is known by its number. -/
structure PartialDownload where
  manifest : FileManifest
  directory : DownloadDirectory
  targetPath : Path
  tempPath : Path
  statePath : Path
  file : Option Nat
  writtenBitmap : ChunkBitmap
  durableBitmap : ChunkBitmap
  dirtyBytes : UInt64
  lastCheckpoint : Nat
  checkpointPolicy : CheckpointPolicy
  deriving DecidableEq

/-- What a call of the program draws from its environment: the clock when it starts and
    when it ends, and a random number. -/
structure Moment where
  now : Nat
  later : Nat
  random : Nat

/-- `error.kind() == kind`. -/
def hasKind (kind : IoErrorKind) : Error → Bool
  | .io k _ => k == kind
  | _ => false

abbrev isNotFound : Error → Bool := hasKind .notFound

/-! ## The bitmap file -/

/-- What both ways of loading make of the bytes. -/
def bitmapOfBytes (chunks : UInt32) (bytes : List UInt8) : ChunkBitmap × Bool :=
  match ChunkBitmap.fromBytes chunks bytes with
  | .ok bitmap => (bitmap, false)
  | .error _ => (ChunkBitmap.new chunks, true)

def loadBitmap (path : Path) (chunks : UInt32) : DiskProg (ChunkBitmap × Bool) := do
  let read : DiskProg (List UInt8) := do
    let i ← openFile path
    readToEnd i none
  match ← read.attempt with
  | .ok bytes => pure (bitmapOfBytes chunks bytes)
  | .error err => if isNotFound err then pure (ChunkBitmap.new chunks, false) else .throw err

/-- Through a capability at most one byte more than a bitmap is read. -/
def DownloadDirectory.load (directory : DownloadDirectory) (path : Path) (chunks : UInt32) :
    DiskProg (ChunkBitmap × Bool) :=
  if directory.capability then do
    match ← (openFile path).attempt with
    | .ok i =>
      let bytes ← readToEnd i (some (byteLen chunks + 1))
      pure (bitmapOfBytes chunks bytes)
    | .error err => if isNotFound err then pure (ChunkBitmap.new chunks, false) else .throw err
  else loadBitmap path chunks

section

variable (platform : Platform)

/-- `secure_fs::sync`. -/
def secureSync (dir : Path) : DiskProg Unit :=
  match platform with
  | .unix => syncDirectory dir
  | .windows => pure ()

def syncParentDir (path : Path) : DiskProg Unit :=
  match Path.parent path with
  | some parent => secureSync platform parent
  | none => pure ()

def replaceBitmapFile (tmp path : Path) : DiskProg Unit :=
  match platform with
  | .unix => rename tmp path
  | .windows => do
    if ← pathExists path then removeFile path
    rename tmp path

def saveBitmap (path : Path) (bitmap : ChunkBitmap) : DiskProg Unit := do
  let tmp := bitmapTmpPath path
  let i ← createFile tmp
  writeAll i 0 bitmap.toBytes
  sync i
  replaceBitmapFile platform tmp path
  syncParentDir platform path

/-- The random name of `save`. -/
def randomTmpName (random : Nat) : String :=
  let digits := Nat.toDigits 16 (random % 2 ^ 128)
  "bitmap-" ++ String.ofList (List.replicate (32 - digits.length) '0' ++ digits) ++ ".tmp"

def DownloadDirectory.save (directory : DownloadDirectory) (path : Path) (bitmap : ChunkBitmap)
    (random : Nat) : DiskProg Unit :=
  if directory.capability then do
    let temp := Path.join directory.path (randomTmpName random)
    let i ← createNew temp
    writeAll i 0 bitmap.toBytes
    sync i
    rename temp path
    secureSync platform directory.path
  else saveBitmap platform path bitmap

end

/-- `open_existing_part`. -/
def openExistingPart (path : Path) : DiskProg (Option Nat) := do
  match ← (openFile path).attempt with
  | .ok i => pure (some i)
  | .error err => if isNotFound err then pure none else .throw err

/-! ## Opening a download -/

/-- `u64::saturating_sub`. -/
def saturatingSub (a b : UInt64) : UInt64 := if b ≤ a then a - b else 0

/-- `u64::saturating_add`. -/
def saturatingAdd (a b : UInt64) : UInt64 :=
  if a.toNat + b.toNat < 2 ^ 64 then a + b else 0xffffffffffffffff

/-- Whether there is a `.part` file under its long name.  A name that is too long is not
    looked up. -/
def legacyMetadata (tempPath : Path) : DiskProg Unit :=
  if ((Path.fileName tempPath).getD "").utf8ByteSize ≤ 255 then symlinkMetadata tempPath
  else .throw notFound

/-- The paths of the `.part` and the `.bitmap` file.  A directory with a capability uses
    the long names only if the `.part` file is there already. -/
def stagingPaths (directory : DownloadDirectory) (manifest : FileManifest) :
    DiskProg (Path × Path) := do
  let tempPath := tempPathFor directory.path manifest
  let statePath := statePathFor directory.path manifest
  if directory.capability then
    match ← (legacyMetadata tempPath).attempt with
    | .ok () => pure (tempPath, statePath)
    | .error err =>
      if isNotFound err then
        pure (Path.join directory.path "data.part", Path.join directory.path "data.bitmap")
      else .throw err
  else pure (tempPath, statePath)

/-- The sum of the lengths of the chunks. -/
def verifiedBytes (manifest : FileManifest) : List UInt32 → UInt64 → Except Error UInt64
  | [], sum => .ok sum
  | index :: rest, sum =>
    match manifest.chunkRange index with
    | none => .error (.protocol "位图分片越界")
    | some (_, length) =>
      match checkedAdd sum length.toUInt64 with
      | none => .error (.protocol "持久进度溢出")
      | some sum => verifiedBytes manifest rest sum

section

variable (c : Crypto)

/-- The loop that verifies the chunks of a bitmap again; the flag says that one was
    cleared. -/
def recheck (manifest : FileManifest) (i : Nat) :
    List UInt32 → ChunkBitmap × Bool → DiskProg (ChunkBitmap × Bool)
  | [], state => pure state
  | index :: rest, (bitmap, changed) =>
    match manifest.chunkRange index with
    | none => .throw (.protocol ("位图中的分片 " ++ toString index ++ " 越界"))
    | some (offset, len) => do
      seek
      match ← (readExact i offset.toNat len.toNat).attempt with
      | .ok data =>
        if manifest.verifyChunk c index data then recheck manifest i rest (bitmap, changed)
        else do
          let bitmap ← .ofExcept (bitmap.clear index)
          recheck manifest i rest (bitmap, true)
      | .error err =>
        if hasKind .unexpectedEof err then do
          let bitmap ← .ofExcept (bitmap.clear index)
          recheck manifest i rest (bitmap, true)
        else .throw err

/-- What is known of an existing `.part` file: its number, whether the file has to be
    reset, the verified bitmap, and whether that differs from the `.bitmap` file. -/
structure Existing where
  file : Option Nat
  reset : Bool
  bitmap : ChunkBitmap
  bitmapChanged : Bool

/-- The part of `create_in_with_admission` that only reads. -/
def inspect (directory : DownloadDirectory) (manifest : FileManifest) (tempPath statePath : Path) :
    DiskProg Existing := do
  let (bitmap, needsRepair) ← directory.load statePath manifest.count
  match ← openExistingPart tempPath with
  | none => pure ⟨none, true, ChunkBitmap.new manifest.count, needsRepair⟩
  | some i =>
    let len ← fileLen i
    if len ≠ manifest.totalLen.toNat then
      pure ⟨some i, true, ChunkBitmap.new manifest.count, needsRepair⟩
    else
      let (bitmap, changed) ← recheck c manifest i bitmap.present (bitmap, needsRepair)
      pure ⟨some i, false, bitmap, changed⟩

variable (platform : Platform)

/-- The file that is open already, or `open_part`. -/
def openPart (path : Path) : Option Nat → DiskProg Nat
  | some i => pure i
  | none => openOrCreate path

/-- Reset the file, or repair the bitmap. -/
def repair (directory : DownloadDirectory) (manifest : FileManifest) (statePath : Path)
    (existing : Existing) (random i : Nat) : DiskProg Unit :=
  if existing.reset then do
    setLen i 0
    setLen i manifest.totalLen.toNat
    sync i
    directory.save platform statePath existing.bitmap random
  else if existing.bitmapChanged then
    directory.save platform statePath existing.bitmap random
  else pure ()

def createInWithAdmission {T : Type} (directory : DownloadDirectory) (manifest : FileManifest)
    (checkpointPolicy : CheckpointPolicy) (admission : UInt64 → Except Error T) (moment : Moment) :
    DiskProg (PartialDownload × T) := do
  .ofExcept (manifest.validate c)
  let (tempPath, statePath) ← stagingPaths directory manifest
  let existing ← inspect c directory manifest tempPath statePath
  let verified ← .ofExcept (verifiedBytes manifest existing.bitmap.present 0)
  -- Nothing has been created, resized or repaired up to here.
  let admitted ← .ofExcept (admission (saturatingSub manifest.totalLen verified))
  let i ← openPart tempPath existing.file
  repair platform directory manifest statePath existing moment.random i
  pure ({
    manifest
    directory
    targetPath := targetPathFor directory.path manifest
    tempPath
    statePath
    file := some i
    writtenBitmap := existing.bitmap
    durableBitmap := existing.bitmap
    dirtyBytes := 0
    lastCheckpoint := moment.later
    checkpointPolicy }, admitted)

/-- `create_with_policy`. -/
def createWithPolicy (dir : Path) (manifest : FileManifest) (checkpointPolicy : CheckpointPolicy)
    (moment : Moment) : DiskProg PartialDownload := do
  .ofExcept (manifest.validate c)
  touchDir
  let (download, ()) ← createInWithAdmission c platform ⟨dir, false⟩ manifest checkpointPolicy
    (fun _ => .ok ()) moment
  pure download

end

/-! ## Publication -/

/-- `remove_file_if_exists`. -/
def removeFileIfExists (path : Path) : DiskProg Unit := do
  match ← (removeFile path).attempt with
  | .ok () => pure ()
  | .error err => if isNotFound err then pure () else .throw err

/-- The loop of `publish_no_replace_with` over the candidates that are left. -/
def publishLoop (temp : Path) (maxSuffix : Nat) : List Path → DiskProg Path
  | [] => .throw (.protocol ("正式文件名已耗尽：" ++ toString (maxSuffix + 1) ++ " 个候选均被占用"))
  | candidate :: rest => do
    match ← (hardLink temp candidate).attempt with
    | .ok () =>
      removeFile temp
      pure candidate
    | .error err =>
      if hasKind .alreadyExists err then publishLoop temp maxSuffix rest
      else
        -- An entry that is there is taken, whatever the error was.
        match ← (symlinkMetadata candidate).attempt with
        | .ok () => publishLoop temp maxSuffix rest
        | .error metadataErr => if isNotFound metadataErr then .throw err else .throw metadataErr

def publishNoReplace (temp target : Path) : DiskProg Path :=
  publishLoop temp maxFinalizeSuffix (candidatePaths target maxFinalizeSuffix)

/-! ## Methods -/

/-- `sync_all`, if the file is open. -/
def syncOpen : Option Nat → DiskProg Unit
  | some i => sync i
  | none => pure ()

/-- A program on the disk and the download. -/
abbrev DownloadProg := Prog (Disk × PartialDownload) Error

namespace PartialDownload

/-- `self`. -/
def self : DownloadProg PartialDownload := do
  let (_, download) ← .get
  pure download

def modifySelf (f : PartialDownload → PartialDownload) : DownloadProg Unit :=
  .modify fun (disk, download) => (disk, f download)

/-- The fields that a successful checkpoint moves forward. -/
def checkpointed (download : PartialDownload) (snapshot : ChunkBitmap) (later : Nat) :
    PartialDownload :=
  { download with durableBitmap := snapshot, dirtyBytes := 0, lastCheckpoint := later }

/-- The fields that a written chunk changes. -/
def chunkWritten (download : PartialDownload) (bitmap : ChunkBitmap) (len : Nat) :
    PartialDownload :=
  { download with
    writtenBitmap := bitmap
    dirtyBytes := saturatingAdd download.dirtyBytes (UInt64.ofNat len) }

section

variable (platform : Platform) (moment : Moment)

def checkpoint : DownloadProg Unit := do
  let download ← self
  match download.file with
  | none => .throw (.protocol "下载已结束，无法 checkpoint")
  | some i =>
    -- The data first, then the bitmap that speaks of it.
    (sync i).onFst
    let snapshot := download.writtenBitmap
    (download.directory.save platform download.statePath snapshot moment.random).onFst
    modifySelf fun download => download.checkpointed snapshot moment.later

def checkpointIfDue : DownloadProg Unit := do
  let download ← self
  if download.dirtyBytes ≥ download.checkpointPolicy.bytes ∨
      moment.now - download.lastCheckpoint ≥ download.checkpointPolicy.interval then
    checkpoint platform moment

def writeChunk (c : Crypto) (index : UInt32) (data : List UInt8) (moment : Moment) :
    DownloadProg Unit := do
  let download ← self
  if download.manifest.verifyChunk c index data then
    match download.manifest.chunkOffset index with
    | none => .throw (.protocol ("第 " ++ toString index ++ " 片越界"))
    | some offset =>
      match download.file with
      | none => .throw (.protocol "下载已结束，无法继续写入")
      | some i =>
        seek.onFst
        (writeAll i offset.toNat data).onFst
        let bitmap ← .ofExcept (download.writtenBitmap.set index)
        modifySelf fun download => download.chunkWritten bitmap data.length
        checkpointIfDue platform moment
  else
    .throw (.protocol ("第 " ++ toString index ++ " 片校验失败（长度或哈希不符），已丢弃"))

def finalize : DownloadProg Path := do
  let download ← self
  if download.writtenBitmap.isComplete then
    checkpoint platform moment
    (syncOpen download.file).onFst
    modifySelf fun download => { download with file := none }
    let target ← (publishNoReplace download.tempPath download.targetPath).onFst
    (syncParentDir platform target).onFst
    (removeFileIfExists download.statePath).onFst
    (syncParentDir platform download.statePath).onFst
    pure target
  else
    .throw (.protocol ("还有 " ++ toString (download.manifest.count.toNat -
      download.writtenBitmap.countSet) ++ " 片没收到，不能收尾"))

end

/-- Errors of the two removals are ignored. -/
def discard : DownloadProg Unit := do
  let download ← self
  modifySelf fun download => { download with file := none }
  let _ ← (removeFile download.tempPath).attempt.onFst
  let _ ← (removeFile download.statePath).attempt.onFst
  pure ()

end PartialDownload

/-! ## The system

One process works on one directory for one manifest.  It has at most one download
open, and it can die at any call and at any time between calls. -/

structure System where
  disk : Disk
  download : Option PartialDownload

inductive Event where
  | create (policy : CheckpointPolicy) (moment : Moment) (plan : List (Fault Error))
  /-- `create_desktop_with_admission`. -/
  | createDesktop (admission : UInt64 → Except Error Unit) (moment : Moment)
      (plan : List (Fault Error))
  | writeChunk (index : UInt32) (data : List UInt8) (moment : Moment) (plan : List (Fault Error))
  | checkpoint (moment : Moment) (plan : List (Fault Error))
  | finalize (moment : Moment) (plan : List (Fault Error))
  | discard (plan : List (Fault Error))
  /-- The download is dropped. -/
  | drop
  /-- The machine loses its power, and what was not synced with it. -/
  | crash (keep : Nat → Nat → Bool) (back : Path → Nat)

namespace System

/-- What opening a download leaves. -/
def opened (result : Outcome Error PartialDownload × Disk × List (Fault Error)) : System :=
  match result with
  | (.ok download, disk, _) => ⟨disk, some download⟩
  | (_, disk, _) => ⟨disk, none⟩

/-- What a method with `&mut self` leaves: after a crash there is no download. -/
def called {α : Type} (result : Outcome Error α × (Disk × PartialDownload) × List (Fault Error)) :
    System :=
  match result with
  | (.crashed, (disk, _), _) => ⟨disk, none⟩
  | (_, (disk, download), _) => ⟨disk, some download⟩

/-- What a method that consumes `self` leaves. -/
def consumed {α : Type} (result : Outcome Error α × (Disk × PartialDownload) × List (Fault Error)) :
    System :=
  ⟨result.2.1.1, none⟩

variable (c : Crypto) (platform : Platform) (dir : Path) (manifest : FileManifest)

def step (s : System) : Event → Option System
  | .create policy moment plan =>
    match s.download with
    | some _ => none
    | none => some (opened (createWithPolicy c platform dir manifest policy moment s.disk plan))
  | .createDesktop admission moment plan =>
    match s.download with
    | some _ => none
    | none =>
      let create : DiskProg PartialDownload := do
        let (download, ()) ← createInWithAdmission c platform ⟨dir, true⟩ manifest .default
          admission moment
        pure download
      some (opened (create s.disk plan))
  | .writeChunk index data moment plan => do
    let download ← s.download
    some (called (PartialDownload.writeChunk platform c index data moment (s.disk, download) plan))
  | .checkpoint moment plan => do
    let download ← s.download
    some (called (PartialDownload.checkpoint platform moment (s.disk, download) plan))
  | .finalize moment plan => do
    let download ← s.download
    some (consumed (PartialDownload.finalize platform moment (s.disk, download) plan))
  | .discard plan => do
    let download ← s.download
    some (consumed (PartialDownload.discard (s.disk, download) plan))
  | .drop => some ⟨s.disk, none⟩
  | .crash keep back => some ⟨s.disk.lose keep back, none⟩

end System

end P2pFile.Storage
