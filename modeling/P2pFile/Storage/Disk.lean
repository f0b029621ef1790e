/-
  P2pFile.Storage.Disk

  The file system under a download.

  Directory entries point to files by number, so that two names can be links to one
  file, and an open handle is a number too.  Each call of `std::fs` that the program
  makes is a program of one call: it can be refused, it can fail, and the process can
  die in it.

  A loss of power can undo what was not synced: the pending writes of a file, and the
  changes of a name since its directory was synced.
-/

import Mathlib.Logic.Function.Basic
import P2pFile.Lib.File
import P2pFile.Lib.Prog
import P2pFile.Storage.Path

namespace P2pFile.Storage

open Lib

/-- What a directory entry points to. -/
inductive Entry where
  | file (inode : Nat)
  /-- A directory, or whatever else is not a regular file. -/
  | other
  deriving DecidableEq

structure Disk where
  entries : Path → Option Entry
  /-- What each name has been since its directory was synced, the latest first. -/
  older : Path → List (Option Entry)
  files : Nat → File
  /-- The first number that no file has had. -/
  next : Nat

namespace Disk

variable (s : Disk)

def setEntry (path : Path) (entry : Option Entry) : Disk :=
  { s with
    entries := Function.update s.entries path entry
    older := Function.update s.older path (s.entries path :: s.older path) }

def setFile (i : Nat) (f : File) : Disk :=
  { s with files := Function.update s.files i f }

/-- A new empty file under `path`. -/
def addFile (path : Path) : Disk :=
  { s.setEntry path (some (.file s.next)) with
    files := Function.update s.files s.next .empty
    next := s.next + 1 }

/-- The names in a directory are as they are for good. -/
def settle (dir : Path) : Disk :=
  { s with older := fun path => if Path.parent path = some dir then [] else s.older path }

/-- The power is lost: file `i` keeps the pending writes at the positions in `keep i`, and a
    name that was not synced is what it was `back` changes ago. -/
def lose (keep : Nat → Nat → Bool) (back : Path → Nat) : Disk :=
  { s with
    entries := fun path => revive (s.entries path) (s.older path) (back path)
    older := fun _ => []
    files := fun i => (s.files i).lose (keep i) }

end Disk

def notFound : Error := .io .notFound "No such file or directory"

def alreadyExists : Error := .io .alreadyExists "File exists"

def unexpectedEof : Error := .io .unexpectedEof "failed to fill whole buffer"

def notAFile : Error := .io .other "not a regular file"

/-! ## Calls -/

abbrev DiskProg := Prog Disk Error

variable (path : Path)

/-- Open an existing file. -/
def openFile : DiskProg Nat := .atomic fun s =>
  match s.entries path with
  | some (.file i) => .ok (i, s)
  | some .other => .error notAFile
  | none => .error notFound

/-- Open with `create(true)` and without truncation. -/
def openOrCreate : DiskProg Nat := .atomic fun s =>
  match s.entries path with
  | some (.file i) => .ok (i, s)
  | some .other => .error notAFile
  | none => .ok (s.next, s.addFile path)

/-- `File::create`. -/
def createFile : DiskProg Nat := .atomic fun s =>
  match s.entries path with
  | some (.file i) => .ok (i, s.setFile i ((s.files i).setLen 0))
  | some .other => .error notAFile
  | none => .ok (s.next, s.addFile path)

/-- Open with `create_new(true)`. -/
def createNew : DiskProg Nat := .atomic fun s =>
  match s.entries path with
  | some _ => .error alreadyExists
  | none => .ok (s.next, s.addFile path)

/-- `file.metadata()?.len()`. -/
def fileLen (i : Nat) : DiskProg Nat := .atomic fun s => .ok ((s.files i).view.length, s)

/-- `file.seek`.  The position is passed to the read or write that follows. -/
def seek : DiskProg Unit := .atomic fun s => .ok ((), s)

/-- `file.read_exact`. -/
def readExact (i offset len : Nat) : DiskProg (List UInt8) := .atomic fun s =>
  let data := slice (s.files i).view offset len
  if data.length = len then .ok (data, s) else .error unexpectedEof

/-- `file.read_to_end`, of at most `limit` bytes if there is a limit. -/
def readToEnd (i : Nat) (limit : Option Nat) : DiskProg (List UInt8) := .atomic fun s =>
  let data := (s.files i).view
  .ok (match limit with
    | some limit => data.take limit
    | none => data, s)

/-- `file.write_all` at `offset`. -/
def writeAll (i offset : Nat) (data : List UInt8) : DiskProg Unit :=
  .gradual data.length fun k s => s.setFile i ((s.files i).writeAt offset (data.take k))

/-- `file.set_len`. -/
def setLen (i len : Nat) : DiskProg Unit := .atomic fun s =>
  .ok ((), s.setFile i ((s.files i).setLen len))

/-- `file.sync_data` and `file.sync_all`. -/
def sync (i : Nat) : DiskProg Unit := .atomic fun s => .ok ((), s.setFile i (s.files i).sync)

/-- `fs::rename`, over an existing file too. -/
def rename (src dst : Path) : DiskProg Unit := .atomic fun s =>
  match s.entries src, s.entries dst with
  | none, _ => .error notFound
  | some _, some .other => .error notAFile
  | some entry, _ => .ok ((), (s.setEntry src none).setEntry dst (some entry))

/-- `fs::remove_file`. -/
def removeFile : DiskProg Unit := .atomic fun s =>
  match s.entries path with
  | some (.file _) => .ok ((), s.setEntry path none)
  | some .other => .error notAFile
  | none => .error notFound

/-- `fs::hard_link`. -/
def hardLink (src dst : Path) : DiskProg Unit := .atomic fun s =>
  match s.entries src, s.entries dst with
  | none, _ => .error notFound
  | some _, some _ => .error alreadyExists
  | some .other, none => .error notAFile
  | some (.file i), none => .ok ((), s.setEntry dst (some (.file i)))

/-- `fs::symlink_metadata`. -/
def symlinkMetadata : DiskProg Unit := .atomic fun s =>
  match s.entries path with
  | some _ => .ok ((), s)
  | none => .error notFound

/-- `path.exists()`: an error counts as no. -/
def pathExists : DiskProg Bool := do
  match ← (symlinkMetadata path).attempt with
  | .ok () => pure true
  | .error _ => pure false

/-- A call that changes no entry and no file: creating a directory that is there. -/
def touchDir : DiskProg Unit := .atomic fun s => .ok ((), s)

/-- `File::open` and `sync_all` of a directory. -/
def syncDirectory (dir : Path) : DiskProg Unit := .atomic fun s => .ok ((), s.settle dir)

end P2pFile.Storage
