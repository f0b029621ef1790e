/-
  P2pFile.Node.HostPath

  Paths of the host, as `std::path` reads them on Unix.

  A `PathBuf` is a byte string.  Two paths are equal to the source if their components
  are: repeated separators and `.` inside a path do not count.
-/

import P2pFile.Storage.RelativePath

namespace P2pFile.Node

/-- `std::path::PathBuf` on Unix. -/
structure PathBuf where
  bytes : List UInt8
  deriving DecidableEq

/-- `std::path::Component`. -/
inductive Component where
  | rootDir
  | curDir
  | parentDir
  | normal (name : List UInt8)
  deriving DecidableEq

namespace PathBuf

/-- The byte `/`. -/
def slash : UInt8 := 0x2f

/-- The byte `.`. -/
def dot : UInt8 := 0x2e

/-- A UTF-8 text as a path. -/
def ofString (text : String) : PathBuf := ⟨text.toUTF8.data.toList⟩

/-- The pieces between separators. -/
def pieces : List UInt8 → List (List UInt8)
  | [] => [[]]
  | b :: rest =>
    if b = slash then [] :: pieces rest
    else
      match pieces rest with
      | [] => [[b]]
      | piece :: others => (b :: piece) :: others

variable (p : PathBuf)

def isAbsolute : Bool := p.bytes.head? == some slash

/-- The component of one piece; empty pieces and `.` are skipped. -/
def componentOf (piece : List UInt8) : Option Component :=
  if piece = [] ∨ piece = [dot] then none
  else if piece = [dot, dot] then some .parentDir
  else some (.normal piece)

/-- `Path::components`: a leading `.` of a relative path is kept. -/
def components : List Component :=
  let start : List Component :=
    if p.isAbsolute then [.rootDir]
    else if (pieces p.bytes).head? = some [dot] then [.curDir]
    else []
  start ++ (pieces p.bytes).filterMap componentOf

/-- `Path::starts_with`. -/
def startsWith (p root : PathBuf) : Bool := root.components.isPrefixOf p.components

/-- `Path::file_name`. -/
def fileName : Option (List UInt8) :=
  match p.components.getLast? with
  | some (.normal name) => some name
  | _ => none

/-- `Path::join`. -/
def join (p q : PathBuf) : PathBuf :=
  if q.isAbsolute then q
  else if p.bytes = [] ∨ p.bytes.getLast? = some slash then ⟨p.bytes ++ q.bytes⟩
  else ⟨p.bytes ++ slash :: q.bytes⟩

/-- `Path::to_str`. -/
def toStr : Option String := String.fromUTF8? ⟨p.bytes.toArray⟩

end PathBuf

end P2pFile.Node
