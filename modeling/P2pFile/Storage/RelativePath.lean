/-
  P2pFile.Storage.RelativePath

  Portable relative names (`src/storage/relative_path.rs`).

  `str::len` counts UTF-8 bytes.  The ASCII case conversions of the source are those
  of Lean's `Char`, which touch the ASCII letters only.
-/

import P2pFile.Protocol.Manifest

namespace P2pFile.Storage

open Protocol

/-- `str::split` at one character: at least one piece, empty pieces included. -/
def splitAt (sep : Char) : List Char → List (List Char)
  | [] => [[]]
  | ch :: rest =>
    if ch = sep then [] :: splitAt sep rest
    else
      match splitAt sep rest with
      | [] => [[ch]]
      | piece :: pieces => (ch :: piece) :: pieces

/-- `str::len`. -/
def utf8Len (chars : List Char) : Nat := (chars.map Char.utf8Size).sum

variable (path : String)

/-- The components of a relative path. -/
def components : List (List Char) := splitAt '/' path.toList

/-- `path.rsplit('/').next()`. -/
def lastComponent : String := String.ofList ((components path).getLast?.getD [])

variable (component : List Char)

/-- A component that no portable name has. -/
def componentRefused : Bool :=
  component.map Char.toLower == ".p2p-desktop".toList
    || component == []
    || component == ['.']
    || component == ['.', '.']
    || utf8Len component > 255
    || (component.getLast?.any fun ch => ch == '.' || ch == ' ')
    || component.any fun ch => isControl ch || "\\:<>\"|?*".toList.contains ch

/-- A component that names a device of Windows. -/
def isDevice : Bool :=
  let stem := ((splitAt '.' component).head?.getD []).map Char.toUpper
  ["CON", "PRN", "AUX", "NUL"].any (fun name => stem == name.toList)
    || ["COM", "LPT"].any fun name =>
      "123456789¹²³".toList.any fun digit => stem == name.toList ++ [digit]

/-- The loop of `validate_relative_path` over the components. -/
def validateComponents : List (List Char) → Except Error Unit
  | [] => .ok ()
  | component :: rest =>
    if componentRefused component then .error (.protocol "桌面相对路径包含非法组件")
    else if isDevice component then .error (.protocol "桌面相对路径包含保留设备名")
    else validateComponents rest

def validateRelativePath : Except Error Unit :=
  if path.toList == [] || utf8Len path.toList > 4096 || (components path).length > 64 then
    .error (.protocol "桌面相对路径长度或深度非法")
  else validateComponents (components path)

example : validateRelativePath "a/b/COM10.txt" = .ok () := by decide

example : validateRelativePath "a/lpt¹.bin" = .error (.protocol "桌面相对路径包含保留设备名") := by decide

end P2pFile.Storage
