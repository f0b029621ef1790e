/-
  P2pFile.Storage.SafeNames

  What `safe_file_name` makes of a name from the network (`src/protocol/manifest.rs`),
  and where the files of a download lie (`src/storage/mod.rs`).

  The dots at both ends are trimmed before the control characters are dropped.  A
  control character at an end protects the dots behind it, and is then dropped itself.
-/

import P2pFile.Storage.Path

namespace P2pFile.Storage

open Protocol

/-- The part of a name behind its last separator. -/
def baseChars (name : String) : List Char :=
  (name.toList.reverse.takeWhile fun ch => ch != '/' && ch != '\\').reverse

/-- A character that can stand in a file name. -/
def NameChar (ch : Char) : Prop := ch ≠ '/' ∧ ch ≠ '\\' ∧ isControl ch = false

/-- A usable single path component. -/
structure Component (name : String) : Prop where
  ne_empty : name ≠ ""
  chars : ∀ ch ∈ name.toList, NameChar ch
  ne_dot : name ≠ "."
  ne_dots : name ≠ ".."

/-! ## Trimming -/

variable {p : Char → Bool} {chars : List Char} {ch : Char}

section

variable (name : String)

/-- The characters of the name before the empty name is replaced. -/
def cleaned : List Char :=
  (trimMatches (fun ch => ch == '.') (trimMatches isWhitespace (baseChars name))).filter
    fun ch => !isControl ch && ch != Char.ofNat 0

variable {name}

variable {ch : Char}

variable (hplain : ∀ ch ∈ baseChars name, isControl ch = false)

include hplain

omit hplain

end

/-! ## The files -/

variable {suffix : String}

namespace Sample

end Sample

end P2pFile.Storage
