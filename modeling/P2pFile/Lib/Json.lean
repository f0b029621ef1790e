/-
  P2pFile.Lib.Json

  How many bytes the tokens of a JSON text have.

  The writer escapes only the quote, the backslash and the control characters of a string,
  and writes everything else as it is.
-/

import Mathlib.Algebra.GroupWithZero.Nat
import Mathlib.Algebra.BigOperators.Group.List.Basic

namespace P2pFile.Lib.Json

/-- One byte of a string: the short escapes take two bytes, the other control characters
    six. -/
def byteSize (b : UInt8) : Nat :=
  if b = 0x22 ∨ b = 0x5c ∨ b = 0x08 ∨ b = 0x09 ∨ b = 0x0a ∨ b = 0x0c ∨ b = 0x0d then 2
  else if b < 0x20 then 6
  else 1

/-- A string, given by its UTF-8 bytes. -/
def bytesSize (bytes : List UInt8) : Nat := 2 + (bytes.map byteSize).sum

def stringSize (text : String) : Nat := bytesSize text.toUTF8.data.toList

def natSize (n : Nat) : Nat := (Nat.toDigits 10 n).length

def intSize (n : Int) : Nat := natSize n.natAbs + if n < 0 then 1 else 0

def boolSize (b : Bool) : Nat := if b then 4 else 5

end P2pFile.Lib.Json
