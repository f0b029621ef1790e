/-
  P2pFile.Lib.Bytes

  Byte arrays of fixed length, `[u8; n]`, with the lexicographic order that
  array comparison uses, and the one fact that makes concatenations of them
  readable again: fields of known width can be peeled off from the left.
-/

import Mathlib.Algebra.GroupWithZero.Nat
import Mathlib.Data.List.Basic

namespace P2pFile.Lib

/-- `[u8; n]`. -/
structure Bytes (n : Nat) where
  toList : List UInt8
  length_eq : toList.length = n
  deriving DecidableEq

namespace Bytes

variable {n : Nat}

theorem ext_toList {a b : Bytes n} (h : a.toList = b.toList) : a = b := by
  cases a
  cases b
  cases h
  rfl

/-- `[b; n]`. -/
def fill (n : Nat) (b : UInt8) : Bytes n := ⟨List.replicate n b, by simp⟩

/-- `[a, b, c, d]`. -/
def four (a b c d : UInt8) : Bytes 4 := ⟨[a, b, c, d], rfl⟩

/-- The first `m` bytes of a longer array. -/
def truncate (m : Nat) (a : Bytes n) (h : m ≤ n) : Bytes m :=
  ⟨a.toList.take m, by rw [List.length_take, a.length_eq]; omega⟩

/-- Two arrays end to end. -/
def append {m : Nat} (a : Bytes m) (b : Bytes n) : Bytes (m + n) :=
  ⟨a.toList ++ b.toList, by rw [List.length_append, a.length_eq, b.length_eq]⟩

/-- `bytes.try_into::<[u8; n]>()`. -/
def ofList? (n : Nat) (l : List UInt8) : Option (Bytes n) :=
  if h : l.length = n then some ⟨l, h⟩ else none

/-- Array comparison is lexicographic. -/
instance : LE (Bytes n) := ⟨fun a b => a.toList ≤ b.toList⟩

instance (a b : Bytes n) : Decidable (a ≤ b) := inferInstanceAs (Decidable (a.toList ≤ b.toList))

/-- The leftmost field of a concatenation is determined by its width. -/
theorem append_inj {a b : Bytes n} {l r : List UInt8}
    (h : a.toList ++ l = b.toList ++ r) : a = b ∧ l = r := by
  have hlen : a.toList.length = b.toList.length := by rw [a.length_eq, b.length_eq]
  obtain ⟨h₁, h₂⟩ := List.append_inj h hlen
  exact ⟨ext_toList h₁, h₂⟩

end Bytes

/-- `u32::to_be_bytes`. -/
def u32be (x : UInt32) : List UInt8 :=
  [(x >>> 24).toUInt8, (x >>> 16).toUInt8, (x >>> 8).toUInt8, x.toUInt8]

end P2pFile.Lib
