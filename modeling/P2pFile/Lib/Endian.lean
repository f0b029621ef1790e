/-
  P2pFile.Lib.Endian

  Numbers of a fixed number of bytes, least or most significant byte first.
-/

import Mathlib.Algebra.GroupWithZero.Nat
import Mathlib.Data.List.Basic

namespace P2pFile.Lib

/-- `to_le_bytes` of a number of `n` bytes. -/
def toLE : Nat → Nat → List UInt8
  | 0, _ => []
  | n + 1, x => UInt8.ofNat x :: toLE n (x / 256)

/-- `from_le_bytes`. -/
def ofLE : List UInt8 → Nat
  | [] => 0
  | b :: bytes => b.toNat + 256 * ofLE bytes

/-- `to_be_bytes` of a number of `n` bytes. -/
def toBE (n x : Nat) : List UInt8 := (toLE n x).reverse

/-- `from_be_bytes`. -/
def ofBE (bytes : List UInt8) : Nat := ofLE bytes.reverse

@[simp] theorem length_toLE (n x : Nat) : (toLE n x).length = n := by
  induction n generalizing x with
  | zero => rfl
  | succ n ih => rw [toLE, List.length_cons, ih]

@[simp] theorem length_toBE (n x : Nat) : (toBE n x).length = n := by
  rw [toBE, List.length_reverse, length_toLE]

theorem ofLE_toLE {n x : Nat} (h : x < 256 ^ n) : ofLE (toLE n x) = x := by
  induction n generalizing x with
  | zero =>
    show 0 = x
    omega
  | succ n ih =>
    have hdiv : x / 256 < 256 ^ n := by
      exact Nat.div_lt_of_lt_mul (by omega)
    have hbyte : (UInt8.ofNat x).toNat = x % 256 := UInt8.toNat_ofNat
    rw [toLE, ofLE, ih hdiv, hbyte]
    omega

theorem ofBE_toBE {n x : Nat} (h : x < 256 ^ n) : ofBE (toBE n x) = x := by
  rw [ofBE, toBE, List.reverse_reverse, ofLE_toLE h]

end P2pFile.Lib
