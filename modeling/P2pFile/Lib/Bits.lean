/-
  P2pFile.Lib.Bits

  Byte strings as sequences of bits, lowest bit of each byte first.
-/

import Mathlib.Algebra.GroupWithZero.Nat
import Mathlib.Algebra.BigOperators.Group.List.Basic
import Mathlib.Tactic.IntervalCases

namespace P2pFile.Lib

/-- The byte `1 << (i % 8)`. -/
def bitMask (i : Nat) : UInt8 := 1 <<< UInt8.ofNat (i % 8)

variable (bits : List UInt8) (i : Nat)

/-- Bit `i` of a byte string; past the end it is 0. -/
def bitAt : Bool := bits.getD (i / 8) 0 &&& bitMask i != 0

/-- `bits[i / 8] |= 1 << (i % 8)`. -/
def setBit : List UInt8 := bits.modify (i / 8) (· ||| bitMask i)

/-- `bits[i / 8] &= !(1 << (i % 8))`. -/
def clearBit : List UInt8 := bits.modify (i / 8) (· &&& ~~~bitMask i)

/-- `u8::count_ones`. -/
def countOnes (b : UInt8) : Nat := (List.range 8).countP fun i => b.toNat.testBit i

theorem testBit_bitMask (i j : Nat) (hj : j < 8) :
    (bitMask i).toNat.testBit j = decide (j = i % 8) := by
  have hi : i % 8 < 8 := Nat.mod_lt _ (by decide)
  unfold bitMask
  generalize i % 8 = k at hi ⊢
  interval_cases k <;> interval_cases j <;> rfl

theorem bitAt_eq_testBit : bitAt bits i = (bits.getD (i / 8) 0).toNat.testBit (i % 8) := by
  have hi : i % 8 < 8 := Nat.mod_lt _ (by decide)
  unfold bitAt
  generalize bits.getD (i / 8) 0 = b
  rw [Bool.eq_iff_iff, bne_iff_ne, ne_eq, ← UInt8.toNat_inj, UInt8.toNat_and]
  constructor
  · intro hne
    obtain ⟨j, hj⟩ := Nat.exists_testBit_of_ne_zero hne
    rw [Nat.testBit_and, Bool.and_eq_true] at hj
    -- The mask is a byte, so the common bit is one of the eight.
    have hlt : j < 8 := by
      by_contra hge
      have hsmall : (bitMask i).toNat < 2 ^ j :=
        lt_of_lt_of_le (UInt8.toNat_lt _) (Nat.pow_le_pow_right (by decide) (by omega))
      rw [Nat.testBit_lt_two_pow hsmall] at hj
      exact absurd hj.2 (by simp)
    rw [testBit_bitMask i j hlt, decide_eq_true_eq] at hj
    rw [← hj.2]
    exact hj.1
  · intro htrue hzero
    have hbit : (b.toNat &&& (bitMask i).toNat).testBit (i % 8) = true := by
      rw [Nat.testBit_and, htrue, testBit_bitMask i _ hi]
      simp
    rw [hzero] at hbit
    simp at hbit

variable {bits : List UInt8}

/-- Changing one byte changes its bits and no others. -/
theorem bitAt_modify {k : Nat} (hk : k < bits.length) (f : UInt8 → UInt8) (j : Nat) :
    bitAt (bits.modify k f) j =
      if j / 8 = k then (f (bits.getD k 0)).toNat.testBit (j % 8) else bitAt bits j := by
  rw [bitAt_eq_testBit, bitAt_eq_testBit]
  simp only [List.getD_eq_getElem?_getD, List.getElem?_modify]
  split
  next heq =>
    subst heq
    rw [if_pos rfl, List.getElem?_eq_getElem hk]
    rfl
  next hne =>
    rw [if_neg (fun heq => hne heq.symm)]
    simp

variable {i : Nat}

theorem bitAt_setBit (hi : i / 8 < bits.length) (j : Nat) :
    bitAt (setBit bits i) j = (bitAt bits j || decide (j = i)) := by
  have hj : j % 8 < 8 := Nat.mod_lt _ (by decide)
  rw [setBit, bitAt_modify hi]
  split
  next heq =>
    have hiff : j % 8 = i % 8 ↔ j = i := by omega
    rw [UInt8.toNat_or, Nat.testBit_or, testBit_bitMask i _ hj, bitAt_eq_testBit, heq,
      decide_eq_decide.mpr hiff]
  next hne =>
    have hji : j ≠ i := fun heq => hne (by rw [heq])
    simp [hji]

theorem testBit_not_bitMask (i j : Nat) (hj : j < 8) :
    (~~~bitMask i).toNat.testBit j = !decide (j = i % 8) := by
  have hi : i % 8 < 8 := Nat.mod_lt _ (by decide)
  unfold bitMask
  generalize i % 8 = k at hi ⊢
  interval_cases k <;> interval_cases j <;> rfl

theorem bitAt_clearBit (hi : i / 8 < bits.length) (j : Nat) :
    bitAt (clearBit bits i) j = (bitAt bits j && !decide (j = i)) := by
  have hj : j % 8 < 8 := Nat.mod_lt _ (by decide)
  rw [clearBit, bitAt_modify hi]
  split
  next heq =>
    have hiff : j % 8 = i % 8 ↔ j = i := by omega
    rw [UInt8.toNat_and, Nat.testBit_and, testBit_not_bitMask i _ hj, bitAt_eq_testBit, heq,
      decide_eq_decide.mpr hiff]
  next hne =>
    have hji : j ≠ i := fun heq => hne (by rw [heq])
    simp [hji]

@[simp] theorem bitAt_replicate_zero (n i : Nat) : bitAt (List.replicate n 0) i = false := by
  rw [bitAt_eq_testBit, List.getD_eq_getElem?_getD, List.getElem?_replicate]
  split <;> simp

variable {bits' : List UInt8}

/-- Two byte strings of one length with the same bits are equal. -/
theorem eq_of_bitAt (hlen : bits.length = bits'.length) (h : ∀ i, bitAt bits i = bitAt bits' i) :
    bits = bits' := by
  apply List.ext_getElem hlen
  intro k hk hk'
  apply UInt8.toNat_inj.mp
  apply Nat.eq_of_testBit_eq
  intro j
  by_cases hj : j < 8
  · have hbit := h (8 * k + j)
    have hdiv : (8 * k + j) / 8 = k := by omega
    have hmod : (8 * k + j) % 8 = j := by omega
    rw [bitAt_eq_testBit, bitAt_eq_testBit, hdiv, hmod, List.getD_eq_getElem?_getD,
      List.getD_eq_getElem?_getD, List.getElem?_eq_getElem hk, List.getElem?_eq_getElem hk'] at hbit
    exact hbit
  · have hbig : ∀ b : UInt8, b.toNat < 2 ^ j := fun b =>
      lt_of_lt_of_le b.toNat_lt (Nat.pow_le_pow_right (by decide) (by omega))
    rw [Nat.testBit_lt_two_pow (hbig _), Nat.testBit_lt_two_pow (hbig _)]

theorem bitAt_map_ones (bits : List UInt8) (i : Nat) :
    bitAt (bits.map fun _ => 0xff) i = decide (i < 8 * bits.length) := by
  have hones : ∀ j < 8, (0xff : UInt8).toNat.testBit j = true := by decide
  rw [bitAt_eq_testBit, List.getD_eq_getElem?_getD, List.getElem?_map]
  by_cases hi : i / 8 < bits.length
  · have hlt : i < 8 * bits.length := by omega
    rw [List.getElem?_eq_getElem hi, decide_eq_true hlt]
    exact hones _ (Nat.mod_lt _ (by decide))
  · have hge : ¬ i < 8 * bits.length := by omega
    rw [List.getElem?_eq_none (by omega), decide_eq_false hge]
    exact Nat.zero_testBit _

theorem bitAt_zipWith_or (hlen : bits.length = bits'.length) (i : Nat) :
    bitAt (List.zipWith (· ||| ·) bits bits') i = (bitAt bits i || bitAt bits' i) := by
  rw [bitAt_eq_testBit, bitAt_eq_testBit, bitAt_eq_testBit, List.getD_eq_getElem?_getD,
    List.getD_eq_getElem?_getD, List.getD_eq_getElem?_getD, List.getElem?_zipWith]
  by_cases hi : i / 8 < bits.length
  · rw [List.getElem?_eq_getElem hi, List.getElem?_eq_getElem (hlen ▸ hi)]
    show (bits[i / 8] ||| bits'[i / 8]).toNat.testBit _ = _
    rw [UInt8.toNat_or, Nat.testBit_or]
    rfl
  · rw [List.getElem?_eq_none (by omega), List.getElem?_eq_none (by omega)]
    exact (Bool.or_self _).symm

theorem bitAt_of_length_le (h : 8 * bits.length ≤ i) : bitAt bits i = false := by
  rw [bitAt_eq_testBit, List.getD_eq_getElem?_getD, List.getElem?_eq_none (by omega)]
  simp

/-! ## Counting -/

theorem sum_countOnes (bits : List UInt8) :
    (bits.map countOnes).sum = (List.range (8 * bits.length)).countP (bitAt bits) := by
  induction bits with
  | nil => rfl
  | cons b bits ih =>
    have hlen : 8 * (b :: bits).length = 8 + 8 * bits.length := by
      rw [List.length_cons]
      omega
    rw [hlen, List.range_add, List.countP_append, List.countP_map, List.map_cons, List.sum_cons,
      ih, countOnes]
    congr 1
    -- The first eight bits are those of `b`, the others are shifted by one byte.
    · apply List.countP_congr
      intro i hi
      have hi : i < 8 := List.mem_range.mp hi
      rw [bitAt_eq_testBit, Nat.div_eq_of_lt hi, Nat.mod_eq_of_lt hi]
      rfl
    · apply List.countP_congr
      intro i _
      have hdiv : (8 + i) / 8 = i / 8 + 1 := by omega
      have hmod : (8 + i) % 8 = i % 8 := by omega
      rw [Function.comp_apply, bitAt_eq_testBit, bitAt_eq_testBit, hdiv, hmod, List.getD_cons_succ]

/-- If all bits from `n` on are 0, all ones are among the first `n`. -/
theorem sum_countOnes_eq {n : Nat} (hn : n ≤ 8 * bits.length)
    (hpad : ∀ i, n ≤ i → bitAt bits i = false) :
    (bits.map countOnes).sum = (List.range n).countP (bitAt bits) := by
  have hlen : 8 * bits.length = n + (8 * bits.length - n) := by omega
  have hzero : ((List.range (8 * bits.length - n)).map (n + ·)).countP (bitAt bits) = 0 := by
    rw [List.countP_eq_zero]
    intro i hi
    obtain ⟨j, -, rfl⟩ := List.mem_map.mp hi
    rw [hpad _ (Nat.le_add_right n j)]
    simp
  rw [sum_countOnes, hlen, List.range_add, List.countP_append, hzero, Nat.add_zero]

end P2pFile.Lib
