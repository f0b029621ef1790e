/-
  P2pFile.Transfer.Resume

  The bitmap of finished chunks (`src/transfer/resume.rs`).

  The fields of the source are private, and every function keeps two facts about
  them: the byte string has the length that the chunk count needs, and the bits past
  the last chunk are 0.  Here the structure carries both.
-/

import P2pFile.Identity
import P2pFile.Lib.Bits

namespace P2pFile.Transfer

open Lib
open UInt32 (ofNat ofNat_toNat toNat_inj toNat_mod)

variable (chunkCount : UInt32)

/-- `ChunkBitmap::byte_len`. -/
def byteLen : Nat := (chunkCount.toNat + 7) / 8

/-- `ChunkBitmap`. -/
structure ChunkBitmap where
  chunkCount : UInt32
  bits : List UInt8
  length_eq : bits.length = byteLen chunkCount
  padding : ∀ i, chunkCount.toNat ≤ i → bitAt bits i = false
  deriving DecidableEq

/-! ## Padding -/

variable (bits : List UInt8)

/-- `padding_bits_are_clear`. -/
def paddingBitsAreClear : Bool :=
  let remainder := chunkCount % 8
  if remainder = 0 ∨ bits = [] then true
  else bits.getD (bits.length - 1) 0 &&& ~~~((1 <<< remainder.toUInt8) - 1) == 0

/-- `clear_padding_bits`. -/
def clearPaddingBits : List UInt8 :=
  let remainder := chunkCount % 8
  if remainder = 0 ∨ bits = [] then bits
  else bits.modify (bits.length - 1) (· &&& (1 <<< remainder.toUInt8) - 1)

theorem length_clearPaddingBits : (clearPaddingBits chunkCount bits).length = bits.length := by
  unfold clearPaddingBits
  simp only
  split
  · rfl
  · exact List.length_modify _ _ _

/-- The mask of the last byte keeps the bits below the remainder. -/
theorem testBit_lowMask (r : UInt32) (hr : r < 8) (j : Nat) (hj : j < 8) :
    ((1 <<< r.toUInt8) - 1 : UInt8).toNat.testBit j = decide (j < r.toNat) := by
  have hr : r.toNat < 8 := hr
  obtain ⟨k, hk⟩ : ∃ k, r.toNat = k := ⟨_, rfl⟩
  obtain rfl : r = ofNat k := by rw [← hk, ofNat_toNat]
  rw [hk] at hr ⊢
  interval_cases k <;> interval_cases j <;> rfl

variable {chunkCount : UInt32} {bits : List UInt8}

theorem bitAt_clearPaddingBits (hlen : bits.length = byteLen chunkCount) (j : Nat) :
    bitAt (clearPaddingBits chunkCount bits) j =
      (bitAt bits j && decide (j < chunkCount.toNat)) := by
  have hmod : (chunkCount % 8).toNat = chunkCount.toNat % 8 := toNat_mod ..
  have hj : j % 8 < 8 := Nat.mod_lt _ (by decide)
  unfold byteLen at hlen
  by_cases hbig : 8 * bits.length ≤ j
  · rw [bitAt_of_length_le hbig, bitAt_of_length_le (by rw [length_clearPaddingBits]; exact hbig)]
    rfl
  unfold clearPaddingBits
  simp only
  split
  next hwhole =>
    have hlt : j < chunkCount.toNat := by
      rcases hwhole with hzero | rfl
      · rw [hzero] at hmod
        change 0 = _ at hmod
        omega
      · simp only [List.length_nil] at hlen hbig
        omega
    simp [hlt]
  next hpart =>
    obtain ⟨hrem, hne⟩ := not_or.mp hpart
    have hrem : (chunkCount % 8).toNat ≠ 0 := fun hzero => hrem (toNat_inj.mp hzero)
    have hsmall : chunkCount % 8 < 8 := by
      show (chunkCount % 8).toNat < 8
      omega
    rw [bitAt_modify (by omega)]
    split
    next hlast =>
      rw [UInt8.toNat_and, Nat.testBit_and, testBit_lowMask _ hsmall _ hj, bitAt_eq_testBit, hlast,
        hmod]
      congr 1
      rw [decide_eq_decide]
      omega
    · have hlt : j < chunkCount.toNat := by omega
      simp [hlt]

/-- The last byte of a bitmap whose padding is clear passes the check. -/
theorem paddingBitsAreClear_of_padding (hlen : bits.length = byteLen chunkCount)
    (hpadding : ∀ i, chunkCount.toNat ≤ i → bitAt bits i = false) :
    paddingBitsAreClear chunkCount bits = true := by
  have hmod : (chunkCount % 8).toNat = chunkCount.toNat % 8 := toNat_mod ..
  unfold paddingBitsAreClear
  simp only
  split
  · rfl
  rename_i hpart
  obtain ⟨hrem, hne⟩ := not_or.mp hpart
  have hrem : (chunkCount % 8).toNat ≠ 0 := fun hzero => hrem (toNat_inj.mp hzero)
  have hsmall : chunkCount % 8 < 8 := by
    show (chunkCount % 8).toNat < 8
    omega
  unfold byteLen at hlen
  -- The mask takes nothing away from the last byte.
  have hmask : bits.getD (bits.length - 1) 0 &&& ((1 <<< (chunkCount % 8).toUInt8) - 1) =
      bits.getD (bits.length - 1) 0 := by
    apply UInt8.toNat_inj.mp
    apply Nat.eq_of_testBit_eq
    intro j
    rw [UInt8.toNat_and, Nat.testBit_and]
    by_cases hj : j < 8
    · rw [testBit_lowMask _ hsmall j hj]
      by_cases hlow : j < (chunkCount % 8).toNat
      · rw [decide_eq_true hlow, Bool.and_true]
      have hbit := hpadding (8 * (bits.length - 1) + j) (by omega)
      have hdiv : (8 * (bits.length - 1) + j) / 8 = bits.length - 1 := by omega
      have hmodj : (8 * (bits.length - 1) + j) % 8 = j := by omega
      rw [bitAt_eq_testBit, hdiv, hmodj] at hbit
      rw [hbit, Bool.false_and]
    · have hbig : (bits.getD (bits.length - 1) 0).toNat < 2 ^ j :=
        lt_of_lt_of_le (UInt8.toNat_lt _) (Nat.pow_le_pow_right (by decide) (by omega))
      rw [Nat.testBit_lt_two_pow hbig, Bool.false_and]
  rw [beq_iff_eq, ← hmask, UInt8.and_assoc, UInt8.and_not_self, UInt8.and_zero]

/-! ## Operations -/

theorem div_lt_byteLen {i : Nat} (h : i < chunkCount.toNat) : i / 8 < byteLen chunkCount := by
  unfold byteLen
  omega

namespace ChunkBitmap

variable (chunkCount : UInt32)

/-- `ChunkBitmap::new`. -/
def new : ChunkBitmap where
  chunkCount := chunkCount
  bits := List.replicate (byteLen chunkCount) 0
  length_eq := List.length_replicate
  padding _ _ := bitAt_replicate_zero _ _

/-- A byte string of the right length, with its padding cleared. -/
def ofBits (bits : List UInt8) (h : bits.length = byteLen chunkCount) : ChunkBitmap where
  chunkCount := chunkCount
  bits := clearPaddingBits chunkCount bits
  length_eq := by rw [length_clearPaddingBits, h]
  padding i hi := by
    have hge : ¬ i < chunkCount.toNat := by omega
    simp [bitAt_clearPaddingBits h, hge]

variable (b : ChunkBitmap) (index : UInt32)

def isSet : Bool :=
  if index ≥ b.chunkCount then false else bitAt b.bits index.toNat

/-- The error of `check_index`. -/
def indexError : Error :=
  .protocol ("分片下标 " ++ toString index ++ " 越界，共 " ++ toString b.chunkCount ++ " 片")

theorem length_setBit : (setBit b.bits index.toNat).length = byteLen b.chunkCount := by
  rw [setBit, List.length_modify, b.length_eq]

theorem padding_setBit (h : index < b.chunkCount) (i : Nat) (hi : b.chunkCount.toNat ≤ i) :
    bitAt (setBit b.bits index.toNat) i = false := by
  have hlt : index.toNat < b.chunkCount.toNat := h
  have hne : i ≠ index.toNat := by omega
  rw [bitAt_setBit (b.length_eq ▸ div_lt_byteLen hlt), b.padding i hi]
  simp [hne]

def set : Except Error ChunkBitmap :=
  if h : index < b.chunkCount then
    .ok {
      chunkCount := b.chunkCount
      bits := setBit b.bits index.toNat
      length_eq := b.length_setBit index
      padding := b.padding_setBit index h }
  else .error (b.indexError index)

def clear : Except Error ChunkBitmap :=
  if h : index < b.chunkCount then
    .ok {
      chunkCount := b.chunkCount
      bits := clearBit b.bits index.toNat
      length_eq := by rw [clearBit, List.length_modify, b.length_eq]
      padding := by
        intro i hi
        have hlt : index.toNat < b.chunkCount.toNat := h
        rw [bitAt_clearBit (b.length_eq ▸ div_lt_byteLen hlt), b.padding i hi]
        rfl }
  else .error (b.indexError index)

def countSet : Nat := (b.bits.map countOnes).sum

def isComplete : Bool := b.countSet == b.chunkCount.toNat

/-- `0..chunk_count`. -/
def indexes : List UInt32 := (List.range b.chunkCount.toNat).map ofNat

def missing : List UInt32 := b.indexes.filter fun index => !b.isSet index

def present : List UInt32 := b.indexes.filter fun index => b.isSet index

def toBytes : List UInt8 := b.bits

def fromBytes (bytes : List UInt8) : Except Error ChunkBitmap :=
  if h : bytes.length = byteLen chunkCount then
    if paddingBitsAreClear chunkCount bytes then .ok (ofBits chunkCount bytes h)
    else .error (.protocol "位图末尾填充位不为 0")
  else
    .error (.protocol (toString chunkCount ++ " 片应有 " ++ toString (byteLen chunkCount) ++
      " 字节位图，实际 " ++ toString bytes.length ++ " 字节"))

/-! ## The set of finished chunks -/

variable {b}

/-- Bits past the last chunk are 0, so the range check changes nothing. -/
theorem isSet_eq : b.isSet index = bitAt b.bits index.toNat := by
  unfold isSet
  split
  next hge =>
    exact (b.padding index.toNat hge).symm
  · rfl

variable {index : UInt32}

theorem lt_of_isSet (h : b.isSet index = true) : index < b.chunkCount := by
  by_contra hge
  rw [isSet, if_pos (UInt32.not_lt.mp hge)] at h
  cases h

@[simp] theorem isSet_new (chunkCount index : UInt32) : (new chunkCount).isSet index = false := by
  rw [isSet_eq]
  exact bitAt_replicate_zero _ _

variable {b' : ChunkBitmap}

theorem set_ok (h : b.set index = .ok b') : b'.chunkCount = b.chunkCount ∧
      ∀ j, b'.isSet j = (b.isSet j || decide (j = index)) := by
  unfold set at h
  split at h
  next hlt =>
    cases h
    refine ⟨rfl, ?_⟩
    intro j
    rw [isSet_eq, isSet_eq, bitAt_setBit (b.length_eq ▸ div_lt_byteLen hlt),
      decide_eq_decide.mpr toNat_inj]
  · cases h

theorem clear_ok (h : b.clear index = .ok b') : b'.chunkCount = b.chunkCount ∧
      ∀ j, b'.isSet j = (b.isSet j && !decide (j = index)) := by
  unfold clear at h
  split at h
  next hlt =>
    cases h
    refine ⟨rfl, ?_⟩
    intro j
    rw [isSet_eq, isSet_eq, bitAt_clearBit (b.length_eq ▸ div_lt_byteLen hlt),
      decide_eq_decide.mpr toNat_inj]
  · cases h

theorem fromBytes_ok {chunkCount : UInt32} {bytes : List UInt8}
    (h : fromBytes chunkCount bytes = .ok b') : b'.chunkCount = chunkCount := by
  unfold fromBytes at h
  split at h
  · split at h
    · cases h
      rfl
    · cases h
  · cases h

/-- A bitmap is read back from its bytes. -/
theorem fromBytes_toBytes (b : ChunkBitmap) :
    ∃ b', fromBytes b.chunkCount b.toBytes = .ok b' ∧ b'.chunkCount = b.chunkCount ∧
      ∀ index, b'.isSet index = b.isSet index := by
  refine ⟨ofBits b.chunkCount b.bits b.length_eq, ?_, rfl, ?_⟩
  · unfold fromBytes toBytes
    rw [dif_pos b.length_eq, if_pos (paddingBitsAreClear_of_padding b.length_eq b.padding)]
  · intro index
    rw [isSet_eq, isSet_eq]
    show bitAt (clearPaddingBits b.chunkCount b.bits) index.toNat = _
    rw [bitAt_clearPaddingBits b.length_eq]
    by_cases hlt : index.toNat < b.chunkCount.toNat
    · simp [hlt]
    · rw [b.padding index.toNat (by omega), Bool.false_and]

/-- An index below a `u32` is one. -/
theorem toNat_ofNat_index {i : Nat} {n : UInt32} (h : i < n.toNat) : (ofNat i).toNat = i :=
  UInt32.toNat_ofNat_of_lt' (lt_trans h n.toNat_lt_size)

theorem mem_indexes : index ∈ b.indexes ↔ index < b.chunkCount := by
  rw [indexes, List.mem_map]
  constructor
  · rintro ⟨i, hi, rfl⟩
    have hi : i < b.chunkCount.toNat := List.mem_range.mp hi
    show (ofNat i).toNat < b.chunkCount.toNat
    rw [toNat_ofNat_index hi]
    exact hi
  · intro hlt
    exact ⟨index.toNat, List.mem_range.mpr hlt, ofNat_toNat⟩

theorem mem_present : index ∈ b.present ↔ b.isSet index = true := by
  rw [present, List.mem_filter, mem_indexes]
  exact ⟨fun h => h.2, fun h => ⟨lt_of_isSet h, h⟩⟩

/-- The count of ones is the count of finished chunks. -/
theorem countSet_eq : b.countSet = (List.range b.chunkCount.toNat).countP (bitAt b.bits) := by
  refine sum_countOnes_eq ?_ b.padding
  rw [b.length_eq, byteLen]
  omega

/-- A bitmap is complete if every chunk is finished. -/
theorem isComplete_iff :
    b.isComplete = true ↔ ∀ index, index < b.chunkCount → b.isSet index = true := by
  have hlen : (List.range b.chunkCount.toNat).length = b.chunkCount.toNat := List.length_range
  rw [isComplete, beq_iff_eq, countSet_eq]
  nth_rewrite 2 [← hlen]
  rw [List.countP_eq_length]
  constructor
  · intro hall index hlt
    rw [isSet_eq]
    exact hall _ (List.mem_range.mpr hlt)
  · intro hall i hi
    have hi : i < b.chunkCount.toNat := List.mem_range.mp hi
    have hnat := toNat_ofNat_index hi
    have hset := hall (ofNat i) (by
      show (ofNat i).toNat < b.chunkCount.toNat
      omega)
    rw [isSet_eq, hnat] at hset
    exact hset

end ChunkBitmap

end P2pFile.Transfer
