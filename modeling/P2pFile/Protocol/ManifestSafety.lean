/-
  P2pFile.Protocol.ManifestSafety

  The helpers of a manifest on values that no one has validated
  (`src/protocol/manifest.rs`).

  In `Checked` every operation of the source that can panic is partial: `none` is a
  division by zero, an addition that overflows, or an index past the end of a list.
  `checked_mul`, `checked_sub` and the casts cannot panic.
-/

import P2pFile.Protocol.Manifest

namespace P2pFile.Protocol

open Lib

namespace Checked

/-- `u64::div_ceil`. -/
def divCeil (a b : UInt64) : Option UInt64 :=
  if b = 0 then none
  else
    let d := a / b
    if a % b > 0 then
      if d.toNat + 1 < 2 ^ 64 then some (d + 1) else none
    else some d

/-- `chunk_count(total_len, chunk_size)`. -/
def chunkCount (totalLen : UInt64) (chunkSize : UInt32) : Option UInt64 :=
  if totalLen = 0 ∨ chunkSize = 0 then some 0 else divCeil totalLen chunkSize.toUInt64

def chunkLenAt (index : UInt32) (totalLen : UInt64) (chunkSize : UInt32) :
    Option (Option UInt32) := do
  let total ← chunkCount totalLen chunkSize
  if index.toUInt64 ≥ total then some none
  else
    some do
      let offset ← checkedMul index.toUInt64 chunkSize.toUInt64
      let remaining ← checkedSub totalLen offset
      some (min remaining chunkSize.toUInt64).toUInt32

variable (c : Crypto) (m : FileManifest) (index : UInt32)

/-- `chunk_offset` compares and multiplies with `checked_mul`. -/
def chunkOffset : Option (Option UInt64) := some (m.chunkOffset index)

def chunkLen : Option (Option UInt32) := chunkLenAt index m.totalLen m.chunkSize

def chunkRange : Option (Option (UInt64 × UInt32)) := do
  match ← chunkOffset m index with
  | none => some none
  | some offset =>
    let len ← chunkLen m index
    some (len.map fun len => (offset, len))

def verifyChunk (data : List UInt8) : Option Bool := do
  match ← chunkLen m index with
  | none => some false
  | some expectedLen =>
    if data.length ≠ expectedLen.toNat then some false
    else
      let hash ← m.chunks[index.toNat]?
      some (hash.verify c data)

/-! ## Arithmetic -/

/-- A remainder needs a divisor of at least 2, so the quotient has room for 1 more. -/
theorem divCeil_eq {a b : UInt64} (hb : b ≠ 0) : divCeil a b = some (Protocol.divCeil a b) := by
  unfold divCeil Protocol.divCeil
  rw [if_neg hb]
  split
  next hrest =>
    have hrest : 0 < a.toNat % b.toNat := hrest
    have hpos : b.toNat ≠ 0 := fun hzero => hb (UInt64.toNat_inj.mp hzero)
    have hone : b.toNat ≠ 1 := fun hone => by rw [hone, Nat.mod_one] at hrest; omega
    have hquot : a.toNat / b.toNat ≤ a.toNat / 2 := Nat.div_le_div_left (by omega) (by decide)
    have ha := a.toNat_lt
    rw [if_pos (by rw [UInt64.toNat_div]; omega)]
  · rfl

theorem chunkCount_eq (totalLen : UInt64) (chunkSize : UInt32) :
    chunkCount totalLen chunkSize = some (Protocol.chunkCount totalLen chunkSize) := by
  unfold chunkCount Protocol.chunkCount
  split
  · rfl
  rename_i hnonzero
  apply divCeil_eq
  intro hzero
  have hzero := congrArg UInt64.toNat hzero
  exact hnonzero (.inr (UInt32.toNat_inj.mp hzero))

theorem chunkLen_eq : chunkLen m index = some (m.chunkLen index) := by
  unfold chunkLen chunkLenAt FileManifest.chunkLen Protocol.chunkLenAt
  rw [chunkCount_eq]
  simp only [Option.bind_eq_bind, Option.bind_some]
  split <;> rfl

variable {m index}

/-- What `verify_chunk` gives, with the panic of an index past the chunk list. -/
theorem verifyChunk_eq (data : List UInt8) :
    verifyChunk c m index data = m.verifyChunk? c index data := by
  unfold verifyChunk FileManifest.verifyChunk?
  rw [chunkLen_eq]
  simp only [Option.bind_eq_bind, Option.bind_some]
  cases m.chunkLen index with
  | none => rfl
  | some len =>
    dsimp only
    split
    · rfl
    · cases m.chunks[index.toNat]? <;> rfl

/-- A chunk that has a length is one that the fields count. -/
theorem lt_chunkCount_of_chunkLen {len : UInt32} (h : m.chunkLen index = some len) :
    index.toNat < (Protocol.chunkCount m.totalLen m.chunkSize).toNat := by
  unfold FileManifest.chunkLen Protocol.chunkLenAt at h
  simp only at h
  split at h
  · cases h
  rename_i hlt
  have hlt : ¬ (Protocol.chunkCount m.totalLen m.chunkSize).toNat ≤ index.toUInt64.toNat := hlt
  rw [UInt32.toNat_toUInt64] at hlt
  omega

end Checked

/-- `verify_chunk` indexes the chunk list only for data of the chunk's length. -/
theorem verifyChunk?_returns_iff (c : Crypto) (m : FileManifest) (index : UInt32)
    (data : List UInt8) : (∃ ok, m.verifyChunk? c index data = some ok) ↔
      ∀ len, m.chunkLen index = some len → data.length = len.toNat →
        index.toNat < m.chunks.length := by
  rw [← Option.isSome_iff_exists]
  unfold FileManifest.verifyChunk?
  cases m.chunkLen index with
  | none => simp
  | some len =>
    by_cases hlen : data.length = len.toNat
    · simp [hlen]
    · simp [hlen]

/-- No helper divides by zero or overflows, whatever the fields say.  Of the helpers only
    `verify_chunk` reads the chunk list.  It returns exactly if the list has an entry for
    the chunk, or the chunk has no length or another one than the data; so it always returns
    if the list has an entry for every chunk that the length and the chunk size give. -/
theorem manifest_helpers_return (c : Crypto) (m : FileManifest) (index : UInt32)
    (data : List UInt8) : (∃ offset, Checked.chunkOffset m index = some offset) ∧
      (∃ len, Checked.chunkLen m index = some len) ∧
      (∃ range, Checked.chunkRange m index = some range) ∧
      ((∃ ok, Checked.verifyChunk c m index data = some ok) ↔
        ∀ len, m.chunkLen index = some len → data.length = len.toNat →
          index.toNat < m.chunks.length) ∧
      ((chunkCount m.totalLen m.chunkSize).toNat ≤ m.chunks.length →
        ∃ ok, Checked.verifyChunk c m index data = some ok) := by
  have hexact := verifyChunk?_returns_iff c m index data
  rw [← Checked.verifyChunk_eq] at hexact
  refine ⟨⟨_, rfl⟩, ⟨_, Checked.chunkLen_eq m index⟩, ?_, hexact, fun hcount => ?_⟩
  · unfold Checked.chunkRange
    rw [Checked.chunkLen_eq]
    simp only [Checked.chunkOffset, Option.bind_eq_bind, Option.bind_some]
    split
    · exact ⟨_, rfl⟩
    · exact ⟨_, rfl⟩
  · exact hexact.mpr fun len hlen _ =>
      Nat.lt_of_lt_of_le (Checked.lt_chunkCount_of_chunkLen hlen) hcount

namespace Sample

/-- One chunk of one byte, with or without its digest. -/
def oneByte (chunks : List ChunkHash) : FileManifest := ⟨"a", 1, 1, chunks, Bytes.fill 32 0⟩

end Sample

/-- A manifest that counts one chunk and lists none makes `verify_chunk` index past the
    list. -/
theorem verifyChunk_past_end : Checked.verifyChunk .sample (Sample.oneByte []) 0 [7] = none := by
  decide

/-- With its digest the chunk is checked; without it, data of another length still are. -/
theorem manifest_helpers_return_one :
    (∃ ok, Checked.verifyChunk .sample (Sample.oneByte [Bytes.fill 32 0]) 0 [7] = some ok) ∧
      ∃ ok, Checked.verifyChunk .sample (Sample.oneByte []) 0 [] = some ok := by
  refine ⟨(manifest_helpers_return _ _ _ _).2.2.2.2 (by decide),
    (manifest_helpers_return _ _ _ _).2.2.2.1.mpr fun len hlen hdata => ?_⟩
  obtain rfl : 1 = len := Option.some.inj hlen
  cases hdata

end P2pFile.Protocol
