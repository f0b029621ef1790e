/-
  P2pFile.Protocol.Manifest

  File manifests (`src/protocol/manifest.rs`).

  A manifest describes a file by its length, its chunk size and the digest of every
  chunk.  The integers are the machine integers of the source; `checked_mul` and
  `checked_sub` are partial functions, and the specification lemmas restate each
  function over the natural numbers.
-/

import P2pFile.Identity

namespace P2pFile.Protocol

open Lib
open UInt32 (ofNat toNat_toUInt64)

/-! ## Arithmetic of `u64` -/

/-- `u64::div_ceil`. -/
def divCeil (a b : UInt64) : UInt64 :=
  let d := a / b
  if a % b > 0 then d + 1 else d

/-- `u64::checked_mul`. -/
def checkedMul (a b : UInt64) : Option UInt64 :=
  if a.toNat * b.toNat < 2 ^ 64 then some (a * b) else none

/-- `u64::checked_add`. -/
def checkedAdd (a b : UInt64) : Option UInt64 :=
  if a.toNat + b.toNat < 2 ^ 64 then some (a + b) else none

variable {a b : UInt64}

theorem checkedAdd_toNat {sum : UInt64} (h : checkedAdd a b = some sum) :
    sum.toNat = a.toNat + b.toNat := by
  unfold checkedAdd at h
  split at h
  next hlt =>
    rw [← Option.some.inj h, UInt64.toNat_add, Nat.mod_eq_of_lt hlt]
  · cases h

theorem checkedAdd_one_toNat {last id : UInt64} (h : checkedAdd last 1 = some id) :
    id.toNat = last.toNat + 1 :=
  checkedAdd_toNat h

/-- `u64::checked_sub`. -/
def checkedSub (a b : UInt64) : Option UInt64 :=
  if b ≤ a then some (a - b) else none

/-- `u64::to_le_bytes`. -/
def u64le (x : UInt64) : List UInt8 :=
  [x.toUInt8, (x >>> 8).toUInt8, (x >>> 16).toUInt8, (x >>> 24).toUInt8,
   (x >>> 32).toUInt8, (x >>> 40).toUInt8, (x >>> 48).toUInt8, (x >>> 56).toUInt8]

/-- `u32::to_le_bytes`. -/
def u32le (x : UInt32) : List UInt8 :=
  [x.toUInt8, (x >>> 8).toUInt8, (x >>> 16).toUInt8, (x >>> 24).toUInt8]

/-! ## Chunks -/

def minChunkSize : UInt32 := 16 * 1024

def maxChunkSize : UInt32 := 16 * 1024 * 1024

/-- `ROOT_HASH_DOMAIN`: the ASCII text `p2p_file/manifest/v1`. -/
def rootHashDomain : List UInt8 :=
  [0x70, 0x32, 0x70, 0x5f, 0x66, 0x69, 0x6c, 0x65, 0x2f, 0x6d, 0x61, 0x6e, 0x69, 0x66, 0x65,
   0x73, 0x74, 0x2f, 0x76, 0x31]

/-- `ChunkHash`, a BLAKE3 digest. -/
abbrev ChunkHash := Bytes 32

/-- `ChunkHash::verify`. -/
def ChunkHash.verify (c : Crypto) (h : ChunkHash) (data : List UInt8) : Bool := h == c.hash data

def validateChunkSize (chunkSize : UInt32) : Except Error Unit :=
  if !(minChunkSize ≤ chunkSize && chunkSize ≤ maxChunkSize) then
    .error (.protocol ("分片大小 " ++ toString chunkSize ++ " 超出允许范围 " ++
      toString minChunkSize ++ "..=" ++ toString maxChunkSize))
  else .ok ()

/-- `chunk_count(total_len, chunk_size)`. -/
def chunkCount (totalLen : UInt64) (chunkSize : UInt32) : UInt64 :=
  if totalLen = 0 ∨ chunkSize = 0 then 0 else divCeil totalLen chunkSize.toUInt64

def chunkLenAt (index : UInt32) (totalLen : UInt64) (chunkSize : UInt32) : Option UInt32 :=
  let total := chunkCount totalLen chunkSize
  if index.toUInt64 ≥ total then none
  else do
    let offset ← checkedMul index.toUInt64 chunkSize.toUInt64
    let remaining ← checkedSub totalLen offset
    some (min remaining chunkSize.toUInt64).toUInt32

def rootHashOf (c : Crypto) (fileName : String) (totalLen : UInt64) (chunkSize : UInt32)
    (chunks : List ChunkHash) : ChunkHash :=
  let name := fileName.toUTF8.data.toList
  c.hash (rootHashDomain ++ u64le (UInt64.ofNat name.length) ++ name ++ u64le totalLen ++
    u32le chunkSize ++ u64le (UInt64.ofNat chunks.length) ++ chunks.flatMap Bytes.toList)

/-! ## Manifests -/

structure FileManifest where
  fileName : String
  totalLen : UInt64
  chunkSize : UInt32
  chunks : List ChunkHash
  rootHash : ChunkHash
  deriving DecidableEq

namespace FileManifest

variable (c : Crypto) (m : FileManifest)

def verifyRootHash : Bool := m.rootHash == rootHashOf c m.fileName m.totalLen m.chunkSize m.chunks

/-- The one entry point of validation. -/
def validate : Except Error Unit := do
  validateChunkSize m.chunkSize
  if m.chunks.length > UInt32.size - 1 then
    .error (.protocol ("分片数量 " ++ toString m.chunks.length ++ " 超过协议上限 " ++
      toString (UInt32.size - 1)))
  let expected := chunkCount m.totalLen m.chunkSize
  if m.chunks.length ≠ expected.toNat then
    .error (.protocol ("分片数量不符：文件 " ++ toString m.totalLen ++ " 字节 / 分片 " ++
      toString m.chunkSize ++ " 字节应为 " ++ toString expected ++ " 片，实际 " ++
      toString m.chunks.length ++ " 片"))
  if !m.verifyRootHash c then
    .error (.protocol "清单根哈希校验失败，可能被篡改")

variable (m : FileManifest)

/-- `chunk_count()`: `chunks.len() as u32`. -/
def count : UInt32 := ofNat m.chunks.length

variable (index : UInt32)

def chunkOffset : Option UInt64 :=
  if index ≥ m.count then none else checkedMul index.toUInt64 m.chunkSize.toUInt64

def chunkLen : Option UInt32 := chunkLenAt index m.totalLen m.chunkSize

def chunkRange : Option (UInt64 × UInt32) := do
  let offset ← m.chunkOffset index
  let len ← m.chunkLen index
  some (offset, len)

/-- `verify_chunk`.  `none` is the panic of an index past the chunk list. -/
def verifyChunk? (data : List UInt8) : Option Bool :=
  match m.chunkLen index with
  | none => some false
  | some expectedLen =>
    if data.length ≠ expectedLen.toNat then some false
    else m.chunks[index.toNat]?.map fun h => h.verify c data

/-- `verify_chunk` of a manifest whose chunk list is long enough. -/
def verifyChunk (data : List UInt8) : Bool := (m.verifyChunk? c index data).getD false

end FileManifest

/-! ## File names -/

/-- `char::is_whitespace`. -/
def isWhitespace (ch : Char) : Bool :=
  let x := ch.toNat
  (0x9 ≤ x && x ≤ 0xd) || x == 0x20 || x == 0x85 || x == 0xa0 || x == 0x1680 ||
    (0x2000 ≤ x && x ≤ 0x200a) || x == 0x2028 || x == 0x2029 || x == 0x202f || x == 0x205f ||
    x == 0x3000

/-- `char::is_control`. -/
def isControl (ch : Char) : Bool :=
  let x := ch.toNat
  x < 0x20 || (0x7f ≤ x && x ≤ 0x9f)

/-- `trim_matches`. -/
def trimMatches (p : Char → Bool) (chars : List Char) : List Char :=
  (((chars.dropWhile p).reverse).dropWhile p).reverse

/-- `safe_file_name`. -/
def safeFileName (name : String) : String :=
  let last := (name.toList.reverse.takeWhile fun ch => ch != '/' && ch != '\\').reverse
  let base := trimMatches (fun ch => ch == '.') (trimMatches isWhitespace last)
  let cleaned := base.filter fun ch => !isControl ch && ch != Char.ofNat 0
  if cleaned = [] then "download.bin" else String.ofList cleaned

/-! ## The functions over the natural numbers -/

theorem toNat_divCeil (a : UInt64) (hb : b.toNat ≠ 0) :
    (divCeil a b).toNat = (a.toNat + b.toNat - 1) / b.toNat := by
  have hpos : 0 < b.toNat := Nat.pos_of_ne_zero hb
  have hdiv := Nat.div_add_mod a.toNat b.toNat
  have hmod := Nat.mod_lt a.toNat hpos
  unfold divCeil
  split
  next hrest =>
    have hrest : 0 < a.toNat % b.toNat := hrest
    -- A remainder needs a divisor of at least 2, so the quotient has room for 1 more.
    have hquot : a.toNat / b.toNat * 2 ≤ a.toNat := by
      calc a.toNat / b.toNat * 2 ≤ a.toNat / b.toNat * b.toNat := Nat.mul_le_mul_left _ (by omega)
        _ ≤ a.toNat := Nat.div_mul_le_self _ _
    have ha := a.toNat_lt
    rw [UInt64.toNat_add, UInt64.toNat_div, UInt64.toNat_one, Nat.mod_eq_of_lt (by omega)]
    symm
    rw [Nat.div_eq_iff hpos]
    constructor
    · rw [Nat.add_mul, Nat.mul_comm]
      omega
    · rw [Nat.add_mul, Nat.mul_comm]
      omega
  next hrest =>
    have hrest : ¬ 0 < a.toNat % b.toNat := hrest
    rw [UInt64.toNat_div]
    symm
    rw [Nat.div_eq_iff hpos]
    constructor
    · rw [Nat.mul_comm]
      omega
    · rw [Nat.mul_comm]
      omega

variable {totalLen : UInt64} {chunkSize : UInt32}

theorem toNat_chunkCount (hsize : chunkSize.toNat ≠ 0) : (chunkCount totalLen chunkSize).toNat =
      (totalLen.toNat + chunkSize.toNat - 1) / chunkSize.toNat := by
  have hwide : chunkSize.toUInt64.toNat = chunkSize.toNat := toNat_toUInt64 _
  have hnonzero : chunkSize ≠ 0 := fun h => hsize (by rw [h]; rfl)
  unfold chunkCount
  by_cases hempty : totalLen = 0
  · rw [if_pos (.inl hempty), hempty]
    symm
    exact Nat.div_eq_of_lt (by simp only [UInt64.toNat_zero]; omega)
  · rw [if_neg (by tauto), toNat_divCeil _ (by rw [hwide]; exact hsize), hwide]

/-- Index `i` is a chunk exactly if it starts inside the file. -/
theorem lt_chunkCount_iff (hsize : chunkSize.toNat ≠ 0) (i : Nat) :
    i < (chunkCount totalLen chunkSize).toNat ↔ i * chunkSize.toNat < totalLen.toNat := by
  have hpos : 0 < chunkSize.toNat := Nat.pos_of_ne_zero hsize
  rw [toNat_chunkCount hsize, Nat.lt_iff_add_one_le, Nat.le_div_iff_mul_le hpos, Nat.add_mul]
  omega

theorem checkedMul_of_lt (h : a.toNat * b.toNat < 2 ^ 64) :
    ∃ r, checkedMul a b = some r ∧ r.toNat = a.toNat * b.toNat := by
  refine ⟨a * b, if_pos h, ?_⟩
  rw [UInt64.toNat_mul, Nat.mod_eq_of_lt h]

theorem checkedSub_of_le (h : b.toNat ≤ a.toNat) :
    ∃ r, checkedSub a b = some r ∧ r.toNat = a.toNat - b.toNat :=
  ⟨a - b, if_pos h, UInt64.toNat_sub_of_le _ _ h⟩

theorem toNat_min_chunkSize (r : UInt64) (chunkSize : UInt32) :
    (min r chunkSize.toUInt64).toUInt32.toNat = min r.toNat chunkSize.toNat := by
  have hsize := chunkSize.toNat_lt
  have hwide : chunkSize.toUInt64.toNat = chunkSize.toNat := toNat_toUInt64 _
  have hmin : (min r chunkSize.toUInt64).toNat = min r.toNat chunkSize.toNat := by
    show (if r ≤ chunkSize.toUInt64 then r else chunkSize.toUInt64).toNat = _
    split
    next hle =>
      have hle : r.toNat ≤ chunkSize.toNat := hwide ▸ hle
      omega
    next hle =>
      have hle : ¬ r.toNat ≤ chunkSize.toNat := hwide ▸ hle
      omega
  rw [UInt64.toNat_toUInt32, hmin, Nat.mod_eq_of_lt (by omega)]

/-! ## Valid manifests -/

namespace FileManifest

variable {c : Crypto} {m : FileManifest}

/-- What `validate` has checked. -/
structure Valid (c : Crypto) (m : FileManifest) : Prop where
  minSize : minChunkSize ≤ m.chunkSize
  maxSize : m.chunkSize ≤ maxChunkSize
  length_lt : m.chunks.length < UInt32.size
  length_eq : m.chunks.length = (Protocol.chunkCount m.totalLen m.chunkSize).toNat
  rootHash : m.verifyRootHash c = true

theorem validate_ok (h : m.validate c = .ok ()) : m.Valid c := by
  simp only [validate, validateChunkSize, bind_eq_ok] at h
  obtain ⟨_, hsize, h⟩ := h
  split at hsize
  · cases hsize
  rename_i hsize'
  simp only [Bool.not_eq_true', Bool.not_eq_false, Bool.and_eq_true, decide_eq_true_eq] at hsize'
  split at h
  · simp [bind, Except.bind] at h
  rename_i hcount
  split at h
  · simp [bind, Except.bind] at h
  rename_i hlength
  split at h
  · cases h
  next hroot =>
    have hsizeof : UInt32.size = 4294967296 := rfl
    exact ⟨hsize'.1, hsize'.2, by omega, not_not.mp hlength, by simpa using hroot⟩

variable (h : m.Valid c)

include h

theorem Valid.chunkSize_ne : m.chunkSize.toNat ≠ 0 := by
  have hmin : minChunkSize.toNat ≤ m.chunkSize.toNat := h.minSize
  have hpos : minChunkSize.toNat = 16384 := rfl
  omega

theorem Valid.toNat_count : m.count.toNat = m.chunks.length := UInt32.toNat_ofNat_of_lt' h.length_lt

/-- Chunk `index` of a valid manifest starts inside the file. -/
theorem Valid.lt_count_iff (index : UInt32) :
    index < m.count ↔ index.toNat * m.chunkSize.toNat < m.totalLen.toNat := by
  rw [← lt_chunkCount_iff h.chunkSize_ne, ← h.length_eq, ← h.toNat_count]
  rfl

variable {index : UInt32} (hi : index < m.count)

include hi

theorem Valid.chunkOffset_eq :
    ∃ offset, m.chunkOffset index = some offset ∧
      offset.toNat = index.toNat * m.chunkSize.toNat := by
  have hin := (h.lt_count_iff index).mp hi
  have htotal := m.totalLen.toNat_lt
  obtain ⟨offset, hmul, hoffset⟩ :=
    checkedMul_of_lt (a := index.toUInt64) (b := m.chunkSize.toUInt64)
      (by rw [toNat_toUInt64, toNat_toUInt64]; omega)
  refine ⟨offset, ?_, hoffset⟩
  rw [chunkOffset, if_neg (UInt32.not_le.mpr hi), hmul]

theorem Valid.chunkLen_eq :
    ∃ len, m.chunkLen index = some len ∧
      len.toNat = min (m.totalLen.toNat - index.toNat * m.chunkSize.toNat) m.chunkSize.toNat := by
  have hin := (h.lt_count_iff index).mp hi
  have htotal := m.totalLen.toNat_lt
  obtain ⟨offset, hmul, hoffset⟩ :=
    checkedMul_of_lt (a := index.toUInt64) (b := m.chunkSize.toUInt64)
      (by rw [toNat_toUInt64, toNat_toUInt64]; omega)
  rw [toNat_toUInt64, toNat_toUInt64] at hoffset
  obtain ⟨remaining, hsub, hremaining⟩ :=
    checkedSub_of_le (a := m.totalLen) (b := offset) (by omega)
  have hcount : ¬ index.toUInt64 ≥ Protocol.chunkCount m.totalLen m.chunkSize := by
    show ¬ (Protocol.chunkCount m.totalLen m.chunkSize).toNat ≤ index.toUInt64.toNat
    rw [toNat_toUInt64, Nat.not_le, lt_chunkCount_iff h.chunkSize_ne]
    exact hin
  refine ⟨(min remaining m.chunkSize.toUInt64).toUInt32, ?_, ?_⟩
  · simp only [chunkLen, chunkLenAt, if_neg hcount, hmul, hsub, Option.bind_eq_bind,
      Option.bind_some]
  · rw [toNat_min_chunkSize, hremaining, hoffset]

/-- The range of a chunk of a valid manifest is not empty and lies inside the file. -/
theorem Valid.chunkRange_eq :
    ∃ offset len, m.chunkRange index = some (offset, len) ∧ m.chunkOffset index = some offset ∧
      m.chunkLen index = some len ∧ offset.toNat = index.toNat * m.chunkSize.toNat ∧
      len.toNat ≤ m.chunkSize.toNat ∧ offset.toNat + len.toNat ≤ m.totalLen.toNat := by
  have hin := (h.lt_count_iff index).mp hi
  obtain ⟨offset, hoffset, hoff⟩ := h.chunkOffset_eq hi
  obtain ⟨len, hlen, hl⟩ := h.chunkLen_eq hi
  refine ⟨offset, len, ?_, hoffset, hlen, hoff, by omega, by omega⟩
  simp only [chunkRange, hoffset, hlen, Option.bind_eq_bind, Option.bind_some]

omit hi

omit h

/-- Different chunks do not overlap. -/
theorem disjoint_of_ne {size i j a b : Nat} (hne : i ≠ j) (ha : a ≤ size) (hb : b ≤ size) :
    j * size + b ≤ i * size ∨ i * size + a ≤ j * size := by
  rcases Nat.lt_or_gt_of_ne hne with hlt | hlt
  · right
    have hmul := Nat.mul_le_mul_right size (Nat.succ_le_of_lt hlt)
    rw [Nat.succ_mul] at hmul
    omega
  · left
    have hmul := Nat.mul_le_mul_right size (Nat.succ_le_of_lt hlt)
    rw [Nat.succ_mul] at hmul
    omega

variable {data : List UInt8}

/-- What `verify_chunk` of a valid manifest accepts. -/
theorem Valid.verifyChunk_iff (h : m.Valid c) :
    m.verifyChunk c index data = true ↔ ∃ len, m.chunkLen index = some len ∧
      index < m.count ∧ data.length = len.toNat ∧ m.chunks[index.toNat]? = some (c.hash data) := by
  unfold verifyChunk verifyChunk?
  by_cases hi : index < m.count
  · obtain ⟨len, hlen, -⟩ := h.chunkLen_eq hi
    have hlt : index.toNat < m.chunks.length := by
      rw [← h.toNat_count]
      exact hi
    rw [hlen, List.getElem?_eq_getElem hlt]
    by_cases hdata : data.length = len.toNat
    · simp [hdata, hi, ChunkHash.verify]
    · simp [hdata]
  · have hnone : m.chunkLen index = none := by
      have hge : index.toUInt64 ≥ Protocol.chunkCount m.totalLen m.chunkSize := by
        show (Protocol.chunkCount m.totalLen m.chunkSize).toNat ≤ index.toUInt64.toNat
        rw [toNat_toUInt64, ← Nat.not_lt, lt_chunkCount_iff h.chunkSize_ne, ← h.lt_count_iff index]
        exact hi
      simp only [chunkLen, chunkLenAt, if_pos hge]
    simp [hnone]

/-- The range of a chunk that has been verified. -/
theorem Valid.range_of_verifyChunk (h : m.Valid c) {offset : UInt64}
    (hverify : m.verifyChunk c index data = true) (hoffset : m.chunkOffset index = some offset) :
    ∃ len, m.chunkRange index = some (offset, len) ∧ data.length = len.toNat ∧
      offset.toNat = index.toNat * m.chunkSize.toNat ∧ len.toNat ≤ m.chunkSize.toNat ∧
      offset.toNat + len.toNat ≤ m.totalLen.toNat := by
  obtain ⟨len, hlen, hindex, hdata, -⟩ := h.verifyChunk_iff.mp hverify
  obtain ⟨offset', len', hrange, hoffset', hlen', hpos, hsize, hend⟩ := h.chunkRange_eq hindex
  obtain rfl : offset' = offset := Option.some.inj (hoffset'.symm.trans hoffset)
  obtain rfl : len' = len := Option.some.inj (hlen'.symm.trans hlen)
  exact ⟨len', hrange, hdata, hpos, hsize, hend⟩

end FileManifest

end P2pFile.Protocol
