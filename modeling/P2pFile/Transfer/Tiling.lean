/-
  P2pFile.Transfer.Tiling

  The chunks of a manifest tile its file, and the manifest of a reader describes its bytes.

  `chunk_count`, `chunk_len_at` and `chunk_offset` compute the number, the length and the
  offset of the chunks on their own; for a valid manifest they agree with each other and with
  the natural numbers.  The loops of `manifest_from_reader` see pieces of any sizes; what
  they hash are the chunks of the bytes.
-/

import P2pFile.Transfer.Chunker

namespace P2pFile.Transfer

open Protocol

/-! ## The chunks of a list -/

/-- The lengths of the first chunks of a file. -/
theorem sum_chunk_lengths (total size : Nat) : ∀ n : Nat,
    ((List.range n).map fun i => min (total - i * size) size).sum = min total (n * size) := by
  intro n
  induction n with
  | zero => simp
  | succ n ih =>
    rw [List.range_succ, List.map_append, List.sum_append, ih, Nat.succ_mul]
    simp only [List.map_cons, List.map_nil, List.sum_cons, List.sum_nil]
    omega

variable {size : Nat}

/-- The buffers are the chunks of the bytes, one after the other. -/
theorem readBuffers_getElem? (hsize : 0 < size) : ∀ (fuel : Nat) (data : List UInt8),
    data.length < fuel → ∀ i : Nat, (readBuffers size fuel data)[i]? =
      if i * size < data.length then some ((data.drop (i * size)).take size) else none := by
  intro fuel
  induction fuel with
  | zero => exact fun data hfuel => absurd hfuel (Nat.not_lt_zero _)
  | succ fuel ih =>
    intro data hfuel i
    rw [readBuffers]
    by_cases hempty : data = []
    · simp [hempty]
    have hlength : 0 < data.length := List.length_pos_of_ne_nil hempty
    have htake : (data.take size).length = min size data.length := List.length_take
    have hfilled : data.take size ≠ [] := by
      intro hnil
      rw [hnil, List.length_nil] at htake
      omega
    simp only [if_neg hfilled]
    cases i with
    | zero =>
      rw [Nat.zero_mul, if_pos hlength, List.drop_zero]
      split
      · rfl
      · rfl
    | succ i =>
      rw [Nat.succ_mul]
      split
      next hshort =>
        rw [if_neg (by omega)]
        rfl
      rename_i hfull
      have hdrop : (data.drop size).length = data.length - size := List.length_drop
      rw [List.getElem?_cons_succ, ih _ (by omega), hdrop, List.drop_drop]
      by_cases hin : i * size < data.length - size
      · rw [if_pos hin, if_pos (by omega), Nat.add_comm size]
      · rw [if_neg hin, if_neg (by omega)]

/-- How many buffers there are. -/
theorem length_readBuffers (hsize : 0 < size) {fuel : Nat} {data : List UInt8}
    (hfuel : data.length < fuel) (i : Nat) :
    i < (readBuffers size fuel data).length ↔ i * size < data.length := by
  have hget := readBuffers_getElem? hsize fuel data hfuel i
  constructor
  · intro hi
    rw [List.getElem?_eq_getElem hi] at hget
    by_contra hout
    rw [if_neg hout] at hget
    cases hget
  · intro hi
    rw [if_pos hi] at hget
    exact (List.getElem?_eq_some_iff.mp hget).1

/-- Together they are the bytes. -/
theorem flatten_readBuffers (hsize : 0 < size) : ∀ (fuel : Nat) (data : List UInt8),
    data.length < fuel → (readBuffers size fuel data).flatten = data := by
  intro fuel
  induction fuel with
  | zero => exact fun data hfuel => absurd hfuel (Nat.not_lt_zero _)
  | succ fuel ih =>
    intro data hfuel
    rw [readBuffers]
    have htake : (data.take size).length = min size data.length := List.length_take
    split
    next hempty =>
      rw [hempty, List.length_nil] at htake
      exact (List.eq_nil_of_length_eq_zero (by omega)).symm
    split
    next hshort =>
      rw [List.flatten_cons, List.flatten_nil, List.append_nil]
      exact List.take_of_length_le (by omega)
    · rw [List.flatten_cons, ih _ (by rw [List.length_drop]; omega)]
      exact List.take_append_drop size data

/-! ## Chunk sizes -/

/-- What `validate_chunk_size` checks. -/
structure SizeInRange (chunkSize : UInt32) : Prop where
  minSize : minChunkSize ≤ chunkSize
  maxSize : chunkSize ≤ maxChunkSize

variable {chunkSize : UInt32}

theorem SizeInRange.pos (h : SizeInRange chunkSize) : 0 < chunkSize.toNat := by
  have hmin : minChunkSize.toNat ≤ chunkSize.toNat := h.minSize
  have hvalue : minChunkSize.toNat = 16384 := rfl
  omega

theorem validateChunkSize_ok {u : Unit} (h : validateChunkSize chunkSize = .ok u) :
    SizeInRange chunkSize := by
  unfold validateChunkSize at h
  split at h
  · cases h
  next hrange =>
    simp only [Bool.not_eq_true', Bool.not_eq_false, Bool.and_eq_true, decide_eq_true_eq] at hrange
    exact ⟨hrange.1, hrange.2⟩

theorem SizeInRange.ok (h : SizeInRange chunkSize) : validateChunkSize chunkSize = .ok () := by
  unfold validateChunkSize
  rw [if_neg]
  simp only [Bool.not_eq_true', Bool.not_eq_false, Bool.and_eq_true, decide_eq_true_eq]
  exact ⟨h.minSize, h.maxSize⟩

/-! ## Ranges -/

section Ranges

variable {c : Crypto} {m : FileManifest}

/-- The range of a chunk, over the natural numbers. -/
theorem chunkRange_iff (h : m.Valid c) {i : UInt32} {offset : UInt64} {len : UInt32} :
    m.chunkRange i = some (offset, len) ↔ i < m.count ∧
      offset.toNat = i.toNat * m.chunkSize.toNat ∧
      len.toNat = min (m.totalLen.toNat - i.toNat * m.chunkSize.toNat) m.chunkSize.toNat := by
  constructor
  · intro hrange
    obtain ⟨offset', hoff, hrest⟩ := Option.bind_eq_some_iff.mp hrange
    obtain ⟨len', hlen, heq⟩ := Option.bind_eq_some_iff.mp hrest
    cases heq
    have hi : i < m.count := by
      exact UInt32.not_le.mp (Option.ite_none_left_eq_some.mp hoff).1
    obtain ⟨offset'', hoff'', hpos⟩ := h.chunkOffset_eq hi
    obtain ⟨len'', hlen'', hlength⟩ := h.chunkLen_eq hi
    obtain rfl := Option.some.inj (hoff.symm.trans hoff'')
    obtain rfl := Option.some.inj (hlen.symm.trans hlen'')
    exact ⟨hi, hpos, hlength⟩
  · rintro ⟨hi, hpos, hlength⟩
    obtain ⟨offset', hoff, hpos'⟩ := h.chunkOffset_eq hi
    obtain ⟨len', hlen, hlength'⟩ := h.chunkLen_eq hi
    obtain rfl : offset' = offset := UInt64.toNat.inj (hpos'.trans hpos.symm)
    obtain rfl : len' = len := UInt32.toNat.inj (hlength'.trans hlength.symm)
    unfold FileManifest.chunkRange
    rw [hoff, hlen]
    rfl

/-- The number of a valid manifest's chunks: the last one starts inside the file and ends it. -/
theorem chunks_cover (h : m.Valid c) : m.totalLen.toNat ≤ m.chunks.length * m.chunkSize.toNat ∧
      ∀ i < m.chunks.length, i * m.chunkSize.toNat < m.totalLen.toNat := by
  rw [h.length_eq]
  refine ⟨Nat.le_of_not_lt fun hlt => ?_, fun i hi => (lt_chunkCount_iff h.chunkSize_ne i).mp hi⟩
  exact Nat.lt_irrefl _ ((lt_chunkCount_iff h.chunkSize_ne _).mpr hlt)

/-- The chunks of a manifest tile its file. -/
structure Tiles (m : FileManifest) : Prop where
  /-- The count is the exact quotient, rounded up; it is not truncated. -/
  count_eq : m.count.toNat = (m.totalLen.toNat + m.chunkSize.toNat - 1) / m.chunkSize.toNat
  chunkCount_eq : m.count.toUInt64 = chunkCount m.totalLen m.chunkSize
  /-- Exactly the indexes below the count have a range. -/
  range_iff : ∀ i : UInt32, (m.chunkRange i).isSome = true ↔ i < m.count
  /-- The product has not overflowed, and the range ends inside the file. -/
  offset_eq : ∀ i offset len, m.chunkRange i = some (offset, len) →
    offset.toNat = i.toNat * m.chunkSize.toNat ∧ offset.toNat + len.toNat ≤ m.totalLen.toNat
  first : ∀ offset len, m.chunkRange 0 = some (offset, len) → offset = 0
  /-- Every range but the last ends where the next one starts, and has the full length. -/
  next : ∀ i offset len, m.chunkRange i = some (offset, len) → i.toNat + 1 < m.count.toNat →
    len = m.chunkSize ∧ (i + 1).toNat = i.toNat + 1 ∧
      ∃ offset' len', m.chunkRange (i + 1) = some (offset', len') ∧
        offset.toNat + len.toNat = offset'.toNat
  /-- The last range ends the file. -/
  last : ∀ i offset len, m.chunkRange i = some (offset, len) → i.toNat + 1 = m.count.toNat →
    offset.toNat + len.toNat = m.totalLen.toNat
  len_range : ∀ i offset len, m.chunkRange i = some (offset, len) →
    1 ≤ len.toNat ∧ len.toNat ≤ m.chunkSize.toNat
  disjoint : ∀ i j offset len offset' len', m.chunkRange i = some (offset, len) →
    m.chunkRange j = some (offset', len') → i < j → offset.toNat + len.toNat ≤ offset'.toNat
  sum : ((List.range m.count.toNat).map fun i =>
    ((m.chunkRange (UInt32.ofNat i)).map fun r => r.2.toNat).getD 0).sum = m.totalLen.toNat

theorem tiles_of_valid (h : m.Valid c) : Tiles m := by
  have hsize := h.chunkSize_ne
  have hcount := h.toNat_count
  have hbound := h.length_lt
  obtain ⟨hcover, hstart⟩ := chunks_cover h
  have hspec : ∀ {i offset len}, m.chunkRange i = some (offset, len) → i < m.count ∧
      offset.toNat = i.toNat * m.chunkSize.toNat ∧
      len.toNat = min (m.totalLen.toNat - i.toNat * m.chunkSize.toNat) m.chunkSize.toNat :=
    fun hrange => (chunkRange_iff h).mp hrange
  refine ⟨?_, ?_, ?_, ?_, ?_, ?_, ?_, ?_, ?_, ?_⟩
  · rw [hcount, h.length_eq, toNat_chunkCount hsize]
  · refine UInt64.toNat.inj ?_
    rw [UInt32.toNat_toUInt64, hcount, h.length_eq]
  · intro i
    rw [Option.isSome_iff_exists]
    constructor
    · rintro ⟨⟨offset, len⟩, hrange⟩
      exact (hspec hrange).1
    · intro hi
      obtain ⟨offset, len, hrange, -⟩ := h.chunkRange_eq hi
      exact ⟨(offset, len), hrange⟩
  · intro i offset len hrange
    obtain ⟨hi, hoff, hlen⟩ := hspec hrange
    have hin := (h.lt_count_iff i).mp hi
    exact ⟨hoff, by omega⟩
  · intro offset len hrange
    refine UInt64.toNat.inj ?_
    rw [(hspec hrange).2.1]
    exact Nat.zero_mul _
  · intro i offset len hrange hnext
    obtain ⟨-, hoff, hlen⟩ := hspec hrange
    have hlast := hstart (i.toNat + 1) (by omega)
    rw [Nat.succ_mul] at hlast
    have hsucc : (i + 1).toNat = i.toNat + 1 := by
      exact Nat.mod_eq_of_lt (by show i.toNat + 1 < UInt32.size; omega)
    have hlt : i + 1 < m.count := by
      show (i + 1).toNat < m.count.toNat
      omega
    obtain ⟨offset', len', hrange', -⟩ := h.chunkRange_eq hlt
    obtain ⟨-, hoff', -⟩ := hspec hrange'
    rw [hsucc, Nat.succ_mul] at hoff'
    exact ⟨UInt32.toNat.inj (by omega), hsucc, offset', len', hrange', by omega⟩
  · intro i offset len hrange hlast
    obtain ⟨hi, hoff, hlen⟩ := hspec hrange
    have hin := (h.lt_count_iff i).mp hi
    rw [← hcount, ← hlast, Nat.succ_mul] at hcover
    omega
  · intro i offset len hrange
    obtain ⟨hi, -, hlen⟩ := hspec hrange
    have hin := (h.lt_count_iff i).mp hi
    omega
  · intro i j offset len offset' len' hi hj hlt
    obtain ⟨-, hoff, hlen⟩ := hspec hi
    obtain ⟨-, hoff', -⟩ := hspec hj
    have hlt : i.toNat < j.toNat := hlt
    have hmul := Nat.mul_le_mul_right m.chunkSize.toNat (Nat.succ_le_of_lt hlt)
    rw [Nat.succ_mul] at hmul
    omega
  · have hlens : ∀ i ∈ List.range m.count.toNat,
        ((m.chunkRange (UInt32.ofNat i)).map fun r => r.2.toNat).getD 0 =
          min (m.totalLen.toNat - i * m.chunkSize.toNat) m.chunkSize.toNat := by
      intro i hi
      have hi := List.mem_range.mp hi
      have hnat : (UInt32.ofNat i).toNat = i := UInt32.toNat_ofNat_of_lt' (by omega)
      have hlt : UInt32.ofNat i < m.count := by
        show (UInt32.ofNat i).toNat < m.count.toNat
        omega
      obtain ⟨offset, len, hrange, -⟩ := h.chunkRange_eq hlt
      have hlen := (hspec hrange).2.2
      rw [hrange]
      show len.toNat = _
      rw [hlen, hnat]
    rw [List.map_congr_left hlens, sum_chunk_lengths, hcount]
    omega

end Ranges

/-! ## Readers -/

namespace Reader

variable {c : Crypto} {reader rest : Reader} {size : Nat} {filled out : List UInt8}

variable {room : Nat}

/-- A call that gives bytes gives the next ones. -/
theorem read_data {byte : UInt8} {bytes : List UInt8} (hclean : reader.Clean)
    (h : reader.read room = (.data (byte :: bytes), rest)) :
    (byte :: bytes).length ≤ room ∧ reader.bytes = byte :: bytes ++ rest.bytes ∧ rest.Clean := by
  obtain ⟨hroom, rfl | ⟨next, more, others, rfl, rfl⟩⟩ := read_data_cases h
  · exact ⟨hroom, rfl, hclean⟩
  · exact ⟨hroom, List.append_assoc (byte :: bytes) (next :: more) _, hclean⟩

/-- A call that gives none is one at the end. -/
theorem read_end (hroom : 0 < room) (h : reader.read room = (.data [], rest)) :
    reader.bytes = [] := by
  cases reader with
  | nil => rfl
  | cons first others =>
    cases first with
    | data bytes =>
      have htake := ReadStep.data.inj (Prod.mk.inj h).1
      have hlength : (bytes.take room).length = min room bytes.length := List.length_take
      rw [htake, List.length_nil] at hlength
      obtain rfl : bytes = [] := List.eq_nil_of_length_eq_zero (by omega)
      rfl
    | _ => cases (Prod.mk.inj h).1

/-- An interrupted call changes nothing. -/
theorem read_interrupted (hclean : reader.Clean) (h : reader.read room = (.interrupted, rest)) :
    reader.bytes = rest.bytes ∧ rest.Clean := by
  obtain rfl := read_other h nofun
  exact ⟨rfl, hclean⟩

/-- A clean reader does not fail. -/
theorem read_fail {err : Error} (h : reader.read room = (.fail err, rest)) : ¬ reader.Clean := by
  obtain rfl := read_other h nofun
  exact fun hclean => hclean

/-- `read_full` fills the buffer with the next bytes, however they come.  Once the buffer is
    full, the others are still to come. -/
theorem readFull_spec (hclean : reader.Clean) (hfits : filled.length ≤ size) :
    ∃ rest, readFull size filled reader =
        .ok (filled ++ reader.bytes.take (size - filled.length), rest) ∧
      (size - filled.length ≤ reader.bytes.length →
        rest.Clean ∧ rest.bytes = reader.bytes.drop (size - filled.length)) := by
  fun_induction readFull size filled reader with
  | case1 filled reader hfull rest hread =>
    have hbytes := read_end (Nat.sub_pos_of_lt hfull) hread
    refine ⟨rest, ?_, ?_⟩
    · rw [hbytes, List.take_nil, List.append_nil]
    · rw [hbytes, List.length_nil]
      omega
  | case2 filled reader hfull byte bytes rest hread ih =>
    obtain ⟨hroom, hbytes, hrest⟩ := read_data hclean hread
    have hlength : (filled ++ byte :: bytes).length = filled.length + (byte :: bytes).length :=
      List.length_append
    obtain ⟨last, hrun, hlast⟩ := ih hrest (by omega)
    have hleft : size - (filled ++ byte :: bytes).length =
        size - filled.length - (byte :: bytes).length := by omega
    rw [hleft] at hrun hlast
    refine ⟨last, ?_, ?_⟩
    · rw [hrun, hbytes, List.take_append, List.take_of_length_le hroom, List.append_assoc]
    · intro hlong
      rw [hbytes, List.length_append] at hlong
      obtain ⟨hclean', hbytes'⟩ := hlast (by omega)
      refine ⟨hclean', ?_⟩
      rw [hbytes', hbytes, List.drop_append, List.drop_of_length_le hroom, List.nil_append]
  | case3 filled reader hfull rest hread ih =>
    obtain ⟨hbytes, hrest⟩ := read_interrupted hclean hread
    rw [hbytes]
    exact ih hrest hfits
  | case4 filled reader hfull err rest hread => exact absurd hclean (read_fail hread)
  | case5 filled reader hfull =>
    have hzero : size - filled.length = 0 := by omega
    refine ⟨reader, ?_, fun _ => ⟨hclean, ?_⟩⟩
    · rw [hzero, List.take_zero, List.append_nil]
    · rw [hzero, List.drop_zero]

/-- A buffer that starts empty. -/
theorem readFull_empty (size : Nat) (hclean : reader.Clean) :
    ∃ rest, readFull size [] reader = .ok (reader.bytes.take size, rest) ∧
      (size ≤ reader.bytes.length → rest.Clean ∧ rest.bytes = reader.bytes.drop size) := by
  obtain ⟨rest, hrun, hrest⟩ := @readFull_spec reader size [] hclean (Nat.zero_le size)
  exact ⟨rest, hrun, hrest⟩

/-- The loop hashes the buffers of the bytes and adds up their lengths. -/
theorem hashChunks_eq (hsize : 0 < size) (chunks : List ChunkHash) (totalLen : UInt64)
    (hclean : reader.Clean) (fuel : Nat) (hfuel : reader.bytes.length < fuel) :
    hashChunks c size chunks totalLen reader =
      .ok (chunks ++ (readBuffers size fuel reader.bytes).map c.hash,
        totalLen + UInt64.ofNat ((readBuffers size fuel reader.bytes).map List.length).sum) := by
  obtain ⟨fuel, rfl⟩ : ∃ n, fuel = n + 1 := ⟨fuel - 1, by omega⟩
  fun_induction hashChunks c size chunks totalLen reader generalizing fuel with
  | case1 chunks totalLen reader err hfill =>
    obtain ⟨_, hrun, -⟩ := readFull_empty size hclean
    rw [hfill] at hrun
    cases hrun
  | case2 chunks totalLen reader rest hfill =>
    obtain ⟨_, hrun, -⟩ := readFull_empty size hclean
    rw [hfill] at hrun
    have htake := (Prod.mk.inj (Except.ok.inj hrun)).1.symm
    rw [readBuffers, if_pos htake]
    show Except.ok (chunks, totalLen) = .ok (chunks ++ [], totalLen + 0)
    rw [List.append_nil, UInt64.add_zero]
  | case3 chunks totalLen reader byte bytes rest hfill filled chunks' totalLen' hshort =>
    obtain ⟨_, hrun, -⟩ := readFull_empty size hclean
    rw [hfill] at hrun
    have htake : reader.bytes.take size = filled := (Prod.mk.inj (Except.ok.inj hrun)).1.symm
    rw [readBuffers, htake, if_neg (List.cons_ne_nil _ _), if_pos hshort]
    rfl
  | case4 chunks totalLen reader byte bytes rest hfill filled chunks' totalLen' hfull ih =>
    obtain ⟨rest', hrun, hrest⟩ := readFull_empty size hclean
    rw [hfill] at hrun
    obtain ⟨htake, rfl⟩ := Prod.mk.inj (Except.ok.inj hrun)
    have htake : reader.bytes.take size = filled := htake.symm
    have hlength : filled.length = min size reader.bytes.length := by
      rw [← htake, List.length_take]
    obtain ⟨hclean', hbytes⟩ := hrest (by omega)
    have hleft : rest.bytes.length = reader.bytes.length - size := by
      rw [hbytes, List.length_drop]
    obtain ⟨fuel', rfl⟩ : ∃ n, fuel = n + 1 := ⟨fuel - 1, by omega⟩
    have hbuffers : readBuffers size (fuel' + 1 + 1) reader.bytes =
        filled :: readBuffers size (fuel' + 1) rest.bytes := by
      rw [readBuffers, htake, if_neg (List.cons_ne_nil _ _), if_neg hfull, hbytes]
    rw [ih hclean' fuel' (by omega), hbuffers]
    simp only [chunks', totalLen', List.map_cons, List.sum_cons, List.append_assoc,
      List.singleton_append, UInt64.ofNat_add, UInt64.add_assoc]

/-- For a reader that does not fail, its pieces do not matter. -/
theorem manifestFromReader_eq (fileName : String) (chunkSize : UInt32) (hclean : reader.Clean) :
    reader.manifestFromReader c fileName chunkSize =
      Transfer.manifestFromReader c fileName chunkSize reader.bytes := by
  unfold manifestFromReader Transfer.manifestFromReader
  cases hvalid : validateChunkSize chunkSize with
  | error err => rfl
  | ok u =>
    have hsize := (validateChunkSize_ok hvalid).pos
    rw [hashChunks_eq hsize [] 0 hclean _ (Nat.lt_succ_self _)]
    simp only [List.nil_append, UInt64.zero_add]
    rfl

end Reader

/-! ## Manifests of bytes -/

section Manifests

variable {c : Crypto} {m : FileManifest} {fileName : String} {chunkSize : UInt32}

/-- `validate` accepts what is valid. -/
theorem validate_of_valid (h : m.Valid c) : m.validate c = .ok () := by
  have hrange : SizeInRange m.chunkSize := ⟨h.minSize, h.maxSize⟩
  have hlength := h.length_lt
  unfold FileManifest.validate
  rw [hrange.ok]
  show (do
    if m.chunks.length > UInt32.size - 1 then _
    _ : Except Error Unit) = _
  rw [if_neg (by omega), if_neg (not_not.mpr h.length_eq), h.rootHash]
  rfl

variable {totalLen : UInt64} {chunks : List ChunkHash}

/-- `FileManifest::new` with as many chunks as the length asks for. -/
theorem newManifest_ok (hrange : SizeInRange chunkSize) (hlength : chunks.length < UInt32.size)
    (hcount : chunks.length = (chunkCount totalLen chunkSize).toNat) :
    ∃ m : FileManifest, newManifest c fileName totalLen chunkSize chunks = .ok m ∧ m.Valid c ∧
      m.fileName = fileName ∧ m.totalLen = totalLen ∧ m.chunkSize = chunkSize ∧
      m.chunks = chunks := by
  let m : FileManifest :=
    ⟨fileName, totalLen, chunkSize, chunks, rootHashOf c fileName totalLen chunkSize chunks⟩
  have hvalid : m.Valid c := ⟨hrange.minSize, hrange.maxSize, hlength, hcount, beq_self_eq_true _⟩
  refine ⟨m, ?_, hvalid, rfl, rfl, rfl, rfl⟩
  unfold newManifest
  rw [hrange.ok]
  show (do
    m.validate c
    return m : Except Error FileManifest) = _
  rw [validate_of_valid hvalid]
  rfl

/-- `FileManifest::new` with more chunks than the protocol can count. -/
theorem newManifest_error (hrange : SizeInRange chunkSize) (hlength : UInt32.size ≤ chunks.length) :
    newManifest c fileName totalLen chunkSize chunks = .error (.protocol ("分片数量 " ++
      toString chunks.length ++ " 超过协议上限 " ++ toString (UInt32.size - 1))) := by
  have hsize : UInt32.size = 4294967296 := rfl
  let m : FileManifest :=
    ⟨fileName, totalLen, chunkSize, chunks, rootHashOf c fileName totalLen chunkSize chunks⟩
  have hvalidate : m.validate c = .error (.protocol ("分片数量 " ++ toString chunks.length ++
      " 超过协议上限 " ++ toString (UInt32.size - 1))) := by
    unfold FileManifest.validate
    rw [hrange.ok]
    show (do
      if m.chunks.length > UInt32.size - 1 then _
      _ : Except Error Unit) = _
    rw [if_pos (show m.chunks.length > UInt32.size - 1 by show chunks.length > _; omega)]
    rfl
  unfold newManifest
  rw [hrange.ok]
  show (do
    m.validate c
    return m : Except Error FileManifest) = _
  rw [hvalidate]
  rfl

/-- How many chunks some bytes have. -/
def chunksOf (size : Nat) (data : List UInt8) : Nat := (data.length + size - 1) / size

variable {size : Nat}

theorem lt_chunksOf_iff (hsize : 0 < size) (data : List UInt8) (i : Nat) :
    i < chunksOf size data ↔ i * size < data.length := by
  unfold chunksOf
  rw [Nat.lt_iff_add_one_le, Nat.le_div_iff_mul_le hsize, Nat.add_mul]
  omega

/-- The manifest describes the bytes: it is valid, and its chunks are those of the bytes. -/
structure Describes (c : Crypto) (fileName : String) (chunkSize : UInt32) (data : List UInt8)
    (m : FileManifest) : Prop where
  valid : m.validate c = .ok ()
  fileName_eq : m.fileName = fileName
  chunkSize_eq : m.chunkSize = chunkSize
  /-- The sum of the lengths has not wrapped. -/
  totalLen_eq : m.totalLen.toNat = data.length
  /-- A chunk is the hash of the bytes in its range. -/
  chunk : ∀ (i : UInt32) (offset : UInt64) (len : UInt32), m.chunkRange i = some (offset, len) →
    m.chunks[i.toNat]? = some (c.hash ((data.drop offset.toNat).take len.toNat))

variable {data : List UInt8}

theorem length_buffers (hsize : 0 < size) {fuel : Nat} (hfuel : data.length < fuel) :
    (readBuffers size fuel data).length = chunksOf size data := by
  refine Nat.le_antisymm (Nat.le_of_not_lt fun hlt => ?_) (Nat.le_of_not_lt fun hlt => ?_)
  · have hin := (length_readBuffers hsize hfuel _).mp hlt
    exact Nat.lt_irrefl _ ((lt_chunksOf_iff hsize data _).mpr hin)
  · have hin := (lt_chunksOf_iff hsize data _).mp hlt
    exact Nat.lt_irrefl _ ((length_readBuffers hsize hfuel _).mpr hin)

theorem sum_buffers (hsize : 0 < size) {fuel : Nat} (hfuel : data.length < fuel) :
    ((readBuffers size fuel data).map List.length).sum = data.length := by
  rw [← List.length_flatten, flatten_readBuffers hsize fuel data hfuel]

/-- Bytes with at most `u32::MAX` chunks get a manifest that describes them. -/
theorem manifestFromReader_ok (hrange : SizeInRange chunkSize)
    (hcount : chunksOf chunkSize.toNat data < UInt32.size) :
    ∃ m, manifestFromReader c fileName chunkSize data = .ok m ∧
      Describes c fileName chunkSize data m := by
  have hsizeof : UInt32.size = 4294967296 := rfl
  have hmax : chunkSize.toNat ≤ maxChunkSize.toNat := hrange.maxSize
  have hvalue : maxChunkSize.toNat = 16777216 := rfl
  have hfuel := Nat.lt_succ_self data.length
  have hbuffers := length_buffers hrange.pos hfuel
  -- so few chunks have less than `2 ^ 64` bytes
  have hlength : data.length < 2 ^ 64 := by
    have hout := mt (lt_chunksOf_iff hrange.pos data (chunksOf chunkSize.toNat data)).mpr
      (Nat.lt_irrefl _)
    have hmul := Nat.mul_le_mul (Nat.le_of_lt hcount) hmax
    rw [hsizeof, hvalue] at hmul
    omega
  have htotal : (UInt64.ofNat data.length).toNat = data.length := UInt64.toNat_ofNat_of_lt' hlength
  have hchunks : ((readBuffers chunkSize.toNat (data.length + 1) data).map c.hash).length =
      chunksOf chunkSize.toNat data := by
    rw [List.length_map, hbuffers]
  obtain ⟨m, hnew, hvalid, hname, hlen, hsize, hhashes⟩ := @newManifest_ok c fileName chunkSize
    (UInt64.ofNat data.length) ((readBuffers chunkSize.toNat (data.length + 1) data).map c.hash)
    hrange (by rw [hchunks]; exact hcount)
    (by rw [hchunks, toNat_chunkCount (Nat.pos_iff_ne_zero.mp hrange.pos), htotal]; rfl)
  refine ⟨m, ?_, validate_of_valid hvalid, hname, hsize, ?_, ?_⟩
  · unfold manifestFromReader
    rw [hrange.ok]
    show newManifest c fileName (UInt64.ofNat ((readBuffers chunkSize.toNat (data.length + 1)
      data).map List.length).sum) chunkSize _ = _
    rw [sum_buffers hrange.pos hfuel]
    exact hnew
  · rw [hlen, htotal]
  · intro i offset len hi
    obtain ⟨hi, hoff, hlen'⟩ := (chunkRange_iff hvalid).mp hi
    have hin := (hvalid.lt_count_iff i).mp hi
    rw [hlen, htotal, hsize] at hin hlen'
    rw [hsize] at hoff
    rw [hhashes, List.getElem?_map, readBuffers_getElem? hrange.pos _ _ hfuel, if_pos hin,
      Option.map_some, hoff, hlen']
    -- the last chunk is shorter than the buffer
    congr 2
    have hdrop : (data.drop (i.toNat * chunkSize.toNat)).length =
        data.length - i.toNat * chunkSize.toNat := List.length_drop
    rw [Nat.min_comm, ← hdrop, ← List.take_take, List.take_length]

/-- Bytes with more chunks get none. -/
theorem manifestFromReader_error (hrange : SizeInRange chunkSize)
    (hcount : UInt32.size ≤ chunksOf chunkSize.toNat data) :
    manifestFromReader c fileName chunkSize data = .error (.protocol ("分片数量 " ++
      toString (chunksOf chunkSize.toNat data) ++ " 超过协议上限 " ++ toString (UInt32.size - 1))) := by
  have hchunks : ((readBuffers chunkSize.toNat (data.length + 1) data).map c.hash).length =
      chunksOf chunkSize.toNat data := by
    rw [List.length_map, length_buffers hrange.pos (Nat.lt_succ_self _)]
  unfold manifestFromReader
  rw [hrange.ok]
  show newManifest c fileName _ chunkSize
    ((readBuffers chunkSize.toNat (data.length + 1) data).map c.hash) = _
  rw [newManifest_error hrange (by rw [hchunks]; exact hcount), hchunks]

end Manifests

/-- The chunks of every manifest that `validate` accepts tile its file; and for every reader
    that does not fail, however it cuts its bytes into pieces, `manifest_from_reader` gives a
    valid manifest whose chunks are the hashes of the bytes in their ranges, if there are at
    most `u32::MAX` of them, and an error if there are more. -/
theorem chunks_tile_files (c : Crypto) : (∀ m : FileManifest, m.validate c = .ok () → Tiles m) ∧
    ∀ (reader : Reader) (fileName : String) (chunkSize : UInt32), reader.Clean →
      validateChunkSize chunkSize = .ok () →
      (chunksOf chunkSize.toNat reader.bytes < UInt32.size →
        ∃ m, reader.manifestFromReader c fileName chunkSize = .ok m ∧
          Describes c fileName chunkSize reader.bytes m) ∧
      (UInt32.size ≤ chunksOf chunkSize.toNat reader.bytes →
        reader.manifestFromReader c fileName chunkSize = .error (.protocol ("分片数量 " ++
          toString (chunksOf chunkSize.toNat reader.bytes) ++ " 超过协议上限 " ++
          toString (UInt32.size - 1)))) := by
  refine ⟨fun m hvalid => tiles_of_valid (FileManifest.validate_ok hvalid), ?_⟩
  intro reader fileName chunkSize hclean hsize
  have hrange := validateChunkSize_ok hsize
  rw [Reader.manifestFromReader_eq fileName chunkSize hclean]
  exact ⟨manifestFromReader_ok hrange, manifestFromReader_error hrange⟩

/-- A piece with too many bytes for chunks of 16 KiB. -/
theorem oversized_piece {byte : UInt8} {bytes : List UInt8}
    (hlong : UInt32.size * 16384 ≤ bytes.length) : Reader.Clean [.data (byte :: bytes)] ∧
      ∀ m, Reader.manifestFromReader .sample "f" 16384 [.data (byte :: bytes)] ≠ .ok m := by
  have hclean : Reader.Clean [.data (byte :: bytes)] := trivial
  have hsize : validateChunkSize 16384 = .ok () := by decide
  have hbytes : Reader.bytes [.data (byte :: bytes)] = byte :: bytes ++ [] := rfl
  have hcount : UInt32.size ≤ chunksOf (16384 : UInt32).toNat
      (Reader.bytes [.data (byte :: bytes)]) := by
    have hnat : (16384 : UInt32).toNat = 16384 := rfl
    rw [hbytes, hnat]
    unfold chunksOf
    rw [List.append_nil, List.length_cons, Nat.le_div_iff_mul_le (by decide)]
    omega
  refine ⟨hclean, ?_⟩
  rw [Reader.manifestFromReader_eq "f" 16384 hclean,
    manifestFromReader_error (validateChunkSize_ok hsize) hcount]
  intro m hm
  cases hm

/-- A file of more than `u32::MAX` chunks has no manifest: here one byte more than 64 TiB, in
    chunks of 16 KiB. -/
theorem oversized_file_has_no_manifest :
    ∃ reader : Reader, reader.Clean ∧ validateChunkSize 16384 = .ok () ∧
      ∀ m, reader.manifestFromReader .sample "f" 16384 ≠ .ok m := by
  obtain ⟨bytes, hlength⟩ : ∃ bytes : List UInt8, bytes.length = UInt32.size * 16384 :=
    ⟨List.replicate _ 0, List.length_replicate⟩
  obtain ⟨hclean, hnone⟩ := @oversized_piece 0 bytes (Nat.le_of_eq hlength.symm)
  exact ⟨_, hclean, by decide, hnone⟩

/-- Three bytes in two pieces, with an interrupted call between them. -/
theorem chunks_tile_files_pieces :
    ∃ m, Reader.manifestFromReader .sample "f" 16384 [.data [1, 2], .interrupted, .data [3]] =
        .ok m ∧ Describes .sample "f" 16384 [1, 2, 3] m ∧ Tiles m := by
  obtain ⟨m, hm, hdescribes⟩ := ((chunks_tile_files .sample).2
    [.data [1, 2], .interrupted, .data [3]] "f" 16384 trivial (by decide)).1 (by decide)
  exact ⟨m, hm, hdescribes, (chunks_tile_files .sample).1 m hdescribes.valid⟩

end P2pFile.Transfer
