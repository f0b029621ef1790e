/-
  P2pFile.Transfer.Chunker

  Cutting a file into chunks (`src/transfer/chunker.rs`).

  For the callers a reader is the bytes that it will give.  The loops themselves see a reader
  that gives its bytes in pieces; `Transfer.Tiling` connects the two.
-/

import P2pFile.Protocol.Manifest

namespace P2pFile.Transfer

open Protocol

/-- `FileManifest::new`. -/
def newManifest (c : Crypto) (fileName : String) (totalLen : UInt64) (chunkSize : UInt32)
    (chunks : List ChunkHash) : Except Error FileManifest := do
  validateChunkSize chunkSize
  let manifest : FileManifest :=
    ⟨fileName, totalLen, chunkSize, chunks, rootHashOf c fileName totalLen chunkSize chunks⟩
  manifest.validate c
  return manifest

/-- The buffers that the loop of `manifest_from_reader` fills.  One that is not full is
    the last. -/
def readBuffers (size : Nat) : Nat → List UInt8 → List (List UInt8)
  | 0, _ => []
  | fuel + 1, data =>
    let filled := data.take size
    if filled = [] then []
    else if filled.length < size then [filled]
    else filled :: readBuffers size fuel (data.drop size)

def manifestFromReader (c : Crypto) (fileName : String) (chunkSize : UInt32)
    (data : List UInt8) : Except Error FileManifest := do
  validateChunkSize chunkSize
  let buffers := readBuffers chunkSize.toNat (data.length + 1) data
  newManifest c fileName (UInt64.ofNat (buffers.map List.length).sum) chunkSize (buffers.map c.hash)

/-! ## Readers that give pieces -/

/-- What a call of `read` gives. -/
inductive ReadStep where
  /-- The next bytes; no bytes are the end of the file. -/
  | data (bytes : List UInt8)
  | interrupted
  | fail (err : Error)

abbrev Reader := List ReadStep

namespace Reader

/-- `Read::read` into a buffer with some room.  What does not fit is given later. -/
def read (room : Nat) : Reader → ReadStep × Reader
  | [] => (.data [], [])
  | .data bytes :: rest =>
    (.data (bytes.take room),
      if bytes.length ≤ room then rest else .data (bytes.drop room) :: rest)
  | step :: rest => (step, rest)

variable {reader rest : Reader} {room : Nat}

/-- A call that gives bytes takes the first ones of a step and leaves the others. -/
theorem read_data_cases {byte : UInt8} {bytes : List UInt8}
    (h : reader.read room = (.data (byte :: bytes), rest)) : (byte :: bytes).length ≤ room ∧
      (reader = .data (byte :: bytes) :: rest ∨
        ∃ next more others, reader = .data (byte :: bytes ++ next :: more) :: others ∧
          rest = .data (next :: more) :: others) := by
  match reader, h with
  | .data given :: others, h =>
    obtain ⟨hstep, rfl⟩ := Prod.mk.inj h
    have htake : given.take room = byte :: bytes := ReadStep.data.inj hstep
    refine ⟨by rw [← htake, List.length_take]; omega, ?_⟩
    split
    next hfits =>
      rw [List.take_of_length_le hfits] at htake
      rw [htake]
      exact .inl rfl
    · obtain ⟨next, more, hdrop⟩ : ∃ next more, given.drop room = next :: more := by
        refine List.exists_cons_of_length_pos ?_
        rw [List.length_drop]
        omega
      refine .inr ⟨next, more, others, ?_, by rw [hdrop]⟩
      rw [← htake, ← hdrop, List.take_append_drop]

/-- A call that is interrupted or fails takes one step. -/
theorem read_other {step : ReadStep} (h : reader.read room = (step, rest))
    (hstep : ∀ bytes, step ≠ .data bytes) : reader = step :: rest := by
  match reader, h with
  | [], h => exact absurd (Prod.mk.inj h).1.symm (hstep [])
  | .data _ :: _, h => exact absurd (Prod.mk.inj h).1.symm (hstep _)
  | .interrupted :: _, h | .fail _ :: _, h =>
    cases h
    rfl

/-- The bytes and the calls that are left. -/
def weight (reader : Reader) : Nat :=
  (reader.map fun step => match step with
    | .data bytes => bytes.length + 1
    | _ => 1).sum

@[simp]
theorem weight_data (bytes : List UInt8) (rest : Reader) :
    weight (.data bytes :: rest) = bytes.length + 1 + weight rest := rfl

@[simp]
theorem weight_interrupted (rest : Reader) : weight (.interrupted :: rest) = 1 + weight rest := rfl

@[simp]
theorem weight_fail (err : Error) (rest : Reader) :
    weight (.fail err :: rest) = 1 + weight rest := rfl

/-- No call makes a reader heavier, and every call but one at its end makes it lighter. -/
theorem weight_read {step : ReadStep} (h : reader.read room = (step, rest)) :
    rest.weight ≤ reader.weight ∧ (0 < room → step ≠ .data [] → rest.weight < reader.weight) := by
  cases reader with
  | nil =>
    cases h
    exact ⟨Nat.le_refl _, fun _ hstep => absurd rfl hstep⟩
  | cons first others =>
    cases first with
    | data bytes =>
      cases h
      split
      · simp only [weight_data]
        omega
      · simp only [weight_data, List.length_drop]
        omega
    | interrupted =>
      cases h
      simp only [weight_interrupted]
      omega
    | fail err =>
      cases h
      simp only [weight_fail]
      omega

/-- `read_full`, with what is in the buffer so far. -/
def readFull (size : Nat) (filled : List UInt8) (reader : Reader) :
    Except Error (List UInt8 × Reader) :=
  if _hfull : filled.length < size then
    match _hread : reader.read (size - filled.length) with
    | (.data [], rest) => .ok (filled, rest)
    | (.data (byte :: bytes), rest) => readFull size (filled ++ byte :: bytes) rest
    | (.interrupted, rest) => readFull size filled rest
    | (.fail err, _) => .error err
  else .ok (filled, reader)
termination_by reader.weight
decreasing_by
  · exact (weight_read _hread).2 (Nat.sub_pos_of_lt _hfull) (by simp)
  · exact (weight_read _hread).2 (Nat.sub_pos_of_lt _hfull) (by simp)

/-- Filling a buffer makes the reader lighter. -/
theorem weight_readFull {size : Nat} {filled out : List UInt8}
    (h : readFull size filled reader = .ok (out, rest)) :
    rest.weight ≤ reader.weight ∧ (rest.weight < reader.weight ∨ out = filled) := by
  fun_induction readFull size filled reader with
  | case1 filled reader hfull rest' hread =>
    cases h
    exact ⟨(weight_read hread).1, .inr rfl⟩
  | case2 filled reader hfull byte bytes rest' hread ih =>
    have hlighter := (weight_read hread).2 (Nat.sub_pos_of_lt hfull) (by simp)
    have hrest := (ih h).1
    exact ⟨by omega, .inl (by omega)⟩
  | case3 filled reader hfull rest' hread ih =>
    have hlighter := (weight_read hread).2 (Nat.sub_pos_of_lt hfull) (by simp)
    have hrest := (ih h).1
    exact ⟨by omega, .inl (by omega)⟩
  | case4 => cases h
  | case5 filled reader hfull =>
    cases h
    exact ⟨Nat.le_refl _, .inr rfl⟩

/-- The loop of `manifest_from_reader`.  The sum of the lengths is one of `u64`. -/
def hashChunks (c : Crypto) (size : Nat) (chunks : List ChunkHash) (totalLen : UInt64)
    (reader : Reader) : Except Error (List ChunkHash × UInt64) :=
  match _hfill : readFull size [] reader with
  | .error err => .error err
  | .ok ([], _) => .ok (chunks, totalLen)
  | .ok (byte :: bytes, rest) =>
    let filled := byte :: bytes
    let chunks := chunks ++ [c.hash filled]
    let totalLen := totalLen + UInt64.ofNat filled.length
    if filled.length < size then .ok (chunks, totalLen)
    else hashChunks c size chunks totalLen rest
termination_by reader.weight
decreasing_by
  exact (weight_readFull _hfill).2.resolve_right (by simp)

/-- `manifest_from_reader`. -/
def manifestFromReader (c : Crypto) (fileName : String) (chunkSize : UInt32) (reader : Reader) :
    Except Error FileManifest := do
  validateChunkSize chunkSize
  let (chunks, totalLen) ← hashChunks c chunkSize.toNat [] 0 reader
  newManifest c fileName totalLen chunkSize chunks

/-- The bytes that a reader gives before its end. -/
def bytes : Reader → List UInt8
  | [] | .data [] :: _ | .fail _ :: _ => []
  | .data (byte :: bytes') :: rest => byte :: bytes' ++ bytes rest
  | .interrupted :: rest => bytes rest

/-- No call fails before the end. -/
def Clean : Reader → Prop
  | [] | .data [] :: _ => True
  | .data (_ :: _) :: rest | .interrupted :: rest => Clean rest
  | .fail _ :: _ => False

end Reader

end P2pFile.Transfer
