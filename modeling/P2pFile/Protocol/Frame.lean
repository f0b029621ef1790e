/-
  P2pFile.Protocol.Frame

  Frames with a length in front (`src/protocol/frame.rs`).

  A writer collects bytes, a reader gives them in pieces.  The header is read by a loop
  of its own, the same as the one of `read_full`: it goes on after an interrupted call and
  tells the end before the first byte from the end in between.  The payload is read by
  `read_exact` of tokio, which is a parameter: what its documentation says are the laws of
  `ReadExact`, among them that it returns every error of the reader at once.
-/

import P2pFile.Lib.Endian
import P2pFile.Transfer.Tiling

namespace P2pFile.Transfer.Reader

/-! ## Interruptions -/

/-- After how many bytes the interrupted calls come. -/
def interruptions : Reader → List Nat
  | [] | .data [] :: _ | .fail _ :: _ => []
  | .data (byte :: bytes) :: rest => (interruptions rest).map ((byte :: bytes).length + ·)
  | .interrupted :: rest => 0 :: interruptions rest

variable {reader rest : Reader}

/-- A call that gives bytes brings the interruptions closer. -/
theorem interruptions_read_data {room : Nat} {byte : UInt8} {bytes : List UInt8}
    (h : reader.read room = (.data (byte :: bytes), rest)) :
    reader.interruptions = rest.interruptions.map ((byte :: bytes).length + ·) := by
  obtain ⟨-, rfl | ⟨next, more, others, rfl, rfl⟩⟩ := read_data_cases h
  · rfl
  · -- The piece is split, and its rest is read later.
    show (interruptions others).map ((byte :: bytes ++ next :: more).length + ·) =
      ((interruptions others).map ((next :: more).length + ·)).map ((byte :: bytes).length + ·)
    rw [List.map_map]
    apply List.map_congr_left
    intro offset _
    rw [Function.comp_apply, List.length_append, Nat.add_assoc]

/-- At the end there is none. -/
theorem interruptions_read_end {room : Nat} (hroom : 0 < room)
    (h : reader.read room = (.data [], rest)) : reader.interruptions = [] := by
  cases reader with
  | nil => rfl
  | cons first others =>
    cases first with
    | data bytes =>
      have hnil : bytes.take room = [] := ReadStep.data.inj (Prod.mk.inj h).1
      rcases List.take_eq_nil_iff.mp hnil with hzero | rfl
      · omega
      · rfl
    | interrupted => cases h
    | fail err => cases h

theorem interruptions_read_interrupted {room : Nat} (h : reader.read room = (.interrupted, rest)) :
    reader.interruptions = 0 :: rest.interruptions := by
  obtain rfl := read_other h nofun
  rfl

/-- They come before the end. -/
theorem interruptions_le : ∀ offset ∈ reader.interruptions, offset ≤ reader.bytes.length := by
  induction reader with
  | nil => nofun
  | cons first others ih =>
    match first with
    | .data [] | .fail _ => nofun
    | .data (byte :: bytes') =>
      intro offset hoff
      obtain ⟨later, hlater, rfl⟩ := List.mem_map.mp hoff
      show _ ≤ (byte :: bytes' ++ Reader.bytes others).length
      rw [List.length_append]
      exact Nat.add_le_add_left (ih later hlater) _
    | .interrupted =>
      intro offset hoff
      rcases List.mem_cons.mp hoff with rfl | hoff
      · exact Nat.zero_le _
      · exact ih offset hoff

variable {filled out : List UInt8}

theorem length_readFull {size : Nat} (h : readFull size filled reader = .ok (out, rest)) :
    filled.length ≤ out.length := by
  fun_induction readFull size filled reader with
  | case1 filled reader hfull rest' hread =>
    cases h
    exact Nat.le_refl _
  | case2 filled reader hfull byte bytes rest' hread ih =>
    have hle := ih h
    rw [List.length_append] at hle
    omega
  | case3 filled reader hfull rest' hread ih => exact ih h
  | case4 => cases h
  | case5 filled reader hfull =>
    cases h
    exact Nat.le_refl _

/-- The interruptions that a full buffer leaves are those behind its bytes. -/
theorem interruptions_readFull {size : Nat} (h : readFull size filled reader = .ok (out, rest))
    (hout : size ≤ out.length) (offset : Nat) :
    offset ∈ rest.interruptions ↔ out.length - filled.length + offset ∈ reader.interruptions := by
  fun_induction readFull size filled reader with
  | case1 filled reader hfull rest' hread =>
    cases h
    omega
  | case2 filled reader hfull byte bytes rest' hread ih =>
    have hgrows := length_readFull h
    have hsum : out.length - filled.length + offset =
        (byte :: bytes).length + (out.length - (filled ++ byte :: bytes).length + offset) := by
      rw [List.length_append] at hgrows ⊢
      omega
    rw [ih h, interruptions_read_data hread, hsum,
      List.mem_map_of_injective (add_right_injective _)]
  | case3 filled reader hfull rest' hread ih =>
    -- the buffer was not full, so that this interruption is not one behind its bytes
    have hbehind : out.length - filled.length + offset ≠ 0 := by
      omega
    rw [ih h, interruptions_read_interrupted hread, List.mem_cons, or_iff_right hbehind]
  | case4 => cases h
  | case5 filled reader hfull =>
    cases h
    rw [Nat.sub_self, Nat.zero_add]

end P2pFile.Transfer.Reader

namespace P2pFile.Protocol

open Lib Transfer

/-- `write_raw_frame_limited`: the bytes that are written. -/
def writeRawFrameLimited (payload : List UInt8) (maxLen : UInt32) : Except Error (List UInt8) :=
  if payload.length > maxLen.toNat then
    .error (.protocol ("帧过大：" ++ toString payload.length ++ " 字节，上限 " ++ toString maxLen))
  else .ok (toLE 4 payload.length ++ payload)

/-- The error of a call that was interrupted. -/
def interruptedError : Error := .io .other "operation interrupted"

/-- `AsyncReadExt::read_exact` of tokio: the buffer of the given size is filled, or an error
    is returned. -/
structure ReadExact where
  read : Nat → Reader → Except Error (List UInt8 × Reader)
  /-- It only reads. -/
  lighter : ∀ {size reader out rest}, read size reader = .ok (out, rest) →
    rest.weight ≤ reader.weight
  /-- The buffer is filled, and nothing behind it is read. -/
  fills : ∀ {size reader}, reader.Clean → size ≤ reader.bytes.length →
    (∀ offset ∈ reader.interruptions, size ≤ offset) →
    ∃ rest, read size reader = .ok (reader.bytes.take size, rest) ∧ rest.Clean ∧
      rest.bytes = reader.bytes.drop size ∧
      ∀ offset, offset ∈ rest.interruptions ↔ size + offset ∈ reader.interruptions
  /-- The end comes before the buffer is full. -/
  ends : ∀ {size reader}, reader.Clean → reader.bytes.length < size →
    reader.interruptions = [] → read size reader = .error (.io .unexpectedEof "early eof")
  /-- Every other error of the reader is returned at once. -/
  interrupted : ∀ {size reader offset}, offset ∈ reader.interruptions → offset < size →
    read size reader = .error interruptedError

variable (x : ReadExact)

/-- The error of `read_raw_frame_limited` for one of `read_exact`. -/
def payloadError : Error → Error
  | .io .unexpectedEof _ => .protocol "帧读到一半连接就断了"
  | err => err

/-- One call of `read_raw_frame_limited`. -/
structure ReadFrame where
  /-- The sizes of the buffers that it allocated. -/
  allocated : List Nat
  answer : Except Error (Option (List UInt8) × Reader)

/-- `read_raw_frame_limited`. -/
def readRawFrameLimited (maxLen : UInt32) (reader : Reader) : ReadFrame :=
  match reader.readFull 4 [] with
  | .error err => ⟨[], .error err⟩
  | .ok (lenBytes, rest) =>
    let filled := lenBytes.length
    if filled = 0 then ⟨[], .ok (none, rest)⟩
    else if filled < 4 then
      ⟨[], .error (.protocol ("帧长度头只读到 " ++ toString filled ++ "/4 字节连接就断了"))⟩
    else
      let len := ofLE lenBytes
      if len > maxLen.toNat then
        ⟨[], .error (.protocol ("帧长度 " ++ toString len ++ " 超过上限 " ++ toString maxLen ++
          "，可能不是本协议的流"))⟩
      else
        match x.read len rest with
        | .error err => ⟨[len], .error (payloadError err)⟩
        | .ok (payload, rest) => ⟨[len], .ok (some payload, rest)⟩

/-- A frame that was read makes the reader lighter. -/
theorem weight_readRawFrameLimited {maxLen : UInt32} {reader rest : Reader} {payload : List UInt8}
    (h : (readRawFrameLimited x maxLen reader).answer = .ok (some payload, rest)) :
    rest.weight < reader.weight := by
  unfold readRawFrameLimited at h
  split at h
  · cases h
  rename_i lenBytes middle hheader
  simp only at h
  split at h
  · cases h
  rename_i hsome
  split at h
  · cases h
  split at h
  · cases h
  split at h
  · cases h
  rename_i hpayload
  cases h
  have hmiddle := (Reader.weight_readFull hheader).2.resolve_right fun hnil =>
    hsome (by rw [hnil, List.length_nil])
  have hrest := x.lighter hpayload
  omega

/-- Repeated calls: the payloads up to the clean end or the first error. -/
def readFrames (maxLen : UInt32) (reader : Reader) : List (List UInt8) × Except Error Unit :=
  match _hcall : (readRawFrameLimited x maxLen reader).answer with
  | .error err => ([], .error err)
  | .ok (none, _) => ([], .ok ())
  | .ok (some payload, rest) =>
    let (payloads, outcome) := readFrames maxLen rest
    (payload :: payloads, outcome)
termination_by reader.weight
decreasing_by
  exact weight_readRawFrameLimited x _hcall

/-! ## The loop of `read_exact` -/

/-- A loop that obeys the laws, with what is in the buffer so far. -/
def readExact (size : Nat) (filled : List UInt8) (reader : Reader) :
    Except Error (List UInt8 × Reader) :=
  if _hfull : filled.length < size then
    match _hread : reader.read (size - filled.length) with
    | (.data [], _) => .error (.io .unexpectedEof "early eof")
    | (.data (byte :: bytes), rest) => readExact size (filled ++ byte :: bytes) rest
    | (.interrupted, _) => .error interruptedError
    | (.fail err, _) => .error err
  else .ok (filled, reader)
termination_by reader.weight
decreasing_by
  exact (Reader.weight_read _hread).2 (Nat.sub_pos_of_lt _hfull) (by simp)

section

variable {size : Nat} {filled : List UInt8} {reader rest : Reader}

theorem weight_readExact {out : List UInt8} (h : readExact size filled reader = .ok (out, rest)) :
    rest.weight ≤ reader.weight := by
  fun_induction readExact size filled reader with
  | case1 => cases h
  | case2 filled reader hfull byte bytes rest' hread ih =>
    have hlighter := (Reader.weight_read hread).1
    have hrest := ih h
    omega
  | case3 => cases h
  | case4 => cases h
  | case5 filled reader hfull =>
    cases h
    exact Nat.le_refl _

/-- Where no interruption comes before the buffer is full, `read_exact` is `read_full`. -/
theorem readExact_eq_readFull (hclean : reader.Clean)
    (hlong : size - filled.length ≤ reader.bytes.length)
    (hquiet : ∀ offset ∈ reader.interruptions, size - filled.length ≤ offset) :
    readExact size filled reader = reader.readFull size filled := by
  fun_induction readExact size filled reader with
  | case1 filled reader hfull rest hread =>
    have hnil := Reader.read_end (Nat.sub_pos_of_lt hfull) hread
    rw [hnil, List.length_nil] at hlong
    omega
  | case2 filled reader hfull byte bytes rest hread ih =>
    obtain ⟨hroom, hbytes, hrest⟩ := Reader.read_data hclean hread
    have hlength : (filled ++ byte :: bytes).length = filled.length + (byte :: bytes).length :=
      List.length_append
    rw [Reader.readFull.eq_def, dif_pos hfull]
    split <;> rename_i hread' <;> rw [hread] at hread' <;> cases hread'
    apply ih hrest
    · rw [hbytes, List.length_append] at hlong
      omega
    · intro offset hoff
      have hmem : (byte :: bytes).length + offset ∈ reader.interruptions := by
        rw [Reader.interruptions_read_data hread]
        exact List.mem_map_of_mem hoff
      have hle := hquiet _ hmem
      omega
  | case3 filled reader hfull rest hread =>
    have hzero := hquiet 0 (by rw [Reader.interruptions_read_interrupted hread]; simp)
    omega
  | case4 filled reader hfull err rest hread => exact absurd hclean (Reader.read_fail hread)
  | case5 filled reader hfull => rw [Reader.readFull.eq_def, dif_neg hfull]

/-- Without an interruption an early end is told as such. -/
theorem readExact_short (hclean : reader.Clean)
    (hshort : reader.bytes.length < size - filled.length) (hquiet : reader.interruptions = []) :
    readExact size filled reader = .error (.io .unexpectedEof "early eof") := by
  fun_induction readExact size filled reader with
  | case1 => rfl
  | case2 filled reader hfull byte bytes rest hread ih =>
    obtain ⟨hroom, hbytes, hrest⟩ := Reader.read_data hclean hread
    apply ih hrest
    · rw [hbytes, List.length_append] at hshort
      rw [List.length_append]
      omega
    · rw [Reader.interruptions_read_data hread] at hquiet
      exact List.map_eq_nil_iff.mp hquiet
  | case3 filled reader hfull rest hread =>
    rw [Reader.interruptions_read_interrupted hread] at hquiet
    cases hquiet
  | case4 filled reader hfull err rest hread => exact absurd hclean (Reader.read_fail hread)
  | case5 filled reader hfull => omega

/-- An interruption before the buffer is full ends the call. -/
theorem readExact_interrupted {offset : Nat} (hoff : offset ∈ reader.interruptions)
    (hbefore : offset < size - filled.length) :
    readExact size filled reader = .error interruptedError := by
  fun_induction readExact size filled reader generalizing offset with
  | case1 filled reader hfull rest hread =>
    rw [Reader.interruptions_read_end (Nat.sub_pos_of_lt hfull) hread] at hoff
    cases hoff
  | case2 filled reader hfull byte bytes rest hread ih =>
    rw [Reader.interruptions_read_data hread] at hoff
    obtain ⟨later, hlater, rfl⟩ := List.mem_map.mp hoff
    apply ih hlater
    rw [List.length_append]
    omega
  | case3 => rfl
  | case4 filled reader hfull err rest hread =>
    obtain rfl := Reader.read_other hread nofun
    cases hoff
  | case5 filled reader hfull => omega

end

/-- The loop of tokio. -/
def ReadExact.loop : ReadExact where
  read size reader := readExact size [] reader
  lighter h := weight_readExact h
  fills := by
    intro size reader hclean hlong hquiet
    obtain ⟨rest, hfull, hrest⟩ := Reader.readFull_empty size hclean
    obtain ⟨hclean', hbytes⟩ := hrest hlong
    have hlength : (reader.bytes.take size).length = size := List.length_take_of_le hlong
    refine ⟨rest, ?_, hclean', hbytes, ?_⟩
    · rw [readExact_eq_readFull hclean hlong hquiet, hfull]
    · intro offset
      rw [Reader.interruptions_readFull hfull (Nat.le_of_eq hlength.symm), hlength,
        List.length_nil, Nat.sub_zero]
  ends hclean hshort hquiet := readExact_short hclean hshort hquiet
  interrupted hoff hbefore := readExact_interrupted hoff hbefore

/-! ## One frame -/

variable (payload : List UInt8)

/-- The bytes of a written frame. -/
def frame : List UInt8 := toLE 4 payload.length ++ payload

theorem length_frame : (frame payload).length = 4 + payload.length := by
  rw [frame, List.length_append, length_toLE]

theorem writeRawFrameLimited_ok {payload : List UInt8} {maxLen : UInt32}
    (h : payload.length ≤ maxLen.toNat) :
    writeRawFrameLimited payload maxLen = .ok (frame payload) :=
  if_neg (by omega)

/-- No buffer is longer than the limit, whatever the reader gives. -/
theorem allocated_le (maxLen : UInt32) (reader : Reader) :
    ∀ size ∈ (readRawFrameLimited x maxLen reader).allocated, size ≤ maxLen.toNat := by
  unfold readRawFrameLimited
  split
  · nofun
  simp only
  split
  · nofun
  split
  · nofun
  split
  · nofun
  rename_i hlen
  split
  · intro size hsize
    rw [List.mem_singleton.mp hsize]
    omega
  · intro size hsize
    rw [List.mem_singleton.mp hsize]
    omega

section

variable {x} {maxLen : UInt32} {reader : Reader} {payload tail : List UInt8}

/-- A stream that ends before a frame is closed cleanly. -/
theorem readRawFrameLimited_nil (hclean : reader.Clean) (hbytes : reader.bytes = []) :
    ∃ rest, (readRawFrameLimited x maxLen reader).answer = .ok (none, rest) := by
  obtain ⟨rest, hheader, -⟩ := Reader.readFull_empty 4 hclean
  rw [hbytes, List.take_nil] at hheader
  unfold readRawFrameLimited
  rw [hheader]
  exact ⟨rest, rfl⟩

/-- The header of a frame that begins here. -/
theorem header_frame (hclean : reader.Clean)
    (hbytes : reader.bytes = toLE 4 payload.length ++ tail) :
    ∃ rest, reader.readFull 4 [] = .ok (toLE 4 payload.length, rest) ∧ rest.Clean ∧
      rest.bytes = tail ∧
      ∀ offset, offset ∈ rest.interruptions ↔ 4 + offset ∈ reader.interruptions := by
  have hlength : (toLE 4 payload.length).length = 4 := length_toLE 4 _
  obtain ⟨rest, hheader, hrest⟩ := Reader.readFull_empty 4 hclean
  obtain ⟨hclean', hbytes'⟩ := hrest (by rw [hbytes, List.length_append]; omega)
  have htake : reader.bytes.take 4 = toLE 4 payload.length := by
    rw [hbytes, List.take_append_of_le_length (by omega), List.take_of_length_le (by omega)]
  rw [htake] at hheader
  refine ⟨rest, hheader, hclean', ?_, ?_⟩
  · rw [hbytes', hbytes, List.drop_append_of_le_length (by omega),
      List.drop_of_length_le (by omega), List.nil_append]
  · intro offset
    exact Reader.interruptions_readFull hheader (by omega) offset

/-- After the header of a frame within the limit the call reads the payload. -/
theorem answer_of_header {rest : Reader} (hle : payload.length ≤ maxLen.toNat)
    (hheader : reader.readFull 4 [] = .ok (toLE 4 payload.length, rest)) :
    (readRawFrameLimited x maxLen reader).answer =
      ((x.read payload.length rest).mapError payloadError).map fun read =>
        (some read.1, read.2) := by
  have hmax := maxLen.toNat_lt
  have hlen : ofLE (toLE 4 payload.length) = payload.length := ofLE_toLE (by omega)
  unfold readRawFrameLimited
  rw [hheader]
  simp only [length_toLE, hlen]
  rw [if_neg (by decide), if_neg (by decide), if_neg (by omega)]
  cases x.read payload.length rest with
  | error err => rfl
  | ok read => rfl

/-- A whole frame is read if no interruption falls into its payload. -/
theorem readRawFrameLimited_frame (hclean : reader.Clean) (hle : payload.length ≤ maxLen.toNat)
    (hbytes : reader.bytes = frame payload ++ tail)
    (hquiet : ∀ offset ∈ reader.interruptions, ¬ (4 ≤ offset ∧ offset < 4 + payload.length)) :
    ∃ rest, (readRawFrameLimited x maxLen reader).answer = .ok (some payload, rest) ∧ rest.Clean ∧
      rest.bytes = tail ∧
      ∀ offset, offset ∈ rest.interruptions ↔
        4 + payload.length + offset ∈ reader.interruptions := by
  rw [frame, List.append_assoc] at hbytes
  obtain ⟨middle, hheader, hclean', hbytes', hmiddle⟩ := header_frame hclean hbytes
  have hlong : payload.length ≤ middle.bytes.length := by
    rw [hbytes', List.length_append]
    omega
  obtain ⟨rest, hread, hclean'', hbytes'', hlater⟩ := x.fills hclean' hlong (by
    intro offset hoff
    have hout := hquiet _ ((hmiddle offset).mp hoff)
    omega)
  rw [hbytes', List.take_left] at hread
  refine ⟨rest, ?_, hclean'', ?_, ?_⟩
  · rw [answer_of_header hle hheader, hread]
    rfl
  · rw [hbytes'', hbytes', List.drop_left]
  · intro offset
    rw [hlater, hmiddle, Nat.add_assoc]

/-- An interruption inside the payload is an error. -/
theorem readRawFrameLimited_interrupted {offset : Nat} (hclean : reader.Clean)
    (hle : payload.length ≤ maxLen.toNat)
    (hbytes : reader.bytes = toLE 4 payload.length ++ tail)
    (hoff : offset ∈ reader.interruptions) (hin : 4 ≤ offset ∧ offset < 4 + payload.length) :
    (readRawFrameLimited x maxLen reader).answer = .error interruptedError := by
  obtain ⟨middle, hheader, -, -, hmiddle⟩ := header_frame hclean hbytes
  have hoff' : offset - 4 ∈ middle.interruptions := by
    rw [hmiddle, Nat.add_sub_cancel' hin.1]
    exact hoff
  rw [answer_of_header hle hheader, x.interrupted hoff' (by omega)]
  rfl

/-- A frame that is cut is an error. -/
theorem readRawFrameLimited_cut {cut : Nat} (hclean : reader.Clean)
    (hle : payload.length ≤ maxLen.toNat) (hbytes : reader.bytes = (frame payload).take cut)
    (hpos : 0 < cut) (hcut : cut < 4 + payload.length) :
    ∃ err, (readRawFrameLimited x maxLen reader).answer = .error err := by
  have hlength : reader.bytes.length = cut := by
    rw [hbytes, List.length_take, length_frame]
    omega
  by_cases hpart : cut < 4
  · -- The loop of the header stops with some of its bytes.
    obtain ⟨rest, hheader, -⟩ := Reader.readFull_empty 4 hclean
    rw [List.take_of_length_le (by omega)] at hheader
    unfold readRawFrameLimited
    rw [hheader]
    simp only [hlength]
    rw [if_neg (by omega), if_pos hpart]
    exact ⟨_, rfl⟩
  · have hsplit : reader.bytes = toLE 4 payload.length ++ payload.take (cut - 4) := by
      rw [hbytes, frame, List.take_append, length_toLE,
        List.take_of_length_le (by rw [length_toLE]; omega)]
    obtain ⟨middle, hheader, hclean', hbytes', -⟩ := header_frame hclean hsplit
    have hshort : middle.bytes.length < payload.length := by
      rw [hbytes', List.length_take]
      omega
    rw [answer_of_header hle hheader]
    cases hquiet : middle.interruptions with
    | nil =>
      rw [x.ends hclean' hshort hquiet]
      exact ⟨_, rfl⟩
    | cons offset _ =>
      -- the bytes are at an end, so that the interruption comes before the buffer is full
      have hoff : offset ∈ middle.interruptions := by
        rw [hquiet]
        exact .head _
      have hbefore := Reader.interruptions_le offset hoff
      rw [x.interrupted hoff (by omega)]
      exact ⟨_, rfl⟩

end

/-! ## Streams -/

/-- Whether a number of bytes ends inside the payload of one of the frames. -/
def InPayload : List (List UInt8) → Nat → Prop
  | [], _ => False
  | payload :: payloads, offset =>
    (4 ≤ offset ∧ offset < 4 + payload.length) ∨
      (4 + payload.length ≤ offset ∧ InPayload payloads (offset - (4 + payload.length)))

/-- No call of the reader is interrupted inside a payload. -/
def Quiet (reader : Reader) (payloads : List (List UInt8)) : Prop :=
  ∀ offset ∈ reader.interruptions, ¬ InPayload payloads offset

theorem quiet_nil (reader : Reader) : Quiet reader [] := fun _ _ h => h

/-- The first frame, and the others in what is left behind it. -/
theorem quiet_cons {reader rest : Reader} {payload : List UInt8} {payloads : List (List UInt8)}
    (hlater : ∀ offset, offset ∈ rest.interruptions ↔
      4 + payload.length + offset ∈ reader.interruptions) :
    Quiet reader (payload :: payloads) ↔
      (∀ offset ∈ reader.interruptions, ¬ (4 ≤ offset ∧ offset < 4 + payload.length)) ∧
        Quiet rest payloads := by
  constructor
  · intro hquiet
    refine ⟨fun offset hoff hin => hquiet offset hoff (.inl hin), ?_⟩
    intro offset hoff hin
    refine hquiet _ ((hlater offset).mp hoff) (.inr ⟨by omega, ?_⟩)
    rwa [Nat.add_sub_cancel_left]
  · rintro ⟨hfirst, hothers⟩ offset hoff (hin | ⟨hbehind, hin⟩)
    · exact hfirst offset hoff hin
    · refine hothers _ ((hlater _).mpr ?_) hin
      rwa [Nat.add_sub_cancel' hbehind]

/-- The bytes of the frames, as `write_raw_frame_limited` writes them one by one. -/
def writeFrames (maxLen : UInt32) : List (List UInt8) → Except Error (List UInt8)
  | [] => .ok []
  | payload :: payloads => do
    let first ← writeRawFrameLimited payload maxLen
    let others ← writeFrames maxLen payloads
    return first ++ others

theorem writeFrames_ok {maxLen : UInt32} {payloads : List (List UInt8)}
    (h : ∀ payload ∈ payloads, payload.length ≤ maxLen.toNat) :
    writeFrames maxLen payloads = .ok (payloads.flatMap frame) := by
  induction payloads with
  | nil => rfl
  | cons payload payloads ih =>
    rw [writeFrames, writeRawFrameLimited_ok (h payload (.head _)), ih fun p hp => h p (.tail _ hp)]
    rfl

/-- The bytes of some frames and one before them. -/
theorem length_take_succ (payloads : List (List UInt8)) (k : Nat) :
    (((payload :: payloads).take (k + 1)).flatMap frame).length =
      4 + payload.length + ((payloads.take k).flatMap frame).length := by
  rw [List.take_succ_cons, List.flatMap_cons, List.length_append, length_frame]

/-- A cut that is not between two frames is inside one. -/
theorem cut_between {payloads : List (List UInt8)} {cut : Nat}
    (hcut : cut ≤ (payloads.flatMap frame).length)
    (hinside : ∀ k, cut ≠ ((payloads.take k).flatMap frame).length) :
    ∃ k, ((payloads.take k).flatMap frame).length < cut ∧
      cut < ((payloads.take (k + 1)).flatMap frame).length := by
  induction payloads generalizing cut with
  | nil => exact absurd (Nat.le_zero.mp hcut) (hinside 0)
  | cons payload payloads ih =>
    rw [List.flatMap_cons, List.length_append, length_frame] at hcut
    by_cases hin : cut < 4 + payload.length
    · have hpos : cut ≠ 0 := hinside 0
      refine ⟨0, Nat.pos_of_ne_zero hpos, ?_⟩
      rw [length_take_succ]
      omega
    · have hlater : ∀ k, cut - (4 + payload.length) ≠ ((payloads.take k).flatMap frame).length := by
        intro k heq
        have hcut := hinside (k + 1)
        rw [length_take_succ] at hcut
        omega
      obtain ⟨k, hlow, hhigh⟩ := ih (by omega) hlater
      refine ⟨k + 1, ?_, ?_⟩
      · rw [length_take_succ]
        omega
      · rw [length_take_succ]
        omega

theorem readFrames_eq (maxLen : UInt32) (reader : Reader) : readFrames x maxLen reader =
      match (readRawFrameLimited x maxLen reader).answer with
      | .error err => ([], .error err)
      | .ok (none, _) => ([], .ok ())
      | .ok (some payload, rest) =>
        (payload :: (readFrames x maxLen rest).1, (readFrames x maxLen rest).2) := by
  rw [readFrames.eq_def]
  split <;> rename_i hcall <;> rw [hcall]

section

variable {x} {maxLen : UInt32} {payloads : List (List UInt8)} {reader : Reader}

variable (hle : ∀ payload ∈ payloads, payload.length ≤ maxLen.toNat)

include hle

/-- The frames of a whole stream: all of them are read just if no interruption falls into
    a payload. -/
theorem readFrames_whole (hclean : reader.Clean) (hbytes : reader.bytes = payloads.flatMap frame) :
    readFrames x maxLen reader = (payloads, .ok ()) ↔ Quiet reader payloads := by
  induction payloads generalizing reader with
  | nil =>
    obtain ⟨rest, hrest⟩ := readRawFrameLimited_nil hclean hbytes
    rw [readFrames_eq, hrest]
    exact iff_of_true rfl (quiet_nil reader)
  | cons payload payloads ih =>
    have hfirst := hle payload (.head _)
    by_cases hquiet : ∀ offset ∈ reader.interruptions, ¬ (4 ≤ offset ∧ offset < 4 + payload.length)
    · obtain ⟨rest, hrest, hclean', hbytes', hlater⟩ :=
        readRawFrameLimited_frame hclean hfirst hbytes hquiet
      have hothers := ih (fun p hp => hle p (.tail _ hp)) hclean' hbytes'
      rw [quiet_cons hlater, and_iff_right hquiet, ← hothers, readFrames_eq, hrest]
      simp only [Prod.ext_iff, List.cons.injEq, true_and]
    · push Not at hquiet
      obtain ⟨offset, hoff, hin⟩ := hquiet
      rw [List.flatMap_cons, frame, List.append_assoc] at hbytes
      rw [readFrames_eq, readRawFrameLimited_interrupted hclean hfirst hbytes hoff hin]
      exact iff_of_false nofun fun hquiet => hquiet offset hoff (.inl hin)

/-- The frames of a stream that is cut inside the frame `k`: some of those before it are read,
    all of them just if no interruption falls into their payloads, and then there is an error. -/
theorem readFrames_cut {cut k : Nat} (hclean : reader.Clean)
    (hlow : ((payloads.take k).flatMap frame).length < cut)
    (hhigh : cut < ((payloads.take (k + 1)).flatMap frame).length)
    (hbytes : reader.bytes = (payloads.flatMap frame).take cut) :
    ∃ j err, readFrames x maxLen reader = (payloads.take j, .error err) ∧ j ≤ k ∧
      (j = k ↔ Quiet reader (payloads.take k)) := by
  induction payloads generalizing reader cut k with
  | nil => cases hhigh
  | cons payload payloads ih =>
    rw [List.flatMap_cons] at hbytes
    have hfirst := hle payload (.head _)
    cases k with
    | zero =>
      have hin : cut < 4 + payload.length := by
        simpa [length_frame] using hhigh
      rw [List.take_append_of_le_length (by rw [length_frame]; omega)] at hbytes
      have hpos := Nat.zero_lt_of_lt hlow
      obtain ⟨err, herr⟩ := readRawFrameLimited_cut hclean hfirst hbytes hpos hin
      refine ⟨0, err, ?_, Nat.le_refl 0, iff_of_true rfl (quiet_nil reader)⟩
      rw [readFrames_eq, herr]
      rfl
    | succ k =>
      rw [length_take_succ] at hlow hhigh
      have htake : reader.bytes = frame payload ++
          (payloads.flatMap frame).take (cut - (4 + payload.length)) := by
        rw [hbytes, List.take_append, List.take_of_length_le (by rw [length_frame]; omega),
          length_frame]
      by_cases hquiet : ∀ offset ∈ reader.interruptions,
          ¬ (4 ≤ offset ∧ offset < 4 + payload.length)
      · obtain ⟨rest, hrest, hclean', hbytes', hlater⟩ :=
          readRawFrameLimited_frame hclean hfirst htake hquiet
        have hlow' : ((payloads.take k).flatMap frame).length < cut - (4 + payload.length) := by
          omega
        obtain ⟨j, err, hothers, hfew, hall⟩ :=
          ih (fun p hp => hle p (.tail _ hp)) hclean' hlow' (by omega) hbytes'
        refine ⟨j + 1, err, ?_, by omega, ?_⟩
        · rw [readFrames_eq, hrest]
          simp only [hothers, List.take_succ_cons]
        · rw [List.take_succ_cons, quiet_cons hlater, and_iff_right hquiet, ← hall]
          omega
      · push Not at hquiet
        obtain ⟨offset, hoff, hin⟩ := hquiet
        rw [frame, List.append_assoc] at htake
        refine ⟨0, interruptedError, ?_, Nat.zero_le _, iff_of_false nofun ?_⟩
        · rw [readFrames_eq, readRawFrameLimited_interrupted hclean hfirst htake hoff hin]
          rfl
        · intro hquiet
          exact hquiet offset hoff (.inl hin)

end

/-- Frames within the limit are written.  A reader that gives the bytes in pieces of any
    sizes gives the payloads and then the clean end just if no call is interrupted inside a
    payload.  A stream that is cut inside a frame never gives the clean end but complete
    frames and then an error, and all the complete frames just if no call is interrupted
    inside one of their payloads.  No call allocates more than the limit, whatever it reads. -/
theorem frames_read_back (x : ReadExact) (maxLen : UInt32) (payloads : List (List UInt8))
    (hle : ∀ payload ∈ payloads, payload.length ≤ maxLen.toNat) :
    ∃ stream, writeFrames maxLen payloads = .ok stream ∧
      (∀ reader : Reader, reader.Clean → reader.bytes = stream →
        (readFrames x maxLen reader = (payloads, .ok ()) ↔ Quiet reader payloads)) ∧
      (∀ cut ≤ stream.length, (∀ k, cut ≠ ((payloads.take k).flatMap frame).length) →
        ∃ k, ((payloads.take k).flatMap frame).length < cut ∧
          cut < ((payloads.take (k + 1)).flatMap frame).length ∧
          ∀ reader : Reader, reader.Clean → reader.bytes = stream.take cut →
            ∃ j err, readFrames x maxLen reader = (payloads.take j, .error err) ∧ j ≤ k ∧
              (j = k ↔ Quiet reader (payloads.take k))) ∧
      ∀ reader : Reader, ∀ size ∈ (readRawFrameLimited x maxLen reader).allocated,
        size ≤ maxLen.toNat := by
  refine ⟨payloads.flatMap frame, writeFrames_ok hle, ?_, ?_, allocated_le x maxLen⟩
  · intro reader hclean hbytes
    exact readFrames_whole hle hclean hbytes
  · intro cut hcut hinside
    obtain ⟨k, hlow, hhigh⟩ := cut_between hcut hinside
    refine ⟨k, hlow, hhigh, ?_⟩
    intro reader hclean hbytes
    exact readFrames_cut hle hclean hlow hhigh hbytes

namespace Sample

/-- A frame of one byte and an empty one, in three pieces. -/
def pieces : Reader := [.data [1, 0], .interrupted, .data [0, 0, 7, 0, 0], .data [0, 0]]

/-- A frame of one byte with an interrupted call before its payload. -/
def interruptedPayload : Reader := [.data [1, 0, 0, 0], .interrupted, .data [7]]

end Sample

/-- `read_exact` gives up at an interrupted call, where the loop of the header goes on. -/
theorem interrupted_payload_fails : writeFrames 8 [[7]] = .ok [1, 0, 0, 0, 7] ∧
      Sample.interruptedPayload.Clean ∧ Sample.interruptedPayload.bytes = [1, 0, 0, 0, 7] ∧
      ∀ x : ReadExact,
        readFrames x 8 Sample.interruptedPayload = ([], .error interruptedError) := by
  refine ⟨rfl, trivial, rfl, fun x => ?_⟩
  have hpayload : (readRawFrameLimited x 8 Sample.interruptedPayload).answer =
      .error interruptedError :=
    @readRawFrameLimited_interrupted x 8 Sample.interruptedPayload [7] [7] 4 trivial (by decide)
      rfl (.head _) (by decide)
  rw [readFrames_eq, hpayload]

theorem frames_read_back_pieces :
    readFrames .loop 8 Sample.pieces = ([[7], []], .ok ()) ∧
      readFrames .loop 8 Sample.interruptedPayload ≠ ([[7]], .ok ()) := by
  obtain ⟨stream, hstream, hwhole, -⟩ := frames_read_back .loop 8 [[7], []] (by decide)
  cases hstream
  obtain ⟨stream, hstream, hone, -⟩ := frames_read_back .loop 8 [[7]] (by decide)
  cases hstream
  constructor
  · refine (hwhole Sample.pieces trivial rfl).mpr ?_
    intro offset hoffset
    obtain rfl := List.mem_singleton.mp hoffset
    simp [InPayload]
  · intro hread
    refine (hone Sample.interruptedPayload trivial rfl).mp hread 4 (.head _) ?_
    simp [InPayload]

end P2pFile.Protocol
