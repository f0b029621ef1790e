/-
  P2pFile.Transfer.BitmapSet

  The bitmap of finished chunks as a finite set (`src/transfer/resume.rs`).

  A bitmap of `n` chunks stands for the set of its finished chunks.  Each operation of
  the source has its counterpart on sets, and a run of operations on the bytes stands for
  the run of their counterparts.
-/

import P2pFile.Transfer.Resume
import Mathlib.Data.Finset.Card
import Mathlib.Data.Finset.Lattice.Basic

namespace P2pFile.Transfer

open Lib

namespace ChunkBitmap

variable (b other : ChunkBitmap)

/-- `mark_all`. -/
def markAll : ChunkBitmap :=
  ofBits b.chunkCount (b.bits.map fun _ => 0xff) (by rw [List.length_map, b.length_eq])

/-- `from_present`. -/
def fromPresent (chunkCount : UInt32) (present : List UInt32) : Except Error ChunkBitmap :=
  present.foldlM (fun bitmap index => bitmap.set index) (new chunkCount)

/-- `merge`. -/
def merge : Except Error ChunkBitmap :=
  if h : b.chunkCount = other.chunkCount then
    .ok (ofBits b.chunkCount (List.zipWith (· ||| ·) b.bits other.bits) (by
      rw [List.length_zipWith, b.length_eq, other.length_eq, h, Nat.min_self]))
  else
    .error (.protocol ("位图分片数不一致：本地 " ++ toString b.chunkCount ++ "，对端 " ++
      toString other.chunkCount))

/-! ## The bits of each operation -/

variable {b other}

/-- The bits decide the bitmap: two bitmaps of one count with the same chunks are equal. -/
theorem ext_isSet (hcount : b.chunkCount = other.chunkCount)
    (hset : ∀ index, b.isSet index = other.isSet index) : b = other := by
  have hbits : b.bits = other.bits := by
    apply eq_of_bitAt
    · rw [b.length_eq, other.length_eq, hcount]
    · intro i
      by_cases hlt : i < b.chunkCount.toNat
      · have hindex := hset (UInt32.ofNat i)
        rw [isSet_eq, isSet_eq, toNat_ofNat_index hlt] at hindex
        exact hindex
      · rw [b.padding i (by omega), other.padding i (by rw [← hcount]; omega)]
  cases b
  cases other
  cases hcount
  cases hbits
  rfl

variable {chunkCount : UInt32} {bits : List UInt8}

theorem isSet_ofBits (h : bits.length = byteLen chunkCount) (index : UInt32) :
    (ofBits chunkCount bits h).isSet index =
      (bitAt bits index.toNat && decide (index < chunkCount)) := by
  rw [isSet_eq]
  exact bitAt_clearPaddingBits h index.toNat

theorem isSet_markAll (index : UInt32) : b.markAll.isSet index = decide (index < b.chunkCount) := by
  rw [markAll, isSet_ofBits, bitAt_map_ones, Bool.and_eq_right_iff_imp]
  intro hlt
  have hlt : index.toNat < b.chunkCount.toNat := of_decide_eq_true hlt
  have hlen := b.length_eq
  unfold byteLen at hlen
  exact decide_eq_true (by omega)

theorem merge_ok {b' : ChunkBitmap} (h : b.merge other = .ok b') :
    b'.chunkCount = b.chunkCount ∧ b.chunkCount = other.chunkCount ∧
      ∀ index, b'.isSet index = (b.isSet index || other.isSet index) := by
  unfold merge at h
  split at h
  next hcount =>
    cases h
    refine ⟨rfl, hcount, fun index => ?_⟩
    rw [isSet_ofBits, bitAt_zipWith_or (by rw [b.length_eq, other.length_eq, hcount]), ← isSet_eq,
      ← isSet_eq, Bool.and_eq_left_iff_imp]
    intro hor
    -- Both sides have no chunk past the count.
    rcases (Bool.or_eq_true _ _).mp hor with hset | hset
    · exact decide_eq_true (lt_of_isSet hset)
    · exact decide_eq_true (hcount ▸ lt_of_isSet hset)
  · cases h

/-- `to_bytes` then `from_bytes` gives the bitmap itself. -/
theorem fromBytes_toBytes_eq (b : ChunkBitmap) : fromBytes b.chunkCount b.toBytes = .ok b := by
  obtain ⟨b', hb', hcount, hset⟩ := fromBytes_toBytes b
  rw [hb', ext_isSet hcount hset]

/-- If the padding is clear, clearing it changes no byte. -/
theorem clearPaddingBits_eq (h : paddingBitsAreClear chunkCount bits = true) :
    clearPaddingBits chunkCount bits = bits := by
  unfold paddingBitsAreClear at h
  unfold clearPaddingBits
  simp only at h ⊢
  split
  · rfl
  rename_i hpart
  rw [if_neg hpart, beq_iff_eq] at h
  generalize (1 <<< (chunkCount % 8).toUInt8) - 1 = mask at h ⊢
  have hkeep : bits.getD (bits.length - 1) 0 &&& mask = bits.getD (bits.length - 1) 0 := by
    generalize bits.getD (bits.length - 1) 0 = last at h ⊢
    have hsplit : last &&& mask ||| last &&& ~~~mask = last := by
      apply UInt8.eq_of_toBitVec_eq
      show last.toBitVec &&& mask.toBitVec ||| last.toBitVec &&& ~~~mask.toBitVec = _
      rw [← BitVec.and_or_distrib_left, BitVec.or_not_self, BitVec.and_allOnes]
    rw [h, UInt8.or_zero] at hsplit
    exact hsplit
  apply List.ext_getElem?
  intro i
  rw [List.getElem?_modify]
  by_cases hi : bits.length - 1 = i
  · subst hi
    cases hlast : bits[bits.length - 1]? with
    | none => rfl
    | some last =>
      rw [List.getD_eq_getElem?_getD, hlast, Option.getD_some] at hkeep
      show some (if bits.length - 1 = bits.length - 1 then last &&& mask else last) = some last
      rw [if_pos rfl, hkeep]
  · simp only [if_neg hi]
    exact Option.map_id'

variable {bytes : List UInt8} {b : ChunkBitmap}

/-- The accepted bytes are the bytes of the bitmap. -/
theorem toBytes_of_fromBytes (h : fromBytes chunkCount bytes = .ok b) : b.toBytes = bytes := by
  unfold fromBytes at h
  split at h
  · split at h
    next hclear =>
      cases h
      exact clearPaddingBits_eq hclear
    · cases h
  · cases h

theorem isSet_of_fromBytes (h : fromBytes chunkCount bytes = .ok b) (index : UInt32) :
    b.isSet index = (bitAt bytes index.toNat && decide (index < chunkCount)) := by
  obtain rfl := fromBytes_ok h
  obtain rfl := toBytes_of_fromBytes h
  rw [toBytes, ← isSet_eq]
  exact (Bool.and_eq_left_iff_imp.mpr fun hset => decide_eq_true (lt_of_isSet hset)).symm

/-! ## The list of finished chunks -/

variable {present : List UInt32}

/-- A fold of `set` adds the listed chunks. -/
theorem foldlM_set_ok {b b' : ChunkBitmap}
    (h : present.foldlM (fun bitmap index => bitmap.set index) b = Except.ok b') :
    b'.chunkCount = b.chunkCount ∧ (∀ index ∈ present, index < b.chunkCount) ∧
      ∀ index, b'.isSet index = (b.isSet index || decide (index ∈ present)) := by
  induction present generalizing b with
  | nil =>
    cases h
    exact ⟨rfl, by simp, by simp⟩
  | cons index rest ih =>
    rw [List.foldlM_cons] at h
    cases hset : b.set index with
    | error e =>
      rw [hset] at h
      exact absurd h (by simp [bind, Except.bind])
    | ok next =>
      rw [hset] at h
      obtain ⟨hcount, hbits⟩ := set_ok hset
      obtain ⟨hcount', hlt, hbits'⟩ := ih h
      have hindex : index < b.chunkCount := by
        rw [← hcount]
        exact lt_of_isSet (by rw [hbits]; simp)
      refine ⟨hcount'.trans hcount, ?_, fun j => ?_⟩
      · intro j hj
        rcases List.mem_cons.mp hj with rfl | hj
        · exact hindex
        · exact hcount ▸ hlt j hj
      · rw [hbits', hbits, Bool.or_assoc]
        simp

variable {index : UInt32}

theorem set_isOk (h : index < b.chunkCount) : ∃ b', b.set index = .ok b' := by
  unfold set
  rw [dif_pos h]
  exact ⟨_, rfl⟩

theorem foldlM_set_isOk (h : ∀ index ∈ present, index < b.chunkCount) :
    ∃ b', present.foldlM (fun bitmap index => bitmap.set index) b = Except.ok b' := by
  induction present generalizing b with
  | nil => exact ⟨b, rfl⟩
  | cons index rest ih =>
    obtain ⟨next, hnext⟩ := set_isOk (h index (.head _))
    rw [List.foldlM_cons, hnext]
    apply ih
    intro j hj
    rw [(set_ok hnext).1]
    exact h j (.tail _ hj)

/-- The list of the finished chunks builds the bitmap again. -/
theorem fromPresent_present (b : ChunkBitmap) : fromPresent b.chunkCount b.present = .ok b := by
  have hlt : ∀ index ∈ b.present, index < (new b.chunkCount).chunkCount :=
    fun index hindex => lt_of_isSet (b := b) (mem_present.mp hindex)
  obtain ⟨b', hb'⟩ := foldlM_set_isOk hlt
  obtain ⟨hcount, -, hbits⟩ := foldlM_set_ok hb'
  have hsame : b' = b := by
    refine ext_isSet hcount fun index => ?_
    rw [hbits, isSet_new, Bool.false_or]
    simp only [mem_present, Bool.decide_eq_true]
  rw [fromPresent, hb', hsame]

theorem pairwise_indexes : b.indexes.Pairwise (· < ·) := by
  rw [indexes, List.pairwise_map]
  apply List.Pairwise.imp_of_mem _ List.pairwise_lt_range
  intro i j hi hj hlt
  show (UInt32.ofNat i).toNat < (UInt32.ofNat j).toNat
  rw [toNat_ofNat_index (List.mem_range.mp hi), toNat_ofNat_index (List.mem_range.mp hj)]
  exact hlt

theorem mem_missing : index ∈ b.missing ↔ index < b.chunkCount ∧ b.isSet index = false := by
  rw [missing, List.mem_filter, mem_indexes, Bool.not_eq_true']

theorem countSet_eq_length : b.countSet = b.present.length := by
  rw [countSet_eq, present, ← List.countP_eq_length_filter, indexes, List.countP_map]
  apply List.countP_congr
  intro i hi
  rw [Function.comp_apply, isSet_eq, toNat_ofNat_index (List.mem_range.mp hi)]

/-! ## Sets -/

/-- The bitmap of `n` chunks stands for a set of them. -/
structure Represents (b : ChunkBitmap) (n : UInt32) (chunks : Finset UInt32) : Prop where
  count : b.chunkCount = n
  length : b.bits.length = byteLen n
  padding : ∀ i, n.toNat ≤ i → bitAt b.bits i = false
  lt : ∀ index ∈ chunks, index < n
  isSet : ∀ index, b.isSet index = true ↔ index ∈ chunks
  present_sorted : b.present.Pairwise (· < ·)
  mem_present : ∀ index, index ∈ b.present ↔ index ∈ chunks
  missing_sorted : b.missing.Pairwise (· < ·)
  mem_missing : ∀ index, index ∈ b.missing ↔ index < n ∧ index ∉ chunks
  countSet : b.countSet = chunks.card
  isComplete : b.isComplete = true ↔ ∀ index, index < n → index ∈ chunks
  roundTrip : fromBytes n b.toBytes = .ok b
  unique : ∀ b' : ChunkBitmap, b'.chunkCount = n →
    (∀ index, b'.isSet index = true ↔ index ∈ chunks) → b' = b

variable {chunks : Finset UInt32}

/-- The count and the bits give the rest. -/
theorem represents_of_isSet {n : UInt32} (hcount : b.chunkCount = n)
    (hset : ∀ index, b.isSet index = true ↔ index ∈ chunks) : b.Represents n chunks := by
  subst hcount
  have hmem : ∀ index, index ∈ b.present ↔ index ∈ chunks :=
    fun index => mem_present.trans (hset index)
  have hsorted : b.present.Pairwise (· < ·) := pairwise_indexes.filter _
  have hcard : b.present.length = chunks.card := by
    have hnodup : b.present.Nodup := hsorted.imp fun hlt => UInt32.ne_of_lt hlt
    have hchunks : b.present.toFinset = chunks := by
      ext index
      rw [List.mem_toFinset, hmem]
    rw [← hchunks, List.toFinset_card_of_nodup hnodup]
  refine
    { count := rfl, length := b.length_eq, padding := b.padding, isSet := hset
      present_sorted := hsorted, mem_present := hmem, missing_sorted := pairwise_indexes.filter _
      roundTrip := fromBytes_toBytes_eq b, lt := ?_, mem_missing := ?_, countSet := ?_
      isComplete := ?_, unique := ?_ }
  · intro index hindex
    exact lt_of_isSet ((hset index).mpr hindex)
  · intro index
    rw [mem_missing, ← hset, Bool.not_eq_true]
  · rw [countSet_eq_length, hcard]
  · rw [isComplete_iff]
    simp only [hset]
  · intro b' hcount' hset'
    apply ext_isSet hcount'
    intro index
    rw [Bool.eq_iff_iff, hset', hset]

/-! ## Runs -/

/-- The operations that change a bitmap. -/
inductive Op
  | set (index : UInt32)
  | clear (index : UInt32)
  | merge (other : ChunkBitmap)
  | markAll

namespace Op

variable (b : ChunkBitmap)

def apply : Op → Except Error ChunkBitmap
  | set index => b.set index
  | clear index => b.clear index
  | merge other => b.merge other
  | markAll => .ok b.markAll

/-- The bitmap and the answer after a call; every error is returned before the first
    write. -/
def call (op : Op) : ChunkBitmap × Except Error Unit :=
  match op.apply b with
  | .ok b' => (b', .ok ())
  | .error e => (b, .error e)

/-- The calls that `n` chunks accept. -/
def Accepted (n : UInt32) : Op → Prop
  | set index => index < n
  | clear index => index < n
  | merge other => other.chunkCount = n
  | markAll => True

instance (n : UInt32) : DecidablePred (Accepted n)
  | set index => inferInstanceAs (Decidable (index < n))
  | clear index => inferInstanceAs (Decidable (index < n))
  | merge other => inferInstanceAs (Decidable (other.chunkCount = n))
  | markAll => inferInstanceAs (Decidable True)

/-- What an accepted call does to the set; `all` is the set of all `n` chunks. -/
def onSet (all chunks : Finset UInt32) : Op → Finset UInt32
  | set index => insert index chunks
  | clear index => chunks.erase index
  | merge other => chunks ∪ other.present.toFinset
  | markAll => all

def run (ops : List Op) : ChunkBitmap := ops.foldl (fun b op => (call b op).1) b

/-- The same run on sets; a call that is not accepted leaves the set. -/
def runSet (n : UInt32) (chunks : Finset UInt32) (ops : List Op) : Finset UInt32 :=
  ops.foldl (fun chunks op =>
    if Accepted n op then op.onSet (new n).indexes.toFinset chunks else chunks) chunks

theorem apply_error {b : ChunkBitmap} {op : Op} (h : ¬ Accepted b.chunkCount op) :
    ∃ e, op.apply b = .error e := by
  cases op with
  | set index => exact ⟨_, dif_neg h⟩
  | clear index => exact ⟨_, dif_neg h⟩
  | merge other => exact ⟨_, dif_neg fun heq => h heq.symm⟩
  | markAll => exact absurd trivial h

theorem apply_ok {b : ChunkBitmap} {op : Op} (h : Accepted b.chunkCount op) :
    ∃ b', op.apply b = .ok b' := by
  cases op with
  | set index => exact ⟨_, dif_pos h⟩
  | clear index => exact ⟨_, dif_pos h⟩
  | merge other => exact ⟨_, dif_pos (Eq.symm h)⟩
  | markAll => exact ⟨_, rfl⟩

variable {b b' : ChunkBitmap} {n : UInt32} {chunks : Finset UInt32} {op : Op}

variable (hb : b.Represents n chunks)

include hb

theorem represents_apply (h : op.apply b = .ok b') :
    b'.Represents n (op.onSet (new n).indexes.toFinset chunks) := by
  obtain rfl := hb.count
  cases op with
  | set index =>
    obtain ⟨hcount, hset⟩ := set_ok h
    apply represents_of_isSet hcount
    intro j
    show _ ↔ j ∈ insert index chunks
    rw [hset, Bool.or_eq_true, decide_eq_true_eq, hb.isSet, Finset.mem_insert, or_comm]
  | clear index =>
    obtain ⟨hcount, hset⟩ := clear_ok h
    apply represents_of_isSet hcount
    intro j
    show _ ↔ j ∈ chunks.erase index
    rw [hset, Bool.and_eq_true, Bool.not_eq_true', decide_eq_false_iff_not, hb.isSet,
      Finset.mem_erase, and_comm]
  | merge other =>
    obtain ⟨hcount, -, hset⟩ := merge_ok h
    apply represents_of_isSet hcount
    intro j
    show _ ↔ j ∈ chunks ∪ other.present.toFinset
    rw [hset, Bool.or_eq_true, hb.isSet, Finset.mem_union, List.mem_toFinset,
      ChunkBitmap.mem_present]
  | markAll =>
    cases h
    apply represents_of_isSet rfl
    intro j
    show _ ↔ j ∈ (new b.chunkCount).indexes.toFinset
    rw [isSet_markAll, decide_eq_true_eq, List.mem_toFinset, mem_indexes]
    rfl

theorem represents_call (op : Op) : (call b op).1.Represents n
      (if Accepted n op then op.onSet (new n).indexes.toFinset chunks else chunks) := by
  obtain rfl := hb.count
  unfold call
  by_cases hop : Accepted b.chunkCount op
  · obtain ⟨b', hb'⟩ := apply_ok hop
    rw [hb', if_pos hop]
    exact represents_apply hb hb'
  · obtain ⟨e, he⟩ := apply_error hop
    rw [he, if_neg hop]
    exact hb

theorem represents_run (ops : List Op) : (run b ops).Represents n (runSet n chunks ops) := by
  induction ops generalizing b chunks with
  | nil => exact hb
  | cons op ops ih => exact ih (represents_call hb op)

end Op

/-- A bitmap as the constructors and `mark_all` give it, with the set that it stands for. -/
inductive Start (n : UInt32) : ChunkBitmap → Finset UInt32 → Prop
  | new : Start n (new n) ∅
  | fromBytes {bytes : List UInt8} {b : ChunkBitmap} (h : fromBytes n bytes = .ok b) :
      Start n b ((new n).indexes.toFinset.filter fun index => bitAt bytes index.toNat = true)
  | fromPresent {present : List UInt32} {b : ChunkBitmap} (h : fromPresent n present = .ok b) :
      Start n b present.toFinset
  | markAll {b : ChunkBitmap} (h : b.chunkCount = n) : Start n b.markAll (new n).indexes.toFinset

theorem Start.represents {n : UInt32} (h : Start n b chunks) : b.Represents n chunks := by
  have hall : ∀ index, index ∈ (ChunkBitmap.new n).indexes.toFinset ↔ index < n := by
    intro index
    rw [List.mem_toFinset, mem_indexes]
    rfl
  cases h with
  | new =>
    apply represents_of_isSet rfl
    intro index
    simp
  | fromBytes h =>
    apply represents_of_isSet (fromBytes_ok h)
    intro index
    rw [isSet_of_fromBytes h, Bool.and_eq_true, decide_eq_true_eq, Finset.mem_filter, hall,
      and_comm]
  | fromPresent h =>
    obtain ⟨hcount, -, hset⟩ := foldlM_set_ok h
    apply represents_of_isSet hcount
    intro index
    rw [hset, isSet_new, Bool.false_or, decide_eq_true_eq, List.mem_toFinset]
  | markAll h =>
    refine represents_of_isSet h fun index => ?_
    rw [isSet_markAll, decide_eq_true_eq, hall, h]

end ChunkBitmap

open ChunkBitmap in
/-- A bitmap is a finite set of chunks: from each start, after any operations, the bytes
    stand for the set that the same operations give.  A call fails exactly if it is not
    accepted, and then changes nothing.  `from_bytes` takes exactly the byte strings of
    the sets, and `from_present` exactly the lists of chunks below the count. -/
theorem bitmap_is_finite_set (n : UInt32) : (∀ b chunks, Start n b chunks → ∀ ops : List Op,
      (Op.run b ops).Represents n (Op.runSet n chunks ops) ∧
        ∀ op : Op, ((Op.call (Op.run b ops) op).2 = .ok () ↔ op.Accepted n) ∧
            (¬ op.Accepted n → (Op.call (Op.run b ops) op).1 = Op.run b ops)) ∧
      (∀ bytes, (∃ b, fromBytes n bytes = .ok b) ↔
        ∃ chunks b, fromPresent n chunks = .ok b ∧ b.toBytes = bytes) ∧
      ∀ chunks, (∃ b, fromPresent n chunks = .ok b) ↔ ∀ index ∈ chunks, index < n := by
  refine ⟨fun b chunks hstart ops => ?_, fun bytes => ⟨?_, ?_⟩, fun chunks => ⟨?_, ?_⟩⟩
  · have hrun := Op.represents_run hstart.represents ops
    refine ⟨hrun, fun op => ?_⟩
    obtain rfl := hrun.count
    unfold Op.call
    by_cases hop : op.Accepted (Op.run b ops).chunkCount
    · obtain ⟨b', hb'⟩ := Op.apply_ok hop
      rw [hb']
      exact ⟨⟨fun _ => hop, fun _ => rfl⟩, fun hnot => absurd hop hnot⟩
    · obtain ⟨e, he⟩ := Op.apply_error hop
      rw [he]
      exact ⟨⟨nofun, fun h => absurd h hop⟩, fun _ => rfl⟩
  · rintro ⟨b, hb⟩
    have hcount := fromBytes_ok hb
    exact ⟨b.present, b, hcount ▸ fromPresent_present b, toBytes_of_fromBytes hb⟩
  · rintro ⟨chunks, b, hb, rfl⟩
    have hcount : b.chunkCount = n := (foldlM_set_ok hb).1
    exact ⟨b, hcount ▸ fromBytes_toBytes_eq b⟩
  · rintro ⟨b, hb⟩
    exact (foldlM_set_ok hb).2.1
  · intro hlt
    exact foldlM_set_isOk hlt

open ChunkBitmap in
/-- Nine chunks, the last one in a byte of its own. -/
theorem bitmap_is_finite_set_nine : (Op.run (new 9) [.set 8, .set 3, .clear 3]).Represents 9
        (Op.runSet 9 ∅ [.set 8, .set 3, .clear 3]) ∧
      (Op.call (Op.run (new 9) [.markAll]) (.set 9)).1 = Op.run (new 9) [.markAll] :=
  ⟨((bitmap_is_finite_set 9).1 _ _ .new _).1,
    (((bitmap_is_finite_set 9).1 _ _ .new _).2 (.set 9)).2 (by decide)⟩

end P2pFile.Transfer
