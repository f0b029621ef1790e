/-
  P2pFile.Lib.File

  File contents, and files whose writes are safe only once they are synced.

  A file has the content that is on stable storage and the list of writes that have
  been made since, byte by byte.  Readers see all writes; a crash may drop any of
  them.  `sync` makes what is seen stable.  The entry of a name is as safe as its directory:
  until that is synced, any of the entries since the last time can come back (`revive`).
-/

import Mathlib.Data.List.Basic

namespace P2pFile.Lib

/-! ## Contents -/

variable (l : List UInt8)

/-- Cut the content to `len` bytes, or fill it up with zeros. -/
def resize (len : Nat) : List UInt8 := l.take len ++ List.replicate (len - l.length) 0

/-- The `len` bytes from `offset` on, fewer at the end of the content. -/
def slice (offset len : Nat) : List UInt8 := (l.drop offset).take len

/-- One change of a content. -/
inductive Write where
  | put (pos : Nat) (byte : UInt8)
  | setLen (len : Nat)
  deriving DecidableEq

/-- A byte put past the end leaves a hole of zeros. -/
def Write.apply : Write → List UInt8
  | .put pos byte => (resize l (max l.length (pos + 1))).set pos byte
  | .setLen len => resize l len

/-- The writes that put `data` at `offset`. -/
def putAll (offset : Nat) : List UInt8 → List Write
  | [] => []
  | b :: data => .put offset b :: putAll (offset + 1) data

@[simp] theorem length_resize (len : Nat) : (resize l len).length = len := by
  simp only [resize, List.length_append, List.length_take, List.length_replicate]
  omega

theorem resize_length : resize l l.length = l := by
  simp [resize]

theorem apply_put {l : List UInt8} {pos : Nat} (h : pos < l.length) (b : UInt8) :
    (Write.put pos b).apply l = l.set pos b := by
  have hmax : max l.length (pos + 1) = l.length := by omega
  rw [Write.apply, hmax, resize_length]

/-- Putting `data` inside a content replaces that range. -/
theorem foldl_putAll {l data : List UInt8} {offset : Nat} (h : offset + data.length ≤ l.length) :
    (putAll offset data).foldl Write.apply l =
      l.take offset ++ data ++ l.drop (offset + data.length) := by
  induction data generalizing offset l with
  | nil => simp [putAll]
  | cons b data ih =>
    rw [List.length_cons] at h
    have hpos : offset < l.length := by omega
    have hrest : offset + 1 + data.length ≤ (l.set offset b).length := by
      rw [List.length_set]
      omega
    rw [putAll, List.foldl_cons, apply_put hpos, ih hrest]
    -- The first byte is the last of the part before, and not in the part after.
    have htake : (l.set offset b).take (offset + 1) = l.take offset ++ [b] := by
      have hset : offset < (l.set offset b).length := by
        rw [List.length_set]
        exact hpos
      rw [List.take_succ_eq_append_getElem hset, List.getElem_set_self, List.take_set,
        List.set_eq_of_length_le (by rw [List.length_take]; omega)]
    have hdrop : (l.set offset b).drop (offset + 1 + data.length) =
        l.drop (offset + (data.length + 1)) := by
      rw [List.drop_set_of_lt (by omega)]
      congr 1
      omega
    rw [htake, hdrop]
    simp

theorem getElem?_slice (offset len i : Nat) :
    (slice l offset len)[i]? = if i < len then l[offset + i]? else none := by
  rw [slice, List.getElem?_take, List.getElem?_drop]

theorem length_slice {l : List UInt8} {offset len : Nat} (h : offset + len ≤ l.length) :
    (slice l offset len).length = len := by
  rw [slice, List.length_take, List.length_drop]
  omega

section Replace

variable {l data : List UInt8} {offset : Nat} (h : offset + data.length ≤ l.length)

include h

theorem length_replace :
    (l.take offset ++ data ++ l.drop (offset + data.length)).length = l.length := by
  simp only [List.length_append, List.length_take, List.length_drop]
  omega

theorem getElem?_replace (i : Nat) : (l.take offset ++ data ++ l.drop (offset + data.length))[i]? =
      if offset ≤ i ∧ i < offset + data.length then data[i - offset]? else l[i]? := by
  have htake : (l.take offset).length = offset := by
    rw [List.length_take]
    omega
  rw [List.append_assoc, List.getElem?_append, htake]
  -- Before the data, in the data, after the data.
  by_cases hlow : i < offset
  · rw [if_pos hlow, if_neg (by omega), List.getElem?_take, if_pos hlow]
  rw [if_neg hlow, List.getElem?_append]
  by_cases hmid : i - offset < data.length
  · rw [if_pos hmid, if_pos (by omega)]
  · rw [if_neg hmid, if_neg (by omega), List.getElem?_drop]
    congr 1
    omega

/-- A range that the replaced one does not touch is as before. -/
theorem slice_replace_of_disjoint {offset' len' : Nat}
    (hdisj : offset' + len' ≤ offset ∨ offset + data.length ≤ offset') :
    slice (l.take offset ++ data ++ l.drop (offset + data.length)) offset' len' =
      slice l offset' len' := by
  apply List.ext_getElem?
  intro i
  rw [getElem?_slice, getElem?_slice]
  split
  · rw [getElem?_replace h, if_neg (by omega)]
  · rfl

/-- The replaced range, seen in a range that starts with it. -/
theorem slice_replace_same {len : Nat} (hlen : data.length ≤ len) :
    slice (l.take offset ++ data ++ l.drop (offset + data.length)) offset len =
      data ++ (slice l offset len).drop data.length := by
  apply List.ext_getElem?
  intro i
  rw [getElem?_slice, getElem?_replace h, List.getElem?_append, List.getElem?_drop, getElem?_slice]
  by_cases hi : i < data.length
  · rw [if_pos (by omega), if_pos (by omega), if_pos hi]
    congr 1
    omega
  · have hpos : data.length + (i - data.length) = i := by omega
    rw [if_neg hi, hpos]
    split
    · rw [if_neg (by omega)]
    · rfl

end Replace

/-! ## Files -/

structure File where
  /-- What is on stable storage. -/
  synced : List UInt8
  /-- What has been written since, oldest first. -/
  pending : List Write
  deriving DecidableEq

namespace File

def empty : File := ⟨[], []⟩

variable (f : File)

/-- The content that readers see. -/
def view : List UInt8 := f.pending.foldl Write.apply f.synced

/-- Write `data` at `offset`. -/
def writeAt (offset : Nat) (data : List UInt8) : File :=
  { f with pending := f.pending ++ putAll offset data }

def setLen (len : Nat) : File := { f with pending := f.pending ++ [.setLen len] }

def sync : File := ⟨f.view, []⟩

/-- The power is lost: of the pending writes only those at the positions in `keep` have come
    to stable storage. -/
def lose (keep : Nat → Bool) : File :=
  sync { f with pending := (f.pending.zipIdx.filter fun w => keep w.2).map Prod.fst }

theorem lose_of_synced {f : File} (h : f.pending = []) (keep : Nat → Bool) : f.lose keep = f := by
  obtain ⟨content, pending⟩ := f
  obtain rfl : pending = [] := h
  rfl

@[simp] theorem view_writeAt (offset : Nat) (data : List UInt8) :
    (f.writeAt offset data).view = (putAll offset data).foldl Write.apply f.view := by
  simp [view, writeAt, List.foldl_append]

@[simp] theorem view_setLen (len : Nat) : (f.setLen len).view = resize f.view len := by
  simp [view, setLen, List.foldl_append, Write.apply]

@[simp] theorem view_sync : f.sync.view = f.view := rfl

@[simp] theorem pending_sync : f.sync.pending = [] := rfl

end File

/-! ## Entries of directories -/

variable {α : Type} (entry : α) (older : List α) (back : Nat)

/-- The entry that a loss of power leaves: the present one, or an older one. -/
def revive : α := (entry :: older).getD back entry

theorem revive_mem : revive entry older back ∈ entry :: older := by
  unfold revive
  rw [List.getD_eq_getElem?_getD]
  cases hback : (entry :: older)[back]? with
  | none => exact List.mem_cons_self
  | some e => exact List.mem_of_getElem? hback

theorem revive_nil : revive entry [] back = entry :=
  List.mem_singleton.mp (revive_mem entry [] back)

end P2pFile.Lib
