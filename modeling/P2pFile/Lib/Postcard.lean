/-
  P2pFile.Lib.Postcard

  A compact binary format, by its laws.

  A derived serializer hands its format the fields of a value in order.  The format writes
  byte arrays raw, records as their fields one after the other, and integers, lengths and
  the indices of variants as base-128 varints.
-/

import Mathlib.Algebra.GroupWithZero.Nat

namespace P2pFile.Lib

/-- What a serializer hands to its format. -/
inductive Data where
  | nat (n : Nat)
  /-- `[u8; n]`. -/
  | array (bytes : List UInt8)
  /-- A variant of an enumeration, by its index, with its fields. -/
  | variant (index : Nat) (fields : List Data)
  | record (fields : List Data)
  | seq (items : List Data)

/-- The format, as far as its specification fixes it for what is written here. -/
structure Postcard where
  write : Data → List UInt8
  varint : Nat → List UInt8
  write_nat : ∀ n, write (.nat n) = varint n
  write_array : ∀ bytes, write (.array bytes) = bytes
  write_variant : ∀ index fields,
    write (.variant index fields) = varint index ++ fields.flatMap write
  write_record : ∀ fields, write (.record fields) = fields.flatMap write
  write_seq : ∀ items, write (.seq items) = varint items.length ++ items.flatMap write
  /-- Seven bits a byte. -/
  varint_small : ∀ {n}, n < 128 → varint n = [n.toUInt8]
  varint_length : ∀ {n}, n < 2 ^ 16 → (varint n).length ≤ 3

namespace Postcard

/-- A varint of at most `fuel` bytes, low bits first. -/
def varintOf : (fuel : Nat) → Nat → List UInt8
  | 0, _ => []
  | fuel + 1, n =>
    if n < 128 then [n.toUInt8] else (n % 128 + 128).toUInt8 :: varintOf fuel (n / 128)

mutual

def bytesOf : Data → List UInt8
  | .nat n => varintOf 10 n
  | .array bytes => bytes
  | .variant index fields => varintOf 10 index ++ bytesOfAll fields
  | .record fields => bytesOfAll fields
  | .seq items => varintOf 10 items.length ++ bytesOfAll items

def bytesOfAll : List Data → List UInt8
  | [] => []
  | d :: rest => bytesOf d ++ bytesOfAll rest

end

theorem bytesOfAll_eq (l : List Data) : bytesOfAll l = l.flatMap bytesOf := by
  induction l with
  | nil => rfl
  | cons d rest ih => rw [bytesOfAll, List.flatMap_cons, ih]

/-- The format itself.  Ten bytes hold every 64-bit number. -/
def wire : Postcard where
  write := bytesOf
  varint := varintOf 10
  write_nat _ := rfl
  write_array _ := rfl
  write_variant _ _ := by rw [bytesOf, bytesOfAll_eq]
  write_record _ := by rw [bytesOf, bytesOfAll_eq]
  write_seq _ := by rw [bytesOf, bytesOfAll_eq]
  varint_small h := if_pos h
  varint_length {n} h := by
    unfold varintOf
    split
    · simp
    unfold varintOf
    split
    · simp
    unfold varintOf
    rw [if_pos (by omega)]
    simp

end Postcard

end P2pFile.Lib
