/-
  P2pFile.Net.Fingerprint

  What the fingerprint of a STUN message detects (`src/nat/stun.rs`): a change of one byte
  anywhere but in the lengths and types, which say where the fingerprint is.

  The checksum takes in one byte after the other, and each of its rounds is injective in
  the state and in the byte.
-/

import P2pFile.Net.StunRoundTrip

namespace P2pFile.Stun

open Lib

/-! ## The checksum -/

theorem crcBit_toNat (x : UInt32) :
    (crcBit x).toNat = x.toNat / 2 ^^^ if x.toNat % 2 = 0 then 0 else 0xEDB88320 := by
  have hshift : (x >>> 1).toNat = x.toNat / 2 := by simp [Nat.shiftRight_eq_div_pow]
  have hlow : (x &&& 1).toNat = x.toNat % 2 := by simp [Nat.and_one_is_mod]
  rw [crcBit, UInt32.toNat_xor, hshift]
  congr 1
  split
  next h =>
    rw [show x &&& 1 = 0 from UInt32.toNat_inj.mp (hlow.trans h)]
    rfl
  next h =>
    rw [show x &&& 1 = 1 from UInt32.toNat_inj.mp (hlow.trans (Nat.mod_two_ne_zero.mp h))]
    rfl

theorem crcBit_injective : Function.Injective crcBit := by
  intro x y h
  have hnat := congrArg UInt32.toNat h
  rw [crcBit_toNat, crcBit_toNat] at hnat
  by_cases hlow : x.toNat % 2 = y.toNat % 2
  · rw [hlow] at hnat
    have hhalf := congrArg (· ^^^ if y.toNat % 2 = 0 then 0 else 0xEDB88320) hnat
    simp only [Nat.xor_assoc, Nat.xor_self, Nat.xor_zero] at hhalf
    exact UInt32.toNat_inj.mp (by omega)
  · -- The polynomial has the highest bit, which no half has.
    have hhalf : x.toNat / 2 ^^^ y.toNat / 2 = 0xEDB88320 := by grind
    have hsmall : x.toNat / 2 ^^^ y.toNat / 2 < 2 ^ 31 :=
      Nat.xor_lt_two_pow (by have := x.toNat_lt; omega) (by have := y.toNat_lt; omega)
    omega

/-- The round of one byte. -/
def crcByte (crc : UInt32) (byte : UInt8) : UInt32 :=
  (List.range 8).foldl (fun crc _ => crcBit crc) (crc ^^^ byte.toUInt32)

theorem crcByte_inj {x y : UInt32} {a b : UInt8} (h : crcByte x a = crcByte y b) :
    x ^^^ a.toUInt32 = y ^^^ b.toUInt32 := by
  have hbits : ∀ (l : List Nat) (x y : UInt32), l.foldl (fun crc _ => crcBit crc) x =
      l.foldl (fun crc _ => crcBit crc) y → x = y := by
    intro l
    induction l with
    | nil => exact fun _ _ h => h
    | cons _ l ih => exact fun x y h => crcBit_injective (ih _ _ h)
  exact hbits _ _ _ h

theorem foldl_crcByte_injective (data : List UInt8) :
    Function.Injective fun crc => data.foldl crcByte crc := by
  induction data with
  | nil => exact fun _ _ h => h
  | cons b data ih => exact fun x y h => (UInt32.xor_left_inj _).mp (crcByte_inj (ih h))

theorem crc32_cons_inj {before after : List UInt8} {a b : UInt8}
    (h : crc32 (before ++ a :: after) = crc32 (before ++ b :: after)) : a = b := by
  have hcut : ∀ b, crc32 (before ++ b :: after) =
      ~~~ after.foldl crcByte (crcByte (before.foldl crcByte 0xFFFFFFFF) b) := by
    intro b
    show ~~~ (before ++ b :: after).foldl crcByte 0xFFFFFFFF = _
    rw [List.foldl_append, List.foldl_cons]
  rw [hcut, hcut, UInt32.not_inj] at h
  have hbyte := (UInt32.xor_right_inj _).mp (crcByte_inj (foldl_crcByte_injective after h))
  simpa using congrArg UInt32.toUInt8 hbyte

theorem crc32_set {data : List UInt8} {i : Nat} {b : UInt8}
    (h : crc32 (data.set i b) = crc32 data) : data.set i b = data := by
  by_cases hi : i < data.length
  · have hcut : ∀ b, data.set i b = data.take i ++ b :: data.drop (i + 1) := fun b => by
      rw [List.set_eq_take_append_cons_drop, if_pos hi]
    have hsame := hcut data[i]
    rw [List.set_getElem_self] at hsame
    rw [crc32_cons_inj ((congrArg crc32 (hcut b)).symm.trans (h.trans (congrArg crc32 hsame))),
      List.set_getElem_self]
  · exact List.set_eq_of_length_le (Nat.not_lt.mp hi)

/-! ## The walk -/

variable {bytes : List UInt8} {p cursor fuel : Nat} {v : UInt8} {id : Bytes 12}

/-- The position is outside of the four bytes of a header. -/
abbrev Outside (p c : Nat) : Prop := p < c ∨ c + 4 ≤ p

theorem wordAt_set {i : Nat} (h : p < i ∨ i + 2 ≤ p) :
    wordAt (bytes.set p v) i = wordAt bytes i := by
  unfold wordAt
  rw [List.drop_set]
  split
  · rfl
  · rw [List.take_set, List.set_eq_of_length_le (by simp; omega)]

theorem lenAt_set (h : Outside p cursor) : lenAt (bytes.set p v) cursor = lenAt bytes cursor :=
  congrArg _ (wordAt_set (by omega))

/-- The walk over the changed bytes comes to the fingerprint. -/
theorem verifyFrom_reaches {attributes : List Attribute} {checksum : List UInt8}
    (h : bytes.drop cursor = attributes.flatMap (encodeAttribute id) ++
      tlv attrFingerprint checksum)
    (hsize : (attributes.flatMap (encodeAttribute id)).length < 65536)
    (hchecksum : checksum.length = 4)
    (hout : ∀ before, before <+: attributes →
      Outside p (cursor + (before.flatMap (encodeAttribute id)).length))
    (hfuel : (attributes.flatMap (encodeAttribute id)).length < fuel) :
    cursor + (attributes.flatMap (encodeAttribute id)).length ∈
      (verifyFrom (bytes.set p v) bytes.length fuel cursor).1 := by
  induction attributes generalizing cursor fuel with
  | nil =>
    obtain ⟨fuel, rfl⟩ : ∃ k, fuel = k + 1 := ⟨fuel - 1, by omega⟩
    rw [List.flatMap_nil, List.nil_append, ← List.append_nil (tlv _ _)] at h
    obtain ⟨hle, hkind, -⟩ := head_tlv h (by omega)
    have hhere : Outside p cursor := hout [] (List.nil_prefix)
    rw [verifyFrom_head (by omega) (by simp), wordAt_set (by omega), if_pos hkind]
    exact .head _
  | cons a rest ih =>
    have hhere : Outside p cursor := hout [] (List.nil_prefix)
    rw [List.flatMap_cons] at h ⊢
    have hnext : ∀ before, before <+: rest → Outside p (cursor + (encodeAttribute id a).length +
        (before.flatMap (encodeAttribute id)).length) := by
      intro before hbefore
      have hcons := hout (a :: before) (List.cons_prefix_cons.mpr ⟨rfl, hbefore⟩)
      rw [List.flatMap_cons, List.length_append] at hcons
      rwa [Nat.add_assoc]
    rw [List.flatMap_cons, List.length_append] at hsize hfuel
    by_cases hkind : a.kind = attrFingerprint
    · have hnone : encodeAttribute id a = [] := if_pos hkind
      rw [hnone] at h hnext ⊢
      exact ih h (by omega) hnext (by omega)
    · have hsome : encodeAttribute id a = tlv a.kind (a.payload id) := if_neg hkind
      rw [hsome, length_tlv] at hsize hnext hfuel
      rw [hsome, List.append_assoc] at h
      rw [hsome, List.length_append, length_tlv, ← Nat.add_assoc]
      have hpadded := le_padded (a.payload id).length
      obtain ⟨fuel, rfl⟩ : ∃ k, fuel = k + 1 := ⟨fuel - 1, by omega⟩
      obtain ⟨hle, hword, hlen, -, hrest⟩ := head_tlv h (by omega)
      rw [verifyFrom_head (by omega) (by simp), wordAt_set (by omega), lenAt_set hhere, hword,
        if_neg hkind, hlen]
      exact .tail _ (ih hrest (by omega) hnext (by omega))

/-! ## Corrupted messages -/

theorem readU32_inj {a b : List UInt8} (ha : a.length = 4) (hb : b.length = 4)
    (h : UInt32.ofNat (ofBE a) = UInt32.ofNat (ofBE b)) : a = b := by
  match a, b, ha, hb with
  | [a₀, a₁, a₂, a₃], [b₀, b₁, b₂, b₃], _, _ =>
    have hnat := congrArg UInt32.toNat h
    have hbound := fun x : UInt8 => x.toNat_lt
    simp only [ofBE, List.reverse_cons, List.reverse_nil, List.nil_append, List.cons_append, ofLE,
      UInt32.toNat_ofNat'] at hnat
    simp only [List.cons.injEq, ← UInt8.toNat_inj, and_true]
    grind

/-- The byte is neither in the length of the message nor in the header of an attribute. -/
def Message.Unmarked (m : Message) (p : Nat) : Prop :=
  p ≠ 2 ∧ p ≠ 3 ∧ ∀ before, before <+: m.attributes →
    Outside p (headerLen + (before.flatMap (encodeAttribute m.transactionId)).length)

theorem decode_set {lossy : List UInt8 → String} {m : Message} (hp : m.Unmarked p)
    (hsize : m.encodeAttributes.length + fingerprintLen < 65536) (hlt : p < m.encode.length)
    (hv : m.encode[p] ≠ v) : ∃ reason, decode lossy (m.encode.set p v) = fail reason := by
  obtain ⟨h2, h3, hout⟩ := hp
  have hyields : Yields (decode lossy (m.encode.set p v)) _ := decode_yields
  obtain hfail | ⟨m', -, haccepted⟩ := hyields
  · exact hfail
  obtain ⟨hlength, -, hbody, -, -, hattributes⟩ := encode_fields hsize
  rw [fingerprintLen] at hlength hbody
  have hbody' : lenAt (m.encode.set p v) 0 = m.encodeAttributes.length + 8 :=
    (congrArg _ (wordAt_set (by omega))).trans hbody
  obtain ⟨q, hq⟩ : ∃ q, q = 20 + m.encodeAttributes.length := ⟨_, rfl⟩
  have hlast : Outside p q := hq ▸ hout m.attributes m.attributes.prefix_refl
  have hreaches : q ∈ (verifyFrom (m.encode.set p v) m.encode.length
      (m.encodeAttributes.length + 8 + 1) 20).1 := by
    rw [hq]
    exact verifyFrom_reaches hattributes (Nat.lt_of_add_right_lt hsize) (length_toBE _ _) hout
      (Nat.lt_add_of_pos_right (n := m.encodeAttributes.length) (k := 9) (by decide))
  -- where the fingerprint is, and what it says
  have hdrop := congrArg (List.drop m.encodeAttributes.length) hattributes
  rw [List.drop_drop, ← hq, List.drop_left' rfl, ← List.append_nil (tlv _ _)] at hdrop
  obtain ⟨-, hword, -, hvalue, -⟩ := head_tlv hdrop (by simp)
  rw [length_toBE] at hvalue
  have hunsigned : m.unsigned.length = q := by
    simp [Message.unsigned, hq, m.transactionId.length_eq]
    omega
  have hcovered : m.encode.take q = m.unsigned := List.take_left' hunsigned
  obtain ⟨-, -, hsum⟩ := haccepted.checked q
    (by rwa [hbody', verifyFingerprint, headerLen, ← hlength])
    ((wordAt_set (by omega)).trans hword)
  refine absurd (Option.some.inj ?_) hv
  rw [← List.getElem?_eq_getElem hlt]
  rcases hlast with hbefore | hafter
  · rw [List.drop_set_of_lt (by omega), hvalue, ofBE_toBE (UInt32.toNat_lt _), UInt32.ofNat_toNat,
      UInt32.xor_left_inj, List.take_set, hcovered] at hsum
    rw [← List.getElem?_take_of_lt hbefore, hcovered, ← crc32_set hsum.symm]
    exact List.getElem?_set_self (by omega)
  · rw [List.drop_set, if_neg (by omega), List.take_set, List.take_set, hcovered,
      List.set_eq_of_length_le (l := m.unsigned) (by omega)] at hsum
    have hvalue' := congrArg (fun l => UInt32.ofNat (ofBE l)) hvalue
    rw [ofBE_toBE (UInt32.toNat_lt _), UInt32.ofNat_toNat] at hvalue'
    have hsame := readU32_inj (by simp; omega) (by simp; omega) (hsum.trans hvalue'.symm)
    have hat : m.encode[p]? = ((m.encode.drop (q + 4)).take 4)[p - (q + 4)]? := by
      rw [List.getElem?_take_of_lt (by omega), List.getElem?_drop]
      congr 1
      omega
    rw [hat, ← hsame]
    exact List.getElem?_set_self (by simp; omega)

/-- **Corruption is detected.**  The checksums of two texts that differ in one byte differ.  A
    message that fits into the length field, with one byte of its encoding changed anywhere
    but in the length and in the headers of the attributes, is refused. -/
theorem corruption_detected (lossy : List UInt8 → String) :
    (∀ (before after : List UInt8) (a b : UInt8), a ≠ b →
      crc32 (before ++ a :: after) ≠ crc32 (before ++ b :: after)) ∧
    ∀ (m : Message) (p : Nat) (v : UInt8) (hlt : p < m.encode.length),
      m.encodeAttributes.length + fingerprintLen < 65536 → m.Unmarked p → m.encode[p] ≠ v →
      ∃ reason, decode lossy (m.encode.set p v) = fail reason :=
  ⟨fun _ _ _ _ hne h => hne (crc32_cons_inj h), fun _ _ _ hlt hsize hp hv =>
    decode_set hp hsize hlt hv⟩

/-- A request without attributes, with another transaction identifier. -/
theorem corruption_detected_request : ∃ reason, decode (fun _ => "")
    ((Message.encode ⟨.binding, .request, Bytes.fill 12 7, []⟩).set 8 9) = fail reason := by
  refine (corruption_detected _).2 _ 8 9 (by decide +kernel) (by decide) ⟨by decide, by decide, ?_⟩
    (by decide +kernel)
  intro before hbefore
  rw [List.prefix_nil.mp hbefore]
  decide

end P2pFile.Stun
