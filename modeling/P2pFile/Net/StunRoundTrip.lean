/-
  P2pFile.Net.StunRoundTrip

  Encoded STUN messages decode to themselves (`src/nat/stun.rs`), and what the decoder
  accepts can be encoded again.

  A message is read back attribute by attribute: `head_tlv` says what both walks read at
  one of them.
-/

import P2pFile.Net.Stun

namespace P2pFile.Stun

open Lib
open List (append_assoc append_nil drop_drop drop_left' flatMap_cons length_append length_drop
  take_left' zipWith)

variable {lossy : List UInt8 → String} {id : Bytes 12} {a : Attribute}
  {kind : UInt16} {value rest bytes body : List UInt8} {cursor fuel stop : Nat} {xor : Bool}

/-! ## One attribute -/

theorem ofNat_ofBE (x : UInt16) : UInt16.ofNat (ofBE (toBE 2 x.toNat)) = x := by
  rw [ofBE_toBE x.toNat_lt, UInt16.ofNat_toNat]

theorem maskPort_maskPort (port : UInt16) : maskPort xor (maskPort xor port) = port := by
  cases xor with
  | false => rfl
  | true => rw [maskPort, maskPort, if_pos rfl, if_pos rfl, UInt16.xor_assoc, UInt16.xor_self,
      UInt16.xor_zero]

theorem zipWith_xor_twice {l m : List UInt8} (h : l.length ≤ m.length) :
    zipWith (· ^^^ ·) (zipWith (· ^^^ ·) l m) m = l := by
  induction l generalizing m with
  | nil => rfl
  | cons b l ih =>
    cases m with
    | nil => cases h
    | cons c m =>
      rw [List.zipWith_cons_cons, List.zipWith_cons_cons, ih (Nat.le_of_succ_le_succ h),
        UInt8.xor_assoc, UInt8.xor_self, UInt8.xor_zero]

theorem maskOctets_maskOctets {n : Nat} (octets : Bytes n) (h : n ≤ 16) :
    maskOctets xor id (maskOctets xor id octets h) h = octets := by
  cases xor with
  | false => rfl
  | true =>
    refine Bytes.ext_toList (zipWith_xor_twice ?_)
    simp [mask, u32be, octets.length_eq, id.length_eq, h]

theorem array_self {n : Nat} (octets : Bytes n) : array octets.toList 0 n = .ok octets := by
  rw [array_eq (by rw [octets.length_eq]; omega)]
  exact congrArg _ (Bytes.ext_toList (List.take_of_length_le (Nat.le_of_eq octets.length_eq)))

/-- The fields of an address. -/
theorem address_fields {n : Nat} (family : UInt8) (port : UInt16) (octets : Bytes n)
    (hvalue : value = 0 :: family :: toBE 2 port.toNat ++ octets.toList) :
    value.length = 4 + n ∧ array value 1 1 = .ok ⟨[family], rfl⟩ ∧ readU16 value 2 = .ok port ∧
      value.drop 4 = octets.toList := by
  subst hvalue
  have hlength := length_address family port octets
  refine ⟨hlength, array_eq (by omega), ?_, drop_left' (by simp)⟩
  show Except.ok (UInt16.ofNat (ofBE ((toBE 2 port.toNat ++ octets.toList).take 2))) = _
  rw [take_left' (length_toBE _ _), ofNat_ofBE]

theorem decodeAddress_encodeAddress {addr : SocketAddr} (h : PlainAddr addr) :
    decodeAddress id xor (encodeAddress id xor addr) = .ok addr := by
  cases addr with
  | v4 ip port =>
    have hvalue : encodeAddress id xor (.v4 ip port) = 0 :: familyIpv4 ::
        toBE 2 (maskPort xor port).toNat ++ (maskOctets xor (Bytes.fill 12 0) ip _).toList := rfl
    obtain ⟨hlength, hfamily, hport, hdrop⟩ := address_fields _ _ _ hvalue
    rw [decodeAddress, if_neg (by omega), hfamily, hport, hdrop]
    dsimp only [bind, Except.bind]
    rw [if_pos rfl, Bytes.length_eq, if_neg (by omega), array_self, maskPort_maskPort]
    dsimp only
    rw [maskOctets_maskOctets]
    rfl
  | v6 ip port flowinfo scopeId =>
    obtain ⟨rfl, rfl⟩ := h
    have hvalue : encodeAddress id xor (.v6 ip port 0 0) = 0 :: familyIpv6 ::
        toBE 2 (maskPort xor port).toNat ++ (maskOctets xor id ip _).toList := rfl
    obtain ⟨hlength, hfamily, hport, hdrop⟩ := address_fields _ _ _ hvalue
    rw [decodeAddress, if_neg (by omega), hfamily, hport, hdrop]
    dsimp only [bind, Except.bind]
    rw [if_neg (by decide), if_pos rfl, Bytes.length_eq, if_neg (by omega), array_self,
      maskPort_maskPort]
    dsimp only
    rw [maskOctets_maskOctets]
    rfl

theorem decodeAttribute_payload (hlossy : Lossy lossy) (h : a.Plain) :
    decodeAttribute lossy id a.kind (a.payload id) = .ok a := by
  cases a with
  | changeRequest changeIp changePort =>
    rw [decodeAttribute, Attribute.kind, if_neg (by decide), if_neg (by decide), if_pos rfl]
    rw [Attribute.payload, if_neg (by simp), ofBE_toBE (by split <;> split <;> decide)]
    cases changeIp <;> cases changePort <;> rfl
  | software text =>
    exact congrArg (fun text => Except.ok (Attribute.software text)) (hlossy.text text)
  | unknown kind value =>
    rw [decodeAttribute, Attribute.kind, if_neg fun hk => h (.inl hk),
      if_neg fun hk => h (.inr (.inl hk)), if_neg fun hk => h (.inr (.inr (.inl hk)))]
    rfl
  | _ =>
    rw [decodeAttribute, Attribute.kind, if_pos (by decide)]
    exact congrArg _ (decodeAddress_encodeAddress h)

/-! ## The walks over an encoded body -/

/-- What both walks read at an attribute. -/
theorem head_tlv (h : body.drop cursor = tlv kind value ++ rest) (hlen : value.length < 65536) :
    cursor + (4 + padded value.length) ≤ body.length ∧ wordAt body cursor = kind ∧
      lenAt body cursor = value.length ∧ (body.drop (cursor + 4)).take value.length = value ∧
      body.drop (cursor + (4 + padded value.length)) = rest := by
  have hlength := congrArg List.length h
  rw [length_drop, length_append, length_tlv] at hlength
  have hfields : body.drop cursor = toBE 2 kind.toNat ++ (toBE 2 value.length ++ (value ++
      (List.replicate ((4 - value.length % 4) % 4) 0 ++ rest))) := by
    rw [h, tlv]
    simp only [append_assoc]
  refine ⟨by omega, ?_, ?_, ?_, ?_⟩
  · rw [wordAt, hfields, take_left' (length_toBE _ _), ofNat_ofBE]
  · rw [lenAt, wordAt, ← drop_drop, hfields, drop_left' (length_toBE _ _),
      take_left' (length_toBE _ _), ofBE_toBE hlen, UInt16.toNat_ofNat_of_lt' hlen]
  · rw [← drop_drop, hfields, show 4 = 2 + 2 from rfl, ← drop_drop,
      drop_left' (length_toBE _ _), drop_left' (length_toBE _ _), take_left' rfl]
  · rw [← drop_drop, h]
    exact drop_left' length_tlv

/-- An attribute that fits into a message. -/
def Fits (id : Bytes 12) (a : Attribute) : Prop := a.Plain ∧ (a.payload id).length < 65536

variable {attributes : List Attribute} {checksum : List UInt8}

theorem attributesFrom_encoded (hlossy : Lossy lossy) (hfits : ∀ a ∈ attributes, Fits id a)
    (hchecksum : checksum.length = 4) (hfuel : attributes.length + 1 < fuel)
    (h : body.drop cursor = attributes.flatMap (encodeAttribute id) ++
      tlv attrFingerprint checksum) :
    (attributesFrom lossy id body fuel cursor).2 = .ok attributes := by
  induction attributes generalizing cursor fuel with
  | nil =>
    obtain ⟨fuel, rfl⟩ : ∃ k, fuel = k + 1 + 1 := ⟨fuel - 2, by simp at hfuel; omega⟩
    rw [List.flatMap_nil, List.nil_append, ← append_nil (tlv _ _)] at h
    obtain ⟨hle, hkind, hlen, -, hrest⟩ := head_tlv h (by omega)
    rw [← hlen] at hle hrest
    rw [attributesFrom_head hle, hkind, pushed, if_pos rfl]
    have hend := List.drop_eq_nil_iff.mp hrest
    rw [attributesFrom, if_neg (by omega)]
    rfl
  | cons a rest ih =>
    obtain ⟨fuel, rfl⟩ : ∃ k, fuel = k + 1 := ⟨fuel - 1, by omega⟩
    obtain ⟨hplain, hsize⟩ := hfits a (.head _)
    rw [flatMap_cons, encodeAttribute_eq hplain, append_assoc] at h
    obtain ⟨hle, hkind, hlen, hvalue, hrest⟩ := head_tlv h hsize
    rw [← hlen] at hle hvalue hrest
    have hpushed : pushed lossy id a.kind (a.payload id) = .ok [a] := by
      rw [pushed, if_neg (kind_ne hplain), decodeAttribute_payload hlossy hplain]
      rfl
    have hih := ih (fun b hb => hfits b (.tail _ hb)) (by simp at hfuel; omega) hrest
    rw [attributesFrom_head hle, hkind, hvalue, hpushed]
    dsimp only
    rw [hih]
    rfl

theorem verifyFrom_encoded (hfits : ∀ a ∈ attributes, Fits id a) (hfuel : attributes.length < fuel)
    (h : bytes.drop cursor = attributes.flatMap (encodeAttribute id) ++ tlv attrFingerprint
        (toBE 4 (crc32 (bytes.take (bytes.length - 8)) ^^^ fingerprintXor).toNat)) :
    (verifyFrom bytes bytes.length fuel cursor).2 = .ok () := by
  induction attributes generalizing cursor fuel with
  | nil =>
    obtain ⟨fuel, rfl⟩ : ∃ k, fuel = k + 1 := ⟨fuel - 1, by omega⟩
    rw [List.flatMap_nil, List.nil_append, ← append_nil (tlv _ _)] at h
    have hlength := congrArg List.length h
    rw [append_nil, length_drop, length_tlv, length_toBE, show padded 4 = 4 from rfl] at hlength
    obtain ⟨hle, hkind, hlen, hvalue, -⟩ := head_tlv h (by simp)
    rw [length_toBE] at hlen hvalue
    rw [verifyFrom_head (by omega) (Nat.le_refl _), if_pos hkind, hlen]
    rw [checkFingerprint, if_neg (by omega), fingerprintLen, if_neg (by omega),
      readU32_eq (by omega), hvalue, ofBE_toBE (UInt32.toNat_lt _), UInt32.ofNat_toNat,
      array_eq (by omega)]
    have hcovered : bytes.length - 8 = cursor := by omega
    exact if_neg (not_not.mpr (by rw [hcovered]; rfl))
  | cons a rest ih =>
    obtain ⟨fuel, rfl⟩ : ∃ k, fuel = k + 1 := ⟨fuel - 1, by omega⟩
    obtain ⟨hplain, hsize⟩ := hfits a (.head _)
    rw [flatMap_cons, encodeAttribute_eq hplain, append_assoc] at h
    obtain ⟨hle, hkind, hlen, -, hrest⟩ := head_tlv h hsize
    rw [← hlen] at hrest
    rw [verifyFrom_head (by omega) (Nat.le_refl _), hkind, if_neg (kind_ne hplain)]
    exact ih (fun b hb => hfits b (.tail _ hb)) (by simp at hfuel; omega) hrest

/-! ## Messages -/

theorem length_encodeAttributes (h : ∀ a ∈ attributes, a.Plain) :
    (attributes.flatMap (encodeAttribute id)).length % 4 = 0 ∧
      attributes.length ≤ (attributes.flatMap (encodeAttribute id)).length := by
  induction attributes with
  | nil => exact ⟨rfl, Nat.le_refl _⟩
  | cons a rest ih =>
    have hrest := ih fun b hb => h b (.tail _ hb)
    rw [flatMap_cons, length_append, encodeAttribute_eq (h a (.head _)),
      length_tlv, padded, List.length_cons]
    omega

theorem length_payload_le (h : a.Plain) (ha : a ∈ attributes) : (a.payload id).length ≤
    (attributes.flatMap (encodeAttribute id)).length := by
  obtain ⟨before, after, rfl⟩ := List.append_of_mem ha
  have hpadded := le_padded (a.payload id).length
  rw [List.flatMap_append, flatMap_cons, length_append, length_append,
    encodeAttribute_eq h, length_tlv]
  omega

/-- The type field of a message with a class, and what the decoder makes of it. -/
theorem messageType_fields (messageClass : MessageClass) :
    messageType methodBinding messageClass.code &&& 0xC000 = 0 ∧
      methodOf (messageType methodBinding messageClass.code) = methodBinding ∧
      MessageClass.fromCode (classOf (messageType methodBinding messageClass.code)) =
        messageClass := by
  cases messageClass <;> decide

variable {m : Message}

/-- The input from each field of the header on. -/
theorem encode_fields (hsize : m.encodeAttributes.length + fingerprintLen < 65536) :
    m.encode.length = 20 + (m.encodeAttributes.length + fingerprintLen) ∧
      wordAt m.encode 0 = messageType methodBinding m.messageClass.code ∧
      lenAt m.encode 0 = m.encodeAttributes.length + fingerprintLen ∧
      (m.encode.drop 4).take 4 = toBE 4 magicCookie.toNat ∧
      (m.encode.drop 8).take 12 = m.transactionId.toList ∧
      m.encode.drop 20 = m.encodeAttributes ++ tlv attrFingerprint
        (toBE 4 (crc32 m.unsigned ^^^ fingerprintXor).toNat) := by
  have h0 : m.encode = toBE 2 (messageType methodBinding m.messageClass.code).toNat ++
      (toBE 2 (m.encodeAttributes.length + fingerprintLen) ++ (toBE 4 magicCookie.toNat ++
        (m.transactionId.toList ++ (m.encodeAttributes ++ tlv attrFingerprint
          (toBE 4 (crc32 m.unsigned ^^^ fingerprintXor).toNat))))) := by
    simp only [Message.encode, Message.unsigned, append_assoc]
    rfl
  have h2 := congrArg (List.drop 2) h0
  rw [drop_left' (length_toBE _ _)] at h2
  have h4 := congrArg (List.drop 2) h2
  rw [drop_left' (length_toBE _ _), drop_drop] at h4
  have h8 := congrArg (List.drop 4) h4
  rw [drop_left' (length_toBE _ _), drop_drop] at h8
  have h20 := congrArg (List.drop 12) h8
  rw [drop_left' m.transactionId.length_eq, drop_drop] at h20
  refine ⟨?_, ?_, ?_, ?_, ?_, h20⟩
  · have hlength := congrArg List.length h0
    simp only [length_append, length_toBE, length_tlv, Bytes.length_eq] at hlength
    have hpadded : padded 4 = 4 := rfl
    rw [fingerprintLen]
    omega
  · rw [wordAt, List.drop_zero, h0, take_left' (length_toBE _ _), ofNat_ofBE]
  · rw [lenAt, wordAt, h2, take_left' (length_toBE _ _), ofBE_toBE hsize,
      UInt16.toNat_ofNat_of_lt' hsize]
  · rw [h4, take_left' (length_toBE _ _)]
  · rw [h8, take_left' m.transactionId.length_eq]

theorem decode_encode (hlossy : Lossy lossy) (hplain : ∀ a ∈ m.attributes, a.Plain)
    (hsize : m.encodeAttributes.length + fingerprintLen < 65536) :
    decode lossy m.encode = .ok m := by
  have hfits : ∀ a ∈ m.attributes, Fits m.transactionId a := by
    intro a ha
    have hle : (a.payload m.transactionId).length ≤ m.encodeAttributes.length :=
      length_payload_le (hplain a ha) ha
    exact ⟨hplain a ha, by omega⟩
  have hcount : m.encodeAttributes.length % 4 = 0 ∧
      m.attributes.length ≤ m.encodeAttributes.length := length_encodeAttributes hplain
  obtain ⟨hlength, htype, hlen, hcookie, hid, hbody⟩ := encode_fields hsize
  obtain ⟨hbits, hmethod, hclass⟩ := messageType_fields m.messageClass
  rw [fingerprintLen] at hlength hlen
  have hverified : (verifyFingerprint m.encode (lenAt m.encode 0)).2 = .ok () := by
    have hcovered : m.encode.take (m.encode.length - 8) = m.unsigned := by
      refine take_left' ?_
      have htotal : m.encode.length = m.unsigned.length + (4 + padded 4) := by
        rw [Message.encode, length_append, length_tlv, length_toBE]
      rw [show padded 4 = 4 from rfl] at htotal
      omega
    have hwalk : (verifyFrom m.encode m.encode.length (lenAt m.encode 0 + 1) 20).2 = .ok () :=
      verifyFrom_encoded hfits (by omega) (by rw [hcovered]; exact hbody)
    rw [verifyFingerprint, headerLen, hlen, ← hlength, ← hlen]
    exact hwalk
  have hattributes : (decodeAttributes lossy m.transactionId
      ((m.encode.drop 20).take (lenAt m.encode 0))).2 = .ok m.attributes := by
    rw [List.take_of_length_le (by rw [length_drop]; omega)]
    refine attributesFrom_encoded hlossy hfits (length_toBE _ _) ?_ hbody
    rw [length_drop]
    omega
  rw [decode, if_neg (by rw [headerLen]; omega), readU16_eq (by omega), htype]
  dsimp only [bind, Except.bind]
  rw [if_neg (not_not.mpr hbits), readU16_eq (by omega)]
  dsimp only
  rw [← show lenAt m.encode 0 = (wordAt m.encode 2).toNat from rfl, if_neg (by omega),
    if_neg (by rw [headerLen]; omega), readU32_eq (by omega), hcookie,
    ofBE_toBE (UInt32.toNat_lt _), UInt32.ofNat_toNat]
  dsimp only
  rw [if_neg (not_not.mpr rfl), hverified, array_eq (by omega)]
  dsimp only
  rw [if_neg (not_not.mpr hmethod), array_eq (by rw [headerLen]; omega)]
  dsimp only
  have hid : (⟨(m.encode.drop 8).take 12, by simp; omega⟩ : Bytes 12) = m.transactionId :=
    Bytes.ext_toList hid
  rw [hid, headerLen, hattributes, hclass]
  obtain ⟨method, messageClass, id, attributes⟩ := m
  cases method
  rfl

/-- **STUN messages round-trip.**  A message whose attributes and fingerprint fit into the
    length field, without IPv6 flow info or scope and without an unknown attribute of a
    known kind, decodes to itself; so does what the decoder makes of a datagram of up to
    1500 bytes. -/
theorem stun_round_trip (hlossy : Lossy lossy) : (∀ m : Message, (∀ a ∈ m.attributes, a.Plain) →
      m.encodeAttributes.length + fingerprintLen < 65536 → decode lossy m.encode = .ok m) ∧
    ∀ bytes m, bytes.length ≤ 1500 → decode lossy bytes = .ok m →
      decode lossy m.encode = .ok m := by
  refine ⟨fun m hplain hsize => decode_encode hlossy hplain hsize, ?_⟩
  intro bytes m hshort hm
  have haccepted := decode_yields.of_ok hm
  have hfits := haccepted.fits
  have hle : m.encodeAttributes.length ≤ _ := haccepted.readable.size hlossy
  refine decode_encode hlossy haccepted.readable.plain ?_
  rw [fingerprintLen]
  omega

/-- A decoder of UTF-8 that gives up on bytes that are not. -/
def strictUtf8 (bytes : List UInt8) : String :=
  if h : (⟨bytes.toArray⟩ : ByteArray).IsValidUTF8 then .fromUTF8 _ h else ""

theorem strictUtf8_lossy : Lossy strictUtf8 where
  text text := dif_pos text.isValidUTF8
  length bytes := by
    unfold strictUtf8
    split
    · exact Nat.le_mul_of_pos_left _ (by decide)
    · exact Nat.zero_le _

/-- A response with one attribute of each family. -/
def sampleResponse : Message :=
  ⟨.binding, .successResponse, Bytes.fill 12 0x44,
    [.xorMappedAddress (.v6 (Bytes.fill 16 0x20) 60000 0 0),
      .otherAddress (.v4 (Bytes.fill 4 9) 3479), .software "p2p_file/0.1",
      .unknown 0x9999 [1, 2, 3, 4, 5]]⟩

theorem stun_round_trip_response :
    decode strictUtf8 sampleResponse.encode = .ok sampleResponse := by
  refine (stun_round_trip strictUtf8_lossy).1 sampleResponse ?_ (by decide +kernel)
  intro a ha
  simp only [sampleResponse, List.mem_cons, List.not_mem_nil, or_false] at ha
  rcases ha with rfl | rfl | rfl | rfl
  exacts [⟨rfl, rfl⟩, trivial, trivial, show ¬ Known 0x9999 by decide]

end P2pFile.Stun
