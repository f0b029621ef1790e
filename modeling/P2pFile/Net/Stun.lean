/-
  P2pFile.Net.Stun

  STUN messages (`src/nat/stun.rs`): the encoder, and the decoder with its two walks
  over the attributes.

  Every index and every slice of the decoder is an `array`, which panics outside of its
  input, and the two loops have fuel; that neither gives out is a theorem.  A walk also
  returns the positions of the headers it reads, as history: the two walks are written
  separately, and what the decoder promises about fingerprints rests on their reading
  the same headers.  `String::from_utf8_lossy` is a parameter.
-/

import P2pFile.Identity
import P2pFile.Lib.Endian
import P2pFile.Net.Family

namespace P2pFile.Stun

open Lib

/-! ## Messages -/

def magicCookie : UInt32 := 0x2112A442
def headerLen : Nat := 20
def methodBinding : UInt16 := 0x0001
def attrMappedAddress : UInt16 := 0x0001
def attrChangeRequest : UInt16 := 0x0003
def attrXorMappedAddress : UInt16 := 0x0020
def attrSoftware : UInt16 := 0x8022
def attrFingerprint : UInt16 := 0x8028
def attrResponseOrigin : UInt16 := 0x802b
def attrOtherAddress : UInt16 := 0x802c
def fingerprintXor : UInt32 := 0x5354554E
def fingerprintLen : Nat := 8
def familyIpv4 : UInt8 := 0x01
def familyIpv6 : UInt8 := 0x02

inductive MessageClass where
  | request
  | indication
  | successResponse
  | errorResponse
  deriving DecidableEq

def MessageClass.code : MessageClass → UInt16
  | .request => 0b00
  | .indication => 0b01
  | .successResponse => 0b10
  | .errorResponse => 0b11

def MessageClass.fromCode (code : UInt16) : MessageClass :=
  if code &&& 0b11 = 0b00 then .request
  else if code &&& 0b11 = 0b01 then .indication
  else if code &&& 0b11 = 0b10 then .successResponse
  else .errorResponse

inductive Method where
  | binding
  deriving DecidableEq

inductive Attribute where
  | mappedAddress (addr : SocketAddr)
  | changeRequest (changeIp changePort : Bool)
  | xorMappedAddress (addr : SocketAddr)
  | responseOrigin (addr : SocketAddr)
  | otherAddress (addr : SocketAddr)
  | software (text : String)
  | unknown (kind : UInt16) (value : List UInt8)
  deriving DecidableEq

structure Message where
  method : Method
  messageClass : MessageClass
  transactionId : Bytes 12
  attributes : List Attribute
  deriving DecidableEq

/-! ## Encoding -/

/-- One bit of the checksum. -/
def crcBit (crc : UInt32) : UInt32 := (crc >>> 1) ^^^ (0xEDB88320 &&& (0 - (crc &&& 1)))

def crc32 (data : List UInt8) : UInt32 :=
  ~~~ data.foldl (fun crc byte => (List.range 8).foldl (fun crc _ => crcBit crc)
    (crc ^^^ byte.toUInt32)) 0xFFFFFFFF

/-- A length with its padding. -/
def padded (len : Nat) : Nat := len + (4 - len % 4) % 4

/-- An attribute: type, length, value, and what `push_padding` appends. -/
def tlv (kind : UInt16) (value : List UInt8) : List UInt8 :=
  toBE 2 kind.toNat ++ toBE 2 value.length ++ value ++ List.replicate ((4 - value.length % 4) % 4) 0

/-- The XOR mask: the cookie, then the transaction identifier for IPv6 alone. -/
def mask (tail : Bytes 12) : List UInt8 := u32be magicCookie ++ tail.toList

/-- The octets, with the mask if `xor` is set. -/
def maskOctets {n : Nat} (xor : Bool) (tail : Bytes 12) (octets : Bytes n) (h : n ≤ 16) : Bytes n :=
  if xor then ⟨List.zipWith (· ^^^ ·) octets.toList (mask tail), by
    rw [List.length_zipWith, octets.length_eq]
    simp [mask, u32be, tail.length_eq, h]⟩
  else octets

def maskPort (xor : Bool) (port : UInt16) : UInt16 :=
  if xor then port ^^^ (magicCookie >>> 16).toUInt16 else port

variable (transactionId : Bytes 12)

/-- The value of `encode_address_attribute`. -/
def encodeAddress (xor : Bool) (addr : SocketAddr) : List UInt8 :=
  match addr.ip with
  | .v4 octets => 0 :: familyIpv4 :: toBE 2 (maskPort xor addr.port).toNat ++
      (maskOctets xor (Bytes.fill 12 0) octets (by decide)).toList
  | .v6 octets => 0 :: familyIpv6 :: toBE 2 (maskPort xor addr.port).toNat ++
      (maskOctets xor transactionId octets (by decide)).toList

/-- The type code of an attribute. -/
def Attribute.kind : Attribute → UInt16
  | .mappedAddress _ => attrMappedAddress
  | .changeRequest .. => attrChangeRequest
  | .xorMappedAddress _ => attrXorMappedAddress
  | .responseOrigin _ => attrResponseOrigin
  | .otherAddress _ => attrOtherAddress
  | .software _ => attrSoftware
  | .unknown kind _ => kind

/-- The value that `encode_attribute` writes. -/
def Attribute.payload : Attribute → List UInt8
  | .mappedAddress addr => encodeAddress transactionId false addr
  | .changeRequest changeIp changePort =>
    toBE 4 ((if changeIp then 0x04 else 0) ||| (if changePort then 0x02 else 0))
  | .xorMappedAddress addr => encodeAddress transactionId true addr
  | .responseOrigin addr => encodeAddress transactionId false addr
  | .otherAddress addr => encodeAddress transactionId false addr
  | .software text => text.toUTF8.data.toList
  | .unknown _ value => value

/-- `encode_attribute`.  Only an unknown attribute can have the type of a fingerprint; the
    encoder writes that one itself. -/
def encodeAttribute (a : Attribute) : List UInt8 :=
  if a.kind = attrFingerprint then [] else tlv a.kind (a.payload transactionId)

def Method.code : Method → UInt16
  | .binding => methodBinding

/-- The bits of method and class are interleaved. -/
def messageType (method messageClass : UInt16) : UInt16 :=
  (method &&& 0x000F : UInt16) ||| ((method &&& 0x0070) <<< 1 : UInt16) |||
    ((method &&& 0x0F80) <<< 2 : UInt16) ||| ((messageClass &&& 0x0002) <<< 7 : UInt16) |||
    ((messageClass &&& 0x0001) <<< 4 : UInt16)

def methodOf (messageType : UInt16) : UInt16 :=
  (messageType &&& 0x000F : UInt16) ||| ((messageType &&& 0x00E0) >>> 1 : UInt16) |||
    ((messageType &&& 0x3E00) >>> 2 : UInt16)

def classOf (messageType : UInt16) : UInt16 :=
  (messageType >>> 7 &&& 0x2 : UInt16) ||| (messageType >>> 4 &&& 0x1 : UInt16)

variable (m : Message)

def Message.encodeAttributes : List UInt8 := m.attributes.flatMap (encodeAttribute m.transactionId)

/-- The message up to its fingerprint. -/
def Message.unsigned : List UInt8 :=
  toBE 2 (messageType m.method.code m.messageClass.code).toNat ++
    toBE 2 (m.encodeAttributes.length + fingerprintLen) ++
    toBE 4 magicCookie.toNat ++ m.transactionId.toList ++ m.encodeAttributes

/-- `Message::encode`. -/
def Message.encode : List UInt8 :=
  m.unsigned ++ tlv attrFingerprint (toBE 4 (crc32 m.unsigned ^^^ fingerprintXor).toNat)

/-! ## Decoding -/

inductive Fault where
  | panic
  | diverged
  | failed (err : Error)

abbrev Read := Except Fault

def fail {α : Type} (reason : String) : Read α := .error (.failed (.stun reason))

variable (bytes : List UInt8)

/-- `bytes[i..i + n]`. -/
def array (i n : Nat) : Read (Bytes n) :=
  if h : i + n ≤ bytes.length then .ok ⟨(bytes.drop i).take n, by simp; omega⟩
  else .error .panic

def readU16 (i : Nat) : Read UInt16 := do
  let raw ← array bytes i 2
  return UInt16.ofNat (ofBE raw.toList)

def readU32 (i : Nat) : Read UInt32 := do
  let raw ← array bytes i 4
  return UInt32.ofNat (ofBE raw.toList)

def checkFingerprint (stop cursor len : Nat) : Read Unit :=
  if len ≠ 4 then fail ("FINGERPRINT 长度应为 4，实际 " ++ toString len)
  else if cursor + fingerprintLen ≠ stop then fail "FINGERPRINT 必须是最后一个属性"
  else do
    let value ← readU32 bytes (cursor + 4)
    let covered ← array bytes 0 cursor
    let expected := crc32 covered.toList ^^^ fingerprintXor
    if value ≠ expected then
      fail ("FINGERPRINT 校验失败：报文声称 0x" ++ hexEncode (toBE 4 value.toNat) ++
        "，实算 0x" ++ hexEncode (toBE 4 expected.toNat))
    else .ok ()

/-- The loop of `verify_fingerprint`, with the headers it reads. -/
def verifyFrom (bytes : List UInt8) (stop : Nat) : (fuel cursor : Nat) → List Nat × Read Unit
  | 0, _ => ([], .error .diverged)
  | fuel + 1, cursor =>
    if cursor + 4 ≤ stop then
      match readU16 bytes cursor, readU16 bytes (cursor + 2) with
      | .ok kind, .ok len =>
        if kind = attrFingerprint then
          ([cursor], checkFingerprint bytes stop cursor len.toNat)
        else
          let (heads, result) := verifyFrom bytes stop fuel (cursor + (4 + padded len.toNat))
          (cursor :: heads, result)
      | .error fault, _ => ([], .error fault)
      | _, .error fault => ([], .error fault)
    else ([], .ok ())

/-- `decode_address`. -/
def decodeAddress (xor : Bool) (value : List UInt8) : Read SocketAddr :=
  if value.length < 4 then fail "地址属性短于 4 字节"
  else do
    let family ← array value 1 1
    let rawPort ← readU16 value 2
    let port := maskPort xor rawPort
    let body := value.drop 4
    if family.toList = [familyIpv4] then
      if body.length < 4 then fail "IPv4 地址不足 4 字节"
      else
        let octets ← array body 0 4
        return .v4 (maskOctets xor (Bytes.fill 12 0) octets (by decide)) port
    else if family.toList = [familyIpv6] then
      if body.length < 16 then fail "IPv6 地址不足 16 字节"
      else
        let octets ← array body 0 16
        return .v6 (maskOctets xor transactionId octets (by decide)) port 0 0
    else fail ("未知地址族 " ++ toString (ofBE family.toList))

/-- The kinds that carry an address. -/
def IsAddress (kind : UInt16) : Prop :=
  kind = attrMappedAddress ∨ kind = attrXorMappedAddress ∨ kind = attrResponseOrigin ∨
    kind = attrOtherAddress

instance (kind : UInt16) : Decidable (IsAddress kind) := inferInstanceAs (Decidable (_ ∨ _ ∨ _ ∨ _))

def addressAttribute (kind : UInt16) (addr : SocketAddr) : Attribute :=
  if kind = attrMappedAddress then .mappedAddress addr
  else if kind = attrXorMappedAddress then .xorMappedAddress addr
  else if kind = attrResponseOrigin then .responseOrigin addr
  else .otherAddress addr

section Decoding

variable (lossy : List UInt8 → String) (transactionId : Bytes 12)

/-- `decode_attribute`. -/
def decodeAttribute (kind : UInt16) (value : List UInt8) : Read Attribute :=
  if IsAddress kind then
    addressAttribute kind <$> decodeAddress transactionId (kind == attrXorMappedAddress) value
  else if kind = attrSoftware then .ok (.software (lossy value))
  else if kind = attrChangeRequest then
    if value.length ≠ 4 then fail ("CHANGE-REQUEST 长度应为 4，实际 " ++ toString value.length)
    else .ok (.changeRequest (ofBE value &&& 0x04 != 0) (ofBE value &&& 0x02 != 0))
  else .ok (.unknown kind value)

/-- What an attribute adds to the list.  The fingerprint has been checked already. -/
def pushed (kind : UInt16) (value : List UInt8) : Read (List Attribute) :=
  if kind = attrFingerprint then .ok []
  else (fun a => [a]) <$> decodeAttribute lossy transactionId kind value

/-- The loop of `decode_attributes`, with the headers it reads. -/
def attributesFrom (body : List UInt8) : (fuel cursor : Nat) → List Nat × Read (List Attribute)
  | 0, _ => ([], .error .diverged)
  | fuel + 1, cursor =>
    if cursor < body.length then
      if cursor + 4 > body.length then ([], fail "属性头被截断")
      else
        match readU16 body cursor, readU16 body (cursor + 2) with
        | .ok kind, .ok len =>
          let next := cursor + (4 + padded len.toNat)
          if next > body.length then
            ([cursor], fail ("属性 0x" ++ hexEncode (toBE 2 kind.toNat) ++ " 声称 " ++
              toString len ++ " 字节，超出报文范围"))
          else
            match array body (cursor + 4) len.toNat >>= fun value =>
                pushed lossy transactionId kind value.toList with
            | .error fault => ([cursor], .error fault)
            | .ok attributes =>
              let (heads, result) := attributesFrom body fuel next
              (cursor :: heads, result.map (attributes ++ ·))
        | .error fault, _ => ([], .error fault)
        | _, .error fault => ([], .error fault)
    else ([], .ok [])

/-- `verify_fingerprint`. -/
def verifyFingerprint (bytes : List UInt8) (bodyLen : Nat) : List Nat × Read Unit :=
  verifyFrom bytes (headerLen + bodyLen) (bodyLen + 1) headerLen

/-- `decode_attributes`; the headers are counted from the start of the body. -/
def decodeAttributes (body : List UInt8) : List Nat × Read (List Attribute) :=
  attributesFrom lossy transactionId body (body.length + 1) 0

/-- `Message::decode`. -/
def decode (bytes : List UInt8) : Read Message :=
  if bytes.length < headerLen then
    fail ("报文只有 " ++ toString bytes.length ++ " 字节，短于 20 字节头部")
  else do
    let messageType ← readU16 bytes 0
    if messageType &&& 0xC000 ≠ 0 then fail "消息类型前两位应为 0"
    else
      let length ← readU16 bytes 2
      let length := length.toNat
      if length % 4 ≠ 0 then fail ("属性区长度 " ++ toString length ++ " 不是 4 的倍数")
      else if headerLen + length > bytes.length then
        fail ("声称有 " ++ toString length ++ " 字节属性，实际只剩 " ++
          toString (bytes.length - headerLen) ++ " 字节")
      else
        let cookie ← readU32 bytes 4
        if cookie ≠ magicCookie then
          fail ("magic cookie 应为 0x2112a442，实际 0x" ++ hexEncode (toBE 4 cookie.toNat))
        else
          (verifyFingerprint bytes length).2
          let transactionId ← array bytes 8 12
          if methodOf messageType ≠ methodBinding then
            fail ("不支持的方法 0x" ++ hexEncode (toBE 2 (methodOf messageType).toNat))
          else
            let body ← array bytes headerLen length
            let attributes ← (decodeAttributes lossy transactionId body.toList).2
            return ⟨.binding, .fromCode (classOf messageType), transactionId, attributes⟩

end Decoding

/-! ## Reading inside the input -/

section Reading

variable {lossy : List UInt8 → String} {id : Bytes 12} {bytes body value : List UInt8}
  {i m n stop cursor fuel length : Nat} {α β : Type} {P : α → Prop} {Q : β → Prop} {r : Read α}

/-- The two bytes at `i`. -/
def wordAt (bytes : List UInt8) (i : Nat) : UInt16 := UInt16.ofNat (ofBE ((bytes.drop i).take 2))

/-- The length field of the attribute at `i`. -/
def lenAt (bytes : List UInt8) (i : Nat) : Nat := (wordAt bytes (i + 2)).toNat

theorem length_take_drop (h : i + n ≤ bytes.length) : ((bytes.drop i).take n).length = n := by
  rw [List.length_take, List.length_drop]
  omega

theorem array_eq (h : i + n ≤ bytes.length) :
    array bytes i n = .ok ⟨(bytes.drop i).take n, length_take_drop h⟩ := dif_pos h

theorem readU16_eq (h : i + 2 ≤ bytes.length) : readU16 bytes i = .ok (wordAt bytes i) := by
  rw [readU16, array_eq h]
  rfl

theorem readU32_eq (h : i + 4 ≤ bytes.length) :
    readU32 bytes i = .ok (UInt32.ofNat (ofBE ((bytes.drop i).take 4))) := by
  rw [readU32, array_eq h]
  rfl

/-- `r` fails with an error of the codec, or its value satisfies `P`. -/
def Yields (r : Read α) (P : α → Prop) : Prop := (∃ reason, r = fail reason) ∨ ∃ a, r = .ok a ∧ P a

theorem Yields.fail {reason : String} : Yields (fail reason) P := .inl ⟨reason, rfl⟩

theorem Yields.ok {a : α} (h : P a) : Yields (.ok a) P := .inr ⟨a, rfl, h⟩

theorem Yields.map {f : α → β} (h : Yields r P) (hf : ∀ a, P a → Q (f a)) : Yields (f <$> r) Q := by
  obtain ⟨reason, rfl⟩ | ⟨a, rfl, ha⟩ := h
  · exact .fail
  · exact .ok (hf a ha)

theorem Yields.imp {P' : α → Prop} (h : Yields r P) (hp : ∀ a, P a → P' a) : Yields r P' :=
  h.imp_right fun ⟨a, heq, ha⟩ => ⟨a, heq, hp a ha⟩

theorem Yields.of_ok (h : Yields r P) {a : α} (hr : r = .ok a) : P a := by
  obtain ⟨reason, heq⟩ | ⟨b, heq, hb⟩ := h
  · cases heq.symm.trans hr
  · cases heq.symm.trans hr
    exact hb

/-! ## Attributes -/

/-- What is used of `String::from_utf8_lossy`: it gives a text back, and a replacement
    character takes three bytes for at least one. -/
structure Lossy (lossy : List UInt8 → String) : Prop where
  text : ∀ text : String, lossy text.toUTF8.data.toList = text
  length : ∀ bytes, (lossy bytes).toUTF8.data.toList.length ≤ 3 * bytes.length

/-- No IPv6 flow info and no scope. -/
def PlainAddr : SocketAddr → Prop
  | .v4 .. => True
  | .v6 _ _ flowinfo scopeId => flowinfo = 0 ∧ scopeId = 0

/-- The type codes of the codec. -/
abbrev Known (kind : UInt16) : Prop :=
  IsAddress kind ∨ kind = attrSoftware ∨ kind = attrChangeRequest ∨ kind = attrFingerprint

/-- An attribute that its encoding determines. -/
def Attribute.Plain : Attribute → Prop
  | .mappedAddress addr => PlainAddr addr
  | .xorMappedAddress addr => PlainAddr addr
  | .responseOrigin addr => PlainAddr addr
  | .otherAddress addr => PlainAddr addr
  | .unknown kind _ => ¬ Known kind
  | _ => True

theorem kind_ne {a : Attribute} (h : a.Plain) : a.kind ≠ attrFingerprint := by
  cases a with
  | unknown kind value => exact fun heq => h (.inr (.inr (.inr heq)))
  | _ => exact ne_of_beq_false rfl

theorem encodeAttribute_eq {a : Attribute} (h : a.Plain) :
    encodeAttribute id a = tlv a.kind (a.payload id) := if_neg (kind_ne h)

variable {kind : UInt16}

theorem length_tlv : (tlv kind value).length = 4 + padded value.length := by
  simp [tlv, padded]
  omega

theorem length_address {n : Nat} (family : UInt8) (port : UInt16) (octets : Bytes n) :
    (0 :: family :: toBE 2 port.toNat ++ octets.toList).length = 4 + n := by
  simp [octets.length_eq]
  omega

theorem decodeAddress_yields (xor : Bool) : Yields (decodeAddress id xor value) fun addr =>
    PlainAddr addr ∧ (encodeAddress id xor addr).length ≤ value.length := by
  unfold decodeAddress
  split
  · exact .fail
  rename_i hlong
  rw [array_eq (by omega), readU16_eq (by omega)]
  dsimp only [bind, Except.bind]
  split
  · split
    · exact .fail
    rename_i hbody
    rw [array_eq (by omega)]
    rw [List.length_drop] at hbody
    exact .ok ⟨trivial, Nat.le_trans (Nat.le_of_eq (length_address ..)) (by omega)⟩
  split
  · split
    · exact .fail
    rename_i hbody
    rw [array_eq (by omega)]
    rw [List.length_drop] at hbody
    exact .ok ⟨⟨rfl, rfl⟩, Nat.le_trans (Nat.le_of_eq (length_address ..)) (by omega)⟩
  · exact .fail

/-- Attributes that were read from `n` bytes. -/
structure Readable (lossy : List UInt8 → String) (id : Bytes 12) (n : Nat) (l : List Attribute) :
    Prop where
  plain : ∀ a ∈ l, a.Plain
  size : Lossy lossy → (l.flatMap (encodeAttribute id)).length ≤ 3 * n

theorem Readable.nil : Readable lossy id n [] := ⟨nofun, fun _ => Nat.zero_le _⟩

theorem Readable.append {l l' : List Attribute} (h : Readable lossy id m l)
    (h' : Readable lossy id n l') : Readable lossy id (m + n) (l ++ l') where
  plain a ha := (List.mem_append.mp ha).elim (h.plain a) (h'.plain a)
  size hlossy := by
    have hl := h.size hlossy
    have hl' := h'.size hlossy
    rw [List.flatMap_append, List.length_append]
    omega

theorem decodeAttribute_yields (hkind : kind ≠ attrFingerprint) :
    Yields (decodeAttribute lossy id kind value) fun a =>
      a.Plain ∧ (Lossy lossy → (a.payload id).length ≤ 3 * value.length) := by
  unfold decodeAttribute
  split
  next haddress =>
    refine (decodeAddress_yields _).map fun addr ⟨hplain, hle⟩ => ?_
    have hsize := Nat.le_trans hle (Nat.le_mul_of_pos_left _ (by decide : 0 < 3))
    rcases haddress with rfl | rfl | rfl | rfl <;> exact ⟨hplain, fun _ => hsize⟩
  rename_i haddress
  split
  · exact .ok ⟨trivial, fun hlossy => hlossy.length value⟩
  rename_i hsoftware
  split
  · split
    · exact .fail
    rename_i hlen
    refine .ok ⟨trivial, fun _ => ?_⟩
    rw [Attribute.payload, length_toBE]
    omega
  next hchange =>
    refine .ok ⟨?_, fun _ => Nat.le_mul_of_pos_left _ (by decide)⟩
    rintro (hk | hk | hk | hk)
    exacts [haddress hk, hsoftware hk, hchange hk, hkind hk]

theorem pushed_yields :
    Yields (pushed lossy id kind value) (Readable lossy id (4 + padded value.length)) := by
  unfold pushed
  split
  · exact .ok .nil
  rename_i hkind
  refine (decodeAttribute_yields hkind).map fun a ⟨hplain, hsize⟩ => ⟨?_, fun hlossy => ?_⟩
  · exact List.forall_mem_singleton.mpr hplain
  · have hsize := hsize hlossy
    rw [List.flatMap_singleton, encodeAttribute_eq hplain, length_tlv]
    simp only [padded]
    omega

/-! ## One turn of each walk -/

theorem le_padded (len : Nat) : len ≤ padded len := Nat.le_add_right _ _

theorem verifyFrom_head (h : cursor + 4 ≤ stop) (hstop : stop ≤ bytes.length) :
    verifyFrom bytes stop (fuel + 1) cursor =
      if wordAt bytes cursor = attrFingerprint then
        ([cursor], checkFingerprint bytes stop cursor (lenAt bytes cursor))
      else
        (cursor :: (verifyFrom bytes stop fuel (cursor + (4 + padded (lenAt bytes cursor)))).1,
          (verifyFrom bytes stop fuel (cursor + (4 + padded (lenAt bytes cursor)))).2) := by
  rw [verifyFrom, if_pos h, readU16_eq (by omega), readU16_eq (by omega)]
  rfl

theorem verifyFrom_first (h : cursor + 4 ≤ stop) (hstop : stop ≤ bytes.length) :
    [cursor] <+: (verifyFrom bytes stop (fuel + 1) cursor).1 := by
  rw [verifyFrom_head h hstop]
  split <;> exact ⟨_, rfl⟩

/-- A turn without a header ends the walk. -/
theorem verifyFrom_end (h : stop < cursor + 4) :
    verifyFrom bytes stop (fuel + 1) cursor = ([], .ok ()) := by
  rw [verifyFrom, if_neg (by omega)]

theorem attributesFrom_long (h : cursor + 4 ≤ body.length)
    (hlong : body.length < cursor + (4 + padded (lenAt body cursor))) :
    ∃ reason, attributesFrom lossy id body (fuel + 1) cursor = ([cursor], fail reason) := by
  rw [attributesFrom, if_pos (by omega), if_neg (by omega), readU16_eq (by omega),
    readU16_eq (by omega)]
  exact ⟨_, if_pos hlong⟩

theorem attributesFrom_head (h : cursor + (4 + padded (lenAt body cursor)) ≤ body.length) :
    attributesFrom lossy id body (fuel + 1) cursor =
      match pushed lossy id (wordAt body cursor)
          ((body.drop (cursor + 4)).take (lenAt body cursor)) with
      | .error fault => ([cursor], .error fault)
      | .ok attributes =>
        let rest := attributesFrom lossy id body fuel (cursor + (4 + padded (lenAt body cursor)))
        (cursor :: rest.1, rest.2.map (attributes ++ ·)) := by
  have hlen := le_padded (lenAt body cursor)
  rw [attributesFrom, if_pos (by omega), if_neg (by omega), readU16_eq (by omega),
    readU16_eq (by omega)]
  dsimp only
  rw [← lenAt, if_neg (by omega), array_eq (by omega)]
  rfl

/-- What the fingerprint walk checks at `p`. -/
def Fingerprinted (bytes : List UInt8) (stop p : Nat) : Prop :=
  p + 8 = stop ∧ lenAt bytes p = 4 ∧
    UInt32.ofNat (ofBE ((bytes.drop (p + 4)).take 4)) = crc32 (bytes.take p) ^^^ fingerprintXor

theorem checkFingerprint_yields (hstop : stop ≤ bytes.length) :
    Yields (checkFingerprint bytes stop cursor (lenAt bytes cursor)) fun _ =>
      Fingerprinted bytes stop cursor := by
  unfold checkFingerprint
  split
  · exact .fail
  rename_i hlen
  split
  · exact .fail
  rename_i hlast
  rw [not_not] at hlen hlast
  rw [fingerprintLen] at hlast
  rw [readU32_eq (by omega), array_eq (by omega)]
  dsimp only [bind, Except.bind]
  split
  · exact .fail
  next hvalue =>
    exact .ok ⟨hlast, hlen, not_not.mp hvalue⟩

/-! ## Both walks -/

/-- The fingerprint walk ends, and it has checked every fingerprint it has read. -/
theorem verifyFrom_yields (hstop : stop ≤ bytes.length) (hfuel : stop ≤ cursor + fuel) :
    Yields (verifyFrom bytes stop (fuel + 1) cursor).2 fun _ =>
      ∀ p ∈ (verifyFrom bytes stop (fuel + 1) cursor).1, wordAt bytes p = attrFingerprint →
        Fingerprinted bytes stop p := by
  induction fuel generalizing cursor with
  | zero =>
    rw [verifyFrom_end (by omega)]
    exact .ok nofun
  | succ fuel ih =>
    by_cases hhead : cursor + 4 ≤ stop
    case neg =>
      rw [verifyFrom_end (by omega)]
      exact .ok nofun
    rw [verifyFrom_head hhead hstop]
    by_cases hkind : wordAt bytes cursor = attrFingerprint
    · rw [if_pos hkind]
      refine (checkFingerprint_yields hstop).imp fun _ hchecked p hp _ => ?_
      rw [List.mem_singleton.mp hp]
      exact hchecked
    · rw [if_neg hkind]
      refine (ih (by omega)).imp fun _ hchecked p hp hfp => ?_
      rcases List.mem_cons.mp hp with rfl | hp
      · exact absurd hfp hkind
      · exact hchecked p hp hfp

theorem wordAt_body (h : i + 2 ≤ length) :
    wordAt ((bytes.drop headerLen).take length) i = wordAt bytes (headerLen + i) := by
  rw [wordAt, List.drop_take, List.take_take, Nat.min_eq_left (by omega), List.drop_drop]
  rfl

/-- How the attribute walk over the last `n` bytes goes, given the headers of the
    fingerprint walk. -/
structure Follows (lossy : List UInt8 → String) (id : Bytes 12) (n : Nat) (heads : List Nat)
    (walk : List Nat × Read (List Attribute)) : Prop where
  reads : walk.1.map (headerLen + ·) <+: heads
  yields : Yields walk.2 fun attributes =>
    walk.1.map (headerLen + ·) = heads ∧ Readable lossy id n attributes

/-- Both walks go on. -/
theorem Follows.cons {heads : List Nat} {walk : List Nat × Read (List Attribute)}
    {attributes : List Attribute} (h : Follows lossy id n heads walk)
    (hnew : Readable lossy id m attributes) :
    Follows lossy id (m + n) ((headerLen + cursor) :: heads)
      (cursor :: walk.1, walk.2.map (attributes ++ ·)) where
  reads := (List.prefix_cons_inj _).mpr h.reads
  yields := h.yields.map fun _ ⟨hall, hrest⟩ =>
    ⟨congrArg ((headerLen + cursor) :: ·) hall, hnew.append hrest⟩

theorem attributesFrom_end (h : body.length < cursor + 4) :
    Follows lossy id n [] (attributesFrom lossy id body (fuel + 1) cursor) := by
  rw [attributesFrom]
  by_cases hmore : cursor < body.length
  · rw [if_pos hmore, if_pos (by omega)]
    exact ⟨List.prefix_rfl, .fail⟩
  · rw [if_neg hmore]
    exact ⟨List.prefix_rfl, .ok ⟨rfl, .nil⟩⟩

theorem attributesFrom_follows (hstop : headerLen + length ≤ bytes.length)
    (hbody : body = (bytes.drop headerLen).take length) (hfuel : length ≤ cursor + fuel)
    (h : (verifyFrom bytes (headerLen + length) (fuel + 1) (headerLen + cursor)).2 = .ok ()) :
    Follows lossy id (length - cursor)
      (verifyFrom bytes (headerLen + length) (fuel + 1) (headerLen + cursor)).1
      (attributesFrom lossy id body (fuel + 1) cursor) := by
  have hlength : body.length = length := by
    rw [hbody, List.length_take, List.length_drop]
    omega
  induction fuel generalizing cursor with
  | zero =>
    rw [verifyFrom_end (by omega)]
    exact attributesFrom_end (by omega)
  | succ fuel ih =>
    by_cases hhead : cursor + 4 ≤ length
    case neg =>
      rw [verifyFrom_end (by omega)]
      exact attributesFrom_end (by omega)
    have hkind : wordAt body cursor = wordAt bytes (headerLen + cursor) := by
      rw [hbody, wordAt_body (by omega)]
    have hlen : lenAt body cursor = lenAt bytes (headerLen + cursor) := by
      rw [lenAt, hbody, wordAt_body (by omega)]
      rfl
    have hfirst : [headerLen + cursor] <+: (verifyFrom bytes (headerLen + length) (fuel + 1 + 1)
        (headerLen + cursor)).1 := verifyFrom_first (by omega) hstop
    rw [verifyFrom_head (by omega) hstop, ← hkind, ← hlen] at h hfirst ⊢
    by_cases hfits : cursor + (4 + padded (lenAt body cursor)) ≤ length
    case neg =>
      have hlong : ∃ reason, attributesFrom lossy id body (fuel + 1 + 1) cursor =
          ([cursor], fail reason) := attributesFrom_long (by omega) (by omega)
      obtain ⟨reason, hlong⟩ := hlong
      rw [hlong]
      exact ⟨hfirst, .fail⟩
    have hvalue : ((body.drop (cursor + 4)).take (lenAt body cursor)).length =
        lenAt body cursor := by
      have hle := le_padded (lenAt body cursor)
      rw [List.length_take, List.length_drop]
      omega
    have hnew : Yields (pushed lossy id (wordAt body cursor)
        ((body.drop (cursor + 4)).take (lenAt body cursor))) _ := pushed_yields
    rw [hvalue] at hnew
    rw [attributesFrom_head (by omega)]
    obtain ⟨reason, hpushed⟩ | ⟨attributes, hpushed, hnew⟩ := hnew <;> rw [hpushed] <;> dsimp only
    · exact ⟨hfirst, .fail⟩
    rw [← Nat.add_sub_cancel' (show 4 + padded (lenAt body cursor) ≤ length - cursor by omega),
      Nat.sub_sub]
    split at h
    · -- A fingerprint ends the body, so the attribute walk has nothing left to read.
      rename_i hfp
      obtain ⟨hlast, hfour, -⟩ := (checkFingerprint_yields hstop).of_ok (hlen ▸ h)
      have hpos : padded (lenAt body cursor) = 4 := by
        rw [hlen, hfour]
        rfl
      rw [if_pos hfp]
      exact (attributesFrom_end (by omega)).cons hnew
    next hfp =>
      rw [if_neg hfp]
      rw [Nat.add_assoc headerLen] at h ⊢
      exact (ih (by omega) h).cons hnew

/-! ## The decoder -/

/-- The body of a message. -/
def bodyOf (bytes : List UInt8) (length : Nat) : List UInt8 := (bytes.drop headerLen).take length

theorem decodeAttributes_follows (hfits : headerLen + length ≤ bytes.length)
    (h : (verifyFingerprint bytes length).2 = .ok ()) :
    Follows lossy id length (verifyFingerprint bytes length).1
      (decodeAttributes lossy id (bodyOf bytes length)) := by
  have hlength : (bodyOf bytes length).length = length := by
    rw [bodyOf, List.length_take, List.length_drop]
    omega
  rw [decodeAttributes, hlength]
  have hwalk : (verifyFrom bytes (headerLen + length) (length + 1) (headerLen + 0)).2 = .ok () := h
  exact attributesFrom_follows hfits rfl (Nat.le_add_left _ _) hwalk

/-- What the decoder promises about an accepted message. -/
structure Accepted (lossy : List UInt8 → String) (bytes : List UInt8) (m : Message) : Prop where
  fits : headerLen + lenAt bytes 0 ≤ bytes.length
  /-- The attribute walk has read the headers of the fingerprint walk. -/
  agree : (decodeAttributes lossy m.transactionId (bodyOf bytes (lenAt bytes 0))).1.map
    (headerLen + ·) = (verifyFingerprint bytes (lenAt bytes 0)).1
  checked : ∀ p ∈ (verifyFingerprint bytes (lenAt bytes 0)).1,
    wordAt bytes p = attrFingerprint → Fingerprinted bytes (headerLen + lenAt bytes 0) p
  readable : Readable lossy m.transactionId (lenAt bytes 0) m.attributes

theorem decode_yields : Yields (decode lossy bytes) (Accepted lossy bytes) := by
  unfold decode
  split
  · exact .fail
  rename_i hheader
  rw [headerLen] at hheader
  rw [readU16_eq (by omega), readU16_eq (by omega), readU32_eq (by omega)]
  dsimp only [bind, Except.bind]
  split
  · exact .fail
  split
  · exact .fail
  split
  · exact .fail
  rename_i hfits
  rw [Nat.not_lt] at hfits
  split
  · exact .fail
  rw [← show lenAt bytes 0 = (wordAt bytes 2).toNat from rfl] at hfits ⊢
  have hverify : Yields (verifyFingerprint bytes (lenAt bytes 0)).2 _ :=
    verifyFrom_yields hfits (Nat.le_refl _)
  obtain ⟨reason, hverified⟩ | ⟨_, hverified, hchecked⟩ := hverify <;> rw [hverified]
  · exact .fail
  rw [array_eq (by omega)]
  dsimp only
  split
  · exact .fail
  rw [array_eq hfits]
  dsimp only
  obtain ⟨reason, hfault⟩ | ⟨attributes, hattributes, hagree, hreadable⟩ :=
    (decodeAttributes_follows hfits hverified).yields
  · rw [← bodyOf, hfault]
    exact .fail
  · rw [← bodyOf, hattributes]
    exact .ok ⟨hfits, hagree, hchecked, hreadable⟩

end Reading

/-- **The two walks of the decoder.**  Decoding any bytes returns a message or an error of
    the codec: it ends and never reads outside.  After a successful fingerprint walk the
    attribute walk reads the same headers, up to where it fails, if it does.  In an accepted
    message it reads all of them, a fingerprint among them is the last attribute, has four
    bytes and holds the checksum of all bytes before it, and no attribute in the list is a
    fingerprint. -/
theorem stun_walks_agree (lossy : List UInt8 → String) (bytes : List UInt8) :
    ((∃ reason, decode lossy bytes = fail reason) ∨ ∃ m, decode lossy bytes = .ok m) ∧
    (∀ length id, headerLen + length ≤ bytes.length →
      (verifyFingerprint bytes length).2 = .ok () →
      (decodeAttributes lossy id (bodyOf bytes length)).1.map (headerLen + ·) <+:
        (verifyFingerprint bytes length).1) ∧
    ∀ m, decode lossy bytes = .ok m →
      (decodeAttributes lossy m.transactionId (bodyOf bytes (lenAt bytes 0))).1.map
          (headerLen + ·) = (verifyFingerprint bytes (lenAt bytes 0)).1 ∧
        (∀ p ∈ (verifyFingerprint bytes (lenAt bytes 0)).1, wordAt bytes p = attrFingerprint →
          Fingerprinted bytes (headerLen + lenAt bytes 0) p) ∧
        ∀ a ∈ m.attributes, a.kind ≠ attrFingerprint := by
  refine ⟨decode_yields.imp_right fun ⟨m, hm, _⟩ => ⟨m, hm⟩, ?_, ?_⟩
  · exact fun length id hfits hverified => (decodeAttributes_follows hfits hverified).reads
  · intro m hm
    have haccepted := decode_yields.of_ok hm
    exact ⟨haccepted.agree, haccepted.checked, fun a ha => kind_ne (haccepted.readable.plain a ha)⟩

/-- A Binding request, as it is sent. -/
def sampleRequest : Message := ⟨.binding, .request, Bytes.fill 12 7, [.unknown 0x9999 [1, 2, 3]]⟩

/-- The fingerprint of an encoded request is its second attribute. -/
theorem stun_walks_agree_request : wordAt sampleRequest.encode 28 = attrFingerprint ∧
    ∃ m, decode (fun _ => "") sampleRequest.encode = .ok m ∧ m.attributes ≠ [] ∧
      ∀ a ∈ m.attributes, a.kind ≠ attrFingerprint := by
  have hdecoded : (decode (fun _ => "") sampleRequest.encode).toOption.any
      (fun m => !m.attributes.isEmpty) = true := by
    decide +kernel
  refine ⟨by decide +kernel, ?_⟩
  cases hm : decode (fun _ => "") sampleRequest.encode with
  | error fault =>
    rw [hm] at hdecoded
    cases hdecoded
  | ok m =>
    rw [hm] at hdecoded
    refine ⟨m, rfl, ?_, ((stun_walks_agree (fun _ => "") sampleRequest.encode).2.2 m hm).2.2⟩
    rintro hnil
    simp [Except.toOption, hnil] at hdecoded

end P2pFile.Stun
