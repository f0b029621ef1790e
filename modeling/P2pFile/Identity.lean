/-
  P2pFile.Identity

  Errors and node identities (`src/error.rs`, `src/identity.rs`).

  A `VerifyingKey` keeps the 32 bytes it was parsed from, so it is modelled by
  those bytes.  What ed25519-dalek and blake3 compute and how postcard and
  serde_json write is not part of the repository: the structure `Crypto` holds the
  functions the program calls, and the model is generic in it.
-/

import P2pFile.Lib.Bytes
import P2pFile.Lib.JsonValue
import P2pFile.Lib.Postcard

namespace P2pFile

open Lib

/-! ## Errors -/

/-- `std::io::ErrorKind`, as far as the program tells them apart. -/
inductive IoErrorKind where
  | notFound
  | alreadyExists
  | unexpectedEof
  | other
  deriving DecidableEq, Repr

/-- `crate::Error`, without the variants no modelled function returns. -/
inductive Error where
  | io (kind : IoErrorKind) (text : String)
  | encode (reason : String)
  | stun (reason : String)
  | protocol (reason : String)
  | identity (reason : String)
  | discovery (reason : String)
  | transport (reason : String)
  deriving DecidableEq, Repr

/-- The `Display` text of an error. -/
def Error.display : Error → String
  | .io _ text => "I/O 错误: " ++ text
  | .encode reason => "序列化错误: " ++ reason
  | .stun reason => "STUN 协议错误: " ++ reason
  | .protocol reason => "协议错误: " ++ reason
  | .identity reason => "身份错误: " ++ reason
  | .discovery reason => "发现错误: " ++ reason
  | .transport reason => "传输错误: " ++ reason

/-- A sequence of two fallible steps succeeds if both do. -/
theorem bind_eq_ok {ε α β : Type} {x : Except ε α} {f : α → Except ε β} {b : β} :
    (x >>= f) = .ok b ↔ ∃ a, x = .ok a ∧ f a = .ok b := by
  cases x with
  | error err => simp [bind, Except.bind]
  | ok a => simp [bind, Except.bind]

/-! ## Identities -/

/-- `NodeId`: the first 16 bytes of the key's digest. -/
abbrev NodeId := Bytes 16

/-- `VerifyingKey`, by its compressed bytes. -/
abbrev VerifyingKey := Bytes 32

/-- The third-party primitives the program calls.  A failing call carries the
    text of the library's error. -/
structure Crypto where
  /-- `VerifyingKey::from_bytes`. -/
  parseKey : Bytes 32 → Except String Unit
  /-- `VerifyingKey::is_weak`. -/
  isWeak : VerifyingKey → Bool
  /-- `blake3::hash`. -/
  hash : List UInt8 → Bytes 32
  /-- `Verifier::verify`. -/
  verify : VerifyingKey → List UInt8 → Bytes 64 → Except String Unit
  /-- `VerifyingKey::verify_strict`. -/
  verifyStrict : VerifyingKey → List UInt8 → Bytes 64 → Except String Unit
  /-- The error of `Signature::from_slice` on a slice that is not 64 bytes long. -/
  sliceError : String
  /-- `postcard::to_allocvec`. -/
  postcard : Postcard
  /-- `serde_json::to_vec`, of whose texts only the sizes matter. -/
  json : Json.Writer

/-- An instance for concrete runs: keys are their own digests, and one fixed
    signature verifies. -/
def Crypto.sample : Crypto where
  parseKey _ := .ok ()
  isWeak _ := false
  hash l := ⟨(l ++ List.replicate 32 0).take 32, by simp⟩
  verify _ _ sig := if sig = Bytes.fill 64 7 then .ok () else .error "bad signature"
  verifyStrict _ _ sig := if sig = Bytes.fill 64 7 then .ok () else .error "bad signature"
  sliceError := "bad length"
  postcard := .wire
  json := .compact

variable (c : Crypto)

/-- `NodeId::from_public_key`. -/
def NodeId.fromPublicKey (key : VerifyingKey) : NodeId := (c.hash key.toList).truncate 16 (by omega)

/-- `hex::encode`. -/
def hexEncode (bytes : List UInt8) : String :=
  String.ofList (bytes.flatMap fun b =>
    [Nat.digitChar (b.toNat / 16), Nat.digitChar (b.toNat % 16)])

/-- `NodeId::short`: the first eight hex digits. -/
def NodeId.short (id : NodeId) : String := hexEncode (id.toList.take 4)

/-- `public_key_from_bytes`. -/
def publicKeyFromBytes (bytes : Bytes 32) : Except Error VerifyingKey :=
  match c.parseKey bytes with
  | .ok () => .ok bytes
  | .error err => .error (.identity ("公钥解析失败: " ++ err))

/-- `signature_from_bytes`. -/
def signatureFromBytes (bytes : List UInt8) : Except Error (Bytes 64) :=
  match Bytes.ofList? 64 bytes with
  | some signature => .ok signature
  | none => .error (.identity ("签名解析失败: " ++ c.sliceError))

/-- `verify_signature`. -/
def verifySignature (key : VerifyingKey) (message : List UInt8) (signature : Bytes 64) :
    Except Error Unit :=
  match c.verify key message signature with
  | .ok () => .ok ()
  | .error err => .error (.identity ("签名校验失败: " ++ err))

theorem publicKeyFromBytes_eq_ok {bytes key : Bytes 32}
    (h : publicKeyFromBytes c bytes = .ok key) : key = bytes ∧ c.parseKey bytes = .ok () := by
  unfold publicKeyFromBytes at h
  split at h
  next hp =>
    exact ⟨(Except.ok.inj h).symm, hp⟩
  · cases h

theorem signatureFromBytes_eq_ok {bytes : List UInt8} {sig : Bytes 64}
    (h : signatureFromBytes c bytes = .ok sig) : sig.toList = bytes := by
  unfold signatureFromBytes at h
  split at h
  next sig' hsig =>
    obtain rfl : sig' = sig := Except.ok.inj h
    unfold Bytes.ofList? at hsig
    split at hsig
    · rw [← Option.some.inj hsig]
    · cases hsig
  · cases h

theorem verifySignature_eq_ok {key : VerifyingKey} {message : List UInt8} {signature : Bytes 64}
    (h : verifySignature c key message signature = .ok ()) :
    c.verify key message signature = .ok () := by
  unfold verifySignature at h
  split at h
  · assumption
  · cases h

end P2pFile
