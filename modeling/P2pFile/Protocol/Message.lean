/-
  P2pFile.Protocol.Message

  Control messages and the payload of the handshake signatures
  (`src/protocol/message.rs`).

  The payload is the same for both sides: the two (key, nonce) pairs are sorted by
  key.  So it determines the pairs up to their order, and the channel binding; and it
  is no payload of another domain.
-/

import P2pFile.Discovery.Signal
import P2pFile.Protocol.Manifest

namespace P2pFile.Protocol

open Lib

def protocolVersion : UInt32 := 3

/-! ## Control messages -/

inductive SpeedTestWireDirection where
  | upload
  | download
  deriving DecidableEq

inductive ControlMessage where
  | hello (protocolVersion : UInt32) (nodeId : NodeId) (publicKey nonce : Bytes 32)
  | helloAck (protocolVersion : UInt32) (nodeId : NodeId) (publicKey nonce peerNonce : Bytes 32)
      (signature : List UInt8)
  | auth (signature : List UInt8)
  | ready
  | manifest (manifest : FileManifest)
  | resume (have' : List UInt8)
  | requestChunk (index : UInt32)
  | chunk (index : UInt32) (data : List UInt8)
  | chunkAck (index : UInt32)
  | complete (rootHash : ChunkHash)
  | tunnelOpen (target : String)
  | tunnelReady
  | tunnelError (reason : String)
  | keepAlive
  | abort (reason : String)
  | bye
  | speedTestOpen (direction : SpeedTestWireDirection) (durationMs : UInt64) (blockSize : UInt32)
  | speedTestReady
  | speedTestResult (bytes elapsedMs : UInt64)
  deriving DecidableEq

def ControlMessage.kind : ControlMessage → String
  | .hello .. => "Hello"
  | .helloAck .. => "HelloAck"
  | .auth .. => "Auth"
  | .ready => "Ready"
  | .manifest .. => "Manifest"
  | .resume .. => "Resume"
  | .requestChunk .. => "RequestChunk"
  | .chunk .. => "Chunk"
  | .chunkAck .. => "ChunkAck"
  | .complete .. => "Complete"
  | .tunnelOpen .. => "TunnelOpen"
  | .tunnelReady => "TunnelReady"
  | .tunnelError .. => "TunnelError"
  | .keepAlive => "KeepAlive"
  | .abort .. => "Abort"
  | .bye => "Bye"
  | .speedTestOpen .. => "SpeedTestOpen"
  | .speedTestReady => "SpeedTestReady"
  | .speedTestResult .. => "SpeedTestResult"

/-! ## The signed payload -/

/-- `HANDSHAKE_DOMAIN`: the ASCII text `p2p_file/handshake/v3`. -/
def handshakeDomain : List UInt8 :=
  [0x70, 0x32, 0x70, 0x5f, 0x66, 0x69, 0x6c, 0x65, 0x2f, 0x68, 0x61, 0x6e, 0x64, 0x73, 0x68,
   0x61, 0x6b, 0x65, 0x2f, 0x76, 0x33]

/-- The payload of two (key, nonce) pairs that are in order. -/
def sortedPayload (first second : Bytes 32 × Bytes 32) (channelBinding : Bytes 32) : List UInt8 :=
  handshakeDomain ++ (first.1.toList ++ (first.2.toList ++ (second.1.toList ++
    (second.2.toList ++ channelBinding.toList))))

/-- `handshake_payload`. -/
def handshakePayload (publicKeyA nonceA publicKeyB nonceB channelBinding : Bytes 32) : List UInt8 :=
  if publicKeyA ≤ publicKeyB then
    sortedPayload (publicKeyA, nonceA) (publicKeyB, nonceB) channelBinding
  else sortedPayload (publicKeyB, nonceB) (publicKeyA, nonceA) channelBinding

theorem sortedPayload_inj {a b a' b' : Bytes 32 × Bytes 32} {cb cb' : Bytes 32}
    (h : sortedPayload a b cb = sortedPayload a' b' cb') : a = a' ∧ b = b' ∧ cb = cb' := by
  obtain ⟨h₁, h⟩ := Bytes.append_inj (List.append_cancel_left h)
  obtain ⟨h₂, h⟩ := Bytes.append_inj h
  obtain ⟨h₃, h⟩ := Bytes.append_inj h
  obtain ⟨h₄, h⟩ := Bytes.append_inj h
  exact ⟨Prod.ext h₁ h₂, Prod.ext h₃ h₄, Bytes.ext_toList h⟩

/-- The payload sorts its two pairs, one way or the other. -/
theorem handshakePayload_eq (ka na kb nb cb : Bytes 32) :
    handshakePayload ka na kb nb cb = sortedPayload (ka, na) (kb, nb) cb ∨
      handshakePayload ka na kb nb cb = sortedPayload (kb, nb) (ka, na) cb := by
  unfold handshakePayload
  split
  · exact .inl rfl
  · exact .inr rfl

/-- The payload determines the binding, and the pairs up to their order. -/
theorem handshakePayload_inj {ka na kb nb cb ka' na' kb' nb' cb' : Bytes 32}
    (h : handshakePayload ka na kb nb cb = handshakePayload ka' na' kb' nb' cb') :
    cb = cb' ∧ (((ka, na) = (ka', na') ∧ (kb, nb) = (kb', nb')) ∨
      ((ka, na) = (kb', nb') ∧ (kb, nb) = (ka', na'))) := by
  rcases handshakePayload_eq ka na kb nb cb with h₁ | h₁ <;>
    rcases handshakePayload_eq ka' na' kb' nb' cb' with h₂ | h₂ <;>
    rw [h₁, h₂] at h <;>
    obtain ⟨hfirst, hsecond, hcb⟩ := sortedPayload_inj h
  · exact ⟨hcb, .inl ⟨hfirst, hsecond⟩⟩
  · exact ⟨hcb, .inr ⟨hfirst, hsecond⟩⟩
  · exact ⟨hcb, .inr ⟨hsecond, hfirst⟩⟩
  · exact ⟨hcb, .inl ⟨hsecond, hfirst⟩⟩

/-! ## Other domains

The domains share the text `p2p_file/`; the byte after it tells them apart. -/

theorem handshakePayload_domain (ka na kb nb cb : Bytes 32) :
    (handshakePayload ka na kb nb cb)[9]? = some 0x68 := by
  rcases handshakePayload_eq ka na kb nb cb with h | h
  · rw [h]
    rfl
  · rw [h]
    rfl

theorem registerPayload_ne_handshakePayload (c : Crypto) (challenge : Bytes 32) (nodeId : NodeId)
    (publicKey : Bytes 32) (candidates : List Discovery.Candidate) (ka na kb nb cb : Bytes 32) :
    Discovery.registerPayload c challenge nodeId publicKey candidates ≠
      handshakePayload ka na kb nb cb := by
  intro h
  have hbyte : (Discovery.registerPayload c challenge nodeId publicKey candidates)[9]? =
      some 0x73 := rfl
  rw [h, handshakePayload_domain] at hbyte
  cases hbyte

theorem bindPayload_ne_handshakePayload (c : Crypto) (challenge : Relay.Challenge)
    (ka na kb nb cb : Bytes 32) :
    Relay.bindPayload c challenge ≠ handshakePayload ka na kb nb cb := by
  intro h
  have hbyte : (Relay.bindPayload c challenge)[9]? = some 0x72 := rfl
  rw [h, handshakePayload_domain] at hbyte
  cases hbyte

end P2pFile.Protocol
