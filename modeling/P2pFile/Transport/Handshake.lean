/-
  P2pFile.Transport.Handshake

  The application handshake (`src/transport/handshake.rs`).

  Each function of the source is cut at its reads and writes: what it does with a
  message is a pure function, and a run of `prepare_handshake_*` and `finish` is a
  walk through the phases in between.  Runs share no state.  What they have in common
  is the network, which an attacker owns: it hands every run whatever it likes.
-/

import P2pFile.Protocol.Message

namespace P2pFile.Transport

open Lib Protocol

/-! ## Reading and writing frames -/

/-- What a read of the stream gives. -/
inductive Inbound where
  | frame (message : ControlMessage)
  | timeout
  | closed
  | failed (err : Error)

/-- How a write ends. -/
inductive Outbound where
  | written
  | timeout
  | failed (err : Error)

/-- `read_handshake_frame`. -/
def readHandshakeFrame (phase : String) : Inbound → Except Error ControlMessage
  | .frame message => .ok message
  | .timeout => .error (.protocol (phase ++ "超时"))
  | .closed => .error (.protocol (phase ++ "时连接被关闭"))
  | .failed err => .error err

/-- `write_handshake_frame`. -/
def writeHandshakeFrame (phase : String) : Outbound → Except Error Unit
  | .written => .ok ()
  | .timeout => .error (.protocol (phase ++ "超时"))
  | .failed err => .error err

/-! ## The two sides -/

/-- `Identity`: a key pair, by its public key and what it signs. -/
structure Identity where
  publicKey : VerifyingKey
  sign : List UInt8 → Bytes 64

structure HandshakeOutcome where
  peerNodeId : NodeId
  peerPublicKey : VerifyingKey
  deriving DecidableEq

/-- The peer's signature is checked, and our own is ready to be sent. -/
structure PreparedHandshake where
  outcome : HandshakeOutcome
  signature : List UInt8
  deriving DecidableEq

structure VerifiedResponder where
  outcome : HandshakeOutcome
  deriving DecidableEq

section

variable (c : Crypto) (identity : Identity)

def Identity.nodeId : NodeId := NodeId.fromPublicKey c identity.publicKey

def checkVersion (version : UInt32) : Except Error Unit :=
  if version ≠ protocolVersion then
    .error (.protocol ("协议版本不兼容：本机 " ++ toString protocolVersion ++ "，对端 " ++ toString version))
  else .ok ()

def checkNodeId (publicKey : VerifyingKey) (claimed : NodeId) : Except Error Unit :=
  let derived := NodeId.fromPublicKey c publicKey
  if derived ≠ claimed then
    .error (.protocol ("节点 ID 与公钥不符：声称 " ++ claimed.short ++ "，公钥实为 " ++ derived.short))
  else .ok ()

/-- What one side learns from the other's first message. -/
structure Greeting where
  peerNonce : Bytes 32
  peerPublicKey : VerifyingKey
  peerNodeId : NodeId

/-- The Hello of the initiator. -/
def initiatorHello (nonce : Bytes 32) : ControlMessage :=
  .hello protocolVersion (identity.nodeId c) identity.publicKey nonce

/-- The checks of the initiator on the answer to its Hello, before the signature. -/
def readHelloAck (nonce : Bytes 32) : ControlMessage → Except Error (Greeting × List UInt8)
  | .helloAck version nodeId publicKey peerNonce echoed signature => do
    checkVersion version
    if echoed ≠ nonce then
      .error (.protocol "HelloAck 回显的随机数与发出的不符，可能是重放的应答")
    let key ← publicKeyFromBytes c publicKey
    checkNodeId c key nodeId
    .ok (⟨peerNonce, key, nodeId⟩, signature)
  | .abort reason => .error (.protocol ("对端拒绝握手: " ++ reason))
  | other => .error (.protocol ("握手阶段收到意外消息 " ++ other.kind))

/-- `prepare_handshake_initiator` from the answer to its Hello on. -/
def initiatorOnReply (binding nonce : Bytes 32) (reply : Inbound) :
    Except Error (PreparedHandshake × Bytes 32) := do
  let message ← readHandshakeFrame "等待 HelloAck" reply
  let (peer, signature) ← readHelloAck c nonce message
  let payload := handshakePayload identity.publicKey nonce peer.peerPublicKey peer.peerNonce binding
  let signature ← signatureFromBytes c signature
  verifySignature c peer.peerPublicKey payload signature
  .ok (⟨⟨peer.peerNodeId, peer.peerPublicKey⟩, (identity.sign payload).toList⟩, peer.peerNonce)

/-- `expect_ready`. -/
def expectReady (inbound : Inbound) : Except Error Unit := do
  match ← readHandshakeFrame "等待 Ready" inbound with
  | .ready => .ok ()
  | .abort reason => .error (.protocol ("对端中止: " ++ reason))
  | other => .error (.protocol ("期待 Ready，收到 " ++ other.kind))

/-- The checks of the responder on a Hello. -/
def readHello : ControlMessage → Except Error Greeting
  | .hello version nodeId publicKey nonce => do
    checkVersion version
    let key ← publicKeyFromBytes c publicKey
    checkNodeId c key nodeId
    .ok ⟨nonce, key, nodeId⟩
  | other => .error (.protocol ("握手阶段期待 Hello，收到 " ++ other.kind))

/-- The payload a responder signs and expects to be signed. -/
def responderPayload (binding ourNonce : Bytes 32) (peer : Greeting) : List UInt8 :=
  handshakePayload peer.peerPublicKey peer.peerNonce identity.publicKey ourNonce binding

/-- The HelloAck of the responder. -/
def responderHelloAck (binding ourNonce : Bytes 32) (peer : Greeting) : ControlMessage :=
  .helloAck protocolVersion (identity.nodeId c) identity.publicKey ourNonce peer.peerNonce
    (identity.sign (responderPayload identity binding ourNonce peer)).toList

/-- The check of the responder on the initiator's signature. -/
def readAuth (peerPublicKey : VerifyingKey) (payload : List UInt8) :
    ControlMessage → Except Error Unit
  | .auth signature => do
    let signature ← signatureFromBytes c signature
    verifySignature c peerPublicKey payload signature
  | other => .error (.protocol ("握手阶段期待 Auth，收到 " ++ other.kind))

end

/-! ## Runs -/

inductive Role where
  | initiator
  | responder
  deriving DecidableEq

inductive Phase where
  /-- Nothing has been read or written. -/
  | begin
  /-- The initiator waits for the HelloAck. -/
  | awaitAck
  /-- `prepare_handshake_initiator` has returned. -/
  | prepared (handshake : PreparedHandshake)
  /-- The initiator has sent its Auth and waits for Ready. -/
  | awaitReady (outcome : HandshakeOutcome)
  /-- The responder has sent its HelloAck and waits for the Auth. -/
  | awaitAuth (peer : Greeting)
  /-- `prepare_handshake_responder` has returned. -/
  | verified (responder : VerifiedResponder)
  /-- `finish` has returned. -/
  | returned (outcome : HandshakeOutcome)
  | failed (err : Error)

/-- One run of the handshake.  `nonce` and `peer` record what its messages carry:
    its own nonce, and the key and nonce of the peer it signs for.  `exposed` says
    that its signature has been handed to the network. -/
structure HandshakeRun where
  role : Role
  identity : Identity
  binding : Bytes 32
  nonce : Option (Bytes 32)
  peer : Option (VerifyingKey × Bytes 32)
  exposed : Bool
  phase : Phase

namespace HandshakeRun

def new (role : Role) (identity : Identity) (binding : Bytes 32) : HandshakeRun :=
  ⟨role, identity, binding, none, none, false, .begin⟩

variable (run : HandshakeRun)

def fail (err : Error) : HandshakeRun := { run with phase := .failed err }

/-- Go to `phase` if the write succeeds. -/
def afterWrite (text : String) (out : Outbound) (phase : Phase) : HandshakeRun :=
  match writeHandshakeFrame text out with
  | .ok () => { run with phase }
  | .error err => run.fail err

variable (c : Crypto)

/-- The initiator draws its nonce and writes its Hello. -/
def hello (nonce : Bytes 32) (out : Outbound) : Option (HandshakeRun × List ControlMessage) :=
  match run.role, run.phase with
  | .initiator, .begin =>
    some ({ run with nonce := some nonce }.afterWrite "发送 Hello" out .awaitAck,
      [initiatorHello c run.identity nonce])
  | _, _ => none

/-- The responder reads the Hello, draws its nonce, signs and writes its HelloAck. -/
def accept (inbound : Inbound) (nonce : Bytes 32) (out : Outbound) :
    Option (HandshakeRun × List ControlMessage) :=
  match run.role, run.phase with
  | .responder, .begin =>
    match (readHandshakeFrame "等待 Hello" inbound).bind (readHello c) with
    | .error err => some (run.fail err, [])
    | .ok peer =>
      -- A write that fails may have sent the signature already.
      some ({ run with
        nonce := some nonce
        peer := some (peer.peerPublicKey, peer.peerNonce)
        exposed := true }.afterWrite "发送 HelloAck" out (.awaitAuth peer),
        [responderHelloAck c run.identity run.binding nonce peer])
  | _, _ => none

/-- A run reads the message it waits for. -/
def recv (inbound : Inbound) : Option HandshakeRun :=
  match run.role, run.phase, run.nonce with
  | .initiator, .awaitAck, some nonce =>
    match initiatorOnReply c run.identity run.binding nonce inbound with
    | .error err => some (run.fail err)
    | .ok (handshake, peerNonce) =>
      some { run with
        peer := some (handshake.outcome.peerPublicKey, peerNonce)
        phase := .prepared handshake }
  | .initiator, .awaitReady outcome, _ =>
    match expectReady inbound with
    | .error err => some (run.fail err)
    | .ok () => some { run with phase := .returned outcome }
  | .responder, .awaitAuth peer, some nonce =>
    match (readHandshakeFrame "等待 Auth" inbound).bind (readAuth c peer.peerPublicKey
        (responderPayload run.identity run.binding nonce peer)) with
    | .error err => some (run.fail err)
    | .ok () =>
      some { run with phase := .verified ⟨⟨peer.peerNodeId, peer.peerPublicKey⟩⟩ }
  | _, _, _ => none

/-- `finish`: the Auth of the initiator, the Ready of the responder. -/
def finish (out : Outbound) : Option (HandshakeRun × List ControlMessage) :=
  match run.role, run.phase with
  | .initiator, .prepared handshake =>
    some ({ run with exposed := true }.afterWrite "发送 Auth" out (.awaitReady handshake.outcome),
      [.auth handshake.signature])
  | .responder, .verified responder =>
    some (run.afterWrite "发送 Ready" out (.returned responder.outcome), [.ready])
  | _, _ => none

/-- The run has accepted its peer: a `prepare` function has returned. -/
def accepted : Option HandshakeOutcome :=
  match run.phase with
  | .prepared handshake => some handshake.outcome
  | .awaitReady outcome => some outcome
  | .verified responder => some responder.outcome
  | .returned outcome => some outcome
  | _ => none

/-- The payload that the run signs, once it knows both nonces. -/
def payload : Option (List UInt8) :=
  match run.nonce, run.peer with
  | some nonce, some (peerKey, peerNonce) =>
    some (match run.role with
      | .initiator =>
        handshakePayload run.identity.publicKey nonce peerKey peerNonce run.binding
      | .responder =>
        handshakePayload peerKey peerNonce run.identity.publicKey nonce run.binding)
  | _, _ => none

end HandshakeRun

/-! ## The network -/

/-- All runs, the messages they have sent, what else the keys have signed, and the
    nonces that have been drawn or delivered, in order. -/
structure Network where
  runs : Nat → Option HandshakeRun
  sent : List (Nat × ControlMessage)
  others : List (VerifyingKey × List UInt8)
  seen : List (Bytes 32)

inductive Event where
  | start (i : Nat) (role : Role) (identity : Identity) (binding : Bytes 32)
  | hello (i : Nat) (nonce : Bytes 32) (out : Outbound)
  | accept (i : Nat) (inbound : Inbound) (nonce : Bytes 32) (out : Outbound)
  | recv (i : Nat) (inbound : Inbound)
  | finish (i : Nat) (out : Outbound)
  /-- A signaling client signs its registration. -/
  | register (identity : Identity) (challenge : Bytes 32) (nodeId : NodeId)
      (candidates : List Discovery.Candidate)
  /-- A relay client signs its binding. -/
  | bind (identity : Identity) (challenge : Relay.Challenge)

/-- The nonces a message carries. -/
def Inbound.nonces : Inbound → List (Bytes 32)
  | .frame (.hello _ _ _ nonce) => [nonce]
  | .frame (.helloAck _ _ _ nonce peerNonce _) => [nonce, peerNonce]
  | _ => []

/-- The signature a message carries. -/
def Inbound.signature : Inbound → Option (List UInt8)
  | .frame (.helloAck _ _ _ _ _ signature) => some signature
  | .frame (.auth signature) => some signature
  | _ => none

namespace Network

def setRun (s : Network) (i : Nat) (run : HandshakeRun) (messages : List ControlMessage)
    (nonces : List (Bytes 32)) : Network :=
  { s with
    runs := Function.update s.runs i (some run)
    sent := s.sent ++ messages.map fun message => (i, message)
    seen := s.seen ++ nonces }

def step (c : Crypto) (s : Network) : Event → Option Network
  | .start i role identity binding =>
    match s.runs i with
    | none => some (s.setRun i (.new role identity binding) [] [])
    | some _ => none
  | .hello i nonce out => do
    let run ← s.runs i
    let (run, messages) ← run.hello c nonce out
    some (s.setRun i run messages [nonce])
  | .accept i inbound nonce out => do
    let run ← s.runs i
    let (run, messages) ← run.accept c inbound nonce out
    some (s.setRun i run messages (inbound.nonces ++ [nonce]))
  | .recv i inbound => do
    let run ← s.runs i
    let run ← run.recv c inbound
    some (s.setRun i run [] inbound.nonces)
  | .finish i out => do
    let run ← s.runs i
    let (run, messages) ← run.finish out
    some (s.setRun i run messages [])
  | .register identity challenge nodeId candidates =>
    some { s with others := s.others ++ [(identity.publicKey,
      Discovery.registerPayload c challenge nodeId identity.publicKey candidates)] }
  | .bind identity challenge =>
    some { s with others := s.others ++ [(identity.publicKey, Relay.bindPayload c challenge)] }

/-- The holder of `key` has signed `message` and handed the signature out. -/
def Signed (s : Network) (key : VerifyingKey) (message : List UInt8) : Prop :=
  (∃ i run, s.runs i = some run ∧ run.exposed = true ∧ run.identity.publicKey = key ∧
    run.payload = some message) ∨ (key, message) ∈ s.others

/-- The attacker cannot forge: a signature in its message that verifies under an
    honest key was made by the holder of the key. -/
def Genuine (c : Crypto) (honest : VerifyingKey → Prop) (s : Network) (inbound : Inbound) : Prop :=
  ∀ key message (sig : Bytes 64), inbound.signature = some sig.toList → honest key →
    c.verify key message sig = .ok () → s.Signed key message

end Network

/-- The handshake runs on the network of the attacker. -/
def handshakeMachine (c : Crypto) : Machine Network Event :=
  Machine.ofStep (fun s => s = ⟨fun _ => none, [], [], []⟩) (Network.step c)

/-- Ideal cryptography: the keys of the program's runs are honest, drawn nonces are
    new, and the attacker does not forge. -/
def Ideal (c : Crypto) (honest : VerifyingKey → Prop) (s : Network) (e : Event) (_ : Network) :
    Prop :=
  match e with
  | .start _ _ identity _ => honest identity.publicKey
  | .hello _ nonce _ => nonce ∉ s.seen
  | .accept _ inbound nonce _ =>
    nonce ∉ s.seen ++ inbound.nonces ∧ s.Genuine c honest inbound
  | .recv _ inbound => s.Genuine c honest inbound
  | _ => True

end P2pFile.Transport
