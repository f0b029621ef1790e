/-
  P2pFile.Transport.HandshakeSafety

  What one step of the handshake can do, and what every reachable network keeps.

  `step_netMove` reads all steps under ideal cryptography off the model once: a run
  is started, it makes a `Turn`, or a key signs in another domain.  The rest follows
  from the turns: the shape of a run in each phase, that runs never forget, and that
  own nonces are unique and, in a responder, drawn after the peer's was seen.
-/

import P2pFile.Transport.Handshake

namespace P2pFile.Transport

open Lib Protocol
open NodeId (fromPublicKey)
open HandshakeRun (accepted afterWrite)

variable {c : Crypto} {honest : VerifyingKey → Prop} {s t : Network}

/-! ## What the checks establish -/

variable {key : VerifyingKey}

theorem checkNodeId_ok {claimed : NodeId} (h : checkNodeId c key claimed = .ok ()) :
    claimed = fromPublicKey c key := by
  unfold checkNodeId at h
  simp only at h
  split at h
  · cases h
  next heq =>
    exact (not_not.mp heq).symm

variable {text : String} {inbound : Inbound} {message : ControlMessage}

theorem readHandshakeFrame_ok (h : readHandshakeFrame text inbound = .ok message) :
    inbound = .frame message := by
  cases inbound with
  | frame m =>
    obtain rfl : m = message := Except.ok.inj h
    rfl
  | _ => exact absurd h (by simp [readHandshakeFrame])

variable {nonce : Bytes 32} {peer : Greeting}

theorem readHelloAck_ok {signature : List UInt8}
    (h : readHelloAck c nonce message = .ok (peer, signature)) :
    peer.peerNodeId = fromPublicKey c peer.peerPublicKey ∧
      (Inbound.frame message).signature = some signature := by
  cases message with
  | helloAck version nodeId publicKey peerNonce echoed sig =>
    simp only [readHelloAck, bind_eq_ok] at h
    obtain ⟨_, -, h⟩ := h
    split at h
    · simp [bind, Except.bind] at h
    simp only [bind_eq_ok] at h
    obtain ⟨key, -, _, hnode, hpeer⟩ := h
    cases hpeer
    exact ⟨checkNodeId_ok hnode, rfl⟩
  | _ => exact absurd h (by simp [readHelloAck])

variable {identity : Identity}

/-- An accepted HelloAck carries a signature of its key over the session. -/
theorem initiatorOnReply_ok {binding peerNonce : Bytes 32} {reply : Inbound}
    {handshake : PreparedHandshake}
    (h : initiatorOnReply c identity binding nonce reply = .ok (handshake, peerNonce)) :
    handshake.outcome.peerNodeId = fromPublicKey c handshake.outcome.peerPublicKey ∧
    handshake.signature = (identity.sign (handshakePayload identity.publicKey nonce
      handshake.outcome.peerPublicKey peerNonce binding)).toList ∧
    ∃ sig : Bytes 64, reply.signature = some sig.toList ∧
      c.verify handshake.outcome.peerPublicKey (handshakePayload identity.publicKey nonce
        handshake.outcome.peerPublicKey peerNonce binding) sig = .ok () := by
  simp only [initiatorOnReply, bind_eq_ok] at h
  obtain ⟨message, hread, ⟨peer, signature⟩, hack, sig, hsig, _, hver, hres⟩ := h
  cases hres
  obtain rfl := readHandshakeFrame_ok hread
  obtain ⟨hnode, hsignature⟩ := readHelloAck_ok hack
  refine ⟨hnode, rfl, sig, ?_, verifySignature_eq_ok c hver⟩
  rw [hsignature, signatureFromBytes_eq_ok c hsig]

theorem readHello_ok (h : (readHandshakeFrame text inbound).bind (readHello c) = .ok peer) :
    peer.peerNodeId = fromPublicKey c peer.peerPublicKey ∧ peer.peerNonce ∈ inbound.nonces := by
  obtain ⟨message, hread, hhello⟩ := bind_eq_ok.mp h
  obtain rfl := readHandshakeFrame_ok hread
  cases message with
  | hello version nodeId publicKey nonce =>
    simp only [readHello, bind_eq_ok] at hhello
    obtain ⟨_, -, key, -, _, hnode, hpeer⟩ := hhello
    cases hpeer
    exact ⟨checkNodeId_ok hnode, by simp [Inbound.nonces]⟩
  | _ => exact absurd hhello (by simp [readHello])

theorem readAuth_ok {payload : List UInt8}
    (h : (readHandshakeFrame text inbound).bind (readAuth c key payload) = .ok ()) :
    ∃ sig : Bytes 64, inbound.signature = some sig.toList ∧ c.verify key payload sig = .ok () := by
  obtain ⟨message, hread, hauth⟩ := bind_eq_ok.mp h
  obtain rfl := readHandshakeFrame_ok hread
  cases message with
  | auth signature =>
    simp only [readAuth, bind_eq_ok] at hauth
    obtain ⟨sig, hsig, hver⟩ := hauth
    refine ⟨sig, ?_, verifySignature_eq_ok c hver⟩
    rw [signatureFromBytes_eq_ok c hsig]
    rfl
  | _ => exact absurd hauth (by simp [readAuth])

/-! ## What one step can do -/

/-- The phase after a write: the next one, or a failure. -/
def Phase.AfterWrite (next phase : Phase) : Prop := phase = next ∨ ∃ err, phase = .failed err

theorem HandshakeRun.afterWrite_eq (run : HandshakeRun) (text : String) (out : Outbound)
    (next : Phase) : ∃ phase, next.AfterWrite phase ∧
      run.afterWrite text out next = { run with phase } := by
  unfold afterWrite
  split
  · exact ⟨next, .inl rfl, rfl⟩
  next err _ =>
    exact ⟨.failed err, .inr ⟨err, rfl⟩, rfl⟩

/-- How a run can go on in network `s`: the run after it, the messages it sends and the
    nonces that are seen. -/
inductive Turn (c : Crypto) (honest : VerifyingKey → Prop) (s : Network) (run : HandshakeRun) :
    HandshakeRun → List ControlMessage → List (Bytes 32) → Prop
  | hello {nonce : Bytes 32} {phase : Phase}
      (hrole : run.role = .initiator) (hbegin : run.phase = .begin)
      (hfresh : nonce ∉ s.seen) (hphase : Phase.awaitAck.AfterWrite phase) :
      Turn c honest s run { run with nonce := some nonce, phase }
        [initiatorHello c run.identity nonce] [nonce]
  | accept {peer : Greeting} {nonce : Bytes 32} {nonces : List (Bytes 32)} {phase : Phase}
      (hrole : run.role = .responder) (hbegin : run.phase = .begin)
      (hfresh : nonce ∉ s.seen ++ nonces) (hpeer : peer.peerNonce ∈ nonces)
      (hnode : peer.peerNodeId = fromPublicKey c peer.peerPublicKey)
      (hphase : (Phase.awaitAuth peer).AfterWrite phase) :
      Turn c honest s run { run with
          nonce := some nonce
          peer := some (peer.peerPublicKey, peer.peerNonce)
          exposed := true
          phase }
        [responderHelloAck c run.identity run.binding nonce peer] (nonces ++ [nonce])
  | reply {handshake : PreparedHandshake} {nonce peerNonce : Bytes 32} {nonces : List (Bytes 32)}
      (hrole : run.role = .initiator) (hwait : run.phase = .awaitAck)
      (hnonce : run.nonce = some nonce)
      (hnode : handshake.outcome.peerNodeId = fromPublicKey c handshake.outcome.peerPublicKey)
      (hsignature : handshake.signature = (run.identity.sign (handshakePayload
        run.identity.publicKey nonce handshake.outcome.peerPublicKey peerNonce
        run.binding)).toList)
      (hsigned : honest handshake.outcome.peerPublicKey →
        s.Signed handshake.outcome.peerPublicKey (handshakePayload run.identity.publicKey nonce
          handshake.outcome.peerPublicKey peerNonce run.binding)) :
      Turn c honest s run { run with
          peer := some (handshake.outcome.peerPublicKey, peerNonce)
          phase := .prepared handshake } [] nonces
  | auth {handshake : PreparedHandshake} {phase : Phase}
      (hrole : run.role = .initiator) (hprepared : run.phase = .prepared handshake)
      (hphase : (Phase.awaitReady handshake.outcome).AfterWrite phase) :
      Turn c honest s run { run with exposed := true, phase } [.auth handshake.signature] []
  | ready {outcome : HandshakeOutcome} {nonces : List (Bytes 32)}
      (hrole : run.role = .initiator) (hwait : run.phase = .awaitReady outcome) :
      Turn c honest s run { run with phase := .returned outcome } [] nonces
  | check {peer : Greeting} {nonce : Bytes 32} {nonces : List (Bytes 32)}
      (hrole : run.role = .responder) (hwait : run.phase = .awaitAuth peer)
      (hnonce : run.nonce = some nonce)
      (hsigned : honest peer.peerPublicKey → s.Signed peer.peerPublicKey
        (responderPayload run.identity run.binding nonce peer)) :
      Turn c honest s run
        { run with phase := .verified ⟨⟨peer.peerNodeId, peer.peerPublicKey⟩⟩ } [] nonces
  | confirm {responder : VerifiedResponder} {phase : Phase}
      (hrole : run.role = .responder) (hverified : run.phase = .verified responder)
      (hphase : (Phase.returned responder.outcome).AfterWrite phase) :
      Turn c honest s run { run with phase } [.ready] []
  | fail {err : Error} {nonces : List (Bytes 32)} : Turn c honest s run (run.fail err) [] nonces

variable {run run' : HandshakeRun} {out : Outbound} {messages : List ControlMessage}

theorem HandshakeRun.hello_turn (h : run.hello c nonce out = some (run', messages))
    (hfresh : nonce ∉ s.seen) : Turn c honest s run run' messages [nonce] := by
  unfold HandshakeRun.hello at h
  split at h
  next hrole hbegin =>
    cases h
    obtain ⟨phase, hphase, heq⟩ := HandshakeRun.afterWrite_eq
      { run with nonce := some nonce } "发送 Hello" out .awaitAck
    rw [heq]
    exact .hello hrole hbegin hfresh hphase
  · cases h

theorem HandshakeRun.accept_turn (h : run.accept c inbound nonce out = some (run', messages))
    (hfresh : nonce ∉ s.seen ++ inbound.nonces) :
    Turn c honest s run run' messages (inbound.nonces ++ [nonce]) := by
  unfold HandshakeRun.accept at h
  split at h
  next hrole hbegin =>
    split at h
    · cases h
      exact .fail
    rename_i peer hpeer
    obtain ⟨hnode, hnonce⟩ := readHello_ok hpeer
    cases h
    obtain ⟨phase, hphase, heq⟩ := HandshakeRun.afterWrite_eq
      { run with
        nonce := some nonce
        peer := some (peer.peerPublicKey, peer.peerNonce)
        exposed := true } "发送 HelloAck" out (.awaitAuth peer)
    rw [heq]
    exact .accept hrole hbegin hfresh hnonce hnode hphase
  · cases h

theorem HandshakeRun.recv_turn (h : run.recv c inbound = some run')
    (hgenuine : s.Genuine c honest inbound) : Turn c honest s run run' [] inbound.nonces := by
  unfold HandshakeRun.recv at h
  split at h
  next nonce hrole hwait hnonce =>
    split at h
    · cases h
      exact .fail
    rename_i handshake peerNonce hreply
    cases h
    obtain ⟨hnode, hsignature, sig, hsig, hver⟩ := initiatorOnReply_ok hreply
    refine .reply hrole hwait hnonce hnode hsignature ?_
    intro hhonest
    exact hgenuine _ _ sig hsig hhonest hver
  next outcome hrole hwait =>
    split at h
    · cases h
      exact .fail
    · cases h
      exact .ready hrole hwait
  next peer nonce hrole hwait hnonce =>
    split at h
    · cases h
      exact .fail
    rename_i hauth
    cases h
    obtain ⟨sig, hsig, hver⟩ := readAuth_ok hauth
    refine .check hrole hwait hnonce ?_
    intro hhonest
    exact hgenuine _ _ sig hsig hhonest hver
  · cases h

theorem HandshakeRun.finish_turn (h : run.finish out = some (run', messages)) :
    Turn c honest s run run' messages [] := by
  unfold HandshakeRun.finish at h
  split at h
  next handshake hrole hprep =>
    cases h
    obtain ⟨phase, hphase, heq⟩ := HandshakeRun.afterWrite_eq
      { run with exposed := true } "发送 Auth" out (.awaitReady handshake.outcome)
    rw [heq]
    exact .auth hrole hprep hphase
  next responder hrole hverified =>
    cases h
    obtain ⟨phase, hphase, heq⟩ := HandshakeRun.afterWrite_eq
      run "发送 Ready" out (.returned responder.outcome)
    rw [heq]
    exact .confirm hrole hverified hphase
  · cases h

/-- A message outside the handshake's domain. -/
def OtherDomain (message : List UInt8) : Prop :=
  ∀ ka na kb nb cb, message ≠ handshakePayload ka na kb nb cb

/-- What one step under ideal cryptography does to the network. -/
inductive NetMove (c : Crypto) (honest : VerifyingKey → Prop) (s : Network) : Network → Prop
  | start {i : Nat} {role : Role} {identity : Identity} {binding : Bytes 32}
      (hnew : s.runs i = none) (hhonest : honest identity.publicKey) :
      NetMove c honest s (s.setRun i (.new role identity binding) [] [])
  | turn {i : Nat} {run run' : HandshakeRun} {messages : List ControlMessage}
      {nonces : List (Bytes 32)} (hrun : s.runs i = some run)
      (hturn : Turn c honest s run run' messages nonces) :
      NetMove c honest s (s.setRun i run' messages nonces)
  | sign {key : VerifyingKey} {message : List UInt8} (hother : OtherDomain message) :
      NetMove c honest s { s with others := s.others ++ [(key, message)] }

theorem step_netMove {e : Event}
    (h : ((handshakeMachine c).restrict (Ideal c honest)).step s e t) : NetMove c honest s t := by
  obtain ⟨hstep, hideal⟩ := h
  change Network.step c s e = some t at hstep
  cases e with
  | start i role identity binding =>
    simp only [Network.step] at hstep
    split at hstep
    next hnew =>
      cases hstep
      exact .start hnew hideal
    · cases hstep
  | hello i nonce out =>
    simp only [Network.step, Option.bind_eq_bind, Option.bind_eq_some_iff] at hstep
    obtain ⟨run, hrun, ⟨run', messages⟩, hhello, ht⟩ := hstep
    cases ht
    exact .turn hrun (HandshakeRun.hello_turn hhello hideal)
  | accept i inbound nonce out =>
    simp only [Network.step, Option.bind_eq_bind, Option.bind_eq_some_iff] at hstep
    obtain ⟨run, hrun, ⟨run', messages⟩, haccept, ht⟩ := hstep
    cases ht
    exact .turn hrun (HandshakeRun.accept_turn haccept hideal.1)
  | recv i inbound =>
    simp only [Network.step, Option.bind_eq_bind, Option.bind_eq_some_iff] at hstep
    obtain ⟨run, hrun, run', hrecv, ht⟩ := hstep
    cases ht
    exact .turn hrun (HandshakeRun.recv_turn hrecv hideal)
  | finish i out =>
    simp only [Network.step, Option.bind_eq_bind, Option.bind_eq_some_iff] at hstep
    obtain ⟨run, hrun, ⟨run', messages⟩, hfinish, ht⟩ := hstep
    cases ht
    exact .turn hrun (HandshakeRun.finish_turn hfinish)
  | register identity challenge nodeId candidates =>
    cases hstep
    exact .sign
      (registerPayload_ne_handshakePayload c challenge nodeId identity.publicKey candidates)
  | bind identity challenge =>
    cases hstep
    exact .sign (bindPayload_ne_handshakePayload c challenge)

/-! ## The shape of a run -/

/-- What the ghost fields of a run hold in each phase. -/
inductive Shape (c : Crypto) : Role → Option (Bytes 32) → Option (VerifyingKey × Bytes 32) →
    Bool → Phase → Prop
  | begin {role : Role} : Shape c role none none false .begin
  | awaitAck {nonce : Bytes 32} : Shape c .initiator (some nonce) none false .awaitAck
  | prepared {nonce peerNonce : Bytes 32} {handshake : PreparedHandshake}
      (hnode : handshake.outcome.peerNodeId = fromPublicKey c handshake.outcome.peerPublicKey) :
      Shape c .initiator (some nonce) (some (handshake.outcome.peerPublicKey, peerNonce)) false
        (.prepared handshake)
  | awaitReady {nonce peerNonce : Bytes 32} {outcome : HandshakeOutcome}
      (hnode : outcome.peerNodeId = fromPublicKey c outcome.peerPublicKey) :
      Shape c .initiator (some nonce) (some (outcome.peerPublicKey, peerNonce)) true
        (.awaitReady outcome)
  | awaitAuth {nonce : Bytes 32} {peer : Greeting}
      (hnode : peer.peerNodeId = fromPublicKey c peer.peerPublicKey) :
      Shape c .responder (some nonce) (some (peer.peerPublicKey, peer.peerNonce)) true
        (.awaitAuth peer)
  | verified {nonce peerNonce : Bytes 32} {responder : VerifiedResponder}
      (hnode : responder.outcome.peerNodeId = fromPublicKey c responder.outcome.peerPublicKey) :
      Shape c .responder (some nonce) (some (responder.outcome.peerPublicKey, peerNonce)) true
        (.verified responder)
  | returned {role : Role} {nonce peerNonce : Bytes 32} {outcome : HandshakeOutcome}
      (hnode : outcome.peerNodeId = fromPublicKey c outcome.peerPublicKey) :
      Shape c role (some nonce) (some (outcome.peerPublicKey, peerNonce)) true (.returned outcome)
  | failed {role : Role} {nonce : Option (Bytes 32)} {peer : Option (VerifyingKey × Bytes 32)}
      {exposed : Bool} {err : Error}
      (hexposed : exposed = true → ∃ p, peer = some p)
      (hpeer : ∀ p, peer = some p → ∃ n, nonce = some n) :
      Shape c role nonce peer exposed (.failed err)

def HandshakeRun.Shaped (c : Crypto) (run : HandshakeRun) : Prop :=
  Shape c run.role run.nonce run.peer run.exposed run.phase

namespace HandshakeRun.Shaped

variable (h : run.Shaped c)

include h

/-- A run that knows its peer has drawn its nonce. -/
theorem of_peer {p : VerifyingKey × Bytes 32} (hpeer : run.peer = some p) :
    ∃ nonce, run.nonce = some nonce := by
  obtain ⟨role, identity, binding, nonce, peer, exposed, phase⟩ := run
  cases h with
  | begin => cases hpeer
  | awaitAck => cases hpeer
  | failed _ h => exact h p hpeer
  | _ => exact ⟨_, rfl⟩

/-- A run whose signature is out knows its peer. -/
theorem of_exposed (hexposed : run.exposed = true) : ∃ p, run.peer = some p := by
  obtain ⟨role, identity, binding, nonce, peer, exposed, phase⟩ := run
  cases h with
  | begin | awaitAck | prepared => cases hexposed
  | failed h => exact h hexposed
  | _ => exact ⟨_, rfl⟩

variable {outcome : HandshakeOutcome}

/-- An accepted run knows both nonces, and the key it accepted hashes to the node id. -/
theorem of_accepted (hacc : run.accepted = some outcome) :
    outcome.peerNodeId = fromPublicKey c outcome.peerPublicKey ∧
      ∃ nonce peerNonce, run.nonce = some nonce ∧
        run.peer = some (outcome.peerPublicKey, peerNonce) := by
  obtain ⟨role, identity, binding, nonce, peer, exposed, phase⟩ := run
  cases h with
  | prepared hnode | awaitReady hnode | verified hnode | returned hnode =>
    cases hacc
    exact ⟨hnode, _, _, rfl, rfl⟩
  | _ => cases hacc

theorem of_begin (hphase : run.phase = .begin) :
    run.nonce = none ∧ run.peer = none ∧ run.exposed = false := by
  obtain ⟨role, identity, binding, nonce, peer, exposed, phase⟩ := run
  cases (hphase : phase = _)
  cases h
  exact ⟨rfl, rfl, rfl⟩

theorem of_awaitAck (hphase : run.phase = .awaitAck) : run.peer = none ∧ run.exposed = false := by
  obtain ⟨role, identity, binding, nonce, peer, exposed, phase⟩ := run
  cases (hphase : phase = _)
  cases h
  exact ⟨rfl, rfl⟩

theorem of_awaitAuth {peer : Greeting} (hphase : run.phase = .awaitAuth peer) :
    run.peer = some (peer.peerPublicKey, peer.peerNonce) := by
  obtain ⟨role, identity, binding, nonce, peer', exposed, phase⟩ := run
  cases (hphase : phase = _)
  cases h
  rfl

end HandshakeRun.Shaped

/-! ## Runs keep what they know -/

/-- The later run is the same run, and knows at least as much. -/
structure HandshakeRun.Grows (run run' : HandshakeRun) : Prop where
  role : run'.role = run.role
  identity : run'.identity = run.identity
  binding : run'.binding = run.binding
  nonce : ∀ n, run.nonce = some n → run'.nonce = some n
  peer : ∀ p, run.peer = some p → run'.peer = some p
  exposed : run.exposed = true → run'.exposed = true

/-- What a run knew it still knows, and nothing else in its place. -/
theorem HandshakeRun.Grows.nonce_eq (h : run.Grows run')
    {n n' : Bytes 32} (hold : run.nonce = some n) (hnew : run'.nonce = some n') : n' = n :=
  Option.some.inj (hnew.symm.trans (h.nonce n hold))

variable {nonces : List (Bytes 32)}

section Turn

variable (h : Turn c honest s run run' messages nonces)

include h

theorem Turn.shaped (hshape : run.Shaped c) : run'.Shaped c := by
  obtain ⟨role, identity, binding, nonce, peer, exposed, phase⟩ := run
  have hlost : ∀ {peer nonce err}, Shape c role (some nonce) (some peer) true (.failed err) := by
    exact .failed (fun _ => ⟨_, rfl⟩) fun _ _ => ⟨_, rfl⟩
  cases h with
  | hello hrole hbegin _ hphase =>
    cases (hrole : role = _)
    cases (hbegin : phase = _)
    cases hshape
    rcases hphase with rfl | ⟨err, rfl⟩
    · exact .awaitAck
    · exact .failed (by simp) (by simp)
  | accept hrole _ _ _ hnode hphase =>
    cases (hrole : role = _)
    rcases hphase with rfl | ⟨err, rfl⟩
    · exact .awaitAuth hnode
    · exact hlost
  | reply hrole hwait _ hnode =>
    cases (hwait : phase = _)
    cases hshape
    exact .prepared hnode
  | auth hrole hprep hphase =>
    cases (hprep : phase = _)
    cases hshape with
    | prepared hnode =>
      rcases hphase with rfl | ⟨err, rfl⟩
      · exact .awaitReady hnode
      · exact hlost
  | ready hrole hwait =>
    cases (hwait : phase = _)
    cases hshape with
    | awaitReady hnode => exact .returned hnode
  | @check peer _ _ hrole hwait =>
    cases (hwait : phase = _)
    cases hshape with
    | awaitAuth hnode =>
      exact @Shape.verified c _ _ ⟨⟨peer.peerNodeId, peer.peerPublicKey⟩⟩ hnode
  | confirm hrole hverified hphase =>
    cases (hverified : phase = _)
    cases hshape with
    | verified hnode =>
      rcases hphase with rfl | ⟨err, rfl⟩
      · exact .returned hnode
      · exact hlost
  | fail => exact Shape.failed hshape.of_exposed fun p hpeer => hshape.of_peer hpeer

theorem Turn.grows (hshape : run.Shaped c) : run.Grows run' := by
  cases h with
  | hello _ hbegin =>
    obtain ⟨hnonce, -, -⟩ := hshape.of_begin hbegin
    exact ⟨rfl, rfl, rfl, by simp [hnonce], fun _ h => h, fun h => h⟩
  | accept _ hbegin =>
    obtain ⟨hnonce, hpeer, -⟩ := hshape.of_begin hbegin
    exact ⟨rfl, rfl, rfl, by simp [hnonce], by simp [hpeer], fun _ => rfl⟩
  | reply _ hwait =>
    obtain ⟨hpeer, -⟩ := hshape.of_awaitAck hwait
    exact ⟨rfl, rfl, rfl, fun _ h => h, by simp [hpeer], fun h => h⟩
  | auth => exact ⟨rfl, rfl, rfl, fun _ h => h, fun _ h => h, fun _ => rfl⟩
  | _ => exact ⟨rfl, rfl, rfl, fun _ h => h, fun _ h => h, fun h => h⟩

/-- The only own nonce a turn sets is one that it draws. -/
theorem Turn.nonce_cases {n : Bytes 32} (hn : run'.nonce = some n) :
    run.nonce = some n ∨ (n ∉ s.seen ∧ n ∈ nonces) := by
  cases h with
  | hello _ _ hfresh =>
    cases hn
    exact .inr ⟨hfresh, List.mem_singleton_self _⟩
  | accept _ _ hfresh =>
    cases hn
    rw [List.mem_append, not_or] at hfresh
    exact .inr ⟨hfresh.1, by simp⟩
  | _ => exact .inl hn

/-- The only key and nonce of a peer a turn sets are those of a greeting. -/
theorem Turn.peer_cases {pn : Bytes 32} (hp : run'.peer = some (key, pn)) :
    run.peer = some (key, pn) ∨
      (run.role = .responder ∧ ∃ n pre, run'.nonce = some n ∧ nonces = pre ++ [n] ∧
        n ∉ s.seen ++ pre ∧ pn ∈ pre) ∨
      (run.role = .initiator ∧ run.phase = .awaitAck ∧ ∃ n, run.nonce = some n ∧
        (honest key → s.Signed key
          (handshakePayload run.identity.publicKey n key pn run.binding))) := by
  cases h with
  | @accept peer nonce nonces _ hrole _ hfresh hpeer =>
    cases hp
    exact .inr (.inl ⟨hrole, nonce, nonces, rfl, rfl, hfresh, hpeer⟩)
  | @reply _ nonce _ _ hrole hwait hnonce _ _ hsigned =>
    cases hp
    exact .inr (.inr ⟨hrole, hwait, nonce, hnonce, hsigned⟩)
  | _ => exact .inl hp

/-- A responder accepts when it has been shown a signature over its payload. -/
theorem Turn.accepted_cases (hrole : run.role = .responder) {outcome : HandshakeOutcome}
    (hacc : run'.accepted = some outcome) :
    run.accepted = some outcome ∨ ∃ peer n, run.phase = .awaitAuth peer ∧ run.nonce = some n ∧
      outcome.peerPublicKey = peer.peerPublicKey ∧
      (honest peer.peerPublicKey → s.Signed peer.peerPublicKey
        (responderPayload run.identity run.binding n peer)) := by
  cases h with
  | accept _ _ _ _ _ hphase =>
    rcases hphase with rfl | ⟨err, rfl⟩
    · exact absurd hacc (by simp [accepted])
    · exact absurd hacc (by simp [accepted])
  | @check peer nonce _ _ hwait hnonce hsigned =>
    cases hacc
    exact .inr ⟨peer, nonce, hwait, hnonce, rfl, hsigned⟩
  | confirm _ hverified hphase =>
    refine .inl ?_
    rcases hphase with rfl | ⟨err, rfl⟩
    · rw [accepted, hverified]
      exact hacc
    · exact absurd hacc (by simp [accepted])
  | fail => exact absurd hacc (by simp [accepted, HandshakeRun.fail])
  | _ => exact absurd (hrole.symm.trans ‹_›) (by simp)

end Turn

/-! ## Nonces and keys -/

/-- The runs are in shape, their keys are honest, and their nonces are their own. -/
structure Sound (c : Crypto) (honest : VerifyingKey → Prop) (s : Network) : Prop where
  shape : ∀ i run, s.runs i = some run → run.Shaped c
  owner : ∀ i run, s.runs i = some run → honest run.identity.publicKey
  seen : ∀ i run n, s.runs i = some run → run.nonce = some n → n ∈ s.seen
  unique : ∀ i j run run' n, s.runs i = some run → s.runs j = some run' →
    run.nonce = some n → run'.nonce = some n → i = j
  /-- A responder has seen the nonce of its peer before it drew its own. -/
  order : ∀ i run n key pn, s.runs i = some run → run.role = .responder →
    run.nonce = some n → run.peer = some (key, pn) → pn ∈ s.seen ∧ s.seen.idxOf pn < s.seen.idxOf n
  others : ∀ key message, (key, message) ∈ s.others → OtherDomain message

theorem Network.runs_setRun (s : Network) (i : Nat) (run : HandshakeRun)
    (messages : List ControlMessage) (nonces : List (Bytes 32)) (j : Nat) :
    (s.setRun i run messages nonces).runs j = if j = i then some run else s.runs j :=
  Function.update_apply ..

/-- A run of the new network is an old one, or the one that moved. -/
theorem Network.runs_setRun_cases {i j : Nat} {run r : HandshakeRun}
    (h : (s.setRun i run messages nonces).runs j = some r) :
    (j = i ∧ r = run) ∨ (j ≠ i ∧ s.runs j = some r) := by
  rw [Network.runs_setRun] at h
  split at h
  next hj =>
    exact .inl ⟨hj, (Option.some.inj h).symm⟩
  next hj =>
    exact .inr ⟨hj, h⟩

/-- A new run has no nonce yet. -/
theorem Network.runs_new {i j : Nat} {role : Role} {binding n : Bytes 32} {r : HandshakeRun}
    (h : (s.setRun i (.new role identity binding) [] []).runs j = some r) (hn : r.nonce = some n) :
    s.runs j = some r := by
  rcases Network.runs_setRun_cases h with ⟨-, rfl⟩ | ⟨-, hold⟩
  · cases hn
  · exact hold

namespace Sound

variable (h : Sound c honest s)

include h

theorem start {i : Nat} {role : Role} {identity : Identity} {binding : Bytes 32}
    (hhonest : honest identity.publicKey) :
    Sound c honest (s.setRun i (.new role identity binding) [] []) where
  shape := by
    intro j r hr
    rcases Network.runs_setRun_cases hr with ⟨-, rfl⟩ | ⟨-, hold⟩
    · exact Shape.begin
    · exact h.shape j r hold
  owner := by
    intro j r hr
    rcases Network.runs_setRun_cases hr with ⟨-, rfl⟩ | ⟨-, hold⟩
    · exact hhonest
    · exact h.owner j r hold
  seen := by
    intro j r n hr hn
    exact List.mem_append_left _ (h.seen j r n (Network.runs_new hr hn) hn)
  unique := by
    intro j j' r r' n hr hr' hn hn'
    exact h.unique j j' r r' n (Network.runs_new hr hn) (Network.runs_new hr' hn') hn hn'
  order := by
    intro j r n key pn hr hrole hn hp
    have hseen : (s.setRun i (.new role identity binding) [] []).seen = s.seen := List.append_nil _
    rw [hseen]
    exact h.order j r n key pn (Network.runs_new hr hn) hrole hn hp
  others := h.others

theorem turn {i : Nat} {run run' : HandshakeRun} {messages : List ControlMessage}
    {nonces : List (Bytes 32)} (hrun : s.runs i = some run)
    (hturn : Turn c honest s run run' messages nonces) :
    Sound c honest (s.setRun i run' messages nonces) where
  shape := by
    intro j r hr
    rcases Network.runs_setRun_cases hr with ⟨-, rfl⟩ | ⟨-, hold⟩
    · exact hturn.shaped (h.shape i run hrun)
    · exact h.shape j r hold
  owner := by
    intro j r hr
    rcases Network.runs_setRun_cases hr with ⟨-, rfl⟩ | ⟨-, hold⟩
    · rw [(hturn.grows (h.shape i run hrun)).identity]
      exact h.owner i run hrun
    · exact h.owner j r hold
  seen := by
    intro j r n hr hn
    rcases Network.runs_setRun_cases hr with ⟨-, rfl⟩ | ⟨-, hold⟩
    · rcases hturn.nonce_cases hn with hn | ⟨-, hmem⟩
      · exact List.mem_append_left _ (h.seen i run n hrun hn)
      · exact List.mem_append_right _ hmem
    · exact List.mem_append_left _ (h.seen j r n hold hn)
  unique := by
    -- A nonce that is drawn now is nobody else's: theirs have been seen.
    have hnew : ∀ {j r n}, j ≠ i → s.runs j = some r → r.nonce = some n →
        run'.nonce = some n → j = i := by
      intro j r n hj hr hn hn'
      rcases hturn.nonce_cases hn' with hold | ⟨hfresh, -⟩
      · exact h.unique j i r run n hr hrun hn hold
      · exact absurd (h.seen j r n hr hn) hfresh
    intro j j' r r' n hr hr' hn hn'
    rcases Network.runs_setRun_cases hr with ⟨rfl, rfl⟩ | ⟨hj, hold⟩
    · rcases Network.runs_setRun_cases hr' with ⟨rfl, -⟩ | ⟨hj', hold'⟩
      · rfl
      · exact (hnew hj' hold' hn' hn).symm
    · rcases Network.runs_setRun_cases hr' with ⟨rfl, rfl⟩ | ⟨hj', hold'⟩
      · exact hnew hj hold hn hn'
      · exact h.unique j j' r r' n hold hold' hn hn'
  order := by
    have hkeep : ∀ {n pn}, n ∈ s.seen → pn ∈ s.seen ∧ s.seen.idxOf pn < s.seen.idxOf n →
        pn ∈ s.seen ++ nonces ∧ (s.seen ++ nonces).idxOf pn < (s.seen ++ nonces).idxOf n := by
      intro n pn hn hpn
      rw [List.idxOf_append_of_mem hn, List.idxOf_append_of_mem hpn.1]
      exact ⟨List.mem_append_left _ hpn.1, hpn.2⟩
    intro j r n key pn hr hrole hn hp
    show pn ∈ s.seen ++ nonces ∧ (s.seen ++ nonces).idxOf pn < (s.seen ++ nonces).idxOf n
    rcases Network.runs_setRun_cases hr with ⟨-, rfl⟩ | ⟨-, hold⟩
    · have hgrows := hturn.grows (h.shape i run hrun)
      rw [hgrows.role] at hrole
      rcases hturn.peer_cases hp with hold | ⟨-, n', pre, hn', rfl, hfresh, hmem⟩ | ⟨hinit, -⟩
      · -- The run knew its peer, so its own nonce is old as well.
        rcases hturn.nonce_cases hn with hn | ⟨hfresh, hmem⟩
        · exact hkeep (h.seen i run n hrun hn) (h.order i run n key pn hrun hrole hn hold)
        obtain ⟨nonce, hnonce⟩ := (h.shape i run hrun).of_peer hold
        obtain rfl := hgrows.nonce_eq hnonce hn
        exact absurd (h.seen i run n hrun hnonce) hfresh
      · -- The greeting is read before the nonce is drawn.
        rw [hn] at hn'
        cases hn'
        rw [← List.append_assoc]
        have hpn : pn ∈ s.seen ++ pre := List.mem_append_right _ hmem
        refine ⟨List.mem_append_left _ hpn, ?_⟩
        rw [List.idxOf_append_of_mem hpn, List.idxOf_append_of_notMem hfresh]
        have hlt : (s.seen ++ pre).idxOf pn < (s.seen ++ pre).length :=
          List.idxOf_lt_length_of_mem hpn
        omega
      · exact absurd (hrole.symm.trans hinit) (by simp)
    · exact hkeep (h.seen j r n hold hn) (h.order j r n key pn hold hrole hn hp)
  others := h.others

theorem sign {key : VerifyingKey} {message : List UInt8} (hother : OtherDomain message) :
    Sound c honest { s with others := s.others ++ [(key, message)] } := by
  refine { h with others := fun key' message' hmem => ?_ }
  rcases List.mem_append.mp hmem with hold | hnew
  · exact h.others key' message' hold
  · obtain ⟨-, rfl⟩ := Prod.mk.inj (List.mem_singleton.mp hnew)
    exact hother

end Sound

end P2pFile.Transport
