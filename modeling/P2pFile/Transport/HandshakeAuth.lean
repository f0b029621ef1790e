/-
  P2pFile.Transport.HandshakeAuth

  Who takes part in a handshake that is accepted.

  A signature over a handshake payload comes from a run that knows the same two
  (key, nonce) pairs, in one order or the other.  Own nonces are unique, and a
  responder draws its nonce after it has seen the peer's; this settles who can have
  signed, except in one case: a responder that is greeted with its own key signs the
  very payload it waits for.
-/

import P2pFile.Transport.HandshakeSafety

namespace P2pFile.Transport

open Lib Protocol
open Network (runs_new runs_setRun runs_setRun_cases)

variable {c : Crypto} {honest : VerifyingKey → Prop} {s t : Network}

/-! ## Partners -/

/-- A run of `key` in `role` on `binding`, with own nonce `nonce` and peer `peer`, has
    handed its signature out. -/
def Network.Partner (s : Network) (role : Role) (key : VerifyingKey) (binding nonce : Bytes 32)
    (peer : VerifyingKey × Bytes 32) : Prop :=
  ∃ j r, s.runs j = some r ∧ r.role = role ∧ r.identity.publicKey = key ∧ r.binding = binding ∧
    r.nonce = some nonce ∧ r.peer = some peer ∧ r.exposed = true

variable {i : Nat} {run run' : HandshakeRun} {messages : List ControlMessage}
  {nonces : List (Bytes 32)} {role : Role} {peer : VerifyingKey × Bytes 32}

/-- A partner stays one. -/
theorem Sound.partner_turn {key : VerifyingKey} {binding nonce : Bytes 32}
    (h : Sound c honest s) (hrun : s.runs i = some run)
    (hturn : Turn c honest s run run' messages nonces)
    (hpartner : s.Partner role key binding nonce peer) :
    (s.setRun i run' messages nonces).Partner role key binding nonce peer := by
  obtain ⟨j, r, hr, hrole, hkey, hbind, hnonce, hpeer, hexposed⟩ := hpartner
  by_cases hj : j = i
  · rw [hj, hrun] at hr
    cases hr
    have hgrows := hturn.grows (h.shape i run hrun)
    refine ⟨i, run', ?_, ?_, ?_, ?_, hgrows.nonce _ hnonce, hgrows.peer _ hpeer,
      hgrows.exposed hexposed⟩
    · rw [runs_setRun, if_pos rfl]
    · rw [hgrows.role, hrole]
    · rw [hgrows.identity, hkey]
    · rw [hgrows.binding, hbind]
  · refine ⟨j, r, ?_, hrole, hkey, hbind, hnonce, hpeer, hexposed⟩
    rw [runs_setRun, if_neg hj, hr]

theorem Network.Partner.start {key : VerifyingKey} {binding nonce : Bytes 32}
    (hnew : s.runs i = none) (hpartner : s.Partner role key binding nonce peer) :
    (s.setRun i run [] []).Partner role key binding nonce peer := by
  obtain ⟨j, r, hr, hrest⟩ := hpartner
  refine ⟨j, r, ?_, hrest⟩
  rw [runs_setRun, if_neg, hr]
  rintro rfl
  rw [hnew] at hr
  cases hr

/-- Whoever signed a handshake payload runs with its two pairs, as own and peer's in
    one of the two ways. -/
theorem Sound.signed_cases (h : Sound c honest s) {key ka na kb nb cb : Bytes 32}
    (hsigned : s.Signed key (handshakePayload ka na kb nb cb)) :
    ∃ j r n k pn, s.runs j = some r ∧ r.exposed = true ∧ r.identity.publicKey = key ∧
      r.binding = cb ∧ r.nonce = some n ∧ r.peer = some (k, pn) ∧
      (((key, n) = (ka, na) ∧ (k, pn) = (kb, nb)) ∨
        ((key, n) = (kb, nb) ∧ (k, pn) = (ka, na))) := by
  rcases hsigned with ⟨j, r, hr, hexposed, hkey, hpayload⟩ | hother
  · obtain ⟨⟨k, pn⟩, hpeer⟩ := (h.shape j r hr).of_exposed hexposed
    obtain ⟨n, hnonce⟩ := (h.shape j r hr).of_peer hpeer
    simp only [HandshakeRun.payload, hnonce, hpeer, Option.some.injEq, hkey] at hpayload
    refine ⟨j, r, n, k, pn, hr, hexposed, hkey, ?_⟩
    cases hrole : r.role with
    | initiator =>
      rw [hrole] at hpayload
      obtain ⟨hbind, hpairs⟩ := handshakePayload_inj hpayload
      exact ⟨hbind, hnonce, hpeer, hpairs⟩
    | responder =>
      rw [hrole] at hpayload
      obtain ⟨hbind, hpairs⟩ := handshakePayload_inj hpayload
      refine ⟨hbind, hnonce, hpeer, ?_⟩
      rcases hpairs with ⟨hfirst, hsecond⟩ | ⟨hfirst, hsecond⟩
      · exact .inr ⟨hsecond, hfirst⟩
      · exact .inl ⟨hsecond, hfirst⟩
  · exact absurd rfl (h.others _ _ hother ka na kb nb cb)

/-- Accepted runs have their partners. -/
structure Authentic (c : Crypto) (honest : VerifyingKey → Prop) (s : Network) : Prop extends
    Sound c honest s where
  initiator : ∀ i run n key pn, s.runs i = some run → run.role = .initiator →
    run.nonce = some n → run.peer = some (key, pn) → honest key →
      s.Partner .responder key run.binding pn (run.identity.publicKey, n)
  responder : ∀ i run outcome n pn, s.runs i = some run → run.role = .responder →
    run.accepted = some outcome → run.nonce = some n →
    run.peer = some (outcome.peerPublicKey, pn) → honest outcome.peerPublicKey →
    outcome.peerPublicKey ≠ run.identity.publicKey →
      s.Partner .initiator outcome.peerPublicKey run.binding pn (run.identity.publicKey, n)

namespace Authentic

variable {key n pn : Bytes 32} (h : Authentic c honest s)

include h

variable (hrun : s.runs i = some run)

include hrun

/-- An initiator that waits for its HelloAck is shown a signature of `key`: it was
    made by a responder. -/
theorem partner_of_reply (hrole : run.role = .initiator) (hwait : run.phase = .awaitAck)
    (hnonce : run.nonce = some n)
    (hsigned : s.Signed key (handshakePayload run.identity.publicKey n key pn run.binding)) :
    s.Partner .responder key run.binding pn (run.identity.publicKey, n) := by
  obtain ⟨j, r, n', k, pn', hr, hexposed, hkey, hbind, hnonce', hpeer, hpairs⟩ :=
    h.signed_cases hsigned
  rcases hpairs with ⟨hown, hother⟩ | ⟨hown, hother⟩
  · -- The signer has the initiator's nonce, so it is the initiator; but it has not signed.
    obtain ⟨-, rfl⟩ := Prod.mk.inj hown
    obtain rfl := h.unique j i r run n' hr hrun hnonce' hnonce
    rw [hrun] at hr
    cases hr
    rw [((h.shape j run hrun).of_awaitAck hwait).2] at hexposed
    cases hexposed
  · obtain ⟨-, rfl⟩ := Prod.mk.inj hown
    obtain ⟨rfl, rfl⟩ := Prod.mk.inj hother
    cases hrole' : r.role with
    | responder => exact ⟨j, r, hr, hrole', hkey, hbind, hnonce', hpeer, hexposed⟩
    | initiator =>
      -- Another initiator has accepted our key and nonce from a responder of ours.
      obtain ⟨j', r', hr', hresponder, -, -, hnonce'', -⟩ :=
        h.initiator j r n' run.identity.publicKey pn' hr hrole' hnonce' hpeer (h.owner i run hrun)
      obtain rfl := h.unique j' i r' run pn' hr' hrun hnonce'' hnonce
      rw [hrun] at hr'
      cases hr'
      exact absurd (hresponder.symm.trans hrole) (by simp)

/-- A responder that waits for the Auth is shown a signature of `key`, which is not its
    own: it was made by an initiator. -/
theorem partner_of_auth (hrole : run.role = .responder) (hnonce : run.nonce = some n)
    (hpeer : run.peer = some (key, pn)) (hne : key ≠ run.identity.publicKey)
    (hsigned : s.Signed key (handshakePayload key pn run.identity.publicKey n run.binding)) :
    s.Partner .initiator key run.binding pn (run.identity.publicKey, n) := by
  obtain ⟨j, r, n', k, pn', hr, hexposed, hkey, hbind, hnonce', hpeer', hpairs⟩ :=
    h.signed_cases hsigned
  rcases hpairs with ⟨hown, hother⟩ | ⟨hown, hother⟩
  · obtain ⟨-, rfl⟩ := Prod.mk.inj hown
    obtain ⟨rfl, rfl⟩ := Prod.mk.inj hother
    cases hrole' : r.role with
    | initiator => exact ⟨j, r, hr, hrole', hkey, hbind, hnonce', hpeer', hexposed⟩
    | responder =>
      -- Two responders that greet each other would each have seen the other's nonce first.
      have hours := (h.order i run pn' key n' hrun hrole hnonce hpeer).2
      have htheirs := (h.order j r n' run.identity.publicKey pn' hr hrole' hnonce' hpeer').2
      omega
  · -- The signer has the responder's own key: this is the reflection.
    obtain ⟨hsame, -⟩ := Prod.mk.inj hown
    exact absurd hsame hne

theorem turn (hturn : Turn c honest s run run' messages nonces) :
    Authentic c honest (s.setRun i run' messages nonces) where
  toSound := h.toSound.turn hrun hturn
  initiator := by
    intro j r n key pn hr hrole hn hp hhonest
    refine h.toSound.partner_turn hrun hturn ?_
    rcases runs_setRun_cases hr with ⟨-, rfl⟩ | ⟨-, hold⟩
    · have hgrows := hturn.grows (h.shape i run hrun)
      rw [hgrows.role] at hrole
      rw [hgrows.binding, hgrows.identity]
      rcases hturn.peer_cases hp with hold | ⟨hresp, -⟩ | ⟨-, hwait, n', hn', hsigned⟩
      · obtain ⟨n', hn'⟩ := (h.shape i run hrun).of_peer hold
        obtain rfl := hgrows.nonce_eq hn' hn
        exact h.initiator i run n key pn hrun hrole hn' hold hhonest
      · exact absurd (hrole.symm.trans hresp) (by simp)
      · obtain rfl := hgrows.nonce_eq hn' hn
        exact h.partner_of_reply hrun hrole hwait hn' (hsigned hhonest)
    · exact h.initiator j r n key pn hold hrole hn hp hhonest
  responder := by
    intro j r outcome n pn hr hrole hacc hn hp hhonest hne
    refine h.toSound.partner_turn hrun hturn ?_
    rcases runs_setRun_cases hr with ⟨-, rfl⟩ | ⟨-, hold⟩
    · have hgrows := hturn.grows (h.shape i run hrun)
      rw [hgrows.role] at hrole
      rw [hgrows.identity] at hne
      rw [hgrows.binding, hgrows.identity]
      rcases hturn.accepted_cases hrole hacc with hold | ⟨peer, n', hwait, hn', hkey, hsigned⟩
      · obtain ⟨-, n', pn', hn', hp'⟩ := (h.shape i run hrun).of_accepted hold
        obtain rfl := hgrows.nonce_eq hn' hn
        have hpeq := hgrows.peer _ hp'
        rw [hp] at hpeq
        cases hpeq
        exact h.responder i run outcome n pn hrun hrole hold hn' hp' hhonest hne
      · have hpeer := (h.shape i run hrun).of_awaitAuth hwait
        obtain rfl := hgrows.nonce_eq hn' hn
        have hpeq := hgrows.peer _ hpeer
        rw [hp] at hpeq
        obtain ⟨-, rfl⟩ := Prod.mk.inj (Option.some.inj hpeq)
        rw [hkey] at hne hhonest ⊢
        exact h.partner_of_auth hrun hrole hn' hpeer hne (hsigned hhonest)
    · exact h.responder j r outcome n pn hold hrole hacc hn hp hhonest hne

omit hrun

theorem start {role : Role} {identity : Identity} {binding : Bytes 32} (hnew : s.runs i = none)
    (hhonest : honest identity.publicKey) :
    Authentic c honest (s.setRun i (.new role identity binding) [] []) where
  toSound := h.toSound.start hhonest
  initiator := by
    intro j r n key pn hr hrole hn hp hkey
    exact (h.initiator j r n key pn (runs_new hr hn) hrole hn hp hkey).start hnew
  responder := by
    intro j r outcome n pn hr hrole hacc hn hp hkey hne
    exact (h.responder j r outcome n pn (runs_new hr hn) hrole hacc hn hp hkey hne).start hnew

theorem move (hm : NetMove c honest s t) : Authentic c honest t := by
  cases hm with
  | start hnew hhonest => exact h.start hnew hhonest
  | turn hrun hturn => exact h.turn hrun hturn
  | sign hother => exact ⟨h.toSound.sign hother, h.initiator, h.responder⟩

end Authentic

variable {es : List Event}

theorem run_authentic (h : ((handshakeMachine c).restrict (Ideal c honest)).Run es s) :
    Authentic c honest s := by
  refine Machine.Run.inv (I := Authentic c honest) ?_ ?_ h
  · rintro s rfl
    refine ⟨⟨?_, ?_, ?_, ?_, ?_, ?_⟩, ?_, ?_⟩ <;> simp
  · intro s e t hI hstep
    exact hI.move (step_netMove hstep)

/-! ## What the runs have sent -/

/-- The messages of `run` are among `sent`, and a prepared signature is over the pairs
    that the run knows. -/
structure HandshakeRun.Wired (c : Crypto) (run : HandshakeRun) (sent : ControlMessage → Prop) :
    Prop where
  hello : run.role = .initiator → ∀ n, run.nonce = some n → sent (initiatorHello c run.identity n)
  prepared : ∀ handshake, run.phase = .prepared handshake → ∀ n key pn, run.nonce = some n →
    run.peer = some (key, pn) → handshake.signature = (run.identity.sign (handshakePayload
      run.identity.publicKey n key pn run.binding)).toList
  auth : run.role = .initiator → run.exposed = true → ∀ n key pn, run.nonce = some n →
    run.peer = some (key, pn) → sent (.auth (run.identity.sign (handshakePayload
      run.identity.publicKey n key pn run.binding)).toList)
  ack : run.role = .responder → ∀ n key pn, run.nonce = some n → run.peer = some (key, pn) →
    sent (.helloAck protocolVersion (run.identity.nodeId c) run.identity.publicKey n pn
      (run.identity.sign (handshakePayload key pn run.identity.publicKey n run.binding)).toList)

namespace HandshakeRun.Wired

variable {sent sent' : ControlMessage → Prop}

theorem mono (h : run.Wired c sent) (hsent : ∀ m, sent m → sent' m) : run.Wired c sent' where
  hello hrole n hn := hsent _ (h.hello hrole n hn)
  prepared := h.prepared
  auth hrole hexposed n key pn hn hp := hsent _ (h.auth hrole hexposed n key pn hn hp)
  ack hrole n key pn hn hp := hsent _ (h.ack hrole n key pn hn hp)

/-- Only the phase `prepared` is constrained. -/
theorem setPhase (h : run.Wired c sent) {phase : Phase}
    (hphase : ∀ handshake, phase ≠ .prepared handshake) : { run with phase }.Wired c sent where
  hello := h.hello
  prepared handshake heq := absurd heq (hphase handshake)
  auth := h.auth
  ack := h.ack

end HandshakeRun.Wired

theorem Phase.AfterWrite.ne_prepared {next phase : Phase} (h : next.AfterWrite phase)
    (hnext : ∀ handshake, next ≠ .prepared handshake) (handshake : PreparedHandshake) :
    phase ≠ .prepared handshake := by
  rcases h with rfl | ⟨err, rfl⟩
  · exact hnext handshake
  · simp

theorem Turn.wired {sent : ControlMessage → Prop} (h : Turn c honest s run run' messages nonces)
    (hshape : run.Shaped c) (hwired : run.Wired c sent) (hsent : ∀ m ∈ messages, sent m) :
    run'.Wired c sent := by
  cases h with
  | hello hrole hbegin _ hphase =>
    obtain ⟨-, -, hexposed⟩ := hshape.of_begin hbegin
    constructor
    · rintro - n hn
      cases hn
      exact hsent _ (List.mem_singleton_self _)
    · intro handshake heq
      exact absurd heq (hphase.ne_prepared (by simp) handshake)
    · intro _ htrue
      exact absurd (hexposed.symm.trans htrue) (by simp)
    · intro hresponder
      exact absurd (hrole.symm.trans hresponder) (by simp)
  | accept hrole _ _ _ _ hphase =>
    constructor
    · intro hinit
      exact absurd (hrole.symm.trans hinit) (by simp)
    · intro handshake heq
      exact absurd heq (hphase.ne_prepared (by simp) handshake)
    · intro hinit
      exact absurd (hrole.symm.trans hinit) (by simp)
    · rintro - n key pn hn hp
      cases hn
      cases hp
      exact hsent _ (List.mem_singleton_self _)
  | reply hrole hwait hnonce _ hsignature =>
    obtain ⟨-, hexposed⟩ := hshape.of_awaitAck hwait
    constructor
    · exact hwired.hello
    · intro handshake heq n key pn hn hp
      obtain rfl := Phase.prepared.inj heq
      obtain rfl := Option.some.inj (hnonce.symm.trans hn)
      cases hp
      exact hsignature
    · intro _ htrue
      exact absurd (hexposed.symm.trans htrue) (by simp)
    · intro hresponder
      exact absurd (hrole.symm.trans hresponder) (by simp)
  | auth hrole hprep hphase =>
    constructor
    · exact hwired.hello
    · intro handshake heq
      exact absurd heq (hphase.ne_prepared (by simp) handshake)
    · intro _ _ n key pn hn hp
      have hmem := hsent _ (List.mem_singleton_self _)
      rw [hwired.prepared _ hprep n key pn hn hp] at hmem
      exact hmem
    · exact hwired.ack
  | confirm _ _ hphase => exact hwired.setPhase (hphase.ne_prepared (by simp))
  | _ => exact hwired.setPhase (by simp)

/-- Every run has sent what its fields say. -/
def Network.Wired (c : Crypto) (s : Network) : Prop :=
  ∀ i run, s.runs i = some run → run.Wired c fun m => (i, m) ∈ s.sent

theorem Network.Wired.move (h : s.Wired c) (hsound : Sound c honest s)
    (hm : NetMove c honest s t) : t.Wired c := by
  cases hm with
  | @start i role identity binding hnew hhonest =>
    intro j r hr
    rcases runs_setRun_cases hr with ⟨-, rfl⟩ | ⟨-, hold⟩
    · constructor <;> simp [HandshakeRun.new]
    · exact (h j r hold).mono fun _ hmem => List.mem_append_left _ hmem
  | @turn i run run' messages nonces hrun hturn =>
    intro j r hr
    rcases runs_setRun_cases hr with ⟨rfl, rfl⟩ | ⟨-, hold⟩
    · refine hturn.wired (hsound.shape j run hrun) ?_ ?_
      · exact (h j run hrun).mono fun _ hmem => List.mem_append_left _ hmem
      · intro m hm
        exact List.mem_append_right _ (List.mem_map_of_mem hm)
    · exact (h j r hold).mono fun _ hmem => List.mem_append_left _ hmem
  | sign => exact h

theorem run_wired (h : ((handshakeMachine c).restrict (Ideal c honest)).Run es s) : s.Wired c := by
  refine Machine.Run.hist (I := fun _ s => s.Wired c) ?_ ?_ h
  · rintro s rfl i run hrun
    cases hrun
  · intro es s e t hrun hI hstep
    exact hI.move (run_authentic hrun).toSound (step_netMove hstep)

/-! ## The authentication theorem -/

/-- **Peer authentication.**  Under ideal cryptography a run that accepts an honest key
    `K` learns the node id of `K`.  If it is an initiator, the holder of `K` has run as
    the responder on the same binding with the same two nonces, and sent the HelloAck.
    If it is a responder and `K` is not its own key, the holder of `K` has run as the
    initiator on the same binding, and sent the Hello and the Auth over the same two
    nonces and the responder's key. -/
theorem handshake_authentic {es : List Event}
    (h : ((handshakeMachine c).restrict (Ideal c honest)).Run es s)
    {i : Nat} {run : HandshakeRun} {outcome : HandshakeOutcome} (hrun : s.runs i = some run)
    (haccepted : run.accepted = some outcome) (hhonest : honest outcome.peerPublicKey)
    (hother : run.role = .responder → outcome.peerPublicKey ≠ run.identity.publicKey) :
    outcome.peerNodeId = NodeId.fromPublicKey c outcome.peerPublicKey ∧
    ∃ n pn j r, run.nonce = some n ∧ run.peer = some (outcome.peerPublicKey, pn) ∧
      j ≠ i ∧ s.runs j = some r ∧ r.identity.publicKey = outcome.peerPublicKey ∧
      r.binding = run.binding ∧ r.nonce = some pn ∧ r.peer = some (run.identity.publicKey, n) ∧
      match run.role with
      | .initiator => r.role = .responder ∧
          (j, ControlMessage.helloAck protocolVersion (r.identity.nodeId c)
            outcome.peerPublicKey pn n (r.identity.sign (handshakePayload run.identity.publicKey n
              outcome.peerPublicKey pn run.binding)).toList) ∈ s.sent
      | .responder => r.role = .initiator ∧
          (j, initiatorHello c r.identity pn) ∈ s.sent ∧
          (j, ControlMessage.auth (r.identity.sign (handshakePayload outcome.peerPublicKey pn
            run.identity.publicKey n run.binding)).toList) ∈ s.sent := by
  have hI := run_authentic h
  have hwired := run_wired h
  obtain ⟨hnode, n, pn, hn, hp⟩ := (hI.shape i run hrun).of_accepted haccepted
  refine ⟨hnode, n, pn, ?_⟩
  have hdistinct : ∀ {j r}, s.runs j = some r → r.role ≠ run.role → j ≠ i := by
    rintro j r hr hne rfl
    cases hr.symm.trans hrun
    exact hne rfl
  cases hrole : run.role with
  | initiator =>
    obtain ⟨j, r, hr, hrole', hkey, hbinding, hn', hp', -⟩ :=
      hI.initiator i run n _ pn hrun hrole hn hp hhonest
    have hne : j ≠ i := hdistinct hr (by rw [hrole, hrole']; simp)
    have hack := (hwired j r hr).ack hrole' pn _ n hn' hp'
    rw [hkey, hbinding] at hack
    exact ⟨j, r, hn, hp, hne, hr, hkey, hbinding, hn', hp', hrole', hack⟩
  | responder =>
    obtain ⟨j, r, hr, hrole', hkey, hbinding, hn', hp', hexposed⟩ :=
      hI.responder i run outcome n pn hrun hrole haccepted hn hp hhonest (hother hrole)
    have hne : j ≠ i := hdistinct hr (by rw [hrole, hrole']; simp)
    have hauth := (hwired j r hr).auth hrole' hexposed pn _ n hn' hp'
    rw [hkey, hbinding] at hauth
    exact ⟨j, r, hn, hp, hne, hr, hkey, hbinding, hn', hp', hrole',
      (hwired j r hr).hello hrole' pn hn', hauth⟩

/-- The other run has the two nonces and the two keys of this one, in the other role. -/
structure HandshakeRun.Matches (run r : HandshakeRun) : Prop where
  role : r.role ≠ run.role
  binding : r.binding = run.binding
  peer : ∃ n, r.nonce = some n ∧ run.peer = some (r.identity.publicKey, n)
  back : ∃ n, run.nonce = some n ∧ r.peer = some (run.identity.publicKey, n)

/-- **Injective agreement.**  Under ideal cryptography accepted runs and their partners
    belong together one to one.  A run that accepts an honest key, and as a responder not
    its own, matches exactly one run of the network, and no second run matches that one. -/
theorem handshake_injective {es : List Event}
    (h : ((handshakeMachine c).restrict (Ideal c honest)).Run es s)
    {i : Nat} {run : HandshakeRun} {outcome : HandshakeOutcome} (hrun : s.runs i = some run)
    (haccepted : run.accepted = some outcome) (hhonest : honest outcome.peerPublicKey)
    (hother : run.role = .responder → outcome.peerPublicKey ≠ run.identity.publicKey) :
    (∃! j, ∃ r, s.runs j = some r ∧ run.Matches r) ∧
    ∀ j r, s.runs j = some r → run.Matches r →
      ∀ i' run', s.runs i' = some run' → run'.Matches r → i' = i := by
  have hI := run_authentic h
  obtain ⟨-, n, pn, hn, hp⟩ := (hI.shape i run hrun).of_accepted haccepted
  have hpartner : ∃ role, role ≠ run.role ∧
      s.Partner role outcome.peerPublicKey run.binding pn (run.identity.publicKey, n) := by
    cases hrole : run.role with
    | initiator => exact ⟨_, by simp, hI.initiator i run n _ pn hrun hrole hn hp hhonest⟩
    | responder =>
      exact ⟨_, by simp,
        hI.responder i run outcome n pn hrun hrole haccepted hn hp hhonest (hother hrole)⟩
  obtain ⟨-, hne, j, r, hr, rfl, hkey, hbinding, hn', hp', -⟩ := hpartner
  refine ⟨⟨j, ⟨r, hr, hne, hbinding, ⟨pn, hn', hkey ▸ hp⟩, n, hn, hp'⟩, ?_⟩, ?_⟩
  · -- The nonce that the run has seen is drawn by one run only.
    rintro j' ⟨r', hr', -, -, ⟨pn', hn'', hp''⟩, -⟩
    obtain ⟨-, rfl⟩ := Prod.mk.inj (Option.some.inj (hp.symm.trans hp''))
    exact hI.unique j' j r' r _ hr' hr hn'' hn'
  · rintro j r hr ⟨-, -, -, n₁, hn₁, hp₁⟩ i' run' hrun' ⟨-, -, -, n₂, hn₂, hp₂⟩
    obtain ⟨-, rfl⟩ := Prod.mk.inj (Option.some.inj (hp₁.symm.trans hp₂))
    exact hI.unique i' i run' run _ hrun' hrun hn₂ hn₁

/-! ## Two runs

Keys 1 and 2, binding 9, and three signatures that verify. -/

namespace Sample

variable (x : UInt8)

def key : VerifyingKey := Bytes.fill 32 x

def nonce : Bytes 32 := Bytes.fill 32 x

def binding : Bytes 32 := Bytes.fill 32 9

/-- Initiator 1 with nonce 11, responder 2 with nonce 12. -/
def session : List UInt8 := handshakePayload (key 1) (nonce 11) (key 2) (nonce 12) binding

/-- Responder 2 with nonce 12, greeted with its own key and nonce 13. -/
def mirrored : List UInt8 := handshakePayload (key 2) (nonce 13) (key 2) (nonce 12) binding

def signatures : List (VerifyingKey × List UInt8 × Bytes 64) :=
  [(key 1, session, Bytes.fill 64 1), (key 2, session, Bytes.fill 64 2),
   (key 2, mirrored, Bytes.fill 64 3)]

def identity : Identity :=
  ⟨key x, fun message => Bytes.fill 64 (if message = mirrored then 3 else x)⟩

def crypto : Crypto :=
  { Crypto.sample with
    verify := fun key message sig =>
      if (key, message, sig) ∈ signatures then .ok () else .error "bad signature" }

def nodeId : NodeId := NodeId.fromPublicKey crypto (key x)

/-- Run `j` has handed out its signature of `message` under `key`. -/
def signedBy (s : Network) (key : VerifyingKey) (message : List UInt8) (j : Nat) : Bool :=
  match s.runs j with
  | some run => run.exposed && run.identity.publicKey == key && run.payload == some message
  | none => false

/-- What a signature in the message verifies for was signed by run 0 or run 1. -/
def genuine (s : Network) (inbound : Inbound) : Bool :=
  signatures.all fun (key, message, sig) =>
    inbound.signature != some sig.toList || [0, 1].any (signedBy s key message)

def ideal (s : Network) : Event → Bool
  | .hello _ nonce _ => nonce ∉ s.seen
  | .accept _ inbound nonce _ => (nonce ∉ s.seen ++ inbound.nonces) && genuine s inbound
  | .recv _ inbound => genuine s inbound
  | _ => true

theorem signedBy_sound {key : VerifyingKey} {message : List UInt8} {j : Nat}
    (h : signedBy s key message j = true) : s.Signed key message := by
  unfold signedBy at h
  split at h
  next run hrun =>
    simp only [Bool.and_eq_true, beq_iff_eq] at h
    exact .inl ⟨j, run, hrun, h.1.1, h.1.2, h.2⟩
  · cases h

theorem genuine_sound {inbound : Inbound} (h : genuine s inbound = true) :
    s.Genuine crypto (fun _ => True) inbound := by
  intro key message sig hsig _ hver
  have hmem : (key, message, sig) ∈ signatures := by
    by_contra hnot
    simp [crypto, hnot] at hver
  have hentry := List.all_eq_true.mp h _ hmem
  simp only [hsig, bne_self_eq_false, Bool.false_or, List.any_eq_true] at hentry
  obtain ⟨j, -, hj⟩ := hentry
  exact signedBy_sound hj

theorem ideal_sound {e : Event} (h : ideal s e = true) : Ideal crypto (fun _ => True) s e t := by
  cases e with
  | hello =>
    simp only [ideal, decide_eq_true_eq] at h
    exact h
  | accept =>
    simp only [ideal, Bool.and_eq_true, decide_eq_true_eq] at h
    exact ⟨h.1, genuine_sound h.2⟩
  | recv => exact genuine_sound h
  | _ => exact trivial

def empty : Network := ⟨fun _ => none, [], [], []⟩

/-- The network after `events`, if each of them is possible and ideal. -/
def exec (events : List Event) : Option Network :=
  Machine.exec (fun s e => if ideal s e then s.step crypto e else none) empty events

theorem run_of_exec {events : List Event} (h : exec events = some s) :
    ((handshakeMachine crypto).restrict (Ideal crypto fun _ => True)).Run events s :=
  Machine.restrict_run_of_exec (fun _ _ _ _ _ _ hok => ideal_sound hok) rfl h

/-- An undisturbed handshake of run 0 (initiator 1) and run 1 (responder 2). -/
def honestEvents : List Event :=
  [.start 0 .initiator (identity 1) binding, .start 1 .responder (identity 2) binding,
   .hello 0 (nonce 11) .written,
   .accept 1 (.frame (.hello 3 (nodeId 1) (key 1) (nonce 11))) (nonce 12) .written,
   .recv 0 (.frame (.helloAck 3 (nodeId 2) (key 2) (nonce 12) (nonce 11) (List.replicate 64 2))),
   .finish 0 .written,
   .recv 1 (.frame (.auth (List.replicate 64 1))), .finish 1 .written,
   .recv 0 (.frame .ready)]

theorem honestEvents_isSome : (exec honestEvents).isSome = true := by decide +kernel

def honestNetwork : Network := (exec honestEvents).get honestEvents_isSome

theorem honestResponder_isSome : (honestNetwork.runs 1).isSome = true := by decide +kernel

def honestResponder : HandshakeRun := (honestNetwork.runs 1).get honestResponder_isSome

theorem honestResponder_phase : honestResponder.phase = .returned ⟨nodeId 1, key 1⟩ := rfl

/-- Run 0 (responder 2) is greeted with its own key, and shown its own signature. -/
def mirrorEvents : List Event :=
  [.start 0 .responder (identity 2) binding,
   .accept 0 (.frame (.hello 3 (nodeId 2) (key 2) (nonce 13))) (nonce 12) .written,
   .recv 0 (.frame (.auth (List.replicate 64 3))), .finish 0 .written]

theorem mirrorEvents_isSome : (exec mirrorEvents).isSome = true := by decide +kernel

def mirrorNetwork : Network := (exec mirrorEvents).get mirrorEvents_isSome

theorem mirrorResponder_isSome : (mirrorNetwork.runs 0).isSome = true := by decide +kernel

def mirrorResponder : HandshakeRun := (mirrorNetwork.runs 0).get mirrorResponder_isSome

theorem mirrorNetwork_runs (k : Nat) : mirrorNetwork.runs (k + 1) = none := rfl

end Sample

open Sample in
/-- In the undisturbed handshake the responder has accepted key 1, and run 0 is the
    initiator that it owes this to. -/
theorem handshake_authentic_sample :
    ∃ run outcome, honestNetwork.runs 1 = some run ∧ run.role = .responder ∧
      run.phase = .returned outcome ∧ outcome.peerPublicKey = key 1 ∧
      ∃ n pn j r, run.nonce = some n ∧ honestNetwork.runs j = some r ∧ j ≠ 1 ∧
        r.identity.publicKey = key 1 ∧ r.role = .initiator ∧
        (j, initiatorHello crypto r.identity pn) ∈ honestNetwork.sent := by
  have hrole : honestResponder.role = .responder := by decide +kernel
  have hself : key 1 ≠ honestResponder.identity.publicKey := by decide +kernel
  have hrun : honestNetwork.runs 1 = some honestResponder :=
    (Option.some_get honestResponder_isSome).symm
  have haccepted : honestResponder.accepted = some ⟨nodeId 1, key 1⟩ := by
    rw [HandshakeRun.accepted, honestResponder_phase]
  have hauth := handshake_authentic
    (run_of_exec (Option.some_get honestEvents_isSome).symm) hrun haccepted trivial
    (fun _ => hself)
  obtain ⟨-, n, pn, j, r, hn, -, hne, hr, hkey, -, -, -, hinitiator, hhello, -⟩ := hauth
  exact ⟨honestResponder, _, hrun, hrole, honestResponder_phase, rfl, n, pn, j, r,
    hn, hr, hne, hkey, hinitiator, hhello⟩

open Sample in
/-- The responder of the undisturbed handshake matches run 0 and no other. -/
theorem handshake_injective_sample :
    ∃! j, ∃ r, honestNetwork.runs j = some r ∧ honestResponder.Matches r := by
  have hself : key 1 ≠ honestResponder.identity.publicKey := by decide +kernel
  have haccepted : honestResponder.accepted = some ⟨nodeId 1, key 1⟩ := by
    rw [HandshakeRun.accepted, honestResponder_phase]
  exact (handshake_injective (run_of_exec (Option.some_get honestEvents_isSome).symm)
    (Option.some_get honestResponder_isSome).symm haccepted trivial fun _ => hself).1

open Sample in
/-- A responder can be made to accept its own key although no initiator has ever run:
    the signature of its HelloAck is the Auth it waits for. -/
theorem handshake_reflected : ∃ c es s i run outcome,
      ((handshakeMachine c).restrict (Ideal c fun _ => True)).Run es s ∧
      s.runs i = some run ∧ run.role = .responder ∧ run.phase = .returned outcome ∧
      outcome.peerPublicKey = run.identity.publicKey ∧ ∀ j, j ≠ i → s.runs j = none := by
  refine ⟨crypto, mirrorEvents, mirrorNetwork, 0,
    mirrorResponder, ⟨nodeId 2, key 2⟩,
    run_of_exec (Option.some_get mirrorEvents_isSome).symm,
    (Option.some_get mirrorResponder_isSome).symm, by decide +kernel, rfl, by decide +kernel, ?_⟩
  intro j hj
  obtain ⟨k, rfl⟩ := Nat.exists_eq_succ_of_ne_zero hj
  exact mirrorNetwork_runs k

end P2pFile.Transport
