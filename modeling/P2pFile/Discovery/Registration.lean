/-
  P2pFile.Discovery.Registration

  Who is in the online table, and how they got there.

  The registration history of a connection (`history`) keeps its challenges, the
  Registers that consumed one, and the records it inserted.  `Stage` ties the
  control state of a handler to that history: it can only be a prefix of one
  challenge, one Register with a valid signature over it, and one record.
-/

import P2pFile.Discovery.History

namespace P2pFile.Discovery

open Lib
open Function (update_of_ne update_self)

variable {c : Crypto} {config : SignalServerConfig} {s t : Server} {id : Nat}

/-! ## Registration history -/

inductive RegEntry where
  | challenged (challenge : Bytes 32)
  | consumed (challenge : Bytes 32) (nodeId : NodeId) (publicKey : Bytes 32)
      (candidates : List Candidate) (signature : List UInt8)
  | inserted (nodeId : NodeId) (candidates : List Candidate)
  deriving DecidableEq

/-- What an entry says about the registration of connection `id`. -/
def Entry.registration (id : Nat) : Entry → Option RegEntry
  | .queued id' (.registerChallenge _ challenge) =>
    if id' = id then some (.challenged challenge) else none
  | .consumed id' challenge n key candidates signature =>
    if id' = id then some (.consumed challenge n key candidates signature) else none
  | .inserted id' n candidates => if id' = id then some (.inserted n candidates) else none
  | _ => none

variable {challenge key : Bytes 32} {n : NodeId} {candidates : List Candidate}
  {signature : List UInt8}

theorem Entry.registration_eq_consumed {x : Entry}
    (h : x.registration id = some (.consumed challenge n key candidates signature)) :
    x = .consumed id challenge n key candidates signature := by
  unfold Entry.registration at h
  split at h
  · simp at h
  · simpa [eq_comm] using h
  · simp at h
  · simp at h

/-- The registration history of connection `id`. -/
def history (id : Nat) (log : List Entry) : List RegEntry := log.filterMap (Entry.registration id)

@[simp] theorem history_append (log log' : List Entry) :
    history id (log ++ log') = history id log ++ history id log' :=
  List.filterMap_append ..

@[simp] theorem history_frame_cons (id' : Nat) (m : SignalMessage) (log : List Entry) :
    history id (.frame id' m :: log) = history id log := rfl

variable {entries : List Entry}

theorem history_eq_nil (h : ∀ x ∈ entries, Entry.registration id x = none) :
    history id entries = [] := by
  rw [history, List.filterMap_eq_nil_iff]
  exact h

theorem history_frames {id' : Nat} (h : ∀ x ∈ entries, ∃ m, x = Entry.frame id' m) :
    history id entries = [] := by
  refine history_eq_nil ?_
  intro x hx
  obtain ⟨m, rfl⟩ := h x hx
  rfl

theorem history_pairEntries (s : Server) (config : SignalServerConfig) (a b : NodeId)
    (token : Relay.Token) : history id (s.pairEntries config a b token) = [] := by
  unfold Server.pairEntries
  split
  · split <;> rfl
  · rfl

/-- A reply other than a challenge is not part of the history. -/
theorem history_reply {reply : Reply} {id' : Nat}
    (h : ∀ version nonce, reply ≠ .challenge version nonce) :
    history id [.queued id' reply.message] = [] := by
  cases reply with
  | challenge version nonce => exact absurd rfl (h version nonce)
  | _ => rfl

/-! ## Stages -/

/-- The phases of a handler that has registered. -/
inductive Phase.Settled : Phase → Prop
  | calm {phase : Phase} (h : phase.Calm) : Settled phase
  | deferred {target : NodeId} : Settled (.replying (.pending target) .read)
  | announcing {reply : Reply} {node : NodeId} {replaced : Option Nat} {live : List NodeId}
      (h : ∀ version nonce, reply ≠ .challenge version nonce) :
      Settled (.replying reply (.wake node replaced live))
  | kicking {node : NodeId} {replaced : Nat} {live : List NodeId} :
      Settled (.kicking node replaced live)
  | waking {node : NodeId} {live : List NodeId} : Settled (.waking node live)

theorem Phase.Settled.not_early {phase : Phase} (h : phase.Settled) :
    phase ≠ .connecting ∧ (∀ r, phase ≠ .admitting r) ∧ ∀ r, phase ≠ .storing r := by
  cases h with
  | calm h =>
    cases h with
    | ending h => cases h <;> simp
    | _ => simp
  | _ => simp

theorem Phase.Settled.reply {reply : Reply} {after : After}
    (h : (Phase.replying reply after).Settled) :
    (∀ version nonce, reply ≠ .challenge version nonce) ∧ after.phase.Settled := by
  cases h with
  | calm h =>
    cases h with
    | replying h => exact ⟨h.1, .calm .reading⟩
    | ending h =>
      cases h
      exact ⟨by simp, .calm (.ending .leaving)⟩
  | deferred => exact ⟨by simp, .calm .reading⟩
  | announcing h =>
    refine ⟨h, ?_⟩
    rename_i node replaced live
    cases replaced with
    | none => exact .waking
    | some replaced => exact .kicking

/-- The full history of a registration. -/
def regHistory (challenge : Bytes 32) (n : NodeId) (key : Bytes 32) (candidates : List Candidate)
    (signature : List UInt8) : List RegEntry :=
  [.challenged challenge, .consumed challenge n key candidates signature, .inserted n candidates]

/-- The control state of connection `id` and its registration history. -/
inductive Stage (c : Crypto) (id : Nat) : Option Core → List RegEntry → Prop
  | absent : Stage c id none []
  | fresh {phase : Phase} (hphase : phase = .connecting ∨ phase = .reading) :
      Stage c id (some ⟨phase, none, none⟩) []
  | offered {p : PendingRegistration} {version : UInt32} :
      Stage c id (some ⟨.replying (.challenge version p.challenge) .read, some p, none⟩) []
  | challenged {p : PendingRegistration} :
      Stage c id (some ⟨.reading, some p, none⟩) [.challenged p.challenge]
  | verified {phase : Phase} {r : Verified} {challenge key : Bytes 32} {signature : List UInt8}
      (hphase : phase = .admitting r ∨ phase = .storing r)
      (hsigned : SignedBy c challenge r.nodeId key r.candidates signature) :
      Stage c id (some ⟨phase, none, none⟩)
        [.challenged challenge, .consumed challenge r.nodeId key r.candidates signature]
  | active {phase : Phase} {a : ActiveRegistration} {challenge key : Bytes 32}
      {candidates : List Candidate} {signature : List UInt8}
      (hid : a.connectionId = id) (hphase : phase.Settled)
      (hsigned : SignedBy c challenge a.nodeId key candidates signature) :
      Stage c id (some ⟨phase, none, some a⟩)
        (regHistory challenge a.nodeId key candidates signature)
  | ended {phase : Phase} {pending : Option PendingRegistration} {entries : List RegEntry}
      {challenge : Bytes 32} {n : NodeId} {key : Bytes 32} {candidates : List Candidate}
      {signature : List UInt8} (hphase : phase.Ending)
      (hentries : entries <+: regHistory challenge n key candidates signature) :
      Stage c id (some ⟨phase, pending, none⟩) entries

namespace Stage

variable {entries : List RegEntry}

/-- Every stage's history is a prefix of one registration. -/
theorem isPrefix {core : Option Core} (h : Stage c id core entries) :
    ∃ challenge n key candidates signature,
      entries <+: regHistory challenge n key candidates signature := by
  cases h with
  | @challenged p =>
    exact ⟨p.challenge, Bytes.fill 16 0, Bytes.fill 32 0, [], [], by simp [regHistory]⟩
  | @verified _ r challenge key signature =>
    exact ⟨challenge, r.nodeId, key, r.candidates, signature, by simp [regHistory]⟩
  | @active _ a challenge key candidates signature =>
    exact ⟨challenge, a.nodeId, key, candidates, signature, List.prefix_rfl⟩
  | @ended _ _ _ challenge n key candidates signature _ hents =>
    exact ⟨challenge, n, key, candidates, signature, hents⟩
  | _ => exact ⟨Bytes.fill 32 0, Bytes.fill 16 0, Bytes.fill 32 0, [], [], List.nil_prefix⟩

theorem of_none (h : Stage c id none entries) : entries = [] := by
  cases h with
  | absent => rfl

variable {k : Core} {phase : Phase} (h : Stage c id (some k) entries)

include h

/-- A handler without a registration may end at any time. -/
theorem ends (hact : k.active = none) (hphase : phase.Ending) :
    Stage c id (some { k with phase }) entries := by
  obtain ⟨challenge, n, key, candidates, signature, hprefix⟩ := h.isPrefix
  rw [hact]
  exact .ended hphase hprefix

/-- A handler at rest without a registration is in one of the early phases. -/
theorem early (hact : k.active = none) (hrest : k.phase.Rest) : k.phase.Early := by
  cases h with
  | fresh hphase | verified hphase => rcases hphase with rfl | rfl <;> constructor
  | offered => cases hrest; assumption
  | challenged => exact .reading
  | active => cases hact
  | ended hphase => cases hphase <;> cases hrest <;> assumption

variable {a : ActiveRegistration}

/-- A registered handler moves between settled phases. -/
theorem settles (hact : k.active = some a) (hphase : phase.Settled) :
    Stage c id (some { k with phase }) entries := by
  cases h with
  | active hid _ hsigned => exact .active hid hphase hsigned
  | _ => cases hact

/-- A handler that ends if it has no registration, and is settled otherwise. -/
theorem rests (hending : k.active = none → phase.Ending) (hphase : phase.Settled) :
    Stage c id (some { k with phase }) entries := by
  cases hact : k.active with
  | none =>
    rw [← hact]
    exact h.ends hact (hending hact)
  | some a =>
    rw [← hact]
    exact h.settles hact hphase

/-- What the stage of a registered handler says. -/
theorem of_active (hact : k.active = some a) :
    a.connectionId = id ∧ k.phase.Settled ∧ ∃ challenge key candidates signature,
      SignedBy c challenge a.nodeId key candidates signature ∧
        entries = regHistory challenge a.nodeId key candidates signature := by
  cases h with
  | @active phase a' challenge key candidates signature hid hphase hsigned =>
    obtain rfl : a' = a := Option.some.inj hact
    exact ⟨hid, hphase, challenge, key, candidates, signature, hsigned, rfl⟩
  | _ => cases hact

/-- A handler that holds a wake-up list, or is about to store a record, is where
    its phase says. -/
theorem active_of_wakes {w : NodeId × List NodeId} (hwakes : k.phase.wakes = some w) :
    ∃ a, k.active = some a := by
  cases h with
  | @active _ a => exact ⟨a, rfl⟩
  | fresh hphase | verified hphase =>
    rcases hphase with rfl | rfl <;> exact absurd hwakes (by simp [Phase.wakes])
  | ended hphase => rw [hphase.wakes_eq] at hwakes; cases hwakes
  | _ => exact absurd hwakes (by simp [Phase.wakes])

theorem starts (hphase : k.phase = .connecting) :
    Stage c id (some { k with phase := .reading }) entries := by
  cases h with
  | fresh => exact .fresh (.inr rfl)
  | verified h => rcases h with rfl | rfl <;> cases hphase
  | active _ h => exact absurd hphase h.not_early.1
  | ended h => cases h <;> cases hphase
  | _ => cases hphase

/-- An idle handler without a challenge has no history. -/
theorem of_idle (hphase : k.phase = .reading) (hpend : k.pending = none)
    (hact : k.active = none) : entries = [] := by
  cases h with
  | fresh => rfl
  | offered => cases hphase
  | challenged => cases hpend
  | verified h => rcases h with rfl | rfl <;> cases hphase
  | active => cases hact
  | ended h => cases h <;> cases hphase

/-- A handler that reads with a challenge outstanding has issued that challenge only. -/
theorem of_challenged {p : PendingRegistration} (hphase : k.phase = .reading)
    (hpend : k.pending = some p) : k.active = none ∧ entries = [.challenged p.challenge] := by
  cases h with
  | offered => cases hphase
  | @challenged p' =>
    obtain rfl : p' = p := Option.some.inj hpend
    exact ⟨rfl, rfl⟩
  | ended h => cases h <;> cases hphase
  | _ => cases hpend

variable {r : Verified}

theorem admits (hphase : k.phase = .admitting r) :
    Stage c id (some { k with phase := .storing r }) entries := by
  cases h with
  | fresh h => rcases h with rfl | rfl <;> cases hphase
  | @verified _ r' _ _ _ h hsigned =>
    rcases h with rfl | rfl
    · obtain rfl : r' = r := by simpa using hphase
      exact .verified (.inr rfl) hsigned
    · cases hphase
  | active _ h => exact absurd hphase (h.not_early.2.1 r)
  | ended h => cases h <;> cases hphase
  | _ => cases hphase

theorem of_storing (hphase : k.phase = .storing r) : k.pending = none ∧ k.active = none ∧
      ∃ challenge key signature, SignedBy c challenge r.nodeId key r.candidates signature ∧
        entries = [.challenged challenge,
          .consumed challenge r.nodeId key r.candidates signature] := by
  cases h with
  | fresh h => rcases h with rfl | rfl <;> cases hphase
  | @verified _ r' challenge key signature h hsigned =>
    rcases h with rfl | rfl
    · cases hphase
    · obtain rfl : r' = r := by simpa using hphase
      exact ⟨rfl, rfl, challenge, key, signature, hsigned, rfl⟩
  | active _ h => exact absurd hphase (h.not_early.2.2 r)
  | ended h => cases h <;> cases hphase
  | _ => cases hphase

/-- Sending a reply: a challenge enters the history, no other reply does. -/
theorem sends {reply : Reply} {after : After} (hphase : k.phase = .replying reply after) :
    Stage c id (some { k with phase := after.phase })
      (entries ++ history id [.queued id reply.message]) := by
  cases h with
  | fresh h | verified h => rcases h with rfl | rfl <;> cases hphase
  | @offered p version =>
    obtain ⟨rfl, rfl⟩ : Reply.challenge version p.challenge = reply ∧ After.read = after := by
      simpa using hphase
    have hentry : history id [.queued id (Reply.challenge version p.challenge).message] =
        [.challenged p.challenge] := by
      simp [history, Reply.message, Entry.registration]
    rw [hentry]
    exact .challenged
  | challenged => cases hphase
  | active hid h hsigned =>
    obtain rfl : _ = Phase.replying reply after := hphase
    obtain ⟨hreply, hafter⟩ := h.reply
    rw [history_reply hreply, List.append_nil]
    exact .active hid hafter hsigned
  | ended h hents =>
    cases h with
    | rejected reason =>
      obtain ⟨rfl, rfl⟩ : Reply.error reason = reply ∧ After.leave = after := by
        simpa using hphase
      rw [history_reply (by simp), List.append_nil]
      exact .ended .leaving hents
    | _ => cases hphase

end Stage

/-! ## The stage of every connection along a run -/

/-- Every connection is at a stage of its registration. -/
structure Staged (c : Crypto) (s : Server) : Prop where
  stage : ∀ id, Stage c id (s.core id) (history id s.log)
  fresh : ∀ id, s.nextId.toNat ≤ id → s.core id = none

namespace Staged

variable {k : Core} {entries : List Entry} (h : Staged c s)

include h

/-- A step of connection `id` only moves the stage of `id`. -/
theorem update {k' : Core} (hk : s.core id = some k)
    (hcore : t.core = Function.update s.core id (some k')) (hnext : t.nextId = s.nextId)
    (hlog : t.log = s.log ++ entries) (hother : ∀ id', id' ≠ id → history id' entries = [])
    (hstage : Stage c id (some k) (history id s.log) →
      Stage c id (some k') (history id s.log ++ history id entries)) : Staged c t where
  stage := by
    intro id'
    rw [hcore, hlog, history_append]
    by_cases hid : id' = id
    · rw [hid, update_self]
      exact hstage (hk ▸ h.stage id)
    · rw [update_of_ne hid, hother id' hid, List.append_nil]
      exact h.stage id'
  fresh := by
    intro id' hle
    rw [hnext] at hle
    have hid : id' ≠ id := by
      rintro rfl
      rw [h.fresh id' hle] at hk
      cases hk
    rw [hcore, update_of_ne hid]
    exact h.fresh id' hle

/-- A step whose entries are outside every registration history. -/
theorem updateSame {k' : Core} (hk : s.core id = some k)
    (hcore : t.core = Function.update s.core id (some k')) (hnext : t.nextId = s.nextId)
    (hlog : t.log = s.log ++ entries) (hnone : ∀ id', history id' entries = [])
    (hstage : Stage c id (some k) (history id s.log) → Stage c id (some k') (history id s.log)) :
    Staged c t := by
  refine h.update hk hcore hnext hlog (fun id' _ => hnone id') ?_
  rw [hnone id, List.append_nil]
  exact hstage

theorem move {e : Event} (hm : Move c config s t e) : Staged c t := by
  cases hm with
  | accept hcore hnext hsame hlog =>
    constructor
    · intro id
      rw [hcore, hlog]
      by_cases hid : id = s.nextId.toNat
      · have hold := h.stage id
        rw [h.fresh id hid.ge] at hold
        rw [hid, update_self, ← hid, hold.of_none]
        exact .fresh (.inl rfl)
      · rw [update_of_ne hid]
        exact h.stage id
    · intro id hle
      rw [hcore, update_of_ne (by omega)]
      exact h.fresh id (by omega)
  | outside hcore hnext hsame hlog =>
    refine ⟨?_, ?_⟩
    · rw [hcore, hlog]
      exact h.stage
    · rw [hcore, hnext]
      exact h.fresh
  | start hk hphase hcore hnext hsame hlog =>
    refine h.updateSame hk hcore hnext (hlog.trans (List.append_nil _).symm) (fun _ => rfl) ?_
    intro hstage
    exact hstage.starts hphase
  | @quiet _ id k phase _ hk hrest hcalm hending hcore hnext hsame hents hlog =>
    refine h.updateSame hk hcore hnext hlog (fun _ => history_frames hents) ?_
    intro hstage
    exact hstage.rests (fun hnone => hending hnone (hstage.early hnone hrest)) (.calm hcalm)
  | hello hk hphase hpend hact hcore hnext hsame hlog =>
    refine h.updateSame hk hcore hnext hlog (fun _ => rfl) ?_
    intro hstage
    rw [hstage.of_idle hphase hpend hact]
    exact Stage.offered (p := ⟨_, _, _, _, _⟩)
  | @consume id n key candidates signature _ k p phase hk hphase hpend hnew hcore hnext hsame
      hlog =>
      refine h.update hk hcore hnext hlog ?_ ?_
      · intro id' hid
        simp [history, Entry.registration, hid.symm]
      intro hstage
      obtain ⟨hact, hents⟩ := hstage.of_challenged hphase hpend
      have hentry : history id [.frame id (.register n key candidates signature),
          .consumed id p.challenge n key candidates signature] =
          [.consumed p.challenge n key candidates signature] := by
        rw [history_frame_cons]
        simp [history, Entry.registration]
      rw [hents, hentry, hact]
      rcases hnew with hend | ⟨r, rfl, -, rfl, rfl, hsigned⟩
      · exact .ended hend (List.prefix_append _ [RegEntry.inserted n candidates])
      · exact .verified (.inl rfl) hsigned
  | admission hk hphase hcore hnext hsame hlog =>
    refine h.updateSame hk hcore hnext (hlog.trans (List.append_nil _).symm) (fun _ => rfl) ?_
    intro hstage
    exact hstage.admits hphase
  | @insert id _ order k r _ replaced hk hphase horder hroom hreply hcore hnext hsame hlog =>
    refine h.update hk hcore hnext hlog ?_ ?_
    · intro id' hid
      simp [history, Entry.registration, hid.symm]
    intro hstage
    obtain ⟨hpend, -, challenge, key, signature, hsigned, hents⟩ := hstage.of_storing hphase
    have hentry : history id [.inserted id r.nodeId r.candidates] =
        [.inserted r.nodeId r.candidates] := by
      simp [history, Entry.registration]
    rw [hents, hentry, hpend]
    exact .active (a := ⟨r.protocolVersion, r.nodeId, id⟩) rfl (.announcing hreply.1) hsigned
  | @send id _ reply _ hk hphase hcore hnext hsame hlog =>
    refine h.update hk hcore hnext hlog ?_ ?_
    · intro id' hid
      cases reply <;> simp [history, Entry.registration, Reply.message, hid.symm]
    intro hstage
    exact hstage.sends hphase
  | @drop id k _ _ hk hphase hroom hcore hnext hsame hlog =>
    refine h.updateSame hk hcore hnext (hlog.trans (List.append_nil _).symm) (fun _ => rfl) ?_
    intro hstage
    exact hstage.rests (fun _ => .leaving) (.calm (.ending .leaving))
  | kick hk hphase hcore hnext hsame hlog =>
    refine h.updateSame hk hcore hnext (hlog.trans (List.append_nil _).symm) (fun _ => rfl) ?_
    intro hstage
    obtain ⟨a, hact⟩ := hstage.active_of_wakes (by rw [hphase]; rfl)
    exact hstage.settles hact .waking
  | wake hk hphase hcore hnext hsame hlog =>
    refine h.updateSame hk hcore hnext hlog (fun _ => history_pairEntries ..) ?_
    intro hstage
    obtain ⟨a, hact⟩ := hstage.active_of_wakes (by rw [hphase]; rfl)
    exact hstage.settles hact .waking
  | pair hk hphase hask hcore hnext hsame hlog =>
    refine ⟨?_, ?_⟩
    · intro id'
      rw [hcore, hlog, history_append, history_frame_cons, history_pairEntries, List.append_nil]
      exact h.stage id'
    · rw [hcore, hnext]
      exact h.fresh
  | defer hk hphase hask habsent hdefers hcore hnext hlog =>
    refine h.updateSame hk hcore hnext hlog (fun _ => rfl) ?_
    intro hstage
    exact hstage.settles hask.active .deferred
  | leave hk hphase hact horder hcore hnext hsame hlog =>
    refine h.updateSame hk hcore hnext (hlog.trans (List.append_nil _).symm) (fun _ => rfl) ?_
    intro hstage
    exact hstage.settles hact (.calm (.ending .done))

/-- A registration is never given up or changed by its handler. -/
theorem active_mono {e : Event} (hm : Move c config s t e) {a : ActiveRegistration}
    (hk : s.core id = some k) (hact : k.active = some a) :
    ∃ k', t.core id = some k' ∧ k'.active = some a := by
  -- `hkeep`: the step of one handler that leaves its registration alone.
  have hkeep : ∀ {id' : Nat} {k₀ k' : Core}, s.core id' = some k₀ →
      t.core = Function.update s.core id' (some k') →
      (k₀.active = some a → k'.active = some a) →
      ∃ k', t.core id = some k' ∧ k'.active = some a := by
    intro id' k₀ k' hk₀ hcore hsame
    by_cases hid : id = id'
    · rw [← hid, hk] at hk₀
      cases hk₀
      exact ⟨k', by rw [hcore, hid, update_self], hsame hact⟩
    · exact ⟨k, by rw [hcore, update_of_ne hid, hk], hact⟩
  cases hm with
  | accept hcore =>
    have hid : id ≠ s.nextId.toNat := by
      rintro rfl
      rw [h.fresh s.nextId.toNat (le_refl _)] at hk
      cases hk
    exact ⟨k, by rw [hcore, update_of_ne hid, hk], hact⟩
  | outside hcore => exact ⟨k, by rw [hcore, hk], hact⟩
  | start hk₀ _ hcore | quiet hk₀ _ _ _ hcore | consume hk₀ _ _ _ hcore | admission hk₀ _ hcore
  | send hk₀ _ hcore | drop hk₀ _ _ hcore | kick hk₀ _ hcore | wake hk₀ _ hcore
  | defer hk₀ _ _ _ _ hcore | leave hk₀ _ _ _ hcore => exact hkeep hk₀ hcore fun h => h
  | hello hk₀ _ _ hnone hcore =>
    refine hkeep hk₀ hcore ?_
    intro hsome
    rw [hnone] at hsome
    cases hsome
  | insert _ hk₀ hphase _ _ _ hcore =>
    -- A handler that is about to store its record has no registration yet.
    have hstage := h.stage
    refine hkeep hk₀ hcore ?_
    intro hsome
    have hnone := ((hk₀ ▸ hstage _ : Stage c _ (some _) _).of_storing hphase).2.1
    rw [hnone] at hsome
    cases hsome
  | pair _ _ _ hcore => exact ⟨k, by rw [hcore, hk], hact⟩

end Staged

/-! ## The peer table along a run -/

/-- Connection `record.connectionId` has registered `n` and inserted this record. -/
def Server.Owner (s : Server) (n : NodeId) (record : PeerRecord) : Prop :=
  ∃ k a, s.core record.connectionId = some k ∧ k.active = some a ∧ a.nodeId = n ∧
    .inserted record.connectionId n record.candidates ∈ s.log

/-- What a step does to the record of `n`. -/
inductive PeerChange (s t : Server) (n : NodeId) : Event → Prop
  | same {e : Event} (h : t.registry.peers.lookup n = s.registry.peers.lookup n) :
      PeerChange s t n e
  | insert {id : Nat} {result : Except Error ShortId} {order : List WaiterKey}
      {candidates : List Candidate} {k : Core} {r : Verified}
      (hk : s.core id = some k) (hphase : k.phase = .storing r) (hnode : r.nodeId = n)
      (h : t.registry.peers.lookup n = some ⟨id, candidates⟩)
      (howner : t.Owner n ⟨id, candidates⟩) : PeerChange s t n (.store id result order)
  | remove {order : List NodeId} {record : PeerRecord}
      (hold : s.registry.peers.lookup n = some record)
      (h : t.registry.peers.lookup n = none) :
      PeerChange s t n (.leave record.connectionId order)

theorem Staged.peerChange (h : Staged c s) {e : Event} (hm : Move c config s t e) (n : NodeId) :
    PeerChange s t n e := by
  have hsame : s.registry.Same t.registry → PeerChange s t n e := by
    intro hsame
    exact .same (by rw [hsame.peers])
  cases hm with
  | @insert id _ order k r _ replaced hk hphase horder _ _ hcore _ hs hlog =>
    have hpeers : t.registry.peers.lookup n =
        if n = r.nodeId then some ⟨id, r.candidates⟩ else s.registry.peers.lookup n := by
      have horder' : Enumerates order ((s.registry.withPeer id r).waitersOf r.nodeId) := horder
      rw [hs.peers, (Registry.takeWaitersFor_taken horder').peers]
      exact AList.lookup_insert_eq_ite ..
    by_cases hn : n = r.nodeId
    · rw [if_pos hn] at hpeers
      refine .insert hk hphase hn.symm hpeers ⟨_, _, by rw [hcore, update_self], rfl, hn.symm, ?_⟩
      rw [hlog, hn]
      simp
    · rw [if_neg hn] at hpeers
      exact .same hpeers
  | defer _ _ _ _ hdefers =>
    cases hdefers with
    | again _ hs => exact hsame hs
    | add _ _ _ hs =>
      refine .same ?_
      rw [hs.peers, Registry.peers_addWaiter]
  | @leave id order k registration hk _ hact _ _ _ hs =>
    have hid : registration.connectionId = id := ((hk ▸ h.stage id).of_active hact).1
    have hpeers : (s.registry.unregister registration.nodeId registration.connectionId
        order).peers.lookup n = _ := Registry.peers_unregister n
    rw [← hs.peers] at hpeers
    split at hpeers
    next howned =>
      obtain ⟨rfl, howns⟩ := howned
      obtain ⟨record, hrec, hconn⟩ := Registry.owns_iff.mp howns
      rw [← hid, ← hconn]
      exact .remove hrec hpeers
    · exact .same hpeers
  | _ => exact hsame ‹_›

/-- Registrations are staged, and every record has its owner. -/
structure Registered (c : Crypto) (s : Server) : Prop extends Staged c s where
  owner : ∀ n record, s.registry.peers.lookup n = some record → s.Owner n record

theorem Registered.move (h : Registered c s) {e : Event} (hm : Move c config s t e) :
    Registered c t where
  toStaged := h.toStaged.move hm
  owner := by
    intro n record hrec
    cases h.toStaged.peerChange hm n with
    | same hsame =>
      rw [hsame] at hrec
      obtain ⟨k, a, hk, hact, hnode, hmem⟩ := h.owner n record hrec
      obtain ⟨k', hk', hact'⟩ := h.toStaged.active_mono hm hk hact
      exact ⟨k', a, hk', hact', hnode, hm.log_mono hmem⟩
    | insert _ _ _ hnew howner =>
      rw [hnew] at hrec
      cases hrec
      exact howner
    | remove _ hnone =>
      rw [hnone] at hrec
      cases hrec

variable {es : List Event}

theorem run_registered (h : (machine c config).Run es s) : Registered c s := by
  refine Machine.Run.inv (I := Registered c) ?_ ?_ h
  · rintro s ⟨hreg, hconns, -, hlog⟩
    have hcore : ∀ id, s.core id = none := by
      intro id
      rw [Server.core, hconns]
      rfl
    refine ⟨⟨?_, fun id _ => hcore id⟩, ?_⟩
    · intro id
      rw [hcore, hlog]
      exact .absent
    · intro n record hrec
      rw [hreg.2.2.1] at hrec
      cases hrec
  · intro s e t hI hstep
    exact hI.move (step_moves hstep)

/-- A challenge is consumed by a Register that was read from the same connection. -/
theorem run_consumed_frame (h : (machine c config).Run es s)
    (hmem : .consumed id challenge n key candidates signature ∈ s.log) :
    .frame id (.register n key candidates signature) ∈ s.log := by
  revert hmem
  refine Machine.Run.inv (I := fun s =>
    .consumed id challenge n key candidates signature ∈ s.log →
      .frame id (.register n key candidates signature) ∈ s.log) ?_ ?_ h
  · rintro s ⟨-, -, -, hlog⟩ hmem
    rw [hlog] at hmem
    cases hmem
  intro s e t hI hstep hmem
  have hm := step_moves hstep
  rcases hm.mem_cases hmem with hold | hnew
  · exact hm.log_mono (hI hold)
  cases hnew with
  | frame hx | inserted hx | reply hx | deferred hx => cases hx
  | consumed hx hframe =>
    obtain ⟨rfl, -, rfl, rfl, rfl, rfl⟩ := Entry.consumed.inj hx
    exact hframe
  | push hx =>
    obtain ⟨_, _, _, _, hx | hx⟩ := Server.mem_pairEntries hx
    · cases hx
    · cases hx

/-! ## Authenticity -/

theorem mem_history {log : List Entry} {x : RegEntry} :
    x ∈ history id log ↔ ∃ e ∈ log, e.registration id = some x :=
  List.mem_filterMap

variable {record : PeerRecord}

/-- The owner of a record has the full history of its registration. -/
theorem Registered.history_eq (h : Registered c s)
    (hrec : s.registry.peers.lookup n = some record) :
    ∃ challenge key signature, SignedBy c challenge n key record.candidates signature ∧
      history record.connectionId s.log =
        regHistory challenge n key record.candidates signature := by
  obtain ⟨k, a, hk, hact, rfl, hmem⟩ := h.owner n record hrec
  have hstage := h.stage record.connectionId
  rw [hk] at hstage
  obtain ⟨-, -, challenge, key, candidates, signature, hsigned, hents⟩ := hstage.of_active hact
  -- The history holds one inserted record, so its candidates are those of the table.
  have hinserted : RegEntry.inserted a.nodeId record.candidates ∈
      history record.connectionId s.log :=
    mem_history.mpr ⟨_, hmem, by simp [Entry.registration]⟩
  obtain rfl : record.candidates = candidates := by
    rw [hents] at hinserted
    simpa [regHistory] using hinserted
  exact ⟨challenge, key, signature, hsigned, hents⟩

/-- A connection owns the records of one node only. -/
theorem Registered.node_eq (h : Registered c s) {n' : NodeId} {record' : PeerRecord}
    (hrec : s.registry.peers.lookup n = some record)
    (hrec' : s.registry.peers.lookup n' = some record')
    (hconn : record.connectionId = record'.connectionId) : n = n' := by
  obtain ⟨k, a, hk, hact, rfl, -⟩ := h.owner n record hrec
  obtain ⟨k', a', hk', hact', rfl, -⟩ := h.owner n' record' hrec'
  rw [hconn, hk'] at hk
  cases hk
  rw [hact] at hact'
  rw [Option.some.inj hact']

/-- **Registration authenticity and single ownership.**  A record in the table was
    inserted by its connection after that connection got one challenge and returned
    a signature over it, by a key that hashes to the node.  Whatever frames arrive, a
    connection gets at most one challenge, consumes it at most once and inserts at most
    one record.  A record only disappears when its own connection leaves, or when the
    node registers again. -/
theorem registration_authentic {es : List Event} (h : (machine c config).Run es s) :
    (∀ n record, s.registry.peers.lookup n = some record →
      ∃ challenge key signature, SignedBy c challenge n key record.candidates signature ∧
        .frame record.connectionId (.register n key record.candidates signature) ∈ s.log ∧
        history record.connectionId s.log =
          [.challenged challenge, .consumed challenge n key record.candidates signature,
            .inserted n record.candidates]) ∧
    (∀ id, ∃ challenge n key candidates signature, history id s.log <+:
      [.challenged challenge, .consumed challenge n key candidates signature,
        .inserted n candidates]) ∧
    (∀ n n' record record', s.registry.peers.lookup n = some record →
      s.registry.peers.lookup n' = some record' →
      record.connectionId = record'.connectionId → n = n') ∧
    (∀ n record e t, s.registry.peers.lookup n = some record → (machine c config).step s e t →
      t.registry.peers.lookup n ≠ some record →
      (∃ order, e = .leave record.connectionId order) ∨
        ∃ id result order candidates, e = .store id result order ∧
          t.registry.peers.lookup n = some ⟨id, candidates⟩) := by
  have hI := run_registered h
  refine ⟨?_, ?_, ?_, ?_⟩
  · intro n record hrecord
    obtain ⟨challenge, key, signature, hsigned, hhistory⟩ := hI.history_eq hrecord
    refine ⟨challenge, key, signature, hsigned, ?_, hhistory⟩
    have hconsumed : RegEntry.consumed challenge n key record.candidates signature ∈
        history record.connectionId s.log := by
      rw [hhistory]
      simp [regHistory]
    obtain ⟨x, hx, hreg⟩ := mem_history.mp hconsumed
    rw [Entry.registration_eq_consumed hreg] at hx
    exact run_consumed_frame h hx
  · intro id
    exact (hI.stage id).isPrefix
  · intro n n' record record' hrecord hrecord' hconn
    exact hI.node_eq hrecord hrecord' hconn
  · intro n record e t hrecord hstep hchanged
    cases hI.toStaged.peerChange (step_moves hstep) n with
    | same hsame => exact absurd (hsame.trans hrecord) hchanged
    | insert _ _ _ hnew => exact .inr ⟨_, _, _, _, rfl, hnew⟩
    | remove hold =>
      rw [hrecord] at hold
      cases hold
      exact .inl ⟨_, rfl⟩

open Sample in
/-- In the sample run the record of node 1 stands for connection 1, which signed the
    challenge of its own draw. -/
theorem registration_authentic_sample :
    ∃ record, waitingServer.registry.peers.lookup (node 1) = some record ∧
      ∃ challenge key signature,
        SignedBy .sample challenge (node 1) key record.candidates signature ∧
        history record.connectionId waitingServer.log =
          [.challenged challenge, .consumed challenge (node 1) key record.candidates signature,
            .inserted (node 1) record.candidates] := by
  have hrecord : waitingServer.registry.peers.lookup (node 1) = some ⟨1, []⟩ := by decide +kernel
  obtain ⟨challenge, key, signature, hsigned, -, hhistory⟩ :=
    (registration_authentic waiting_run).1 _ _ hrecord
  exact ⟨_, hrecord, challenge, key, signature, hsigned, hhistory⟩

end P2pFile.Discovery
