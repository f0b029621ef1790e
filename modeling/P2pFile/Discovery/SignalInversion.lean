/-
  P2pFile.Discovery.SignalInversion

  Every step of the signaling server is a `Move`: one lemma for each section of a
  handler, collected in `step_moves`.
-/

import P2pFile.Discovery.SignalSteps

namespace P2pFile.Discovery

open Lib
open Relay (Instant)

variable {c : Crypto} {config : SignalServerConfig}

/-! ## Frames -/

namespace Server

variable {s t : Server} {id : Nat} {conn : Conn}

theorem rest_of_reading {phase : Phase} (h : phase = .reading) : phase.Rest := h ▸ .early .reading

theorem frame_entries {m : SignalMessage} : ∀ x ∈ [Entry.frame id m], ∃ m', x = .frame id m' := by
  intro x hx
  rw [List.mem_singleton] at hx
  exact ⟨m, hx⟩

/-- The budgets are not part of the tables. -/
theorem takeNodeLookup_same (reg : Registry) (ip : IpAddr) (now : Instant) :
    reg.Same (reg.takeNodeLookup config ip now).1 :=
  ⟨rfl, rfl, rfl⟩

theorem takeShortLookup_same (reg : Registry) (ip : IpAddr) (now : Instant) :
    reg.Same (reg.takeShortLookup config ip now).1 :=
  ⟨rfl, rfl, rfl⟩

theorem full_eq_false {n : NodeId} (h : ¬ s.full config n = true) :
    (s.registry.peers.lookup n).isSome = true ∨
      s.registry.peers.size < config.maxRegisteredPeers := by
  unfold full at h
  by_cases hsome : (s.registry.peers.lookup n).isSome = true
  · exact Or.inl hsome
  right
  have hnone : (s.registry.peers.lookup n).isNone = true := by
    simpa [Option.isSome_iff_ne_none] using hsome
  rw [hnone] at h
  simpa using h

variable {e : Event} {reg : Registry} {conn' : Conn} {entries : List Entry}
  (hconn : s.conns id = some conn)

include hconn

/-- A quiet step, from the connection it writes. -/
theorem quiet_setConn (hpend : conn'.pending = conn.pending)
    (hact : conn'.active = conn.active) (hrest : conn.phase.Rest) (hcalm : conn'.phase.Calm)
    (hending : conn.active = none → conn.phase.Early → conn'.phase.Ending)
    (hsame : s.registry.Same reg) (hents : ∀ x ∈ entries, ∃ m, x = .frame id m) : Move c config s
      (({ s with registry := reg, log := s.log ++ entries } : Server).setConn id conn') e := by
  refine .quiet (core_of_conns hconn) hrest hcalm hending ?_ rfl hsame hents rfl
  rw [core_setConn]
  show Function.update s.core id (some ⟨conn'.phase, conn'.pending, conn'.active⟩) = _
  rw [hpend, hact]
  rfl

variable {reason : String}

/-- A rejected frame. -/
theorem reject_moves (hpend : conn'.pending = conn.pending)
    (hact : conn'.active = conn.active) (hrest : conn.phase.Rest)
    (hents : ∀ x ∈ entries, ∃ m, x = .frame id m) : Move c config s
      (({ s with log := s.log ++ entries } : Server).reject id conn' reason) e :=
  quiet_setConn hconn hpend hact hrest (.ending (.rejected reason))
    (fun _ _ => .rejected reason) (.refl _) hents

variable {reply : Reply} {registration : ActiveRegistration}

/-- An answer to a registered client. -/
theorem answer_moves (hsome : conn.active = some registration)
    (hpend : conn'.pending = conn.pending) (hact : conn'.active = conn.active)
    (hrest : conn.phase.Rest) (hreply : reply.Plain) (hsame : s.registry.Same reg)
    (hents : ∀ x ∈ entries, ∃ m, x = .frame id m) : Move c config s
      (({ s with registry := reg, log := s.log ++ entries } : Server).answer id conn' reply) e := by
  refine quiet_setConn hconn hpend hact hrest (.replying hreply) ?_ hsame hents
  intro hnone
  rw [hsome] at hnone
  cases hnone

section Reading

variable {n : NodeId} {key : Bytes 32} {d : Draw} (hphase : conn.phase = .reading)

include hphase

theorem onRegisterHello_moves {version : UInt32} : Move c config s
      ((s.record (.frame id (.registerHello version n key))).onRegisterHello c id conn version n key
        d) (.frame id (.registerHello version n key) d) := by
  unfold onRegisterHello
  split
  · exact reject_moves hconn rfl rfl (rest_of_reading hphase) frame_entries
  rename_i hok
  obtain ⟨hact, hpend⟩ := checkHello_ok hok
  refine .hello (core_of_conns hconn) hphase hpend hact ?_ rfl (.refl _) rfl
  unfold answer
  rw [core_setConn]
  simp only [Conn.core, hact]
  rfl

theorem onRegister_moves {candidates : List Candidate} {signature : List UInt8} : Move c config s
      ((s.record (.frame id (.register n key candidates signature))).onRegister c config id conn n
        key candidates signature d.now) (.frame id (.register n key candidates signature) d) := by
  unfold onRegister
  split
  · exact reject_moves hconn rfl rfl (rest_of_reading hphase) frame_entries
  rename_i p hp
  simp only
  have hlog : ∀ entry : Entry,
      ((s.record (.frame id (.register n key candidates signature))).record entry).log =
        s.log ++ [.frame id (.register n key candidates signature), entry] := by
    intro entry
    simp [record]
  split
  next reason herr =>
    refine .consume (core_of_conns hconn) hphase hp (Or.inl (.rejected reason)) ?_ rfl
      (.refl _) (hlog _)
    unfold reject
    rw [core_setConn]
    rfl
  next r hok =>
    obtain ⟨hact, hn, hcand, hsigned⟩ := checkRegister_ok hok
    refine .consume (core_of_conns hconn) hphase hp
      (Or.inr ⟨r, rfl, hact, hn, hcand, hsigned⟩) ?_ rfl (.refl _) (hlog _)
    rw [core_setConn]
    rfl

variable {target : NodeId}

theorem deferLookup_moves (hcore' : conn'.core = conn.core)
    (hask : Asking s conn.core registration target)
    (habsent : s.registry.peers.lookup target = none) (hsame : s.registry.Same reg) :
    Move c config s (({ s with registry := reg, log := s.log ++ [.frame id (.lookup target)] } :
        Server).deferLookup config id conn' registration.key target)
      (.frame id (.lookup target) d) := by
  have hpend : conn'.pending = conn.pending := congrArg Core.pending hcore'
  have hact : conn'.active = conn.active := congrArg Core.active hcore'
  have hrest := rest_of_reading hphase
  have hcore : ∀ r : Registry, ∀ entries : List Entry, (({ s with registry := r, log := entries } :
      Server).answer id conn' (.pending target)).core = Function.update s.core id
        (some { conn.core with phase := .replying (.pending target) .read }) := by
    intro r entries
    unfold answer
    rw [core_setConn]
    rw [hpend, hact]
    rfl
  unfold deferLookup
  simp only [hsame.waitersOf_eq, hsame.pendingCount_eq, hsame.waiterEntries_eq]
  split
  next hmem =>
    refine .defer (core_of_conns hconn) hphase hask habsent (.again hmem hsame) (hcore _ _) rfl ?_
    simp [answer, record, setConn]
  rename_i hmem
  split
  · exact answer_moves hconn hask.active hpend hact hrest (by simp) hsame frame_entries
  rename_i hquota
  split
  · exact answer_moves hconn hask.active hpend hact hrest (by simp) hsame frame_entries
  rename_i hents
  refine .defer (core_of_conns hconn) hphase hask habsent
    (.add hmem (by omega) (by omega) (hsame.addWaiter _ _)) (hcore _ _) rfl ?_
  simp [answer, record, setConn]

theorem onLookup_moves :
    Move c config s ((s.record (.frame id (.lookup target))).onLookup config id conn target d)
      (.frame id (.lookup target) d) := by
  have hrest := rest_of_reading hphase
  unfold onLookup
  split
  · exact reject_moves hconn rfl rfl hrest frame_entries
  rename_i registration hact
  simp only
  split
  · exact reject_moves hconn rfl rfl hrest frame_entries
  rename_i howner
  have howner' : s.registry.owns registration.nodeId registration.connectionId = true := by
    simpa [record] using howner
  -- Whether the IP budget was charged or not, the tables are those of `s`.
  generalize hbudget : (if (conn.nodeWindow.takeInWindow config.nodeLookupsPerConnection u32Max
      nodeLookupWindow d.now).2 = true then
      (s.record (.frame id (.lookup target))).registry.takeNodeLookup config conn.ip d.now
      else ((s.record (.frame id (.lookup target))).registry, false)) = charged
  have hsame : s.registry.Same charged.1 := by
    rw [← hbudget]
    split
    · exact takeNodeLookup_same _ _ _
    · exact .refl _
  split
  · exact answer_moves hconn hact rfl rfl hrest (by simp) hsame frame_entries
  split
  · exact answer_moves hconn hact rfl rfl hrest (by simp) hsame frame_entries
  rename_i hne
  have hask : Asking s conn.core registration target := ⟨hact, howner', hne⟩
  split
  · -- The target is online: pair under the same lock.
    generalize hs₁ : (({ s with
      registry := charged.1
      log := s.log ++ [.frame id (.lookup target)] } : Server).setConn id
        { conn with nodeWindow := (conn.nodeWindow.takeInWindow config.nodeLookupsPerConnection
          u32Max nodeLookupWindow d.now).1 }) = s₁
    have hpairs := tryPair_spec s₁ config registration.nodeId target d
    have hcore₁ : s₁.core = s.core := by
      have hconn₁ : ({ s with
          registry := charged.1
          log := s.log ++ [.frame id (.lookup target)] } : Server).conns id = some conn := hconn
      rw [← hs₁]
      refine (core_setConn_same hconn₁ ?_).trans ?_
      · rfl
      · rfl
    have hents : s₁.pairEntries config registration.nodeId target d.token =
        s.pairEntries config registration.nodeId target d.token := by
      refine pairEntries_congr ?_ ?_
      · rw [← hs₁]
        exact hsame.peers
      · intro id' taken
        rw [← hs₁, room_setConn conn]
        · rfl
        · exact hconn
        · rfl
        · rfl
    have hmove : Move c config s (s₁.tryPair config registration.nodeId target d)
        (.frame id (.lookup target) d) := by
      refine .pair (core_of_conns hconn) hphase hask (hpairs.core.trans hcore₁) ?_ ?_ ?_
      · rw [hpairs.nextId, ← hs₁]
        rfl
      · refine Registry.Same.trans ?_ hpairs.same
        rw [← hs₁]
        exact hsame
      · rw [hpairs.log, hents, ← hs₁]
        simp [setConn]
    rw [← hs₁] at hmove
    exact hmove
  next habsent =>
    refine deferLookup_moves hconn hphase rfl hask ?_ hsame
    rw [← hsame.peers]
    simpa [Option.isSome_iff_ne_none] using habsent

theorem onLookupShort_moves {shortId : ShortId} : Move c config s
      ((s.record (.frame id (.lookupShort shortId))).onLookupShort config id conn shortId d) e := by
  have hrest := rest_of_reading hphase
  unfold onLookupShort
  split
  · exact reject_moves hconn rfl rfl hrest frame_entries
  rename_i registration hact
  have hsome : conn.active ≠ none := by
    rw [hact]
    exact Option.some_ne_none registration
  split
  · exact reject_moves hconn rfl rfl hrest frame_entries
  simp only
  split
  · exact quiet_setConn hconn rfl rfl hrest (.budgeting shortId) (fun h => absurd h hsome)
      (.refl _) frame_entries
  · exact quiet_setConn hconn rfl rfl hrest (.resolving shortId false) (fun h => absurd h hsome)
      (.refl _) frame_entries

theorem onFrame_moves {message : SignalMessage} :
    Move c config s (s.onFrame c config id conn message d) (.frame id message d) := by
  have hrest := rest_of_reading hphase
  cases message with
  | registerHello version n key => exact onRegisterHello_moves hconn hphase
  | register n key candidates signature => exact onRegister_moves hconn hphase
  | lookup target => exact onLookup_moves hconn hphase
  | lookupShort shortId => exact onLookupShort_moves hconn hphase
  | ping =>
    unfold onFrame
    simp only
    split
    · exact reject_moves hconn rfl rfl hrest frame_entries
    rename_i hact
    cases hsome : conn.active with
    | none =>
      rw [hsome] at hact
      exact absurd rfl hact
    | some registration =>
      exact answer_moves hconn hsome rfl rfl hrest (by simp) (.refl _) frame_entries
  | _ => exact reject_moves hconn rfl rfl hrest frame_entries

end Reading

/-! ## Sections without a frame -/

/-- A quiet step that is not a frame logs nothing. -/
theorem quiet_silent (hpend : conn'.pending = conn.pending)
    (hact : conn'.active = conn.active) (hrest : conn.phase.Rest) (hcalm : conn'.phase.Calm)
    (hending : conn.active = none → conn.phase.Early → conn'.phase.Ending)
    (hsame : s.registry.Same reg) :
    Move c config s (({ s with registry := reg } : Server).setConn id conn') e := by
  have hnone : ∀ x ∈ ([] : List Entry), ∃ m, x = .frame id m := by simp
  have hmove : Move c config s
      (({ s with registry := reg, log := s.log ++ [] } : Server).setConn id conn') e :=
    quiet_setConn hconn hpend hact hrest hcalm hending hsame hnone
  rwa [List.append_nil] at hmove

theorem reject_silent (hrest : conn.phase.Rest) : Move c config s (s.reject id conn reason) e :=
  quiet_silent hconn rfl rfl hrest (.ending (.rejected reason)) (fun _ _ => .rejected reason)
    (.refl _)

variable {r : Verified} {d : Draw}

theorem onAdmit_moves (hphase : conn.phase = .admitting r) :
    Move c config s (s.onAdmit config id conn r) (.admission id) := by
  unfold onAdmit
  split
  · exact reject_silent hconn (hphase ▸ .early (.admitting r))
  · refine .admission (core_of_conns hconn) hphase ?_ rfl (.refl _) rfl
    rw [core_setConn]
    rfl

theorem onStore_moves {result : Except Error ShortId} {order : List WaiterKey}
    (hphase : conn.phase = .storing r) (horder : Enumerates order (s.registry.waitersOf r.nodeId)) :
    Move c config s (s.onStore config id conn r result order) (.store id result order) := by
  have hrest : conn.phase.Rest := hphase ▸ .early (.storing r)
  unfold onStore
  split
  · exact reject_silent hconn hrest
  rename_i shortId
  split
  · exact reject_silent hconn hrest
  rename_i hfull
  refine .insert ((s.registry.peers.lookup r.nodeId).map PeerRecord.connectionId)
    (core_of_conns hconn) hphase horder (full_eq_false hfull)
    (Reply.plain_registeredReply r.protocolVersion shortId) ?_ rfl (.refl _) rfl
  rw [core_setConn]
  rfl

theorem onReply_moves {after : After} (hphase : conn.phase = .replying reply after) :
    Move c config s (s.onReply config id conn reply after) (.reply id) := by
  unfold onReply
  split
  · refine .send (core_of_conns hconn) hphase ?_ (by rw [nextId_enqueue]; rfl) ?_ ?_
    · rw [core_enqueue, core_setConn]
      rfl
    · rw [registry_enqueue]
      exact .refl _
    · rw [log_enqueue]
      · rfl
      · simp [setConn]
  next hroom =>
    refine .drop (core_of_conns hconn) hphase (by simpa using hroom) ?_ rfl (.refl _) rfl
    rw [core_setConn]
    rfl

theorem onWake_moves {node : NodeId} {live : List NodeId}
    (hphase : conn.phase = .waking node live) :
    Move c config s (s.onWake config id conn node live d) (.wake id d) := by
  unfold onWake
  split
  · refine quiet_silent hconn rfl rfl (hphase ▸ .woken node) .reading ?_ (.refl _)
    rw [hphase]
    intro _ hearly
    cases hearly
  next waiter rest =>
    have hpairs := tryPair_spec (s.setConn id { conn with phase := .waking node rest }) config
      waiter node d
    refine .wake (core_of_conns hconn) hphase ?_ ?_ ?_ ?_
    · rw [hpairs.core, core_setConn]
      rfl
    · rw [hpairs.nextId]
      rfl
    · exact hpairs.same
    · have hents : (s.setConn id { conn with phase := .waking node rest }).pairEntries config
          waiter node d.token = s.pairEntries config waiter node d.token := by
        refine pairEntries_congr rfl ?_
        intro id' taken
        exact room_setConn conn { conn with phase := .waking node rest } hconn rfl rfl id' taken
      rw [hpairs.log, hents]
      rfl

theorem onLeave_moves {order : List NodeId} (hphase : conn.phase = .leaving)
    (horder : ∀ registration, conn.active = some registration →
      Enumerates order (s.registry.pendingOf registration.key)) :
    Move c config s (s.onLeave id conn order) (.leave id order) := by
  unfold onLeave
  split
  · exact quiet_silent hconn rfl rfl (hphase ▸ .early .leaving) (.ending .done) (fun _ _ => .done)
      (.refl _)
  rename_i registration hact
  refine .leave (core_of_conns hconn) hphase hact (horder registration hact) ?_ rfl (.refl _) rfl
  rw [core_setConn]
  rfl

/-- A step that only touches outbox or close signal of `id`. -/
theorem outside_setConn (hcore : conn'.core = conn.core) : Move c config s (s.setConn id conn') e :=
  .outside (core_setConn_same hconn hcore) rfl (.refl _) rfl

/-- The enabled steps of a handler are moves. -/
theorem handle_moves (he : eventConn e = some id)
    (h : s.handle c config id conn e = some t) : Move c config s t e := by
  cases e
  case accept => cases he
  case relay => cases he
  all_goals
    obtain rfl := Option.some.inj he
    simp only [handle] at h
  case start now =>
    split at h
    next hphase =>
      cases h
      refine .start (core_of_conns hconn) hphase ?_ rfl (.refl _) rfl
      rw [core_setConn]
      rfl
    · cases h
  case frame message d =>
    split at h
    next hphase =>
      split at h
      · cases h
      · cases h
        exact onFrame_moves hconn hphase
    · cases h
  case badFrame err =>
    split at h
    next hphase =>
      split at h
      · cases h
      · cases h
        exact reject_silent hconn (rest_of_reading hphase)
    · cases h
  case hangup id =>
    have hleave : conn.phase.Rest →
        Move c config s (s.setConn id { conn with phase := .leaving }) (.hangup id) := by
      intro hrest
      exact quiet_silent hconn rfl rfl hrest (.ending .leaving) (fun _ _ => .leaving) (.refl _)
    split at h
    next hphase =>
      cases h
      exact hleave (hphase ▸ .early .connecting)
    next hphase =>
      cases h
      exact hleave (rest_of_reading hphase)
    · cases h
  case admission =>
    split at h
    next r hphase =>
      cases h
      exact onAdmit_moves hconn hphase
    · cases h
  case store result order =>
    split at h
    next r hphase =>
      split at h
      next horder =>
        cases h
        exact onStore_moves hconn hphase horder
      · cases h
    · cases h
  case reply =>
    split at h
    next reply after hphase =>
      cases h
      exact onReply_moves hconn hphase
    · cases h
  case kick =>
    split at h
    next node replaced live hphase =>
      cases h
      refine .kick (core_of_conns hconn) hphase ?_ (by rw [nextId_requestClose]; rfl) ?_ ?_
      · rw [core_requestClose, core_setConn]
        rfl
      · rw [registry_requestClose]
        exact .refl _
      · rw [log_requestClose]
        rfl
    · cases h
  case wake d =>
    split at h
    next node live hphase =>
      cases h
      exact onWake_moves hconn hphase
    · cases h
  case budget now =>
    split at h
    next shortId hphase =>
      cases h
      refine quiet_silent hconn rfl rfl (hphase ▸ .budgeting shortId) (.resolving _ _) ?_
        (takeShortLookup_same _ _ _)
      rw [hphase]
      intro _ hearly
      cases hearly
    · cases h
  case resolve result =>
    split at h
    next shortId allowed hphase =>
      cases h
      refine quiet_silent hconn ?_ ?_ (hphase ▸ .resolving shortId allowed) (.replying (by simp)) ?_
        (.refl _)
      · split <;> rfl
      · split <;> rfl
      · rw [hphase]
        intro _ hearly
        cases hearly
    · cases h
  case leave order =>
    split at h
    next hphase =>
      split at h
      next horder =>
        cases h
        refine onLeave_moves hconn hphase ?_
        intro registration hact
        rw [hact, Option.all_some, decide_eq_true_eq] at horder
        exact horder
      · cases h
    · cases h
  case writerRecv =>
    split at h
    · split at h
      · cases h
        exact outside_setConn hconn rfl
      · cases h
    · cases h
  case writerStop =>
    cases h
    exact outside_setConn hconn rfl

end Server

/-! ## Steps -/

/-- The counter before it comes round. -/
theorem nextId_toNat {id : UInt64} (h : ¬ id + 1 = 0) : (id + 1).toNat = id.toNat + 1 := by
  have hlt := id.toNat_lt
  have hsum : (id + 1).toNat = (id.toNat + 1) % 2 ^ 64 := UInt64.toNat_add id 1
  have hne : (id + 1).toNat ≠ 0 := by
    intro hzero
    exact h (UInt64.toNat_inj.mp hzero)
  omega

/-- Every step of the server is a move. -/
theorem step_moves {s t : Server} {e : Event} (h : (machine c config).step s e t) :
    Move c config s t e := by
  have h' : s.step c config e = some t := h
  have hhandle : ((Server.eventConn e).bind fun id => (s.conns id).bind fun conn =>
      s.handle c config id conn e) = some t → Move c config s t e := by
    intro hb
    obtain ⟨id, hid, hb⟩ := Option.bind_eq_some_iff.mp hb
    obtain ⟨conn, hconn, hb⟩ := Option.bind_eq_some_iff.mp hb
    exact Server.handle_moves hconn hid hb
  unfold Server.step at h'
  split at h'
  · split at h'
    · cases h'
    next hround =>
      cases h'
      refine .accept ?_ (nextId_toNat hround) (.refl _) rfl
      exact Server.core_setConn s s.nextId.toNat _
  · split at h'
    · cases h'
      exact .outside rfl rfl ⟨rfl, rfl, rfl⟩ rfl
    · cases h'
  · exact hhandle h'

end P2pFile.Discovery
