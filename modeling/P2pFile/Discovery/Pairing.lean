/-
  P2pFile.Discovery.Pairing

  `try_pair` is all or nothing, and what two connections are told about each other
  is told in one order.

  Both messages of a pairing are queued in one section, and nothing else queues a
  `PeerCandidates`.  As a connection speaks for one node only, the tokens that two
  current connections get about each other are therefore the same list.
-/

import P2pFile.Discovery.Registration

namespace P2pFile.Discovery

open Lib
open Relay (Token)

variable {c : Crypto} {config : SignalServerConfig} {s t : Server} {a b : NodeId}

/-! ## One execution of `try_pair` -/

namespace Server

def outboxOf (s : Server) (id : Nat) : List SignalMessage := ((s.conns id).map Conn.outbox).getD []

theorem outboxOf_setConn (s : Server) (id : Nat) (conn : Conn) (id' : Nat) :
    (s.setConn id conn).outboxOf id' = if id' = id then conn.outbox else s.outboxOf id' := by
  unfold outboxOf setConn
  simp only [Function.update_apply]
  split <;> rfl

theorem outboxOf_requestClose (s : Server) (id id' : Nat) :
    (s.requestClose id).outboxOf id' = s.outboxOf id' := by
  unfold requestClose
  split
  · rfl
  rename_i conn hconn
  rw [outboxOf_setConn]
  split
  next hid =>
    rw [hid, outboxOf, hconn]
    rfl
  · rfl

theorem outboxOf_enqueue {id : Nat} (h : (s.conns id).isSome = true) (m : SignalMessage)
    (id' : Nat) : (s.enqueue id m).outboxOf id' =
      if id' = id then s.outboxOf id ++ [m] else s.outboxOf id' := by
  obtain ⟨conn, hconn⟩ := Option.isSome_iff_exists.mp h
  have hout : s.outboxOf id = conn.outbox := by
    rw [outboxOf, hconn]
    rfl
  unfold enqueue
  rw [hconn, hout]
  exact outboxOf_setConn ..

theorem outboxOf_enqueue_two {idA idB : Nat} (hA : (s.conns idA).isSome = true)
    (hB : (s.conns idB).isSome = true) (hne : idA ≠ idB) (mA mB : SignalMessage) (id : Nat) :
    ((s.enqueue idA mA).enqueue idB mB).outboxOf id =
      if id = idB then s.outboxOf idB ++ [mB]
      else if id = idA then s.outboxOf idA ++ [mA]
      else s.outboxOf id := by
  rw [outboxOf_enqueue (isSome_conns_enqueue hB), outboxOf_enqueue hA, outboxOf_enqueue hA,
    if_neg hne.symm]

end Server

/-- What an execution of `try_pair(a, b)` may do. -/
inductive PairOutcome (s t : Server) (a b : NodeId) (token : Token) : Prop
  /-- Each side gets the other's candidates, both with the same token. -/
  | paired {recordA recordB : PeerRecord}
      (hA : s.registry.peers.lookup a = some recordA)
      (hB : s.registry.peers.lookup b = some recordB)
      (hne : recordA.connectionId ≠ recordB.connectionId)
      (houtA : t.outboxOf recordA.connectionId = s.outboxOf recordA.connectionId ++
        [.peerCandidates b recordB.candidates token])
      (houtB : t.outboxOf recordB.connectionId = s.outboxOf recordB.connectionId ++
        [.peerCandidates a recordA.candidates token])
      (hother : ∀ id, id ≠ recordA.connectionId → id ≠ recordB.connectionId →
        t.outboxOf id = s.outboxOf id)
      (hlog : t.log = s.log ++
        [.queued recordA.connectionId (.peerCandidates b recordB.candidates token),
         .queued recordB.connectionId (.peerCandidates a recordA.candidates token)])
  /-- Nobody gets anything, and the relay issues no ticket. -/
  | nothing
      (hout : ∀ id, t.outboxOf id = s.outboxOf id)
      (hlog : t.log = s.log)
      (hrelay : t.registry.relay = s.registry.relay)

theorem PairOutcome.requestClose (s : Server) (id : Nat) (token : Token) :
    PairOutcome s (s.requestClose id) a b token := by
  refine .nothing (s.outboxOf_requestClose id) (s.log_requestClose id) ?_
  rw [Server.registry_requestClose]

/-- Where distinct nodes have distinct connections, `try_pair` is all or nothing. -/
theorem Server.tryPair_outcome (s : Server) (config : SignalServerConfig) (d : Draw)
    (hdistinct : ∀ recordA recordB, s.registry.peers.lookup a = some recordA →
      s.registry.peers.lookup b = some recordB → recordA.connectionId ≠ recordB.connectionId) :
    PairOutcome s (s.tryPair config a b d) a b d.token := by
  unfold Server.tryPair
  split
  next recordA recordB hA hB =>
    have hne := hdistinct recordA recordB hA hB
    split
    · exact .requestClose s recordA.connectionId d.token
    rename_i hroomA
    split
    · exact .requestClose s recordB.connectionId d.token
    rename_i hroomB
    -- Both permits are held, so both connections exist and take their message.
    have hconnA := isSome_of_room (by simpa using hroomA)
    have hconnB := isSome_of_room (by simpa using hroomB)
    refine .paired hA hB hne ?_ ?_ ?_ ?_
    · rw [outboxOf_enqueue_two _ _ hne, if_neg hne, if_pos rfl]
      · rfl
      · exact hconnA
      · exact hconnB
    · rw [outboxOf_enqueue_two _ _ hne, if_pos rfl]
      · rfl
      · exact hconnA
      · exact hconnB
    · intro id hidA hidB
      rw [outboxOf_enqueue_two _ _ hne, if_neg hidB, if_neg hidA]
      · rfl
      · exact hconnA
      · exact hconnB
    · rw [log_enqueue, log_enqueue]
      · simp
      · exact hconnA
      · exact isSome_conns_enqueue hconnB
  · exact .nothing (fun _ => rfl) rfl rfl

/-! ## Wake-up lists -/

/-- No handler is about to pair a node with itself. -/
def Server.WakesOthers (s : Server) : Prop :=
  ∀ id k node live, s.core id = some k → k.phase.wakes = some (node, live) → node ∉ live

variable {id : Nat}

theorem Registry.owns_withPeer {reg : Registry} {r : Verified} {m : NodeId} (hne : m ≠ r.nodeId)
    (id' : Nat) : (reg.withPeer id r).owns m id' = reg.owns m id' := by
  unfold Registry.owns Registry.withPeer
  simp only [AList.lookup_insert_ne hne]

/-- A step changes the wake-up list of at most one handler: it shortens it, or it
    takes the current waiters of a node that registers. -/
theorem Move.wakes_cases {e : Event} (hm : Move c config s t e) {k' : Core} {node : NodeId}
    {live : List NodeId} (hk' : t.core id = some k') (hwakes : k'.phase.wakes = some (node, live)) :
    (∃ k live', s.core id = some k ∧ k.phase.wakes = some (node, live') ∧ live ⊆ live') ∨
      ∀ m ∈ live, m ≠ node ∧ t.registry.peers.lookup m = s.registry.peers.lookup m ∧
        ∃ waiting, ⟨m, waiting⟩ ∈ s.registry.waitersOf node ∧ s.registry.owns m waiting = true := by
  have hsame : t.core = s.core →
      ∃ k live', s.core id = some k ∧ k.phase.wakes = some (node, live') ∧ live ⊆ live' := by
    intro hcore
    rw [hcore] at hk'
    exact ⟨k', live, hk', hwakes, List.Subset.refl _⟩
  -- The wake-up list of the handler that moved is part of its old one.
  have hupdate : ∀ {id' : Nat} {k₀ : Option Core} {k₁ : Core}, s.core id' = k₀ →
      t.core = Function.update s.core id' (some k₁) →
      (k₁.phase.wakes = some (node, live) → ∃ k live', k₀ = some k ∧
        k.phase.wakes = some (node, live') ∧ live ⊆ live') →
      ∃ k live', s.core id = some k ∧ k.phase.wakes = some (node, live') ∧ live ⊆ live' := by
    intro id' k₀ k₁ hk₀ hcore hsub
    by_cases hid : id = id'
    · rw [hcore, hid, Function.update_self] at hk'
      cases hk'
      rw [hid, hk₀]
      exact hsub hwakes
    · rw [hcore, Function.update_of_ne hid] at hk'
      exact ⟨k', live, hk', hwakes, List.Subset.refl _⟩
  have hnone : ∀ {phase : Phase} {P : Prop}, phase.wakes = none →
      phase.wakes = some (node, live) → P := by
    intro phase P hphase hsome
    rw [hphase] at hsome
    cases hsome
  cases hm with
  | accept hcore => exact .inl (hupdate rfl hcore (hnone rfl))
  | outside hcore => exact .inl (hsame hcore)
  | quiet hk _ hcalm _ hcore => exact .inl (hupdate hk hcore (hnone hcalm.wakes_eq))
  | consume hk _ _ hnew hcore =>
    refine .inl (hupdate hk hcore (hnone ?_))
    rcases hnew with hend | ⟨r, rfl, -⟩
    · exact hend.wakes_eq
    · rfl
  | @insert id' _ order k r _ replaced hk _ horder _ _ hcore _ hs =>
    by_cases hid : id = id'
    · rw [hcore, hid, Function.update_self] at hk'
      cases hk'
      cases hwakes
      refine .inr ?_
      intro m hm
      have horder' : Enumerates order ((s.registry.withPeer id' r).waitersOf r.nodeId) := horder
      obtain ⟨waiting, hmem, howns, hne⟩ := (Registry.mem_live horder').mp hm
      rw [Registry.owns_withPeer hne] at howns
      refine ⟨hne, ?_, waiting, hmem, howns⟩
      rw [hs.peers, (Registry.takeWaitersFor_taken horder').peers]
      exact AList.lookup_insert_ne hne
    · rw [hcore, Function.update_of_ne hid] at hk'
      exact .inl ⟨k', live, hk', hwakes, List.Subset.refl _⟩
  | @send _ k _ after hk hphase hcore =>
    refine .inl (hupdate hk hcore ?_)
    intro hsome
    refine ⟨k, live, rfl, ?_, List.Subset.refl _⟩
    rw [hphase, Phase.wakes_replying]
    exact hsome
  | @kick _ k _ _ _ hk hphase hcore =>
    refine .inl (hupdate hk hcore ?_)
    intro hsome
    refine ⟨k, live, rfl, ?_, List.Subset.refl _⟩
    rw [hphase]
    exact hsome
  | @wake _ _ k node' waiter rest hk hphase hcore =>
    refine .inl (hupdate hk hcore ?_)
    intro hsome
    obtain ⟨rfl, rfl⟩ := Prod.mk.inj (Option.some.inj hsome)
    refine ⟨k, waiter :: rest, rfl, ?_, List.subset_cons_self ..⟩
    rw [hphase]
    rfl
  | pair _ _ _ hcore => exact .inl (hsame hcore)
  | _ => exact .inl (hupdate ‹_› ‹_› (hnone rfl))

theorem run_wakesOthers {es : List Event} (h : (machine c config).Run es s) : s.WakesOthers := by
  refine Machine.Run.inv (I := Server.WakesOthers) ?_ ?_ h
  · rintro s ⟨-, hconns, -⟩ id k node live hk
    rw [Server.core, hconns] at hk
    cases hk
  intro s e t hI hstep id k' node live hk' hwakes hmem
  rcases (step_moves hstep).wakes_cases hk' hwakes with
    ⟨k, live', hk, hold, hsub⟩ | htaken
  · exact hI id k node live' hk hold (hsub hmem)
  · exact (htaken node hmem).1 rfl

/-! ## Pushes in the history -/

/-- The message tells its receiver how to reach a peer. -/
def Entry.isPush : Entry → Bool
  | .queued _ (.peerCandidates ..) => true
  | _ => false

/-- The token of a push to connection `id` about node `n`. -/
def Entry.tokenTo (id : Nat) (n : NodeId) : Entry → Option Token
  | .queued id' (.peerCandidates n' _ token) => if id' = id ∧ n' = n then some token else none
  | _ => none

/-- The tokens queued to connection `id` about node `n`, in order. -/
def tokensTo (id : Nat) (n : NodeId) (log : List Entry) : List Token :=
  log.filterMap (Entry.tokenTo id n)

theorem tokensTo_filter_isPush (id : Nat) (n : NodeId) (log : List Entry) :
    tokensTo id n (log.filter Entry.isPush) = tokensTo id n log := by
  unfold tokensTo
  rw [List.filterMap_filter]
  congr 1
  funext x
  cases x with
  | queued id' message => cases message <;> rfl
  | _ => rfl

theorem filter_isPush_pairEntries (s : Server) (config : SignalServerConfig) (a b : NodeId)
    (token : Token) :
    (s.pairEntries config a b token).filter Entry.isPush = s.pairEntries config a b token := by
  rw [List.filter_eq_self]
  intro x hx
  obtain ⟨_, _, _, _, rfl | rfl⟩ := Server.mem_pairEntries hx
  · rfl
  · rfl

/-- What an event draws for the section it runs. -/
def Event.draw : Event → Option Draw
  | .frame _ _ d => some d
  | .wake _ d => some d
  | _ => none

/-- Pushes are queued by `try_pair` only, on behalf of two different nodes. -/
theorem Move.pushes {e : Event} (hm : Move c config s t e) (hwakes : s.WakesOthers) :
    ∃ entries, t.log = s.log ++ entries ∧
      (entries.filter Entry.isPush = [] ∨ ∃ a b d, a ≠ b ∧ e.draw = some d ∧
        entries.filter Entry.isPush = s.pairEntries config a b d.token) := by
  have hnone : t.log = s.log → ∃ entries, t.log = s.log ++ entries ∧
      (entries.filter Entry.isPush = [] ∨ ∃ a b d, a ≠ b ∧ e.draw = some d ∧
        entries.filter Entry.isPush = s.pairEntries config a b d.token) := by
    intro hlog
    exact ⟨[], by rw [hlog, List.append_nil], .inl rfl⟩
  cases hm with
  | quiet _ _ _ _ _ _ _ hents hlog =>
    refine ⟨_, hlog, .inl ?_⟩
    rw [List.filter_eq_nil_iff]
    intro x hx
    obtain ⟨m, rfl⟩ := hents x hx
    simp [Entry.isPush]
  | hello _ _ _ _ _ _ _ hlog | consume _ _ _ _ _ _ _ hlog | insert _ _ _ _ _ _ _ _ _ hlog
  | defer _ _ _ _ _ _ _ hlog => exact ⟨_, hlog, .inl rfl⟩
  | @send _ _ reply _ _ _ _ _ _ hlog =>
    refine ⟨_, hlog, .inl ?_⟩
    cases reply <;> rfl
  | @wake id d k node waiter rest hk hphase _ _ _ hlog =>
    refine ⟨_, hlog, .inr ⟨waiter, node, d, ?_, rfl, filter_isPush_pairEntries ..⟩⟩
    rintro rfl
    exact hwakes id k waiter (waiter :: rest) hk (by rw [hphase]; rfl) (.head _)
  | @pair id target d k registration hk _ hask _ _ _ hlog =>
    refine ⟨_, hlog, .inr ⟨registration.nodeId, target, d, hask.ne, rfl, ?_⟩⟩
    exact filter_isPush_pairEntries ..
  | _ => exact hnone ‹_›

/-! ## Two current connections -/

variable {n m : NodeId}

/-- The connection of a record speaks for `n` exactly if the record is that of `n`. -/
theorem Registered.connectionId_eq_iff (h : Registered c s) {record : PeerRecord}
    (howns : s.registry.owns n id = true) (hrec : s.registry.peers.lookup m = some record) :
    record.connectionId = id ↔ m = n := by
  obtain ⟨record', hrec', rfl⟩ := Registry.owns_iff.mp howns
  constructor
  · intro hid
    exact h.node_eq hrec hrec' hid
  · rintro rfl
    rw [hrec] at hrec'
    rw [Option.some.inj hrec']

/-- One pairing gives two current connections the same tokens about each other. -/
theorem Registered.tokensTo_pairEntries (h : Registered c s) {x y : Nat}
    (hx : s.registry.owns n x = true) (hy : s.registry.owns m y = true) (a b : NodeId)
    (token : Token) : tokensTo x m (s.pairEntries config a b token) =
      tokensTo y n (s.pairEntries config a b token) := by
  unfold Server.pairEntries
  split
  next recordA recordB hA hB =>
    split
    · -- Only a pairing of `n` with `m` reaches either connection about the other node.
      have hAx : recordA.connectionId = x ∧ b = m ↔ a = n ∧ b = m := by
        rw [h.connectionId_eq_iff hx hA]
      have hBx : recordB.connectionId = x ∧ a = m ↔ b = n ∧ a = m := by
        rw [h.connectionId_eq_iff hx hB]
      have hAy : recordA.connectionId = y ∧ b = n ↔ b = n ∧ a = m := by
        rw [h.connectionId_eq_iff hy hA, and_comm]
      have hBy : recordB.connectionId = y ∧ a = n ↔ a = n ∧ b = m := by
        rw [h.connectionId_eq_iff hy hB, and_comm]
      simp only [tokensTo, List.filterMap_cons, List.filterMap_nil, Entry.tokenTo, hAx, hAy, hBx,
        hBy]
      by_cases h₁ : a = n ∧ b = m
      · by_cases h₂ : b = n ∧ a = m
        · rw [if_pos h₁, if_pos h₂]
        · rw [if_pos h₁, if_neg h₂]
      · by_cases h₂ : b = n ∧ a = m
        · rw [if_neg h₁, if_pos h₂]
        · rw [if_neg h₁, if_neg h₂]
    · rfl
  · rfl

/-- Both connections are current. -/
def BothCurrent (x y : Nat) (n m : NodeId) (s : Server) (_ : Event) (_ : Server) : Prop :=
  s.registry.owns n x = true ∧ s.registry.owns m y = true

/-- While two connections stay current they are told the same tokens about each
    other, in the same order. -/
theorem steps_tokensTo {es fs : List Event} (h : (machine c config).Run es s) {x y : Nat}
    (hsteps : ((machine c config).restrict (BothCurrent x y n m)).Steps s fs t) :
    ∃ entries, t.log = s.log ++ entries ∧ tokensTo x m entries = tokensTo y n entries := by
  -- Induction on the steps; the invariants hold at every state, which a run reaches.
  induction hsteps with
  | nil => exact ⟨[], by rw [List.append_nil], rfl⟩
  | @snoc u v fs e hpre hstep ih =>
    obtain ⟨entries, hlog, htokens⟩ := ih
    have hrun := h.append hpre.of_restrict
    have hI := run_registered hrun
    obtain ⟨hmachine, hx, hy⟩ := hstep
    obtain ⟨new, hnew, hpush⟩ := (step_moves hmachine).pushes (run_wakesOthers hrun)
    refine ⟨entries ++ new, by rw [hnew, hlog, List.append_assoc], ?_⟩
    have hlast : tokensTo x m new = tokensTo y n new := by
      rw [← tokensTo_filter_isPush x m new, ← tokensTo_filter_isPush y n new]
      rcases hpush with hnil | ⟨a, b, d, -, -, hpair⟩
      · rw [hnil]
        rfl
      · rw [hpair]
        exact hI.tokensTo_pairEntries hx hy a b d.token
    unfold tokensTo at *
    rw [List.filterMap_append, List.filterMap_append, htokens, hlast]

/-! ## The pairing theorem -/

/-- **Pairing is all or nothing, and ordered.**  In every reachable state an execution
    of `try_pair` for two nodes tells each current connection about the other with the
    token it drew, or queues nothing and issues no ticket.  Every step of a handler
    queues either no `PeerCandidates`, or those of one such pairing of two different
    nodes.  While two connections stay current, the tokens queued to each about the
    other's node are the same list. -/
theorem pairing_all_or_nothing {es : List Event} (h : (machine c config).Run es s) :
    (∀ a b d, a ≠ b → PairOutcome s (s.tryPair config a b d) a b d.token) ∧
    (∀ e t, (machine c config).step s e t → ∃ entries, t.log = s.log ++ entries ∧
      (entries.filter Entry.isPush = [] ∨ ∃ a b d, a ≠ b ∧ e.draw = some d ∧
        (s.tryPair config a b d).log = s.log ++ entries.filter Entry.isPush)) ∧
    (∀ x y n m fs t, ((machine c config).restrict (BothCurrent x y n m)).Steps s fs t →
      ∃ entries, t.log = s.log ++ entries ∧ tokensTo x m entries = tokensTo y n entries) := by
  have hI := run_registered h
  refine ⟨?_, ?_, ?_⟩
  · intro a b d hne
    refine s.tryPair_outcome config d ?_
    intro recordA recordB hA hB hconn
    exact hne (hI.node_eq hA hB hconn)
  · intro e t hstep
    obtain ⟨entries, hlog, hpush⟩ := (step_moves hstep).pushes (run_wakesOthers h)
    refine ⟨entries, hlog, hpush.imp_right ?_⟩
    rintro ⟨a, b, d, hne, hdraw, hpair⟩
    refine ⟨a, b, d, hne, hdraw, ?_⟩
    rw [hpair]
    exact (s.tryPair_spec config a b d).log
  · intro x y n m fs t hsteps
    exact steps_tokensTo h hsteps

namespace Sample

/-- Node 2 registers on connection 2 while node 1 waits for it, and wakes it. -/
def paired : List Event :=
  waiting ++ accept :: register 2 2 [⟨node 1, 1⟩] ++ [.reply 2, .wake 2 (draw 9)]

theorem paired_isSome : (exec paired).isSome = true := by decide +kernel

def pairedServer : Server := (exec paired).get paired_isSome

theorem paired_run : (machine .sample .default).Run paired pairedServer :=
  run_of_exec (Option.some_get paired_isSome).symm

end Sample

open Sample in
/-- In the sample run both connections are current at the end and have been told one
    token about each other; a further pairing is all or nothing. -/
theorem pairing_all_or_nothing_sample : tokensTo 1 (node 2) pairedServer.log = [(draw 9).token] ∧
    tokensTo 2 (node 1) pairedServer.log = [(draw 9).token] ∧
    PairOutcome pairedServer (pairedServer.tryPair .default (node 1) (node 2) (draw 8))
      (node 1) (node 2) (draw 8).token := by
  refine ⟨by decide +kernel, by decide +kernel, ?_⟩
  exact (pairing_all_or_nothing paired_run).1 _ _ _ (by decide)

end P2pFile.Discovery
