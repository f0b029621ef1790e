/-
  P2pFile.Relay.ServerQuota

  The resource quotas of the relay admission hold in every reachable state.

  The source counts its maps again at every check, so each quota is an invariant
  of one map.  The three structures below collect the quotas of the tickets, the
  pending challenges and the sessions, each with its lemmas for removing entries
  and for the one guarded insertion that grows it.
-/

import P2pFile.Relay.ServerIndex

namespace P2pFile.Relay

open Lib
open Function (update update_apply)
open Session (containsNode containsNode_iff containsPair containsPair_iff)

variable {c : Crypto} {config : RelayServerConfig}

/-- The share of the session pool open to one pair or node. -/
def RelayServerConfig.fairLimit (config : RelayServerConfig) : Nat := max 1 (config.maxSessions / 2)

/-! ## Tickets -/

structure TicketQuota (config : RelayServerConfig) (tickets : FinMap Token Ticket) : Prop where
  total : tickets.size ≤ 2 * config.maxSessions
  pair : ∀ a b, tickets.countP (fun _ t => t.isFor a b) ≤ min maxTicketsPerPair config.maxSessions
  node : ∀ n, tickets.countP (fun _ t => t.contains n) ≤ min maxTicketsPerNode config.maxSessions

namespace TicketQuota

variable {tickets : FinMap Token Ticket}

theorem retain (h : TicketQuota config tickets) (keep : Token → Ticket → Bool) :
    TicketQuota config (tickets.retain keep) where
  total := (AList.size_retain_le keep tickets).trans h.total
  pair a b := (AList.countP_retain_le _ keep tickets).trans (h.pair a b)
  node n := (AList.countP_retain_le _ keep tickets).trans (h.node n)

variable {expires : Instant}

/-- A ticket for the pair names both of its nodes, so the source's pair count is
    at least the number of tickets for the pair. -/
theorem countP_isFor_le {a b x y : NodeId} (hxy : Ticket.isFor ⟨![a, b], expires⟩ x y = true) :
    tickets.countP (fun _ t => t.isFor x y) ≤
      tickets.countP (fun _ t => t.contains a && t.contains b) := by
  refine AList.countP_mono ?_
  intro entry _ ht
  simp only [Ticket.isFor, Ticket.contains, Bool.or_eq_true, Bool.and_eq_true, beq_iff_eq,
    Matrix.cons_val_zero, Matrix.cons_val_one] at hxy ht ⊢
  rcases hxy with ⟨rfl, rfl⟩ | ⟨rfl, rfl⟩ <;> rcases ht with ⟨h₀, h₁⟩ | ⟨h₀, h₁⟩ <;>
    simp [h₀, h₁]

theorem insert (h : TicketQuota config tickets) {token : Token} {a b : NodeId}
    (htotal : tickets.size < config.maxSessions * 2)
    (hpair : tickets.countP (fun _ t => t.contains a && t.contains b) <
      min maxTicketsPerPair config.maxSessions) (hnode : ∀ n, n = a ∨ n = b →
      tickets.countP (fun _ t => t.contains n) < min maxTicketsPerNode config.maxSessions) :
    TicketQuota config (tickets.insert token ⟨![a, b], expires⟩) where
  total := by
    have hle := AList.size_insert_le tickets token ⟨![a, b], expires⟩
    omega
  pair x y := by
    refine AList.countP_insert_le_of_room (h.pair x y) ?_
    intro hxy
    exact (countP_isFor_le hxy).trans_lt hpair
  node n := by
    refine AList.countP_insert_le_of_room (h.node n) ?_
    intro hn
    refine hnode n ?_
    simp only [Ticket.contains, Bool.or_eq_true, beq_iff_eq, Matrix.cons_val_zero,
      Matrix.cons_val_one] at hn
    rcases hn with hn | hn
    · exact Or.inl hn.symm
    · exact Or.inr hn.symm

end TicketQuota

/-! ## Pending challenges -/

structure PendingQuota (config : RelayServerConfig)
    (pending : FinMap SocketAddr Pending) : Prop where
  total : pending.size ≤ 2 * config.maxSessions
  ip : ∀ ip, pending.countP (fun addr _ => addr.ip == ip) ≤ config.maxPendingPerIp

namespace PendingQuota

variable {pending : FinMap SocketAddr Pending} (h : PendingQuota config pending)

include h

theorem retain (keep : SocketAddr → Pending → Bool) :
    PendingQuota config (pending.retain keep) where
  total := (AList.size_retain_le keep pending).trans h.total
  ip ip := (AList.countP_retain_le _ keep pending).trans (h.ip ip)

theorem erase (source : SocketAddr) : PendingQuota config (pending.erase source) where
  total := (AList.size_erase_le pending source).trans h.total
  ip ip := (AList.countP_erase_le _ pending source).trans (h.ip ip)

theorem insert {source : SocketAddr} (p : Pending)
    (htotal : pending.size < config.maxSessions * 2)
    (hip : pending.countP (fun addr _ => addr.ip == source.ip) < config.maxPendingPerIp) :
    PendingQuota config (pending.insert source p) where
  total := by
    have hle := AList.size_insert_le pending source p
    omega
  ip ip := by
    refine AList.countP_insert_le_of_room (h.ip ip) ?_
    intro heq
    obtain rfl : source.ip = ip := beq_iff_eq.mp heq
    exact hip

end PendingQuota

/-! ## Sessions -/

structure SessionQuota (config : RelayServerConfig)
    (sessions : FinMap SessionKey Session) : Prop where
  total : sessions.size ≤ config.maxSessions
  pair : ∀ a b, sessions.countP (fun _ s => s.containsPair a b) ≤
    min maxSessionsPerPair config.fairLimit
  node : ∀ n, sessions.countP (fun _ s => s.containsNode n) ≤
    min maxSessionsPerNode config.fairLimit
  slot : ∀ key s, sessions.lookup key = some s → key.slot < maxArmsPerTicket

variable {hello : Hello} {source : SocketAddr} {side : Fin 2} {now : Instant}

/-- A session with one bound side is of that Hello's pair only. -/
theorem containsPair_single {a b : NodeId}
    (h : containsPair ⟨update (fun _ => none) side (some ⟨hello, source⟩), now⟩
      a b = true) : ∀ s : Session, s.containsPair a b = s.containsPair hello.node hello.peer := by
  obtain ⟨i, bound, hi, hb⟩ := containsPair_iff.mp h
  simp only [update_apply] at hi
  split at hi
  · cases hi
    intro s
    rw [Bool.eq_iff_iff, containsPair_iff, containsPair_iff]
    -- The pair is that of the Hello, in one order or the other.
    rcases hb with ⟨rfl, rfl⟩ | ⟨rfl, rfl⟩
    · rfl
    · simp only [or_comm]
  · cases hi

theorem containsNode_single {n : NodeId}
    (h : containsNode ⟨update (fun _ => none) side (some ⟨hello, source⟩), now⟩
      n = true) : n = hello.node ∨ n = hello.peer := by
  obtain ⟨i, bound, hi, hb⟩ := containsNode_iff.mp h
  simp only [update_apply] at hi
  split at hi
  · cases hi
    exact hb.imp Eq.symm Eq.symm
  · cases hi

variable {key : SessionKey} {s : Session} (hj : State.Joins hello side key s)

include hj

/-- Whatever one side of a session names, the other side of a joined session
    names too. -/
theorem exists_side_join {P : Bound → Prop}
    (hP : ∀ b : Bound, b.hello.node = hello.peer → b.hello.peer = hello.node →
      (P ⟨hello, source⟩ ↔ P b)) :
    (∃ i b, update s.sides side (some ⟨hello, source⟩) i = some b ∧ P b) ↔
      ∃ i b, s.sides i = some b ∧ P b := by
  obtain ⟨b₀, hb₀, hnode, hpeer⟩ := hj.opposite
  constructor
  · rintro ⟨i, b, hi, hb⟩
    rw [update_apply] at hi
    split at hi
    · -- What the new side names, the opposite side names already.
      cases hi
      exact ⟨1 - side, b₀, hb₀, (hP b₀ hnode hpeer).mp hb⟩
    · exact ⟨i, b, hi, hb⟩
  · rintro ⟨i, b, hi, hb⟩
    have hne : i ≠ side := by
      rintro rfl
      rw [hj.free] at hi
      cases hi
    exact ⟨i, b, by rw [Function.update_of_ne hne]; exact hi, hb⟩

theorem containsPair_join (a b : NodeId) :
    containsPair ⟨update s.sides side (some ⟨hello, source⟩), now⟩ a b = s.containsPair a b := by
  rw [Bool.eq_iff_iff, containsPair_iff, containsPair_iff]
  refine exists_side_join hj ?_
  rintro b₀ hnode hpeer
  rw [hnode, hpeer, or_comm, and_comm, and_comm (a := hello.node = a)]

theorem containsNode_join (n : NodeId) :
    containsNode ⟨update s.sides side (some ⟨hello, source⟩), now⟩ n = s.containsNode n := by
  rw [Bool.eq_iff_iff, containsNode_iff, containsNode_iff]
  refine exists_side_join hj ?_
  rintro b₀ hnode hpeer
  rw [hnode, hpeer, or_comm]

omit hj

namespace SessionQuota

variable {sessions : FinMap SessionKey Session} (h : SessionQuota config sessions)

include h

theorem retain (keep : SessionKey → Session → Bool) :
    SessionQuota config (sessions.retain keep) where
  total := (AList.size_retain_le keep sessions).trans h.total
  pair a b := (AList.countP_retain_le _ keep sessions).trans (h.pair a b)
  node n := (AList.countP_retain_le _ keep sessions).trans (h.node n)
  slot key s hs := h.slot key s (AList.lookup_of_retain hs)

/-- Overwriting a session by one that names the same nodes. -/
theorem replace {key : SessionKey} {s s' : Session} (hs : sessions.lookup key = some s)
    (hpair : ∀ a b, s'.containsPair a b = s.containsPair a b)
    (hnode : ∀ n, s'.containsNode n = s.containsNode n) :
    SessionQuota config (sessions.insert key s') where
  total := by
    rw [AList.size_insert_of_lookup_some hs]
    exact h.total
  pair a b := by
    rw [AList.countP_insert_of_lookup_some hs s' (hpair a b)]
    exact h.pair a b
  node n := by
    rw [AList.countP_insert_of_lookup_some hs s' (hnode n)]
    exact h.node n
  slot key' s'' hs'' := by
    rcases AList.lookup_insert_some hs'' with ⟨hkey, rfl⟩ | ⟨-, hs''⟩
    · rw [hkey]
      exact h.slot key s hs
    · exact h.slot key' s'' hs''

/-- A new session with one bound side, where the quotas left room. -/
theorem insert {hello : Hello} {source : SocketAddr}
    {side : Fin 2} {arm : SessionKey} {now : Instant} (htotal : sessions.size < config.maxSessions)
    (hpair : sessions.countP (fun _ s => s.containsPair hello.node hello.peer) <
      min maxSessionsPerPair config.fairLimit) (hnode : ∀ n, n = hello.node ∨ n = hello.peer →
      sessions.countP (fun _ s => s.containsNode n) < min maxSessionsPerNode config.fairLimit)
    (hslot : arm.slot < maxArmsPerTicket) : SessionQuota config (sessions.insert arm
      ⟨update (fun _ => none) side (some ⟨hello, source⟩), now⟩) where
  total := (AList.size_insert_le sessions arm _).trans htotal
  pair a b := by
    refine AList.countP_insert_le_of_room (h.pair a b) ?_
    intro hab
    simp only [containsPair_single hab]
    exact hpair
  node n := by
    refine AList.countP_insert_le_of_room (h.node n) ?_
    intro hn
    exact hnode n (containsNode_single hn)
  slot key s hs := by
    rcases AList.lookup_insert_some hs with ⟨hkey, rfl⟩ | ⟨-, hs⟩
    · rw [hkey]
      exact hslot
    · exact h.slot key s hs

/-- Slots are below the arm limit, and the sessions of a token differ in their
    slots. -/
theorem token (token : Token) :
    sessions.countP (fun key _ => key.token == token) ≤ maxArmsPerTicket := by
  have hle := AList.countP_le_of_keys_inj (m := sessions) (p := fun key _ => key.token == token)
    (f := SessionKey.slot) (l := List.range maxArmsPerTicket) ?_ ?_
  · rwa [List.length_range] at hle
  · intro k k' s s' _ _ hk hk' hslot
    have htok : k.token = k'.token := (beq_iff_eq.mp hk).trans (beq_iff_eq.mp hk').symm
    cases k
    cases k'
    simp only at htok hslot
    rw [htok, hslot]
  · intro k s hs _
    exact List.mem_range.mpr (h.slot k s hs)

end SessionQuota

/-! ## All quotas -/

structure Quotas (config : RelayServerConfig) (st : State) : Prop where
  config_eq : st.config = config
  tickets : TicketQuota config st.tickets
  pending : PendingQuota config st.pending
  sessions : SessionQuota config st.sessions

namespace Quotas

variable {st st' : State} {e : Event}

theorem empty (config : RelayServerConfig) : Quotas config ⟨config, ∅, ∅, ∅, ∅⟩ where
  config_eq := rfl
  tickets := ⟨by simp, by simp, by simp⟩
  pending := ⟨by simp, by simp⟩
  sessions := ⟨by simp, by simp, by simp, by simp⟩

theorem sweep (h : Quotas config st) (now : Instant) : Quotas config (st.cleanup now) where
  config_eq := h.config_eq
  tickets := by
    simp only [State.cleanup]
    exact h.tickets.retain _
  pending := by
    simp only [State.cleanup]
    exact h.pending.retain _
  sessions := by
    simp only [State.cleanup]
    exact h.sessions.retain _

theorem change (h : Quotas config st) (hch : Change c st e st') : Quotas config st' := by
  obtain ⟨hcfg, htickets, hpend, hsessions⟩ := h
  cases hch with
  | ticket _ _ _ htotal hpair hnode =>
    rw [hcfg] at htotal hpair hnode
    exact ⟨hcfg, htickets.insert htotal hpair hnode, hpend, hsessions⟩
  | challenge _ _ _ htotal hip =>
    rw [hcfg] at htotal hip
    exact ⟨hcfg, htickets, hpend.insert _ htotal hip, hsessions⟩
  | consume _ => exact ⟨hcfg, htickets, hpend.erase _, hsessions⟩
  | join _ _ hsess hjoins =>
    -- The session was counted for the same nodes when it was half-bound.
    refine ⟨hcfg, htickets, hpend.erase _, ?_⟩
    exact hsessions.replace hsess (containsPair_join hjoins) (containsNode_join hjoins)
  | fresh _ _ _ _ hslot hroom =>
    obtain ⟨htotal, hpair, hnode⟩ := hroom
    rw [hcfg, max_comm] at hpair hnode
    rw [hcfg] at htotal
    exact ⟨hcfg, htickets, hpend.erase _, hsessions.insert htotal hpair hnode hslot⟩
  | touch hsess =>
    refine ⟨hcfg, htickets, hpend, ?_⟩
    exact hsessions.replace hsess (fun _ _ => rfl) (fun _ => rfl)

end Quotas

theorem run_quotas {es : List Event} {s : Server} (h : (machine c config).Run es s) :
    Quotas config s.state :=
  Server.invariant (fun _ _ => Quotas.empty config) (fun _ _ now hI => hI.sweep now)
    (fun _ _ _ _ hI _ hch => hI.change hch) h

/-! ## Completing a session -/

/-- The counts of the session map that the quotas bound. -/
structure SameCounts (sessions sessions' : FinMap SessionKey Session) : Prop where
  total : sessions'.size = sessions.size
  pair : ∀ a b, sessions'.countP (fun _ s => s.containsPair a b) =
    sessions.countP (fun _ s => s.containsPair a b)
  node : ∀ n, sessions'.countP (fun _ s => s.containsNode n) =
    sessions.countP (fun _ s => s.containsNode n)
  token : ∀ token, sessions'.countP (fun key _ => key.token == token) =
    sessions.countP (fun key _ => key.token == token)

/-- The session `key` goes from half-bound to ready. -/
def Completes (st st' : State) (key : SessionKey) : Prop :=
  ∃ s s', st.sessions.lookup key = some s ∧ s.ready = false ∧
    st'.sessions.lookup key = some s' ∧ s'.ready = true

theorem not_completes_of_sessions_eq {st st' : State}
    (h : st'.sessions.lookup key = st.sessions.lookup key) : ¬ Completes st st' key := by
  rintro ⟨s, s', hs, hhalf, hs', hready⟩
  rw [h, hs] at hs'
  obtain rfl : s = s' := Option.some.inj hs'
  rw [hhalf] at hready
  cases hready

/-- A call that completes a session is an accepted Register.  It consumes its own
    challenge and leaves every other count as it was. -/
theorem completes_counts {st : State} {e : Event} (h : Completes (st.atCall e) (st.apply c e) key) :
    ∃ ch sa sb source family now nonce, e = .control (.register ch sa sb) source family now nonce ∧
      (st.apply c e).tickets = (st.atCall e).tickets ∧
      (st.apply c e).pending = (st.atCall e).pending.erase source ∧
      SameCounts (st.atCall e).sessions (st.apply c e).sessions := by
  rcases State.apply_cases c st e with heq | hch
  · rw [heq] at h
    exact absurd h (not_completes_of_sessions_eq rfl)
  generalize st.atCall e = st₀ at h hch ⊢
  generalize st.apply c e = st₁ at h hch ⊢
  cases hch with
  | join _ _ hsess hjoins =>
    refine ⟨_, _, _, _, _, _, _, rfl, rfl, rfl, ?_⟩
    exact {
      total := AList.size_insert_of_lookup_some hsess _
      pair := fun a b =>
        AList.countP_insert_of_lookup_some hsess _ (containsPair_join hjoins a b)
      node := fun n => AList.countP_insert_of_lookup_some hsess _ (containsNode_join hjoins n)
      token := fun token => AList.countP_insert_of_lookup_some hsess _ rfl }
  | fresh _ _ hsess =>
    refine absurd h (not_completes_of_sessions_eq ?_)
    obtain ⟨s, _, hs, -⟩ := h
    -- The new session's key was free, so it is not the completed one.
    rw [State.bound_sessions, if_neg]
    rintro rfl
    rw [hsess] at hs
    cases hs
  | touch hsess =>
    -- A refresh leaves the sides alone, so nothing becomes ready.
    obtain ⟨s, s', hs, hhalf, hs', hready⟩ := h
    rw [AList.lookup_insert_eq_ite] at hs'
    split at hs'
    next hkey =>
      rw [hkey, hsess] at hs
      cases hs
      cases hs'
      exact absurd (hhalf.symm.trans hready) (by simp)
    · rw [hs] at hs'
      cases hs'
      exact absurd (hhalf.symm.trans hready) (by simp)
  | _ => exact absurd h (not_completes_of_sessions_eq rfl)

/-! ## The quota theorem -/

/-- **Relay quotas.**  In every reachable state of an admission with a valid
    configuration the tickets, challenges and sessions stay within the quotas:
    in total, per unordered pair, per node, per source IP and per token.  A call
    that completes a half-bound session changes no count of tickets or sessions,
    and takes from the pending challenges only the one it answers. -/
theorem relay_quotas {es : List Event} {s : Server} (h : (machine c config).Run es s) :
    (s.state.tickets.size ≤ 2 * config.maxSessions ∧
      (∀ a b, s.state.tickets.countP (fun _ t => t.isFor a b) ≤ min 16 config.maxSessions) ∧
      (∀ n, s.state.tickets.countP (fun _ t => t.contains n) ≤ min 64 config.maxSessions)) ∧
    (s.state.pending.size ≤ 2 * config.maxSessions ∧
      (∀ ip, s.state.pending.countP (fun addr _ => addr.ip == ip) ≤ config.maxPendingPerIp)) ∧
    (s.state.sessions.size ≤ config.maxSessions ∧
      (∀ a b, s.state.sessions.countP (fun _ sess => sess.containsPair a b) ≤
        min 16 (max 1 (config.maxSessions / 2))) ∧
      (∀ n, s.state.sessions.countP (fun _ sess => sess.containsNode n) ≤
        min 64 (max 1 (config.maxSessions / 2))) ∧
      (∀ token, s.state.sessions.countP (fun key _ => key.token == token) ≤ 4)) ∧
    (∀ e key, Completes (s.state.atCall e) (s.state.apply c e) key →
      ∃ ch sa sb source family now nonce,
        e = .control (.register ch sa sb) source family now nonce ∧
        (s.state.apply c e).tickets = (s.state.atCall e).tickets ∧
        (s.state.apply c e).pending = (s.state.atCall e).pending.erase source ∧
        SameCounts (s.state.atCall e).sessions (s.state.apply c e).sessions) := by
  obtain ⟨-, htickets, hpending, hsessions⟩ := run_quotas h
  refine ⟨⟨htickets.total, htickets.pair, htickets.node⟩, ⟨hpending.total, hpending.ip⟩,
    ⟨hsessions.total, hsessions.pair, hsessions.node, hsessions.token⟩, ?_⟩
  intro e key hcomplete
  exact completes_counts hcomplete

/-- The sample run ends with one ticket and one session of its token, within the
    default quotas. -/
theorem relay_quotas_sample : Sample.server.state.tickets.size = 1 ∧
      Sample.server.state.sessions.countP (fun key _ => key.token == Sample.token) = 1 ∧
      Sample.server.state.tickets.size ≤ 2 * 512 :=
  ⟨by decide +kernel, by decide +kernel, (relay_quotas Sample.run).1.1⟩

namespace Sample

/-- Node 2 answers its challenge when node 1 is bound. -/
def completion : Event :=
  .control (.register (challengeOf 2 1) (Bytes.fill 32 7) (Bytes.fill 32 7)) (socket 2) .ipv4 4
    (Bytes.fill 32 0)

end Sample

open Sample in
/-- The Register that completes the session of the sample run takes its challenge from the
    pending ones. -/
theorem completion_takes_challenge : ∃ s, (machine .sample .default).Run (events.take 4) s ∧
      Completes (s.state.atCall completion) (s.state.apply .sample completion) ⟨token, 0⟩ ∧
      (s.state.atCall completion).pending.size = 1 ∧
      (s.state.apply .sample completion).pending.size = 0 := by
  have hsome : (Machine.exec (Server.step .sample) start (events.take 4)).any (fun s =>
      ((s.state.atCall completion).sessions.lookup ⟨token, 0⟩).any (fun sess => !sess.ready) &&
      ((s.state.apply .sample completion).sessions.lookup ⟨token, 0⟩).any (fun sess => sess.ready)
      && (s.state.atCall completion).pending.size == 1 &&
      (s.state.apply .sample completion).pending.size == 0) = true := by
    decide +kernel
  obtain ⟨s, hexec, hlast⟩ := (Option.any_eq_true _ _).mp hsome
  simp only [Bool.and_eq_true, beq_iff_eq, Option.any_eq_true, Bool.not_eq_true'] at hlast
  obtain ⟨⟨⟨⟨half, hhalf, hunready⟩, ready, hready, hbound⟩, hbefore⟩, hafter⟩ := hlast
  exact ⟨s, Machine.run_of_exec ⟨rfl, rfl⟩ hexec,
    ⟨half, ready, hhalf, hunready, hready, hbound⟩, hbefore, hafter⟩

end P2pFile.Relay
