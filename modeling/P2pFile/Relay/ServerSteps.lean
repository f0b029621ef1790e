/-
  P2pFile.Relay.ServerSteps

  One spec lemma for each operation of the relay admission, and the inversion of
  its step function.

  A call first sweeps (`atCall`), and then makes at most one `Change`: a ticket
  is added, a challenge is added, a valid response is consumed without or with a
  bound side, or a forwarded datagram refreshes its session.  The constructors of
  `Change` carry the guards of the source, so an invariant of the admission needs
  one lemma for the sweep and one case for each constructor.
-/

import P2pFile.Relay.Server

namespace P2pFile.Relay

open Lib

variable {c : Crypto} {st st' : State}

/-! ## The two sides of a session -/

theorem flip_flip (i : Fin 2) : 1 - (1 - i) = i := by
  revert i; decide

theorem eq_or_eq_flip (i j : Fin 2) : j = i ∨ j = 1 - i := by
  revert i j; decide

namespace Session

variable {s : Session}

theorem mem_bounds {b : Bound} : b ∈ s.bounds ↔ ∃ i, s.sides i = some b := by
  simp only [bounds, List.mem_append, Option.mem_toList]
  constructor
  · rintro (h | h)
    · exact ⟨0, h⟩
    · exact ⟨1, h⟩
  · rintro ⟨i, hi⟩
    rcases eq_or_eq_flip 0 i with rfl | rfl
    · exact .inl hi
    · exact .inr hi

theorem ready_iff : s.ready = true ↔ ∀ i, ∃ b, s.sides i = some b := by
  simp only [ready, Bool.and_eq_true, Option.isSome_iff_exists]
  constructor
  · rintro ⟨h₀, h₁⟩ i
    rcases eq_or_eq_flip 0 i with rfl | rfl
    · exact h₀
    · exact h₁
  · intro h
    exact ⟨h 0, h 1⟩

theorem any_bounds {p : Bound → Bool} :
    s.bounds.any p = true ↔ ∃ i b, s.sides i = some b ∧ p b = true := by
  rw [List.any_eq_true]
  constructor
  · rintro ⟨b, hb, hp⟩
    obtain ⟨i, hi⟩ := mem_bounds.mp hb
    exact ⟨i, b, hi, hp⟩
  · rintro ⟨i, b, hi, hp⟩
    exact ⟨b, mem_bounds.mpr ⟨i, hi⟩, hp⟩

theorem containsNode_iff {node : NodeId} : s.containsNode node = true ↔
    ∃ i b, s.sides i = some b ∧ (b.hello.node = node ∨ b.hello.peer = node) := by
  simp only [containsNode, any_bounds, Bool.or_eq_true, beq_iff_eq]

theorem containsPair_iff {x y : NodeId} : s.containsPair x y = true ↔
    ∃ i b, s.sides i = some b ∧
      (b.hello.node = x ∧ b.hello.peer = y ∨ b.hello.node = y ∧ b.hello.peer = x) := by
  simp only [containsPair, any_bounds, Bool.or_eq_true, Bool.and_eq_true, beq_iff_eq]

end Session

namespace State

/-! ## The sweep -/

variable {token : Token} {now : Instant}

theorem ticketLive_iff :
    st.ticketLive token now = true ↔ ∃ t, st.tickets.lookup token = some t ∧ now < t.expires := by
  simp only [ticketLive, Option.any_eq_true, decide_eq_true_eq]

theorem cleanup_tickets {t : Ticket} : (st.cleanup now).tickets.lookup token = some t ↔
      st.tickets.lookup token = some t ∧ now < t.expires := by
  simp only [cleanup, AList.lookup_retain_eq_some, decide_eq_true_eq]

variable {a : SocketAddr} {p : Pending}

theorem cleanup_pending : (st.cleanup now).pending.lookup a = some p ↔
      st.pending.lookup a = some p ∧ now - p.issued < challengeTtl ∧
        ∃ t, st.tickets.lookup p.session.token = some t ∧ now < t.expires := by
  simp only [cleanup, AList.lookup_retain_eq_some, Bool.and_eq_true, decide_eq_true_eq,
    ticketLive_iff]

variable {key : SessionKey}

theorem cleanup_sessions {s : Session} : (st.cleanup now).sessions.lookup key = some s ↔
      st.sessions.lookup key = some s ∧ now - s.lastActivity < st.config.idleTimeout ∧
        (s.ready = true ∨ ∃ t, st.tickets.lookup key.token = some t ∧ now < t.expires) := by
  simp only [cleanup, AList.lookup_retain_eq_some, Bool.and_eq_true, Bool.or_eq_true,
    decide_eq_true_eq, ticketLive_iff]

theorem cleanup_sources {entry : SessionKey × Fin 2} :
    (st.cleanup now).sources.lookup a = some entry ↔
      st.sources.lookup a = some entry ∧
        ∃ s, (st.cleanup now).sessions.lookup entry.1 = some s := by
  have h : (st.cleanup now).sources = st.sources.retain
      fun _ entry => ((st.cleanup now).sessions.lookup entry.1).isSome := rfl
  rw [h, AList.lookup_retain_eq_some, Option.isSome_iff_exists]

/-! ## Validating a Hello -/

variable {side : Fin 2}

/-- What a validated Hello proves: its token has an unexpired ticket that names
    its node on the returned side and its peer on the other. -/
theorem validateHello_spec {h : Hello} (hv : st.validateHello c h now = some side) :
    h.node ≠ h.peer ∧ NodeId.fromPublicKey c h.publicKey = h.node ∧
      ∃ t, st.tickets.lookup h.token = some t ∧ now < t.expires ∧
        t.nodes side = h.node ∧ t.nodes (1 - side) = h.peer := by
  unfold validateHello at hv
  -- Peel the guards in the order of the source; each leaves one fact.
  split at hv
  · cases hv
  rename_i t ht
  split at hv
  · cases hv
  rename_i hexp
  split at hv
  · cases hv
  rename_i key hkey
  obtain ⟨rfl, -⟩ := publicKeyFromBytes_eq_ok c hkey
  simp only [ge_iff_le, Bool.or_eq_true, decide_eq_true_eq, beq_iff_eq, not_or, not_le] at hexp
  split at hv
  · cases hv
  rename_i hkeyOk
  simp only [Bool.or_eq_true, bne_iff_ne, ne_eq, not_or, not_not] at hkeyOk
  refine ⟨hexp.2, hkeyOk.2, t, ht, hexp.1, ?_⟩
  -- `position` finds the node on side 0 or else on side 1; the filter checks the other.
  split at hv
  next h₀ =>
    split at hv
    next h₁ =>
      obtain rfl : 0 = side := Option.some.inj hv
      exact ⟨by simpa using h₀, by simpa using h₁⟩
    · cases hv
  · split at hv
    next h₁ =>
      split at hv
      next h₀ =>
        obtain rfl : 1 = side := Option.some.inj hv
        exact ⟨by simpa using h₁, by simpa using h₀⟩
      · cases hv
    · cases hv

/-! ## Choosing an arm -/

theorem foldl_pick_mem {f : SessionKey → SessionKey → Bool} (l : List SessionKey)
    (key : SessionKey) :
    l.foldl (fun best k => if f best k then best else k) key ∈ key :: l := by
  induction l generalizing key with
  | nil => simp
  | cons k rest ih =>
    simp only [List.foldl_cons]
    have h := ih (if f key k then key else k)
    by_cases hf : f key k = true
    · simp only [hf, if_true, List.mem_cons] at h ⊢
      rcases h with h | h
      · exact .inl h
      · exact .inr (.inr h)
    · simp only [hf, List.mem_cons] at h ⊢
      exact .inr h

theorem minKey_mem {l : List SessionKey} (h : minKey l = some key) : key ∈ l := by
  cases l with
  | nil => exact absurd h (by simp [minKey])
  | cons k rest =>
    simp only [minKey, Option.some.injEq] at h
    rw [← h]
    exact foldl_pick_mem rest k

/-- The session `hello` joins on `side`: its token, its side free, and the
    opposite socket bound by a Hello that names the same two nodes. -/
structure Joins (hello : Hello) (side : Fin 2) (key : SessionKey) (s : Session) : Prop where
  token : key.token = hello.token
  free : s.sides side = none
  opposite : ∃ b, s.sides (1 - side) = some b ∧
    b.hello.node = hello.peer ∧ b.hello.peer = hello.node

/-- The quota a new session has passed. -/
structure Room (st : State) (hello : Hello) : Prop where
  total : st.sessions.size < st.config.maxSessions
  pair : st.sessions.countP (fun _ s => s.containsPair hello.node hello.peer) <
    min maxSessionsPerPair (max (st.config.maxSessions / 2) 1)
  node : ∀ n, n = hello.node ∨ n = hello.peer →
    st.sessions.countP (fun _ s => s.containsNode n) <
      min maxSessionsPerNode (max (st.config.maxSessions / 2) 1)

/-- `available_arm` returns either a waiting session to join or a free slot that
    passed the session quotas. -/
theorem availableArm_spec {h : Hello} {arm : SessionKey} (ha : st.availableArm h side = some arm) :
    (∃ s, st.sessions.lookup arm = some s ∧ Joins h side arm s) ∨
      (st.sessions.lookup arm = none ∧ arm.token = h.token ∧ arm.slot < maxArmsPerTicket ∧
        Room st h) := by
  unfold availableArm at ha
  simp only at ha
  split at ha
  · -- A session of the token waits for this side.
    rename_i key hkey
    obtain rfl : key = arm := Option.some.inj ha
    left
    obtain ⟨s, hs⟩ := AList.mem_keys_iff_lookup.mp (minKey_mem hkey)
    rw [AList.lookup_retain_eq_some] at hs
    obtain ⟨hlook, hp⟩ := hs
    simp only [awaits, Bool.and_eq_true, beq_iff_eq, Option.isNone_iff_eq_none,
      Option.any_eq_true] at hp
    exact ⟨s, hlook, hp.1, hp.2.1, hp.2.2⟩
  · -- None waits: the quotas have room, and a slot is free.
    right
    split at ha
    · cases ha
    rename_i hroom
    simp only [Bool.or_eq_true, decide_eq_true_eq, List.any_cons, List.any_nil, Bool.or_false,
      not_or, ge_iff_le, not_le] at hroom
    have hmem := List.mem_of_find?_eq_some ha
    have hfree := List.find?_some ha
    simp only [List.mem_map, List.mem_range] at hmem
    obtain ⟨slot, hslot, rfl⟩ := hmem
    refine ⟨by simpa using hfree, rfl, hslot, hroom.1.1, hroom.1.2, ?_⟩
    rintro n (rfl | rfl)
    · exact hroom.2.1
    · exact hroom.2.2

/-! ## Accepting a response -/

/-- What an accepted Register proves.  The signature covers the one challenge
    that is pending for exactly this source. -/
theorem registerAccepts_spec {ch : Challenge} {sa sb : Bytes 32} {source : SocketAddr}
    {family : AddressFamily} (h : st.registerAccepts c ch sa sb source family now = some p) :
    st.pending.lookup source = some p ∧ p.challenge = ch ∧ ch.source = source ∧
      st.validateHello c ch.hello now = some p.side ∧
      c.verifyStrict ch.hello.publicKey (bindPayload c ch) (sa.append sb) = .ok () := by
  unfold registerAccepts at h
  split at h
  · cases h
  rename_i p' hp
  split at h
  · cases h
  rename_i hchk
  simp only [Bool.or_eq_true, bne_iff_ne, ne_eq, decide_eq_true_eq, not_or, not_not] at hchk
  split at h
  · cases h
  rename_i key hkey
  obtain ⟨rfl, -⟩ := publicKeyFromBytes_eq_ok c hkey
  split at h
  · cases h
  rename_i hsig
  obtain rfl : p' = p := Option.some.inj h
  exact ⟨hp, hchk.1.1.1.2, hchk.1.1.2, hchk.2, hsig⟩

end State

/-! ## What a call can do -/

/-- The admission after `hello` was bound on `side` of the session `arm`. -/
def State.bound (st : State) (hello : Hello) (source : SocketAddr) (side : Fin 2)
    (arm : SessionKey) (sides : Fin 2 → Option Bound) (now : Instant) : State :=
  { st with
    pending := st.pending.erase source
    sessions := st.sessions.insert arm ⟨Function.update sides side (some ⟨hello, source⟩), now⟩
    sources := st.sources.insert source (arm, side) }

/-- The one change a call can make to the swept state `st`. -/
inductive Change (c : Crypto) (st : State) : Event → State → Prop
  | ticket {token : Token} {a b : NodeId} {now later : Instant}
      (hne : a ≠ b)
      (hfresh : st.tickets.lookup token = none)
      (hidle : ∀ key s, st.sessions.lookup key = some s → key.token ≠ token)
      (htotal : st.tickets.size < st.config.maxSessions * 2)
      (hpair : st.tickets.countP (fun _ t => t.contains a && t.contains b) <
        min maxTicketsPerPair st.config.maxSessions)
      (hnode : ∀ n, n = a ∨ n = b → st.tickets.countP (fun _ t => t.contains n) <
        min maxTicketsPerNode st.config.maxSessions) :
      Change c st (.issue token a b now later)
        { st with tickets := st.tickets.insert token ⟨![a, b], later + st.config.ticketTtl⟩ }
  | challenge {hello : Hello} {source : SocketAddr} {family : AddressFamily} {now : Instant}
      {nonce : Bytes 32} {side : Fin 2}
      (hvalid : st.validateHello c hello now = some side)
      (hunbound : st.sources.lookup source = none)
      (hfresh : st.pending.lookup source = none)
      (htotal : st.pending.size < st.config.maxSessions * 2)
      (hip : st.pending.countP (fun addr _ => addr.ip == source.ip) < st.config.maxPendingPerIp) :
      Change c st (.control (.hello hello) source family now nonce)
        { st with pending :=
            st.pending.insert source ⟨⟨hello, nonce, source⟩, now, ⟨hello.token, 0⟩, side⟩ }
  | consume {ch : Challenge} {sa sb : Bytes 32} {source : SocketAddr} {family : AddressFamily}
      {now : Instant} {nonce : Bytes 32} {p : Pending}
      (haccepts : st.registerAccepts c ch sa sb source family now = some p) :
      Change c st (.control (.register ch sa sb) source family now nonce)
        { st with pending := st.pending.erase source }
  | join {ch : Challenge} {sa sb : Bytes 32} {source : SocketAddr} {family : AddressFamily}
      {now : Instant} {nonce : Bytes 32} {p : Pending} {arm : SessionKey} {s : Session}
      (haccepts : st.registerAccepts c ch sa sb source family now = some p)
      (hunbound : st.sources.lookup source = none)
      (hsession : st.sessions.lookup arm = some s)
      (hjoins : State.Joins ch.hello p.side arm s) :
      Change c st (.control (.register ch sa sb) source family now nonce)
        (st.bound ch.hello source p.side arm s.sides now)
  | fresh {ch : Challenge} {sa sb : Bytes 32} {source : SocketAddr} {family : AddressFamily}
      {now : Instant} {nonce : Bytes 32} {p : Pending} {arm : SessionKey}
      (haccepts : st.registerAccepts c ch sa sb source family now = some p)
      (hunbound : st.sources.lookup source = none)
      (hsession : st.sessions.lookup arm = none)
      (htoken : arm.token = ch.hello.token)
      (hslot : arm.slot < maxArmsPerTicket)
      (hroom : State.Room st ch.hello) :
      Change c st (.control (.register ch sa sb) source family now nonce)
        (st.bound ch.hello source p.side arm (fun _ => none) now)
  | touch {source : SocketAddr} {family : AddressFamily} {now : Instant} {key : SessionKey}
      {s : Session}
      (hsession : st.sessions.lookup key = some s) :
      Change c st (.forward source family now)
        { st with sessions := st.sessions.insert key { s with lastActivity := now } }

namespace State

theorem issue_cases (token : Token) (a b : NodeId) (now later : Instant) :
    (st.issue token a b now later).1 = st.cleanup now ∨
      Change c (st.cleanup now) (.issue token a b now later) (st.issue token a b now later).1 := by
  unfold issue
  simp only
  split
  · exact .inl rfl
  rename_i h
  right
  simp only [Bool.or_eq_true, beq_iff_eq, decide_eq_true_eq, List.any_cons, List.any_nil,
    Bool.or_false, not_or, ge_iff_le, not_le, Option.isSome_iff_ne_none, ne_eq, not_not] at h
  obtain ⟨⟨⟨⟨⟨hne, hfresh⟩, hkeys⟩, htotal⟩, hpair⟩, hna, hnb⟩ := h
  refine .ticket hne hfresh ?_ htotal hpair ?_
  · intro key s hs htok
    apply hkeys
    rw [List.any_eq_true]
    exact ⟨key, AList.mem_keys_iff_lookup.mpr ⟨s, hs⟩, by simp [htok]⟩
  · rintro n (rfl | rfl)
    · exact hna
    · exact hnb

theorem hello_cases (h : Hello) (source : SocketAddr) (family : AddressFamily) (now : Instant)
    (nonce : Bytes 32) : (st.hello c h source family now nonce).1 = st ∨
      Change c st (.control (.hello h) source family now nonce)
        (st.hello c h source family now nonce).1 := by
  unfold hello
  -- Every early return leaves the state alone; only the last branch adds a challenge.
  split
  · exact .inl rfl
  split
  · exact .inl rfl
  rename_i side hvalid
  split
  · simp only
    split <;> exact .inl rfl
  rename_i hunbound
  split
  · split <;> exact .inl rfl
  rename_i hfresh
  split
  · exact .inl rfl
  rename_i hroom
  simp only [Bool.or_eq_true, decide_eq_true_eq, not_or, ge_iff_le, not_le] at hroom
  exact .inr (.challenge hvalid hunbound hfresh hroom.1.1 hroom.1.2)

theorem register_cases (ch : Challenge) (sa sb : Bytes 32) (source : SocketAddr)
    (family : AddressFamily) (now : Instant) (nonce : Bytes 32) :
    (st.register c ch sa sb source family now).1 = st ∨
      Change c st (.control (.register ch sa sb) source family now nonce)
        (st.register c ch sa sb source family now).1 := by
  unfold register
  split
  · exact .inl rfl
  rename_i p haccepts
  right
  unfold bindSide
  split
  · exact .consume haccepts
  rename_i hunbound
  have hnone : st.sources.lookup source = none := by
    simpa [Option.isSome_iff_ne_none] using hunbound
  split
  · exact .consume haccepts
  rename_i arm harm
  -- Removing the pending entry does not change what `available_arm` reads.
  rcases availableArm_spec harm with ⟨s, hs, hjoins⟩ | ⟨hnew, htoken, hslot, hroom⟩
  · have hs' : st.sessions.lookup arm = some s := hs
    rw [hs', Option.getD_some]
    simp only [hjoins.free, Option.isSome_none, Bool.false_eq_true, if_false]
    exact .join haccepts hnone hs' hjoins
  · have hnew' : st.sessions.lookup arm = none := hnew
    rw [hnew', Option.getD_none]
    exact .fresh haccepts hnone hnew' htoken hslot ⟨hroom.total, hroom.pair, hroom.node⟩

theorem forward_cases (source : SocketAddr) (family : AddressFamily) (now : Instant) :
    (st.forward source family now).1 = st ∨
      Change c st (.forward source family now) (st.forward source family now).1 := by
  unfold forward
  split
  · exact .inl rfl
  split
  · exact .inl rfl
  split
  · exact .inl rfl
  rename_i s hs
  split
  · exact .inl rfl
  exact .inr (.touch hs)

/-- A call sweeps and then makes at most one change. -/
theorem apply_cases (c : Crypto) (st : State) (e : Event) :
    st.apply c e = st.atCall e ∨ Change c (st.atCall e) e (st.apply c e) := by
  cases e with
  | issue token a b now later => exact issue_cases token a b now later
  | control packet source family now nonce =>
    cases packet with
    | hello h => exact hello_cases h source family now nonce
    | register ch sa sb => exact register_cases ch sa sb source family now nonce
    | challenge _ _ _ => exact .inl rfl
    | ready _ _ _ => exact .inl rfl
  | forward source family now => exact forward_cases source family now
  | cleanup now => exact .inl rfl

end State

/-! ## Runs -/

/-- The sweep time after a call. -/
def Server.sweptAt (s : Server) : Event → Instant
  | .forward .. => s.swept
  | e => e.now

variable {config : RelayServerConfig}

/-- Inversion of a step of the admission machine. -/
theorem step_cases {s t : Server} {e : Event} (h : (machine c config).step s e t) :
    s.clock ≤ e.now ∧ e.now ≤ e.last ∧ t = ⟨s.state.apply c e, e.last, s.sweptAt e⟩ := by
  have h' : Server.step c s e = some t := h
  unfold Server.step at h'
  split at h'
  next hclock =>
    simp only [Bool.and_eq_true, decide_eq_true_eq] at hclock
    refine ⟨hclock.1, hclock.2, ?_⟩
    rw [← Option.some.inj h']
    cases e <;> rfl
  · cases h'

/-- The admission starts empty, with a validated configuration. -/
theorem init_cases {s : Server} (h : (machine c config).init s) :
    config.validate = .ok () ∧ s.state = ⟨config, ∅, ∅, ∅, ∅⟩ ∧ s.swept = s.clock := by
  obtain ⟨hnew, hswept⟩ := h
  unfold Admission.new at hnew
  split at hnew
  next hvalid =>
    exact ⟨hvalid, (Except.ok.inj hnew).symm, hswept⟩
  · cases hnew

/-- The invariant rule of the admission: check the empty state, the sweep, and
    each change.  The state predicate also sees the time of the last sweep. -/
theorem Server.invariant {I : Instant → State → Prop}
    (hinit : ∀ swept, config.validate = .ok () → I swept ⟨config, ∅, ∅, ∅, ∅⟩)
    (hsweep : ∀ swept st now, I swept st → I now (st.cleanup now))
    (hchange : ∀ swept st e st', I swept st → (swept = e.now ∨ ∃ so fa, e = .forward so fa e.now) →
      Change c st e st' → I swept st')
    {es : List Event} {s : Server} (h : (machine c config).Run es s) : I s.swept s.state := by
  refine Machine.Run.inv (I := fun s => I s.swept s.state) ?_ ?_ h
  · intro s hs
    obtain ⟨hvalid, hstate, -⟩ := init_cases hs
    rw [hstate]
    exact hinit _ hvalid
  · intro s e t hs hstep
    obtain ⟨-, -, rfl⟩ := step_cases hstep
    -- Every call but `forward` starts from a fresh sweep.
    have hcall : I (s.sweptAt e) (s.state.atCall e) ∧
        (s.sweptAt e = e.now ∨ ∃ so fa, e = .forward so fa e.now) := by
      cases e with
      | forward so fa now => exact ⟨hs, .inr ⟨so, fa, rfl⟩⟩
      | _ => exact ⟨hsweep _ _ _ hs, .inl rfl⟩
    rcases State.apply_cases c s.state e with heq | hch
    · rw [heq]
      exact hcall.1
    · exact hchange _ _ _ _ hcall.1 hcall.2 hch

end P2pFile.Relay
