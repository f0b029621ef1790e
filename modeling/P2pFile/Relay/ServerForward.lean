/-
  P2pFile.Relay.ServerForward

  Where a forwarded datagram goes, and how both of its sockets came to be bound.

  The history of a run is read through `Machine.Since`: a ticket, a pending
  challenge and a bound side each began with one event and have been kept by
  every event after it.  Binding refers back to the challenge, and the challenge
  to the Hello that asked for it, so a datagram is traced to two signed answers
  and to the ticket of their pair.
-/

import P2pFile.Relay.ServerQuota

namespace P2pFile.Relay

open Lib

variable {c : Crypto} {config : RelayServerConfig}

/-! ## Tickets and challenges in the history -/

namespace State

/-- `ch` is the challenge pending for its source. -/
def Pends (st : State) (ch : Challenge) : Prop :=
  ∃ p, st.pending.lookup ch.source = some p ∧ p.challenge = ch

variable {st : State} {e : Event}

variable {token : Token}

theorem atCall_tickets {t : Ticket} (h : (st.atCall e).tickets.lookup token = some t) :
    st.tickets.lookup token = some t := by
  cases e with
  | forward => exact h
  | _ => exact (cleanup_tickets.mp h).1

variable {p : Pending}

theorem atCall_pending {a : SocketAddr} (h : (st.atCall e).pending.lookup a = some p) :
    st.pending.lookup a = some p := by
  cases e with
  | forward => exact h
  | _ => exact (cleanup_pending.mp h).1

variable {key : SessionKey} {i : Fin 2} {b : Bound}

theorem BoundAt.of_atCall (h : (st.atCall e).BoundAt key i b) : st.BoundAt key i b := by
  cases e with
  | forward => exact h
  | _ => exact h.of_cleanup

/-- A ticket of the state after a call was there before, or this call issued it. -/
theorem apply_tickets {t : Ticket} (h : (st.apply c e).tickets.lookup token = some t) :
    (st.atCall e).tickets.lookup token = some t ∨
      ∃ a b now later, e = .issue token a b now later ∧
        t = ⟨![a, b], later + st.config.ticketTtl⟩ := by
  have hcfg : (st.atCall e).config = st.config := by cases e <;> rfl
  rcases apply_cases c st e with heq | hch
  · rw [heq] at h
    exact .inl h
  rw [← hcfg]
  generalize st.atCall e = st₀ at hch ⊢
  generalize st.apply c e = st₁ at h hch
  cases hch with
  | @ticket token' a b now later =>
    rcases AList.lookup_insert_some h with ⟨htok, rfl⟩ | ⟨-, h⟩
    · exact .inr ⟨a, b, now, later, by rw [htok], rfl⟩
    · exact .inl h
  | _ => exact .inl h

/-- A challenge pending after a call was pending before, or this call is the Hello
    that asked for it. -/
theorem apply_pending {a : SocketAddr} (h : (st.apply c e).pending.lookup a = some p) :
    (st.atCall e).pending.lookup a = some p ∨
      ∃ hello family now nonce, e = .control (.hello hello) a family now nonce ∧
        p.challenge = ⟨hello, nonce, a⟩ ∧ (st.atCall e).pending.lookup a = none := by
  rcases apply_cases c st e with heq | hch
  · rw [heq] at h
    exact .inl h
  generalize st.atCall e = st₀ at hch ⊢
  generalize st.apply c e = st₁ at h hch
  have herase : ∀ source, (st₀.pending.erase source).lookup a = some p →
      st₀.pending.lookup a = some p := by
    intro source hp
    exact (AList.lookup_erase_some hp).2
  cases hch with
  | ticket => exact .inl h
  | challenge _ _ hfresh =>
    rcases AList.lookup_insert_some h with ⟨rfl, rfl⟩ | ⟨-, h⟩
    · exact .inr ⟨_, _, _, _, rfl, rfl, hfresh⟩
    · exact .inl h
  | touch => exact .inl h
  | _ => exact .inl (herase _ h)

/-- A side bound after a call was bound before, or this call is the accepted
    Register that bound it. -/
theorem apply_boundAt (h : (st.apply c e).BoundAt key i b) : (st.atCall e).BoundAt key i b ∨
      ∃ ch sa sb family now nonce p, e = .control (.register ch sa sb) b.source family now nonce ∧
        (st.atCall e).registerAccepts c ch sa sb b.source family now = some p ∧
        b.hello = ch.hello ∧ (∀ b', ¬ (st.atCall e).BoundAt key i b') ∧
        (st.apply c e).pending.lookup b.source = none := by
  rcases apply_cases c st e with heq | hch
  · rw [heq] at h
    exact .inl h
  generalize st.atCall e = st₀ at hch ⊢
  generalize st.apply c e = st₁ at h hch ⊢
  -- Both ways of binding add one side of `arm`, which was free.
  have hbind : ∀ {ch : Challenge} {sa sb : Bytes 32} {source : SocketAddr} {family : AddressFamily}
      {now : Instant} {nonce : Bytes 32} {p : Pending} {arm : SessionKey}
      {sides : Fin 2 → Option Bound},
      st₀.registerAccepts c ch sa sb source family now = some p →
      st₀.Arm arm sides → sides p.side = none →
      (st₀.bound ch.hello source p.side arm sides now).BoundAt key i b →
      e = .control (.register ch sa sb) source family now nonce →
      st₀.BoundAt key i b ∨
        ∃ ch sa sb family' now nonce p',
          e = .control (.register ch sa sb) b.source family' now nonce ∧
          st₀.registerAccepts c ch sa sb b.source family' now = some p' ∧
          b.hello = ch.hello ∧ (∀ b', ¬ st₀.BoundAt key i b') ∧
          (st₀.pending.erase source).lookup b.source = none := by
    intro ch sa sb source family now nonce p arm sides haccepts harm hfree hb he
    rcases (boundAt_bound harm hfree).mp hb with ⟨rfl, rfl, rfl⟩ | hold
    · refine .inr ⟨ch, sa, sb, family, now, nonce, p, he, haccepts, rfl, ?_, by simp⟩
      intro b' hb'
      rw [harm.boundAt_iff, hfree] at hb'
      cases hb'
    · exact .inl hold
  cases hch with
  | join haccepts _ hsession hjoins =>
    exact hbind haccepts (.inl ⟨_, hsession, rfl⟩) hjoins.free h rfl
  | fresh haccepts _ hsession =>
    exact hbind haccepts (.inr ⟨hsession, rfl⟩) rfl h rfl
  | touch hsession => exact .inl ((boundAt_touch hsession).mp h)
  | _ => exact .inl h

/-- No call unbinds a side that its sweep has kept. -/
theorem BoundAt.apply (h : (st.atCall e).BoundAt key i b) : (st.apply c e).BoundAt key i b := by
  rcases apply_cases c st e with heq | hch
  · rw [heq]
    exact h
  generalize st.atCall e = st₀ at h hch
  generalize st.apply c e = st₁ at hch ⊢
  cases hch with
  | join _ _ hsession hjoins =>
    exact (boundAt_bound (.inl ⟨_, hsession, rfl⟩) hjoins.free).mpr (.inr h)
  | fresh _ _ hsession => exact (boundAt_bound (.inr ⟨hsession, rfl⟩) rfl).mpr (.inr h)
  | touch hsession => exact (boundAt_touch hsession).mpr h
  | _ => exact h

/-- A sweep that keeps a session keeps its bound sides. -/
theorem BoundAt.atCall (h : st.BoundAt key i b)
    (hkept : ((st.atCall e).sessions.lookup key).isSome = true) :
    (st.atCall e).BoundAt key i b := by
  obtain ⟨s, hs, hi⟩ := h
  obtain ⟨s', hs'⟩ := Option.isSome_iff_exists.mp hkept
  have hold : st.sessions.lookup key = some s' := by
    cases e with
    | forward => exact hs'
    | _ => exact (cleanup_sessions.mp hs').1
  rw [hs] at hold
  obtain rfl : s = s' := Option.some.inj hold
  exact ⟨s, hs', hi⟩

end State

/-- The event is the Hello that asked for `ch`, and no other challenge was
    pending for its source. -/
def Asks (ch : Challenge) (_ : List Event) (s : Server) (e : Event) (t : Server) : Prop :=
  (∃ family now, e = .control (.hello ch.hello) ch.source family now ch.nonce) ∧
    (s.state.atCall e).pending.lookup ch.source = none ∧ t.state.Pends ch

/-- The server issued `ch` during the run, and it has been pending since. -/
def Issued (c : Crypto) (config : RelayServerConfig) (ch : Challenge) :
    List Event → Server → Prop :=
  (machine c config).Since (Asks ch) fun s e _ => (s.state.atCall e).Pends ch

variable {es : List Event} {s : Server}

theorem run_issued {ch : Challenge} (h : (machine c config).Run es s) (hp : s.state.Pends ch) :
    Issued c config ch es s := by
  refine Machine.Run.since (P := fun s => s.state.Pends ch) ?_ ?_ h hp
  · rintro s hs ⟨p, hp, -⟩
    rw [(init_cases hs).2.1] at hp
    cases hp
  · intro es s e t _ hstep ht
    obtain ⟨-, -, rfl⟩ := step_cases hstep
    obtain ⟨p, hp, hch⟩ := ht
    rcases State.apply_pending hp with hold | ⟨hello, family, now, nonce, he, hp', hnone⟩
    · exact .inl ⟨⟨p, State.atCall_pending hold, hch⟩, p, hold, hch⟩
    right
    have hch' : ch = ⟨hello, nonce, ch.source⟩ := hch.symm.trans hp'
    refine ⟨⟨family, now, ?_⟩, hnone, p, hp, hch⟩
    rw [he, hch']

/-- `t` is the ticket that the call issues for `token`. -/
def Grants (config : RelayServerConfig) (token : Token) (t : Ticket) (_ : List Event) (_ : Server)
    (e : Event) (_ : Server) : Prop :=
  ∃ a b now later, e = .issue token a b now later ∧ t = ⟨![a, b], later + config.ticketTtl⟩

/-- The ticket was issued during the run, and has been kept since. -/
def Granted (c : Crypto) (config : RelayServerConfig) (token : Token) (t : Ticket) :
    List Event → Server → Prop :=
  (machine c config).Since (Grants config token t) fun s e _ =>
    (s.state.atCall e).tickets.lookup token = some t

theorem run_granted {token : Token} {t : Ticket} (h : (machine c config).Run es s)
    (ht : s.state.tickets.lookup token = some t) : Granted c config token t es s := by
  refine Machine.Run.since (P := fun s => s.state.tickets.lookup token = some t) ?_ ?_ h ht
  · intro s hs ht
    rw [(init_cases hs).2.1] at ht
    cases ht
  · intro es s e s' hrun hstep ht
    obtain ⟨-, -, rfl⟩ := step_cases hstep
    rcases State.apply_tickets ht with hold | ⟨a, b, now, later, he, htick⟩
    · exact .inl ⟨State.atCall_tickets hold, hold⟩
    · rw [(run_quotas hrun).config_eq] at htick
      exact .inr ⟨a, b, now, later, he, htick⟩

/-! ## Bound sides in the history -/

/-- The event is the Register that bound `b` on side `i` of `key`.  Its signature
    verified over the challenge that the server had issued to this source and
    that was still pending, the token had an unexpired ticket issued for the
    pair, and the challenge is gone afterwards. -/
def Binds (c : Crypto) (config : RelayServerConfig) (key : SessionKey) (i : Fin 2) (b : Bound)
    (pre : List Event) (s : Server) (e : Event) (t : Server) : Prop :=
  ∃ ch sa sb family now nonce ticket,
    e = .control (.register ch sa sb) b.source family now nonce ∧
    ch.hello = b.hello ∧ ch.source = b.source ∧
    Issued c config ch pre s ∧ (s.state.atCall e).Pends ch ∧
    c.verifyStrict b.hello.publicKey (bindPayload c ch) (sa.append sb) = .ok () ∧
    (s.state.atCall e).tickets.lookup b.hello.token = some ticket ∧ now < ticket.expires ∧
    Granted c config b.hello.token ticket pre s ∧
    ticket.isFor b.hello.node b.hello.peer = true ∧
    (∀ b', ¬ (s.state.atCall e).BoundAt key i b') ∧ t.state.BoundAt key i b ∧
    t.state.pending.lookup b.source = none

/-- Side `i` of `key` was bound by a Register during the run, and `b` has held it
    since. -/
def BoundBy (c : Crypto) (config : RelayServerConfig) (key : SessionKey) (i : Fin 2) (b : Bound) :
    List Event → Server → Prop :=
  (machine c config).Since (Binds c config key i b) fun s e _ =>
    (s.state.atCall e).BoundAt key i b

theorem isFor_of_sides {t : Ticket} {side : Fin 2} {a b : NodeId} (ha : t.nodes side = a)
    (hb : t.nodes (1 - side) = b) : t.isFor a b = true := by
  unfold Ticket.isFor
  rcases eq_or_eq_flip 0 side with rfl | rfl
  · have hb' : t.nodes 1 = b := hb
    simp [ha, hb']
  · have ha' : t.nodes 1 = a := ha
    have hb' : t.nodes 0 = b := hb
    simp [ha', hb']

variable {key : SessionKey}

theorem run_boundBy {i : Fin 2} {b : Bound} (h : (machine c config).Run es s)
    (hb : s.state.BoundAt key i b) : BoundBy c config key i b es s := by
  refine Machine.Run.since (P := fun s => s.state.BoundAt key i b) ?_ ?_ h hb
  · rintro s hs ⟨sess, hsess, -⟩
    rw [(init_cases hs).2.1] at hsess
    cases hsess
  · intro es s e t hrun hstep ht
    obtain ⟨-, -, rfl⟩ := step_cases hstep
    rcases State.apply_boundAt ht with
      hold | ⟨ch, sa, sb, family, now, nonce, p, he, haccepts, hhello, hfree, hgone⟩
    · exact .inl ⟨hold.of_atCall, hold⟩
    right
    -- The accepted response names its challenge and its ticket; trace both back.
    obtain ⟨hp, hpch, hsrc, hvalid, hsig⟩ := State.registerAccepts_spec haccepts
    obtain ⟨-, -, ticket, hticket, hlive, hnode, hpeer⟩ := State.validateHello_spec hvalid
    have hpends : (s.state.atCall e).Pends ch := ⟨p, by rw [hsrc]; exact hp, hpch⟩
    have hissued : Issued c config ch es s := by
      refine run_issued hrun ⟨p, ?_, hpch⟩
      rw [hsrc]
      exact State.atCall_pending hp
    rw [← hhello] at hsig hticket hnode hpeer
    exact ⟨ch, sa, sb, family, now, nonce, ticket, he, hhello.symm, hsrc, hissued, hpends, hsig,
      hticket, hlive, run_granted hrun (State.atCall_tickets hticket),
      isFor_of_sides hnode hpeer, hfree, ht, hgone⟩

/-! ## Forwarding -/

theorem idleTimeout_pos (h : config.validate = .ok ()) : 0 < config.idleTimeout := by
  rw [Nat.pos_iff_ne_zero]
  intro hzero
  exact absurd h (by simp [RelayServerConfig.validate, hzero])

namespace State

variable {st : State} {a d : SocketAddr} {family : AddressFamily} {now : Instant}

/-- Inversion of `forward`. -/
theorem forward_some (h : (st.forward a family now).2 = some d) :
    ∃ key i s b', st.sources.lookup a = some (key, i) ∧ AddressFamily.of a = family ∧
      st.sessions.lookup key = some s ∧ s.ready = true ∧
      now - s.lastActivity < st.config.idleTimeout ∧
      s.sides (1 - i) = some b' ∧ b'.source = d ∧
      (st.forward a family now).1 =
        { st with sessions := st.sessions.insert key { s with lastActivity := now } } := by
  unfold forward at h
  split at h
  · cases h
  rename_i key i hsrc
  split at h
  · cases h
  rename_i hfamily
  split at h
  · cases h
  rename_i s hs
  split at h
  · cases h
  rename_i hact
  simp only [Option.map_eq_some_iff] at h
  obtain ⟨b', hb', hd⟩ := h
  have hfamily' : AddressFamily.of a = family := by simpa using hfamily
  have hact' := hact
  simp only [Bool.or_eq_true, Bool.not_eq_true', decide_eq_true_eq, not_or, Bool.not_eq_false,
    ge_iff_le, not_le] at hact'
  refine ⟨key, i, s, b', hsrc, hfamily', hs, hact'.1, hact'.2, hb', hd, ?_⟩
  unfold forward
  simp only [hsrc, hs]
  rw [if_neg hfamily, if_neg hact]

variable {key : SessionKey} {s : Session}

/-- What `forward` answers to the source of a ready session. -/
theorem forward_ready {i : Fin 2} {b' : Bound} (hsrc : st.sources.lookup a = some (key, i))
    (hs : st.sessions.lookup key = some s) (hready : s.ready = true)
    (hb' : s.sides (1 - i) = some b') : (st.forward a family now).2 =
      if family = AddressFamily.of a ∧ now - s.lastActivity < st.config.idleTimeout
      then some b'.source else none := by
  unfold forward
  simp only [hsrc, hs, hready, hb', Bool.not_true, Bool.false_or, Option.map_some]
  by_cases hfamily : family = AddressFamily.of a
  · subst hfamily
    by_cases hact : now - s.lastActivity < st.config.idleTimeout
    · simp [hact, Nat.not_le.mpr hact]
    · simp [hact, Nat.not_lt.mp hact]
  · have hne : AddressFamily.of a ≠ family := fun h => hfamily h.symm
    simp [hfamily, hne]

/-- In a session that a datagram from side `i` has just refreshed, the way back is open. -/
theorem forward_back {i : Fin 2} {b b' : Bound} (hpos : 0 < st.config.idleTimeout)
    (hsrc : st.sources.lookup b'.source = some (key, 1 - i))
    (hs : st.sessions.lookup key = some { s with lastActivity := now }) (hready : s.ready = true)
    (hi : s.sides i = some b) :
    (st.forward b'.source (AddressFamily.of b'.source) now).2 = some b.source := by
  have hback : s.sides (1 - (1 - i)) = some b := by
    rw [flip_flip]
    exact hi
  rw [forward_ready hsrc hs hready hback, if_pos]
  refine ⟨rfl, ?_⟩
  rw [Nat.sub_self]
  exact hpos

/-- A ready session, by its two bound sides. -/
theorem ready_of_boundAt {b : Fin 2 → Bound} (h : ∀ i, st.BoundAt key i (b i)) :
    ∃ s, st.sessions.lookup key = some s ∧ s.ready = true ∧ ∀ i, s.sides i = some (b i) := by
  obtain ⟨s, hs, -⟩ := h 0
  have hsides : ∀ i, s.sides i = some (b i) := by
    intro i
    obtain ⟨s', hs', hi⟩ := h i
    rw [hs] at hs'
    obtain rfl : s = s' := Option.some.inj hs'
    exact hi
  exact ⟨s, hs, Session.ready_iff.mpr fun i => ⟨b i, hsides i⟩, hsides⟩

end State

/-- While no sweep removes a session, its bound sides stay. -/
theorem boundAt_steps {b : Fin 2 → Bound} {fs : List Event} {t : Server}
    (hsteps : ((machine c config).restrict fun s e _ =>
      ((s.state.atCall e).sessions.lookup key).isSome = true).Steps s fs t)
    (h : ∀ i, s.state.BoundAt key i (b i)) : ∀ i, t.state.BoundAt key i (b i) := by
  refine hsteps.inv (I := fun s => ∀ i, s.state.BoundAt key i (b i)) ?_ h
  intro s e t hs hstep i
  obtain ⟨hstep, hkept⟩ := hstep
  obtain ⟨-, -, rfl⟩ := step_cases hstep
  exact ((hs i).atCall hkept).apply

/-! ## The forwarding theorem -/

/-- **Forwarding safety.**  A datagram is forwarded only between the two sources
    of one session whose Hellos carry one token and name each other; each side
    was bound by a Register that answered the one challenge issued to its
    address, under an unexpired ticket of the pair; and the reverse direction is
    open at the same time.  Once both sides of a session are bound, the
    destinations of its two sources stay the same for as long as no sweep removes
    the session. -/
theorem relay_forward_safe {es : List Event} {s : Server} (h : (machine c config).Run es s) :
    (∀ a family now d, (s.state.forward a family now).2 = some d →
      ∃ key sess i b b', s.state.sessions.lookup key = some sess ∧
        sess.sides i = some b ∧ sess.sides (1 - i) = some b' ∧
        b.source = a ∧ b'.source = d ∧
        b.hello.token = b'.hello.token ∧
        b.hello.node = b'.hello.peer ∧ b.hello.peer = b'.hello.node ∧
        BoundBy c config key i b es s ∧ BoundBy c config key (1 - i) b' es s ∧
        (s.state.forward d (AddressFamily.of d) now).2 = some a ∧
        ((s.state.forward a family now).1.forward d (AddressFamily.of d) now).2 = some a) ∧
    (∀ key sess (b : Fin 2 → Bound) fs t,
      s.state.sessions.lookup key = some sess → (∀ i, sess.sides i = some (b i)) →
      ((machine c config).restrict fun s e _ =>
        ((s.state.atCall e).sessions.lookup key).isSome = true).Steps s fs t →
      ∃ sess', t.state.sessions.lookup key = some sess' ∧ (∀ i, sess'.sides i = some (b i)) ∧
        ∀ i family now, (t.state.forward (b i).source family now).2 =
          if family = AddressFamily.of (b i).source ∧ now - sess'.lastActivity < config.idleTimeout
          then some (b (1 - i)).source else none) := by
  have hindexed := run_indexed h
  have hconfig := (run_quotas h).config_eq
  constructor
  · intro a family now d hd
    obtain ⟨key, i, sess, b', hsource, hfamily, hsess, hready, hactive, hb', rfl, hafter⟩ :=
      State.forward_some hd
    obtain ⟨b, ⟨sess', hsess', hi⟩, rfl⟩ := (hindexed.index a key i).mp hsource
    rw [hsess] at hsess'
    obtain rfl : sess = sess' := Option.some.inj hsess'
    have hbound : s.state.BoundAt key i b := ⟨sess, hsess, hi⟩
    have hbound' : s.state.BoundAt key (1 - i) b' := ⟨sess, hsess, hb'⟩
    -- Both Hellos agree with the seats of the token.
    obtain ⟨nodes, hseats⟩ := hindexed.seats key.token
    obtain ⟨hnode, hpeer⟩ := hseats key i b rfl hbound
    obtain ⟨hnode', hpeer'⟩ := hseats key (1 - i) b' rfl hbound'
    rw [flip_flip] at hpeer'
    have hsource' := (hindexed.index b'.source key (1 - i)).mpr ⟨b', hbound', rfl⟩
    have hback : sess.sides (1 - (1 - i)) = some b := by
      rw [flip_flip]
      exact hi
    refine ⟨key, sess, i, b, b', hsess, hi, hb', rfl, rfl,
      (hindexed.token key i b hbound).trans (hindexed.token key (1 - i) b' hbound').symm,
      hnode.trans hpeer'.symm, hpeer.trans hnode'.symm,
      run_boundBy h hbound, run_boundBy h hbound', ?_, ?_⟩
    · rw [State.forward_ready hsource' hsess hready hback, if_pos ⟨rfl, hactive⟩]
    · -- The idle timeout of a validated configuration is positive.
      have hpos : 0 < s.state.config.idleTimeout := by
        obtain ⟨s₀, hinit, -⟩ := h
        rw [hconfig]
        exact idleTimeout_pos (init_cases hinit).1
      rw [hafter]
      exact State.forward_back hpos hsource' (AList.lookup_insert _) hready hi
  · intro key sess b fs t hsess hsides hsteps
    have hrun := h.append hsteps.of_restrict
    have hbound := boundAt_steps hsteps fun i => ⟨sess, hsess, hsides i⟩
    obtain ⟨sess', hsess', hready, hsides'⟩ := State.ready_of_boundAt hbound
    refine ⟨sess', hsess', hsides', ?_⟩
    intro i family now
    have hsource := ((run_indexed hrun).index (b i).source key i).mpr ⟨b i, hbound i, rfl⟩
    rw [State.forward_ready hsource hsess' hready (hsides' (1 - i)), (run_quotas hrun).config_eq]

open Sample in
/-- In the sample run the socket of node 1 reaches the socket of node 2, so the
    reverse direction is open. -/
theorem relay_forward_safe_sample : (server.state.forward (socket 1) .ipv4 6).2 = some (socket 2) ∧
      (server.state.forward (socket 2) .ipv4 6).2 = some (socket 1) := by
  have hd : (server.state.forward (socket 1) .ipv4 6).2 = some (socket 2) := by
    decide +kernel
  obtain ⟨_, _, _, _, _, _, _, _, _, _, _, _, _, _, _, hback, _⟩ :=
    (relay_forward_safe run).1 _ _ _ _ hd
  exact ⟨hd, hback⟩

/-! ## Replayed responses -/

theorem State.bindSide_pending {st : State} {hello : Hello} {side : Fin 2} {a : SocketAddr}
    {now : Instant} : (st.bindSide hello side a now).1.pending = st.pending := by
  unfold bindSide
  split
  · rfl
  split
  · rfl
  · dsimp only
    split <;> rfl

/-- **No replay.**  A response that was accepted is not accepted again.  Until a Hello from the
    same source draws the nonce of its challenge a second time, whatever else happens, a
    Register with this challenge binds nothing and gets no reply. -/
theorem response_used_once {ch : Challenge} {sa sb nonce : Bytes 32} {a : SocketAddr}
    {family : AddressFamily} {now : Instant} {p : Pending} {s t u : Server} {fs : List Event}
    (haccepts : (s.state.cleanup now).registerAccepts c ch sa sb a family now = some p)
    (hstep : (machine c config).step s (.control (.register ch sa sb) a family now nonce) t)
    (hsteps : ((machine c config).restrict fun _ e _ => ∀ family now,
      e ≠ .control (.hello ch.hello) ch.source family now ch.nonce).Steps t fs u) :
    ∀ sa sb a family now nonce, u.state.control c (.register ch sa sb) a family now nonce =
      (u.state.cleanup now, []) := by
  have hgone : ¬ t.state.Pends ch := by
    obtain ⟨-, -, rfl⟩ := step_cases hstep
    obtain ⟨-, -, rfl, -⟩ := State.registerAccepts_spec haccepts
    rintro ⟨p', hp', -⟩
    change ((s.state.cleanup now).register c ch sa sb ch.source family now).1.pending.lookup _ = _
      at hp'
    simp [State.register, haccepts, State.bindSide_pending] at hp'
  -- Only the Hello that asks for the challenge makes it pending.
  have hstill : ¬ u.state.Pends ch := by
    refine hsteps.inv (I := fun s => ¬ s.state.Pends ch) ?_ hgone
    rintro s e t hnot ⟨hstep, hfresh⟩ ⟨p', hp', hch⟩
    obtain ⟨-, -, rfl⟩ := step_cases hstep
    rcases State.apply_pending hp' with hold | ⟨hello, family, now, nonce, he, hp', -⟩
    · exact hnot ⟨p', State.atCall_pending hold, hch⟩
    · rw [hch] at hp'
      refine hfresh family now ?_
      rw [he, hp']
  intro sa sb a family now nonce
  have hnone : (u.state.cleanup now).registerAccepts c ch sa sb a family now = none := by
    rw [Option.eq_none_iff_forall_ne_some]
    intro p' hp'
    obtain ⟨hlook, hch, rfl, -⟩ := State.registerAccepts_spec hp'
    exact hstill ⟨p', (State.cleanup_pending.mp hlook).1, hch⟩
  show (u.state.cleanup now).register c ch sa sb a family now = _
  rw [State.register, hnone]

namespace Sample

theorem asked_isSome :
    (Machine.exec (Server.step .sample) start (events.take 2)).isSome = true := by decide +kernel

/-- Node 1 has got its challenge. -/
def asked : Server := (Machine.exec (Server.step .sample) start (events.take 2)).get asked_isSome

def answer (now : Instant) : Event :=
  .control (.register (challengeOf 1 2) (Bytes.fill 32 7) (Bytes.fill 32 7)) (socket 1) .ipv4 now
    (Bytes.fill 32 0)

end Sample

open Sample in
/-- Node 1 answers, and its answer is sent a second time. -/
theorem response_used_once_sample : ∃ t, (machine .sample .default).step asked (answer 2) t ∧
    t.state.apply .sample (answer 3) = t.state.cleanup 3 := by
  have hsome : ((asked.state.cleanup 2).registerAccepts .sample (challengeOf 1 2) (Bytes.fill 32 7)
      (Bytes.fill 32 7) (socket 1) .ipv4 2).isSome = true := by
    decide +kernel
  obtain ⟨p, hp⟩ := Option.isSome_iff_exists.mp hsome
  have hstep : (Server.step .sample asked (answer 2)).isSome = true := by decide +kernel
  obtain ⟨t, hstep⟩ : ∃ t, (machine .sample .default).step asked (answer 2) t :=
    Option.isSome_iff_exists.mp hstep
  exact ⟨t, hstep, congrArg Prod.fst (response_used_once hp hstep (.nil t) _ _ _ _ _ _)⟩

end P2pFile.Relay
