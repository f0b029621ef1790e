/-
  P2pFile.Relay.ServerIndex

  The four maps of the relay admission agree with one another in every reachable
  state.

  `BoundAt st key i b` says that side `i` of session `key` is held by `b`.  All
  index facts are stated through it, because it changes in one way only: a bind
  adds one entry (`boundAt_bound`), a sweep removes some, and nothing else
  touches it.
-/

import P2pFile.Relay.ServerSteps

namespace P2pFile.Relay

open Lib

variable {c : Crypto} {config : RelayServerConfig} {st : State}

namespace State

/-- Side `i` of session `key` is held by `b`. -/
def BoundAt (st : State) (key : SessionKey) (i : Fin 2) (b : Bound) : Prop :=
  ∃ s, st.sessions.lookup key = some s ∧ s.sides i = some b

/-- `token` has a ticket that expires after `now`. -/
def Ticketed (st : State) (token : Token) (now : Instant) : Prop :=
  ∃ t, st.tickets.lookup token = some t ∧ now < t.expires

/-! ## How the operations change `BoundAt` -/

variable {now : Instant} {key : SessionKey} {i : Fin 2} {b : Bound}

theorem BoundAt.of_cleanup (h : (st.cleanup now).BoundAt key i b) : st.BoundAt key i b := by
  obtain ⟨s, hs, hi⟩ := h
  exact ⟨s, (cleanup_sessions.mp hs).1, hi⟩

/-- The session a bind works on: a waiting one, or a new one with both sides
    free. -/
def Arm (st : State) (arm : SessionKey) (sides : Fin 2 → Option Bound) : Prop :=
  (∃ s, st.sessions.lookup arm = some s ∧ s.sides = sides) ∨
    (st.sessions.lookup arm = none ∧ sides = fun _ => none)

variable {arm : SessionKey} {sides : Fin 2 → Option Bound}

theorem Arm.boundAt_iff (h : st.Arm arm sides) : st.BoundAt arm i b ↔ sides i = some b := by
  rcases h with ⟨s, hs, rfl⟩ | ⟨hnone, rfl⟩
  · constructor
    · rintro ⟨s', hs', hi⟩
      rw [hs] at hs'
      obtain rfl : s = s' := Option.some.inj hs'
      exact hi
    · intro hi
      exact ⟨s, hs, hi⟩
  · constructor
    · rintro ⟨s', hs', -⟩
      rw [hnone] at hs'
      cases hs'
    · intro hi
      cases hi

variable {hello : Hello} {source : SocketAddr} {side : Fin 2}

theorem bound_sessions (key : SessionKey) :
    (st.bound hello source side arm sides now).sessions.lookup key =
      if key = arm then some ⟨Function.update sides side (some ⟨hello, source⟩), now⟩
      else st.sessions.lookup key := by
  simp only [bound, AList.lookup_insert_eq_ite]

/-- A bind adds exactly one bound side. -/
theorem boundAt_bound (harm : st.Arm arm sides) (hfree : sides side = none) :
    (st.bound hello source side arm sides now).BoundAt key i b ↔
      (key = arm ∧ i = side ∧ b = ⟨hello, source⟩) ∨ st.BoundAt key i b := by
  by_cases hkey : key = arm
  · subst hkey
    rw [harm.boundAt_iff]
    unfold BoundAt
    simp only [bound_sessions, if_true, Option.some.injEq, exists_eq_left']
    by_cases hi : i = side
    · subst hi
      rw [Function.update_self, hfree]
      constructor
      · intro h
        exact Or.inl ⟨trivial, rfl, (Option.some.inj h).symm⟩
      · rintro (⟨-, -, rfl⟩ | h)
        · rfl
        · cases h
    · simp [hi]
  · have hold : (st.bound hello source side arm sides now).sessions.lookup key =
        st.sessions.lookup key := by
      rw [bound_sessions, if_neg hkey]
    unfold BoundAt
    simp only [hold, hkey, false_and, false_or]

theorem boundAt_touch {s : Session} (hs : st.sessions.lookup key = some s) {key' : SessionKey} :
    BoundAt { st with sessions := st.sessions.insert key { s with lastActivity := now } } key' i b
      ↔ st.BoundAt key' i b := by
  unfold BoundAt
  by_cases hkey : key' = key
  · subst hkey
    simp [hs]
  · simp [hkey]

end State

/-! ## The invariant -/

/-- The maps agree.  The first five fields are what the index is for; the last
    two tie bounds and challenges to their tokens and make the others inductive. -/
structure Indexed (swept : Instant) (st : State) : Prop where
  /-- The reverse index lists exactly the bound sides. -/
  index : ∀ a key i, st.sources.lookup a = some (key, i) ↔ ∃ b, st.BoundAt key i b ∧ b.source = a
  /-- No session is empty. -/
  bound : ∀ key s, st.sessions.lookup key = some s → ∃ i b, s.sides i = some b
  /-- A half-bound session still has its ticket. -/
  half : ∀ key s, st.sessions.lookup key = some s → s.ready = false → st.Ticketed key.token swept
  /-- A pending challenge still has the ticket of its token. -/
  pending : ∀ a p, st.pending.lookup a = some p →
    p.session.token = p.challenge.hello.token ∧ st.Ticketed p.session.token swept
  /-- All sessions of a token seat the same two nodes on the same sides. -/
  seats : ∀ token, ∃ nodes : Fin 2 → NodeId, ∀ key i b, key.token = token →
    st.BoundAt key i b → b.hello.node = nodes i ∧ b.hello.peer = nodes (1 - i)
  /-- The ticket of a token seats the nodes as its sessions do. -/
  ticketed : ∀ key i b t, st.BoundAt key i b → st.tickets.lookup key.token = some t →
    b.hello.node = t.nodes i ∧ b.hello.peer = t.nodes (1 - i)
  /-- A bound Hello carries the token of its session. -/
  token : ∀ key i b, st.BoundAt key i b → b.hello.token = key.token

namespace Indexed

theorem empty (swept : Instant) : Indexed swept ⟨config, ∅, ∅, ∅, ∅⟩ where
  index := by
    intro a key i
    simp [State.BoundAt]
  bound := by
    intro key s h
    simp at h
  half := by
    intro key s h
    simp at h
  pending := by
    intro a p h
    simp at h
  seats := by
    intro token
    refine ⟨fun _ => Bytes.fill 16 0, ?_⟩
    rintro key i b - ⟨s, hs, -⟩
    simp at hs
  ticketed := by
    rintro key i b t ⟨s, hs, -⟩
    simp at hs
  token := by
    rintro key i b ⟨s, hs, -⟩
    simp at hs

variable {swept : Instant} (h : Indexed swept st)

include h

theorem sweep (now : Instant) : Indexed now (st.cleanup now) where
  index := by
    intro a key i
    rw [State.cleanup_sources, h.index]
    constructor
    · -- The entry survives with its key, so the session is the one it pointed to.
      rintro ⟨⟨b, ⟨s, hs, hi⟩, hb⟩, s', hs'⟩
      obtain rfl : s = s' := Option.some.inj (hs ▸ (State.cleanup_sessions.mp hs').1)
      exact ⟨b, ⟨s, hs', hi⟩, hb⟩
    · rintro ⟨b, hbound, hb⟩
      refine ⟨⟨b, hbound.of_cleanup, hb⟩, ?_⟩
      obtain ⟨s, hs, -⟩ := hbound
      exact ⟨s, hs⟩
  bound := by
    intro key s hs
    exact h.bound key s (State.cleanup_sessions.mp hs).1
  half := by
    intro key s hs hready
    obtain ⟨-, -, hr | ⟨t, ht, hlt⟩⟩ := State.cleanup_sessions.mp hs
    · rw [hr] at hready
      cases hready
    · exact ⟨t, State.cleanup_tickets.mpr ⟨ht, hlt⟩, hlt⟩
  pending := by
    intro a p hp
    obtain ⟨hold, -, t, ht, hlt⟩ := State.cleanup_pending.mp hp
    exact ⟨(h.pending a p hold).1, t, State.cleanup_tickets.mpr ⟨ht, hlt⟩, hlt⟩
  seats := by
    intro token
    obtain ⟨nodes, hnodes⟩ := h.seats token
    refine ⟨nodes, ?_⟩
    intro key i b htok hb
    exact hnodes key i b htok hb.of_cleanup
  ticketed := by
    intro key i b t hb ht
    exact h.ticketed key i b t hb.of_cleanup (State.cleanup_tickets.mp ht).1
  token := by
    intro key i b hb
    exact h.token key i b hb.of_cleanup

/-- A token is issued only while no session and no ticket uses it, so old
    tickets, sessions and challenges keep theirs. -/
theorem ticket {token : Token} {t : Ticket} (hfresh : st.tickets.lookup token = none)
    (hidle : ∀ key s, st.sessions.lookup key = some s → key.token ≠ token) :
    Indexed swept { st with tickets := st.tickets.insert token t } where
  __ := h
  half := by
    intro key s hs hready
    obtain ⟨u, hu, hlt⟩ := h.half key s hs hready
    exact ⟨u, by rw [AList.lookup_insert_ne (hidle key s hs)]; exact hu, hlt⟩
  pending := by
    intro a p hp
    obtain ⟨htok, u, hu, hlt⟩ := h.pending a p hp
    -- The pending challenge has a ticket already, and the new token had none.
    have hne : p.session.token ≠ token := by
      intro heq
      rw [heq, hfresh] at hu
      cases hu
    exact ⟨htok, u, by rw [AList.lookup_insert_ne hne]; exact hu, hlt⟩
  ticketed := by
    rintro key i b u ⟨s, hs, hi⟩ hu
    rw [AList.lookup_insert_ne (hidle key s hs)] at hu
    exact h.ticketed key i b u ⟨s, hs, hi⟩ hu

/-- Changing only the pending map keeps everything but the field about it. -/
theorem setPending {pending : FinMap SocketAddr Pending}
    (hp : ∀ a p, pending.lookup a = some p →
      p.session.token = p.challenge.hello.token ∧ st.Ticketed p.session.token swept) :
    Indexed swept { st with pending } :=
  { h with pending := hp }

variable {source : SocketAddr}

theorem challenge {p : Pending} (htok : p.session.token = p.challenge.hello.token)
    (ht : st.Ticketed p.session.token swept) :
    Indexed swept { st with pending := st.pending.insert source p } := by
  refine h.setPending ?_
  intro a p' hp'
  rcases AList.lookup_insert_some hp' with ⟨-, rfl⟩ | ⟨-, hp'⟩
  · exact ⟨htok, ht⟩
  · exact h.pending a p' hp'

theorem consume (source : SocketAddr) :
    Indexed swept { st with pending := st.pending.erase source } := by
  refine h.setPending ?_
  intro a p hp
  exact h.pending a p (AList.lookup_erase_some hp).2

variable {now : Instant}

/-- A bind adds one side, whose Hello was validated against a live ticket of the
    session's token. -/
theorem bind {hello : Hello} {side : Fin 2} {arm : SessionKey} {sides : Fin 2 → Option Bound}
    {t : Ticket} (harm : st.Arm arm sides) (hfree : sides side = none)
    (hunbound : st.sources.lookup source = none) (htoken : arm.token = hello.token)
    (ht : st.tickets.lookup hello.token = some t) (hlive : swept < t.expires)
    (hnode : t.nodes side = hello.node) (hpeer : t.nodes (1 - side) = hello.peer) :
    Indexed swept (st.bound hello source side arm sides now) := by
  have hat : ∀ {key : SessionKey} {i : Fin 2} {b : Bound},
      (st.bound hello source side arm sides now).BoundAt key i b ↔
        (key = arm ∧ i = side ∧ b = ⟨hello, source⟩) ∨ st.BoundAt key i b :=
    State.boundAt_bound harm hfree
  -- The new bound was validated against the ticket that its token has now.
  have hticketed : ∀ key i b u,
      (st.bound hello source side arm sides now).BoundAt key i b →
      st.tickets.lookup key.token = some u →
      b.hello.node = u.nodes i ∧ b.hello.peer = u.nodes (1 - i) := by
    intro key i b u hb hu
    rcases hat.mp hb with ⟨rfl, rfl, rfl⟩ | hold
    · rw [htoken, ht] at hu
      obtain rfl : t = u := Option.some.inj hu
      exact ⟨hnode.symm, hpeer.symm⟩
    · exact h.ticketed key i b u hold hu
  constructor
  case index =>
    intro a key i
    show (st.sources.insert source (arm, side)).lookup a = some (key, i) ↔ _
    rw [AList.lookup_insert_eq_ite]
    split
    next ha =>
      subst ha
      constructor
      · intro heq
        cases heq
        exact ⟨⟨hello, a⟩, hat.mpr (Or.inl ⟨rfl, rfl, rfl⟩), rfl⟩
      · rintro ⟨b, hb, hsrc⟩
        rcases hat.mp hb with ⟨rfl, rfl, -⟩ | hold
        · rfl
        -- An old bound on this source would be in the index already.
        have hin := (h.index a key i).mpr ⟨b, hold, hsrc⟩
        rw [hunbound] at hin
        cases hin
    next ha =>
      rw [h.index]
      constructor
      · rintro ⟨b, hb, hsrc⟩
        exact ⟨b, hat.mpr (Or.inr hb), hsrc⟩
      · rintro ⟨b, hb, hsrc⟩
        rcases hat.mp hb with ⟨-, -, rfl⟩ | hold
        · exact absurd hsrc.symm ha
        · exact ⟨b, hold, hsrc⟩
  case bound =>
    intro key s hs
    rw [State.bound_sessions] at hs
    split at hs
    · cases hs
      exact ⟨side, ⟨hello, source⟩, Function.update_self ..⟩
    · exact h.bound key s hs
  case half =>
    intro key s hs hready
    rw [State.bound_sessions] at hs
    split at hs
    next hkey =>
      exact ⟨t, by rw [hkey, htoken]; exact ht, hlive⟩
    · exact h.half key s hs hready
  case pending => exact (h.consume source).pending
  case seats =>
    intro token
    by_cases htok : hello.token = token
    · -- All bounds of this token agree with its ticket.
      refine ⟨t.nodes, ?_⟩
      intro key i b hkey hb
      exact hticketed key i b t hb (by rw [hkey, ← htok]; exact ht)
    · obtain ⟨nodes, hnodes⟩ := h.seats token
      refine ⟨nodes, ?_⟩
      intro key i b hkey hb
      rcases hat.mp hb with ⟨rfl, -, -⟩ | hold
      · exact absurd (htoken.symm.trans hkey) htok
      · exact hnodes key i b hkey hold
  case ticketed => exact hticketed
  case token =>
    intro key i b hb
    rcases hat.mp hb with ⟨rfl, -, rfl⟩ | hold
    · exact htoken.symm
    · exact h.token key i b hold

theorem touch {key : SessionKey} {s : Session} (hs : st.sessions.lookup key = some s) :
    Indexed swept
      { st with sessions := st.sessions.insert key { s with lastActivity := now } } := by
  have hat : ∀ {key' : SessionKey} {i : Fin 2} {b : Bound}, State.BoundAt
      { st with sessions := st.sessions.insert key { s with lastActivity := now } } key' i b ↔
      st.BoundAt key' i b := State.boundAt_touch hs
  -- Only the time of the session changes, not its sides.
  have hlook : ∀ key' s', (st.sessions.insert key { s with lastActivity := now }).lookup key' =
      some s' → ∃ s₀, st.sessions.lookup key' = some s₀ ∧ s'.sides = s₀.sides := by
    intro key' s' hs'
    rcases AList.lookup_insert_some hs' with ⟨hkey, rfl⟩ | ⟨-, hs'⟩
    · exact ⟨s, hkey ▸ hs, rfl⟩
    · exact ⟨s', hs', rfl⟩
  constructor
  case index => intro a key' i; rw [h.index]; simp only [hat]
  case bound =>
    intro key' s' hs'
    obtain ⟨s₀, hs₀, hsides⟩ := hlook key' s' hs'
    rw [hsides]
    exact h.bound key' s₀ hs₀
  case half =>
    intro key' s' hs' hready
    obtain ⟨s₀, hs₀, hsides⟩ := hlook key' s' hs'
    refine h.half key' s₀ hs₀ ?_
    simpa only [Session.ready, hsides] using hready
  case pending => exact h.pending
  case seats => intro token; simp only [hat]; exact h.seats token
  case ticketed => intro key' i b t hb; exact h.ticketed key' i b t (hat.mp hb)
  case token => intro key' i b hb; exact h.token key' i b (hat.mp hb)

/-- Every change keeps the maps in agreement. -/
theorem change {e : Event} {st' : State}
    (hswept : swept = e.now ∨ ∃ so fa, e = .forward so fa e.now) (hch : Change c st e st') :
    Indexed swept st' := by
  cases hch with
  | ticket _ hfresh hidle _ _ _ => exact h.ticket hfresh hidle
  | challenge hvalid _ _ _ _ =>
    obtain rfl : swept = _ := hswept.resolve_right (by simp)
    obtain ⟨-, -, t, ht, hlt, -, -⟩ := State.validateHello_spec hvalid
    exact h.challenge rfl ⟨t, ht, hlt⟩
  | consume _ => exact h.consume _
  | join haccepts hunbound hsession hjoins =>
    obtain rfl : swept = _ := hswept.resolve_right (by simp)
    obtain ⟨-, -, -, hvalid, -⟩ := State.registerAccepts_spec haccepts
    obtain ⟨-, -, t, ht, hlt, hnode, hpeer⟩ := State.validateHello_spec hvalid
    exact h.bind (Or.inl ⟨_, hsession, rfl⟩) hjoins.free hunbound hjoins.token ht hlt hnode hpeer
  | fresh haccepts hunbound hsession htoken _ _ =>
    obtain rfl : swept = _ := hswept.resolve_right (by simp)
    obtain ⟨-, -, -, hvalid, -⟩ := State.registerAccepts_spec haccepts
    obtain ⟨-, -, t, ht, hlt, hnode, hpeer⟩ := State.validateHello_spec hvalid
    exact h.bind (Or.inr ⟨hsession, rfl⟩) rfl hunbound htoken ht hlt hnode hpeer
  | touch hsession => exact h.touch hsession

end Indexed

/-- The maps of the admission agree in every reachable state. -/
theorem run_indexed {es : List Event} {s : Server} (h : (machine c config).Run es s) :
    Indexed s.swept s.state :=
  Server.invariant (fun swept _ => Indexed.empty swept) (fun _ _ now hI => hI.sweep now)
    (fun _ _ _ _ hI hswept hch => hI.change hswept hch) h

/-- A token with a session is refused: after the sweep of the call no ticket is
    added. -/
theorem issue_refused {token : Token} {a b : NodeId} {now later : Instant} {key : SessionKey}
    {s : Session} (hs : (st.cleanup now).sessions.lookup key = some s) (hkey : key.token = token) :
    st.issue token a b now later = (st.cleanup now, false) := by
  have hany : (st.cleanup now).sessions.keys.any (fun key => key.token == token) = true := by
    rw [List.any_eq_true]
    exact ⟨key, AList.mem_keys_iff_lookup.mpr ⟨s, hs⟩, by simp [hkey]⟩
  unfold State.issue
  rw [if_pos (by simp [hany])]

/-! ## A sample run

Two nodes get a ticket, each binds its socket by a signed response, and the
first sends a datagram. -/

namespace Sample

def token : Token := Bytes.fill 16 9

/-- The node whose key consists of the byte `x`. -/
def node (x : UInt8) : NodeId := Bytes.fill 16 x

def socket (x : UInt8) : SocketAddr := .v4 (.four 10 0 0 x) 4000

def helloOf (x y : UInt8) : Hello := ⟨token, node x, node y, Bytes.fill 32 x, Bytes.fill 32 0⟩

def challengeOf (x y : UInt8) : Challenge := ⟨helloOf x y, Bytes.fill 32 x, socket x⟩

/-- Node `x` asks for a challenge and answers it. -/
def bindEvents (x y : UInt8) (now : Instant) : List Event :=
  [.control (.hello (helloOf x y)) (socket x) .ipv4 now (Bytes.fill 32 x),
   .control (.register (challengeOf x y) (Bytes.fill 32 7) (Bytes.fill 32 7)) (socket x) .ipv4
     (now + 1) (Bytes.fill 32 0)]

def events : List Event :=
  .issue token (node 1) (node 2) 0 0 :: bindEvents 1 2 1 ++ bindEvents 2 1 3 ++
    [.forward (socket 1) .ipv4 5]

def start : Server := ⟨⟨.default, ∅, ∅, ∅, ∅⟩, 0, 0⟩

theorem exec_isSome : (Machine.exec (Server.step .sample) start events).isSome = true := by
  decide +kernel

/-- The server after the sample run. -/
def server : Server := (Machine.exec (Server.step .sample) start events).get exec_isSome

theorem run : (machine .sample .default).Run events server :=
  Machine.run_of_exec ⟨rfl, rfl⟩ (Option.some_get exec_isSome).symm

end Sample

/-! ## The index theorem -/

/-- **Index consistency.**  In every reachable state of the admission the
    reverse index lists exactly the bound sides, no session is empty, every
    half-bound session and every pending challenge has a ticket that was
    unexpired at the last sweep, all sessions of a token seat the same two nodes
    on the same sides, and a token that still has a session after the sweep of
    an `issue` call is not issued. -/
theorem relay_index_consistent {es : List Event} {s : Server} (h : (machine c config).Run es s) :
    (∀ a key i, s.state.sources.lookup a = some (key, i) ↔
        ∃ sess b, s.state.sessions.lookup key = some sess ∧ sess.sides i = some b ∧ b.source = a) ∧
      (∀ key sess, s.state.sessions.lookup key = some sess → ∃ i b, sess.sides i = some b) ∧
      (∀ key sess, s.state.sessions.lookup key = some sess → sess.ready = false →
        ∃ t, s.state.tickets.lookup key.token = some t ∧ s.swept < t.expires) ∧
      (∀ a p, s.state.pending.lookup a = some p →
        p.session.token = p.challenge.hello.token ∧
          ∃ t, s.state.tickets.lookup p.session.token = some t ∧ s.swept < t.expires) ∧
      (∀ token, ∃ nodes : Fin 2 → NodeId, ∀ key sess i b, key.token = token →
        s.state.sessions.lookup key = some sess → sess.sides i = some b →
          b.hello.node = nodes i ∧ b.hello.peer = nodes (1 - i)) ∧
      (∀ token a b now later key sess,
        (s.state.cleanup now).sessions.lookup key = some sess → key.token = token →
          s.state.issue token a b now later = (s.state.cleanup now, false)) := by
  have hI := run_indexed h
  refine ⟨?_, hI.bound, hI.half, hI.pending, ?_, ?_⟩
  · intro a key i
    rw [hI.index]
    constructor
    · rintro ⟨b, ⟨sess, hs, hi⟩, hb⟩
      exact ⟨sess, b, hs, hi, hb⟩
    · rintro ⟨sess, b, hs, hi, hb⟩
      exact ⟨b, ⟨sess, hs, hi⟩, hb⟩
  · intro token
    obtain ⟨nodes, hnodes⟩ := hI.seats token
    refine ⟨nodes, ?_⟩
    intro key sess i b hkey hs hi
    exact hnodes key i b hkey ⟨sess, hs, hi⟩
  · intro token a b now later key sess hs hkey
    exact issue_refused hs hkey

open Sample in
/-- After the sample run the index lists the socket of node 1, so its session
    holds it on that side. -/
theorem relay_index_consistent_sample :
    server.state.sources.lookup (socket 1) = some (⟨token, 0⟩, 0) ∧
      (∃ sess b, server.state.sessions.lookup ⟨token, 0⟩ = some sess ∧
        sess.sides 0 = some b ∧ b.source = socket 1) := by
  have hsource : server.state.sources.lookup (socket 1) = some (⟨token, 0⟩, 0) := by
    decide +kernel
  exact ⟨hsource, ((relay_index_consistent run).1 _ _ _).mp hsource⟩

end P2pFile.Relay
