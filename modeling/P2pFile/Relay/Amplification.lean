/-
  P2pFile.Relay.Amplification

  One datagram at a relay listener (`run_listener` in `src/relay/server.rs`), the
  packet envelope (`encode` and `decode` in `src/relay/wire.rs`), and the sizes of
  the control replies.

  `decode` reads as postcard does.  A varint may be longer than it has to be, so a
  datagram is at least as long as the encoding of its packet, not equally long.
  `Takes n p` says that the reader `p` uses up at least `n` bytes; it is proved
  along the readers and gives the length of every accepted Hello and Register.
-/

import Mathlib.Algebra.Order.BigOperators.Group.List
import Mathlib.Algebra.Order.Ring.Nat
import P2pFile.Relay.ServerIndex

namespace P2pFile.Relay

open Lib

/-! ## Envelopes -/

/-- `MAGIC`: a zero byte and the ASCII text `P2PF-RELAY/1`. -/
def magic : List UInt8 :=
  [0x00, 0x50, 0x32, 0x50, 0x46, 0x2d, 0x52, 0x45, 0x4c, 0x41, 0x59, 0x2f, 0x31]

def maxControl : Nat := 512

def Packet.toData : Packet → Data
  | .hello h => .variant 0 [h.toData]
  | .challenge clientNonce nonce source =>
    .variant 1 [.array clientNonce.toList, .array nonce.toList, addrData source]
  | .register ch a b => .variant 2 [ch.toData, .array a.toList, .array b.toList]
  | .ready token node clientNonce =>
    .variant 3 [.array token.toList, .array node.toList, .array clientNonce.toList]

variable (c : Crypto) (packet : Packet)

/-- `MAGIC` and the bytes of an `Envelope`. -/
def envelope : List UInt8 :=
  magic ++ c.postcard.write (.record [.nat version.toNat, packet.toData])

/-- `encode`. -/
def encode : Except Error (List UInt8) :=
  if (envelope c packet).length > maxControl then
    .error (.protocol "relay control packet too large")
  else .ok (envelope c packet)

/-- A postcard reader: it takes bytes from the front of its input. -/
abbrev Take := StateT (List UInt8) (Except Error)

def unexpectedEnd : Error := .encode "Hit the end of buffer, expected more data"

def badVarint : Error :=
  .encode "Found a varint that didn't terminate. Is the usize too big for this platform?"

def serdeDeCustom : Error := .encode "Serde Deserialization Error"

/-- A varint of a `bits`-bit integer in at most `left` more bytes.  The last byte
    there is room for may only hold the bits that are left. -/
def takeVarint (bits : Nat) : (left : Nat) → List UInt8 → Except Error (Nat × List UInt8)
  | 0, _ => .error badVarint
  | _ + 1, [] => .error unexpectedEnd
  | left + 1, b :: rest =>
    if b < 128 then
      if left = 0 ∧ 2 ^ (bits % 7) ≤ b.toNat then .error badVarint else .ok (b.toNat, rest)
    else
      match takeVarint bits left rest with
      | .error err => .error err
      | .ok (high, rest) => .ok (b.toNat % 128 + 128 * high, rest)

def takeU16 : Take Nat := takeVarint 16 3
def takeU32 : Take Nat := takeVarint 32 5

/-- `[u8; n]`. -/
def takeArray (n : Nat) : Take (Bytes n) := fun input =>
  if h : n ≤ input.length then .ok (⟨input.take n, by simp [h]⟩, input.drop n)
  else .error unexpectedEnd

def takeSocketAddr : Take SocketAddr := do
  let kind ← takeU32
  match kind with
  | 0 =>
    let ip ← takeArray 4
    let port ← takeU16
    return .v4 ip port.toUInt16
  | 1 =>
    let ip ← takeArray 16
    let port ← takeU16
    return .v6 ip port.toUInt16 0 0
  | _ => throw serdeDeCustom

def takeHello : Take Hello := do
  let token ← takeArray 16
  let node ← takeArray 16
  let peer ← takeArray 16
  let publicKey ← takeArray 32
  let clientNonce ← takeArray 32
  return ⟨token, node, peer, publicKey, clientNonce⟩

def takeChallenge : Take Challenge := do
  let hello ← takeHello
  let nonce ← takeArray 32
  let source ← takeSocketAddr
  return ⟨hello, nonce, source⟩

def takePacket : Take Packet := do
  let variant ← takeU32
  match variant with
  | 0 =>
    let hello ← takeHello
    return .hello hello
  | 1 =>
    let clientNonce ← takeArray 32
    let nonce ← takeArray 32
    let source ← takeSocketAddr
    return .challenge clientNonce nonce source
  | 2 =>
    let challenge ← takeChallenge
    let signatureA ← takeArray 32
    let signatureB ← takeArray 32
    return .register challenge signatureA signatureB
  | 3 =>
    let token ← takeArray 16
    let node ← takeArray 16
    let clientNonce ← takeArray 32
    return .ready token node clientNonce
  | _ => throw serdeDeCustom

def takeEnvelope : Take (Nat × Packet) := do
  let version ← takeU32
  let packet ← takePacket
  return (version, packet)

/-- `decode`. -/
def decode (bytes : List UInt8) : Except Error Packet :=
  if bytes.length > maxControl || !magic.isPrefixOf bytes then
    .error (.protocol "invalid relay control envelope")
  else
    match takeEnvelope (bytes.drop magic.length) with
    | .error err => .error err
    | .ok ((v, packet), remaining) =>
      if v != version.toNat || !remaining.isEmpty then
        .error (.protocol "unsupported or trailing relay control data")
      else .ok packet

/-! ## One datagram at a listener -/

def maxDatagram : Nat := 2048

/-- A datagram to be sent. -/
abbrev Outgoing := SocketAddr × List UInt8

/-- The replies of one control call, encoded. -/
def encodeReplies : Replies → Except Error (List Outgoing)
  | [] => .ok []
  | (target, packet) :: rest => do
    let reply ← encode c packet
    let rest ← encodeReplies rest
    return (target, reply) :: rest

/-- The body of the loop of `run_listener`, for a datagram of `source`: the new
    state and what goes out.  `serves` says for which families `senders` has a
    socket; an error ends the listener. -/
def onDatagram (serves : AddressFamily → Bool) (family : AddressFamily) (st : State)
    (bytes : List UInt8) (source : SocketAddr) (now : Instant) (nonce : Bytes 32) :
    Except Error (State × List Outgoing) :=
  if bytes.length == 0 || bytes.length > maxDatagram || !family.accepts source then .ok (st, [])
  else if magic.isPrefixOf bytes then
    match decode bytes with
    | .error _ => .ok (st, [])
    | .ok packet =>
      let (st, replies) := st.control c packet source family now nonce
      match encodeReplies c replies with
      | .error err => .error err
      | .ok replies =>
        -- The guard against amplification is the first conjunct.
        .ok (st, replies.filter fun r =>
          r.2.length ≤ bytes.length && serves (AddressFamily.of r.1))
  else
    match st.forward source family now with
    | (st, some target) =>
      .ok (st, if serves (AddressFamily.of target) then [(target, bytes)] else [])
    | (st, none) => .ok (st, [])

/-! ## How much a reader takes -/

section Takes

variable {α β : Type} {m n : Nat}

/-- `p` takes at least `n` bytes of every input it accepts. -/
def Takes (n : Nat) (p : Take α) : Prop :=
  ∀ input x rest, p input = .ok (x, rest) → n + rest.length ≤ input.length

theorem Takes.pure (x : α) : Takes 0 (Pure.pure x : Take α) := by
  rintro input y rest h
  cases h
  omega

theorem Takes.bind {p : Take α} {f : α → Take β} (hp : Takes m p) (hf : ∀ x, Takes n (f x)) :
    Takes (m + n) (p >>= f) := by
  intro input y rest h
  obtain ⟨⟨x, middle⟩, hx, hy⟩ := bind_eq_ok.mp h
  have hfirst := hp input x middle hx
  have hsecond := hf x middle y rest hy
  omega

theorem Takes.throw (err : Error) : Takes n (MonadExcept.throw err : Take α) := by
  rintro input x rest h
  cases h

theorem takeArray_takes (n : Nat) : Takes n (takeArray n) := by
  intro input x rest h
  unfold takeArray at h
  split at h
  · cases h
    rw [List.length_drop]
    omega
  · cases h

theorem takeVarint_takes (bits left : Nat) : Takes 1 (takeVarint bits left) := by
  intro input x rest h
  induction left generalizing input x rest with
  | zero => cases h
  | succ left ih =>
    cases input with
    | nil => cases h
    | cons b input =>
      rw [List.length_cons]
      unfold takeVarint at h
      split at h
      · split at h
        · cases h
        · cases h
          omega
      · split at h
        · cases h
        next hmore =>
          cases h
          have hrest := ih _ _ _ hmore
          omega

/-- The kind, the shorter address and a port of one byte. -/
theorem takeSocketAddr_takes : Takes 6 takeSocketAddr := by
  refine (takeVarint_takes 32 5).bind (n := 5) fun kind => ?_
  split
  · exact (takeArray_takes 4).bind fun _ => (takeVarint_takes 16 3).bind fun _ => .pure _
  · intro input x rest h
    have hlong : Takes 17 _ :=
      (takeArray_takes 16).bind fun ip => (takeVarint_takes 16 3).bind fun port =>
        .pure (SocketAddr.v6 ip port.toUInt16 0 0)
    have htaken := hlong input x rest h
    omega
  · exact .throw _

theorem takeHello_takes : Takes 112 takeHello :=
  (takeArray_takes 16).bind fun _ => (takeArray_takes 16).bind fun _ =>
    (takeArray_takes 16).bind fun _ => (takeArray_takes 32).bind fun _ =>
      (takeArray_takes 32).bind fun _ => .pure _

theorem takeChallenge_takes : Takes 150 takeChallenge :=
  takeHello_takes.bind fun _ => (takeArray_takes 32).bind fun _ =>
    takeSocketAddr_takes.bind fun _ => .pure _

end Takes

/-! ## Sizes of packets -/

variable {c}

theorem length_addrData (p : Postcard) (a : SocketAddr) : (p.write (addrData a)).length ≤ 20 := by
  cases a with
  | v4 ip port | v6 ip port =>
    have hport := p.varint_length port.toNat_lt
    simp [addrData, p.write_variant, p.varint_small, p.write_array, p.write_nat, ip.length_eq]
    omega

theorem length_envelope : (envelope c packet).length =
    14 + (c.postcard.write packet.toData).length := by
  have hversion : c.postcard.varint version.toNat = [1] := c.postcard.varint_small (by decide)
  simp only [envelope, magic, c.postcard.write_record, List.flatMap_cons, List.flatMap_nil,
    c.postcard.write_nat, hversion, List.length_append, List.length_cons, List.length_nil]
  omega

theorem length_challenge (ch : Challenge) : (envelope c (challengePacket ch)).length ≤ 99 := by
  have haddr := length_addrData c.postcard ch.source
  simp only [length_envelope, challengePacket, Packet.toData, c.postcard.write_variant,
    c.postcard.varint_small (by decide : 1 < 128), List.flatMap_cons, List.flatMap_nil,
    c.postcard.write_array, List.length_append, List.length_cons, List.length_nil,
    Bytes.length_eq]
  omega

/-- The Ready notice of one side of a session. -/
def Bound.notice (b : Bound) : SocketAddr × Packet :=
  (b.source, .ready b.hello.token b.hello.node b.hello.clientNonce)

theorem Bound.length_notice (b : Bound) : (envelope c b.notice.2).length = 79 := by
  simp [notice, length_envelope, Packet.toData, Postcard.write_variant, Postcard.write_array,
    Postcard.varint_small, Bytes.length_eq]

/-- The least length of a datagram that carries a packet of this kind, where the
    listener answers it. -/
def leastLength : Packet → Nat
  | .hello _ => 127
  | .register .. => 229
  | _ => 0

variable {packet : Packet}

theorem takePacket_length {input rest : List UInt8} (h : takePacket input = .ok (packet, rest)) :
    leastLength packet ≤ 14 + input.length := by
  obtain ⟨⟨variant, body⟩, hvariant, hbody⟩ := bind_eq_ok.mp h
  have htag := takeVarint_takes 32 5 input variant body hvariant
  dsimp only at hbody
  split at hbody
  · obtain ⟨⟨hello, _⟩, hhello, hpure⟩ := bind_eq_ok.mp hbody
    cases hpure
    have htaken := takeHello_takes _ _ _ hhello
    show 127 ≤ _
    omega
  · obtain ⟨_, -, hbody⟩ := bind_eq_ok.mp hbody
    obtain ⟨_, -, hbody⟩ := bind_eq_ok.mp hbody
    obtain ⟨_, -, hpure⟩ := bind_eq_ok.mp hbody
    cases hpure
    exact Nat.zero_le _
  · obtain ⟨⟨challenge, afterChallenge⟩, hchallenge, hbody⟩ := bind_eq_ok.mp hbody
    obtain ⟨⟨signatureA, afterA⟩, hA, hbody⟩ := bind_eq_ok.mp hbody
    obtain ⟨⟨signatureB, afterB⟩, hB, hpure⟩ := bind_eq_ok.mp hbody
    cases hpure
    have htaken := takeChallenge_takes _ _ _ hchallenge
    have htakenA := takeArray_takes 32 _ _ _ hA
    have htakenB := takeArray_takes 32 _ _ _ hB
    show 229 ≤ _
    omega
  · obtain ⟨_, -, hbody⟩ := bind_eq_ok.mp hbody
    obtain ⟨_, -, hbody⟩ := bind_eq_ok.mp hbody
    obtain ⟨_, -, hpure⟩ := bind_eq_ok.mp hbody
    cases hpure
    exact Nat.zero_le _
  · cases hbody

theorem leastLength_le {bytes : List UInt8} (h : decode bytes = .ok packet) :
    leastLength packet ≤ bytes.length ∧ bytes.length ≤ maxControl ∧
      magic.isPrefixOf bytes = true := by
  unfold decode at h
  split at h
  · cases h
  rename_i hguard
  simp only [Bool.or_eq_true, decide_eq_true_eq, Bool.not_eq_true', not_or, Bool.not_eq_false]
    at hguard
  split at h
  · cases h
  rename_i v packet' remaining htake
  split at h
  · cases h
  cases h
  obtain ⟨⟨_, afterVersion⟩, hversion, hrest⟩ := bind_eq_ok.mp htake
  obtain ⟨⟨_, _⟩, hpacket, hpure⟩ := bind_eq_ok.mp hrest
  cases hpure
  have hleast := takePacket_length hpacket
  have htag := takeVarint_takes 32 5 _ _ _ hversion
  have hmagic : magic.length ≤ bytes.length := (List.isPrefixOf_iff_prefix.mp hguard.2).length_le
  rw [List.length_drop, show magic.length = 13 from rfl] at htag
  rw [show magic.length = 13 from rfl] at hmagic
  exact ⟨by omega, by omega, hguard.2⟩

/-! ## The replies of a call -/

/-- At most one reply per address, and all of them together at most `n` bytes. -/
structure Fits (c : Crypto) (n : Nat) (replies : Replies) : Prop where
  nodup : (replies.map Prod.fst).Nodup
  total : (replies.map fun r => (envelope c r.2).length).sum ≤ n

theorem Fits.nil (n : Nat) : Fits c n [] := ⟨List.nodup_nil, Nat.zero_le n⟩

theorem Fits.single {n : Nat} {target : SocketAddr} (h : (envelope c packet).length ≤ n) :
    Fits c n [(target, packet)] :=
  ⟨List.nodup_singleton _, h⟩

variable {config : RelayServerConfig} {st : State} {swept : Instant}

/-- The two notices of a ready session go to different addresses: the index lists
    each address for one side. -/
theorem Indexed.readyPackets_cases (h : Indexed swept st) (key : SessionKey) :
    st.readyPackets key = [] ∨
      ∃ a b : Bound, st.readyPackets key = [a.notice, b.notice] ∧ a.source ≠ b.source := by
  unfold State.readyPackets
  split
  next s hs =>
    split
    next hready =>
      obtain ⟨a, ha⟩ := Session.ready_iff.mp hready 0
      obtain ⟨b, hb⟩ := Session.ready_iff.mp hready 1
      refine .inr ⟨a, b, ?_, ?_⟩
      · rw [Session.bounds, ha, hb]
        rfl
      · intro hsame
        have hfirst := (h.index a.source key 0).mpr ⟨a, ⟨s, hs, ha⟩, rfl⟩
        have hsecond := (h.index a.source key 1).mpr ⟨b, ⟨s, hs, hb⟩, hsame.symm⟩
        rw [hfirst] at hsecond
        simp at hsecond
    · exact .inl rfl
  · exact .inl rfl

namespace State

/-- What `State::hello` answers: nothing, a challenge, or the notice of `source`. -/
theorem hello_replies (h : Hello) (source : SocketAddr) (family : AddressFamily) (now : Instant)
    (nonce : Bytes 32) : (st.hello c h source family now nonce).2 = [] ∨
      (∃ ch, (st.hello c h source family now nonce).2 = [(source, challengePacket ch)]) ∨
      ∃ key, (st.hello c h source family now nonce).2 =
        (st.readyPackets key).filter fun reply => reply.1 == source := by
  unfold hello
  split
  · exact .inl rfl
  split
  · exact .inl rfl
  split
  · dsimp only
    split
    · exact .inr (.inr ⟨_, rfl⟩)
    · exact .inl rfl
  split
  · split
    · exact .inr (.inl ⟨_, rfl⟩)
    · exact .inl rfl
  split
  · exact .inl rfl
  · exact .inr (.inl ⟨_, rfl⟩)

/-- What `State::register` answers: nothing, or the notices of the session. -/
theorem register_replies (ch : Challenge) (sa sb : Bytes 32) (source : SocketAddr)
    (family : AddressFamily) (now : Instant) : (st.register c ch sa sb source family now).2 = [] ∨
      ∃ key, (st.register c ch sa sb source family now).2 =
        (st.register c ch sa sb source family now).1.readyPackets key := by
  unfold register
  split
  · exact .inl rfl
  unfold bindSide
  split
  · exact .inl rfl
  split
  · exact .inl rfl
  dsimp only
  split
  · exact .inl rfl
  · exact .inr ⟨_, rfl⟩

end State

/-- The state after a call is indexed again. -/
theorem Indexed.apply_control (h : Indexed swept st) (packet : Packet) (source : SocketAddr)
    (family : AddressFamily) (now : Instant) (nonce : Bytes 32) :
    Indexed now (st.control c packet source family now nonce).1 := by
  have hswept : Indexed now (st.cleanup now) := h.sweep now
  rcases State.apply_cases c st (.control packet source family now nonce) with heq | hchange
  · have hsame : (st.control c packet source family now nonce).1 = st.cleanup now := heq
    rw [hsame]
    exact hswept
  · exact hswept.change (.inl rfl) hchange

/-- The replies to a packet fit into the shortest datagram that carries it. -/
theorem Indexed.replies_fit (h : Indexed swept st) (packet : Packet) (source : SocketAddr)
    (family : AddressFamily) (now : Instant) (nonce : Bytes 32) :
    Fits c (leastLength packet) (st.control c packet source family now nonce).2 := by
  cases packet with
  | hello hello =>
    show Fits c 127 ((st.cleanup now).hello c hello source family now nonce).2
    rcases (st.cleanup now).hello_replies (c := c) hello source family now nonce
      with heq | ⟨ch, heq⟩ | ⟨key, heq⟩ <;> rw [heq]
    · exact .nil _
    · exact .single (Nat.le_trans (length_challenge ch) (by decide))
    rcases (h.sweep now).readyPackets_cases key with hnone | ⟨a, b, htwo, hne⟩
    · rw [hnone]
      exact .nil _
    rw [htwo]
    -- Only the notice of `source` is kept, and the two targets differ.
    by_cases ha : a.source = source
    · have hb : ¬b.source = source := fun hb => hne (ha.trans hb.symm)
      have hone : [a.notice, b.notice].filter (fun reply => reply.1 == source) = [a.notice] := by
        simp [Bound.notice, ha, hb]
      rw [hone]
      exact .single (a.length_notice.trans_le (by decide))
    · have hsub : [a.notice, b.notice].filter (fun reply => reply.1 == source) =
          [b.notice].filter fun reply => reply.1 == source := by
        simp [Bound.notice, ha]
      rw [hsub]
      by_cases hb : b.source = source
      · rw [List.filter_cons_of_pos (by simp [Bound.notice, hb])]
        exact .single (b.length_notice.trans_le (by decide))
      · rw [List.filter_cons_of_neg (by simp [Bound.notice, hb])]
        exact .nil _
  | register ch sa sb =>
    have hafter := h.apply_control (c := c) (.register ch sa sb) source family now nonce
    show Fits c 229 ((st.cleanup now).register c ch sa sb source family now).2
    rcases (st.cleanup now).register_replies (c := c) ch sa sb source family now
      with heq | ⟨key, heq⟩ <;> rw [heq]
    · exact .nil _
    change Indexed now ((st.cleanup now).register c ch sa sb source family now).1 at hafter
    rcases hafter.readyPackets_cases key with hnone | ⟨a, b, htwo, hne⟩
    · rw [hnone]
      exact .nil _
    rw [htwo]
    refine ⟨by simp [Bound.notice, hne], ?_⟩
    have ha := a.length_notice (c := c)
    have hb := b.length_notice (c := c)
    show (envelope c a.notice.2).length + ((envelope c b.notice.2).length + 0) ≤ 229
    omega
  | _ => exact .nil _

/-! ## The listener -/

theorem encode_of_le (h : (envelope c packet).length ≤ maxControl) :
    encode c packet = .ok (envelope c packet) :=
  if_neg (Nat.not_lt.mpr h)

theorem encodeReplies_of_le {replies : Replies}
    (h : ∀ r ∈ replies, (envelope c r.2).length ≤ maxControl) :
    encodeReplies c replies = .ok (replies.map fun r => (r.1, envelope c r.2)) := by
  induction replies with
  | nil => rfl
  | cons r rest ih =>
    have hrest := ih fun r' hr' => h r' (.tail _ hr')
    simp only [encodeReplies, encode_of_le (h r (.head _)), hrest, List.map_cons]
    rfl

theorem Fits.le_of_mem {n : Nat} {replies : Replies} (h : Fits c n replies)
    {r : SocketAddr × Packet} (hr : r ∈ replies) : (envelope c r.2).length ≤ n :=
  (List.le_sum_of_mem (List.mem_map_of_mem hr)).trans h.total

/-- **No amplification.**  In every reachable state and for every datagram, the
    listener goes on, everything it sends in response is together at most as long
    as the datagram, and no address is sent to twice.  Every reply that the
    admission produces can be encoded and is at most as long as the datagram, so
    the guard never suppresses one. -/
theorem relay_never_amplifies {es : List Event} {s : Server} (h : (machine c config).Run es s)
    (serves : AddressFamily → Bool) (family : AddressFamily) (bytes : List UInt8)
    (source : SocketAddr) (now : Instant) (nonce : Bytes 32) :
    (∃ st sent, onDatagram c serves family s.state bytes source now nonce = .ok (st, sent) ∧
      (sent.map fun r => r.2.length).sum ≤ bytes.length ∧ (sent.map Prod.fst).Nodup) ∧
    ∀ packet, decode bytes = .ok packet →
      let replies := (s.state.control c packet source family now nonce).2
      (replies.map fun r => (envelope c r.2).length).sum ≤ bytes.length ∧
        (replies.map Prod.fst).Nodup ∧
        ∀ r ∈ replies, encode c r.2 = .ok (envelope c r.2) ∧ (envelope c r.2).length ≤ bytes.length := by
  have hfits : ∀ packet, decode bytes = .ok packet →
      Fits c bytes.length (s.state.control c packet source family now nonce).2 := by
    intro packet hpacket
    have hleast := (leastLength_le hpacket).1
    have hreplies := (run_indexed h).replies_fit (c := c) packet source family now nonce
    exact ⟨hreplies.nodup, hreplies.total.trans hleast⟩
  constructor
  · unfold onDatagram
    split
    · exact ⟨_, _, rfl, Nat.zero_le _, List.nodup_nil⟩
    split
    · split
      · exact ⟨_, _, rfl, Nat.zero_le _, List.nodup_nil⟩
      next packet hpacket =>
        have hfit := hfits packet hpacket
        have hmax := (leastLength_le hpacket).2.1
        dsimp only
        rw [encodeReplies_of_le fun r hr => (hfit.le_of_mem hr).trans hmax]
        refine ⟨_, _, rfl, ?_, ?_⟩
        · refine ((List.filter_sublist.map _).sum_le_sum fun _ _ => Nat.zero_le _).trans ?_
          rw [List.map_map]
          exact hfit.total
        · refine (List.filter_sublist.map Prod.fst).nodup ?_
          rw [List.map_map]
          exact hfit.nodup
    · split
      · refine ⟨_, _, rfl, ?_⟩
        split
        · exact ⟨Nat.le_refl _, List.nodup_singleton _⟩
        · exact ⟨Nat.zero_le _, List.nodup_nil⟩
      · exact ⟨_, _, rfl, Nat.zero_le _, List.nodup_nil⟩
  · intro packet hpacket
    have hfit := hfits packet hpacket
    have hmax := (leastLength_le hpacket).2.1
    exact ⟨hfit.total, hfit.nodup, fun r hr =>
      ⟨encode_of_le ((hfit.le_of_mem hr).trans hmax), hfit.le_of_mem hr⟩⟩

open Sample in
/-- The bound socket of the sample run repeats its Hello: one notice of 79 bytes
    answers 127 bytes. -/
theorem relay_never_amplifies_sample :
    ∃ st sent, onDatagram .sample (fun _ => true) .ipv4 server.state
        (envelope .sample (.hello (helloOf 1 2))) (socket 1) 6 (Bytes.fill 32 0) = .ok (st, sent) ∧
      sent.length = 1 ∧ (sent.map fun r => r.2.length).sum ≤ 127 := by
  obtain ⟨⟨st, sent, hsent, hsum, -⟩, -⟩ := relay_never_amplifies run (fun _ => true) .ipv4
    (envelope .sample (.hello (helloOf 1 2))) (socket 1) 6 (Bytes.fill 32 0)
  have hone : (onDatagram .sample (fun _ => true) .ipv4 server.state
      (envelope .sample (.hello (helloOf 1 2))) (socket 1) 6 (Bytes.fill 32 0)).toOption.any
        (fun r => r.2.length == 1) = true := by
    decide +kernel
  rw [hsent] at hone
  exact ⟨st, sent, hsent, beq_iff_eq.mp hone, hsum⟩

end P2pFile.Relay
