/-
  P2pFile.Discovery.History

  What one step adds to the history of the signaling server, and why.
-/

import P2pFile.Discovery.Waiters

namespace P2pFile.Discovery

open Lib
open Relay (Token)

variable {c : Crypto} {config : SignalServerConfig} {s t : Server}

/-- Where a call of `try_pair(a, b)` comes from: the wake-up loop of a handler that
    registered `b`, or a lookup of `b` by the connection of `a`. -/
inductive PairCause (s t : Server) (a b : NodeId) : Prop
  | wake {id : Nat} {k : Core} {rest : List NodeId} (hk : s.core id = some k)
      (hphase : k.phase = .waking b (a :: rest))
  | lookup {id : Nat} {k : Core} {registration : ActiveRegistration} (hk : s.core id = some k)
      (hask : Asking s k registration b) (hnode : registration.nodeId = a)
      (hframe : .frame id (.lookup b) ∈ t.log)

/-- An entry that a step from `s` to `t` may add to the history. -/
inductive Added (config : SignalServerConfig) (s t : Server) (x : Entry) : Prop
  | frame {id : Nat} {m : SignalMessage} (hx : x = .frame id m)
  | consumed {id : Nat} {challenge : Bytes 32} {n : NodeId} {key : Bytes 32}
      {candidates : List Candidate} {signature : List UInt8}
      (hx : x = .consumed id challenge n key candidates signature)
      (hframe : .frame id (.register n key candidates signature) ∈ t.log)
  | inserted {id : Nat} {n : NodeId} {candidates : List Candidate}
      (hx : x = .inserted id n candidates)
  | reply {id : Nat} {reply : Reply} {k : Core} {after : After}
      (hx : x = .queued id reply.message) (hk : s.core id = some k)
      (hphase : k.phase = .replying reply after)
  | push {a b : NodeId} {token : Token} (hx : x ∈ s.pairEntries config a b token)
      (hcause : PairCause s t a b)
  | deferred {id : Nat} {target : NodeId} {k : Core} {registration : ActiveRegistration}
      (hx : x = .deferred id target) (hk : s.core id = some k)
      (hask : Asking s k registration target)
      (hwaits : registration.key ∈ t.registry.waitersOf target)

/-- A deferred lookup is recorded in the waiter table. -/
theorem Defers.mem_waitersOf {reg reg' : Registry} {key : WaiterKey} {target : NodeId}
    (h : Defers config reg reg' key target) : key ∈ reg'.waitersOf target := by
  cases h with
  | again hmem hsame =>
    rw [hsame.waitersOf_eq]
    exact hmem
  | add _ _ _ hsame =>
    rw [hsame.waitersOf_eq, Registry.waitersOf_addWaiter, if_pos rfl]
    exact Finset.mem_insert_self ..

variable {e : Event} (hm : Move c config s t e)

include hm

/-- A step only appends to the history. -/
theorem Move.added : ∃ entries, t.log = s.log ++ entries ∧ ∀ x ∈ entries, Added config s t x := by
  have hnone : t.log = s.log →
      ∃ entries, t.log = s.log ++ entries ∧ ∀ x ∈ entries, Added config s t x := by
    intro hlog
    exact ⟨[], by rw [hlog, List.append_nil], by simp⟩
  cases hm with
  | quiet _ _ _ _ _ _ _ hentries hlog =>
    refine ⟨_, hlog, ?_⟩
    intro x hx
    obtain ⟨m, hm⟩ := hentries x hx
    exact .frame hm
  | hello _ _ _ _ _ _ _ hlog =>
    refine ⟨_, hlog, ?_⟩
    intro x hx
    exact .frame (List.mem_singleton.mp hx)
  | consume _ _ _ _ _ _ _ hlog =>
    refine ⟨_, hlog, ?_⟩
    intro x hx
    rcases List.mem_cons.mp hx with hframe | hx
    · exact .frame hframe
    · refine .consumed (List.mem_singleton.mp hx) ?_
      rw [hlog]
      simp
  | insert _ _ _ _ _ _ _ _ _ hlog =>
    refine ⟨_, hlog, ?_⟩
    intro x hx
    exact .inserted (List.mem_singleton.mp hx)
  | send hk hphase _ _ _ hlog =>
    refine ⟨_, hlog, ?_⟩
    intro x hx
    exact .reply (List.mem_singleton.mp hx) hk hphase
  | wake hk hphase _ _ _ hlog =>
    refine ⟨_, hlog, ?_⟩
    intro x hx
    exact .push hx (.wake hk hphase)
  | pair hk _ hask _ _ _ hlog =>
    refine ⟨_, hlog, ?_⟩
    intro x hx
    rcases List.mem_cons.mp hx with hframe | hx
    · exact .frame hframe
    · refine .push hx (.lookup hk hask rfl ?_)
      rw [hlog]
      simp
  | defer hk _ hask _ hdefers _ _ hlog =>
    refine ⟨_, hlog, ?_⟩
    intro x hx
    rcases List.mem_cons.mp hx with hframe | hx
    · exact .frame hframe
    · exact .deferred (List.mem_singleton.mp hx) hk hask hdefers.mem_waitersOf
  | _ => exact hnone ‹_›

variable {x : Entry}

theorem Move.log_mono (hx : x ∈ s.log) : x ∈ t.log := by
  obtain ⟨entries, hlog, -⟩ := hm.added
  rw [hlog]
  exact List.mem_append_left _ hx

/-- An entry of the new history is an old one or was added now. -/
theorem Move.mem_cases (hx : x ∈ t.log) : x ∈ s.log ∨ Added config s t x := by
  obtain ⟨entries, hlog, hadded⟩ := hm.added
  rw [hlog, List.mem_append] at hx
  exact hx.imp_right (hadded x)

omit hm

/-- The messages of a pairing go to the current connections of the two nodes, each
    with the other's candidates. -/
theorem Server.mem_pairEntries {a b : NodeId} {token : Token}
    (hx : x ∈ s.pairEntries config a b token) :
    ∃ recordA recordB, s.registry.peers.lookup a = some recordA ∧
      s.registry.peers.lookup b = some recordB ∧
      (x = .queued recordA.connectionId (.peerCandidates b recordB.candidates token) ∨
        x = .queued recordB.connectionId (.peerCandidates a recordA.candidates token)) := by
  unfold Server.pairEntries at hx
  split at hx
  next recordA recordB hA hB =>
    split at hx
    · exact ⟨recordA, recordB, hA, hB, by simpa using hx⟩
    · cases hx
  · cases hx

/-- No reply of a handler is a `PeerCandidates`. -/
theorem Reply.message_ne_peerCandidates (reply : Reply) (n : NodeId) (candidates : List Candidate)
    (token : Token) : reply.message ≠ .peerCandidates n candidates token := by
  cases reply <;> simp [Reply.message]

end P2pFile.Discovery
