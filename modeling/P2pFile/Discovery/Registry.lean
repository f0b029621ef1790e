/-
  P2pFile.Discovery.Registry

  The online table of the signaling server (`Registry` in
  `src/discovery/signal.rs`): registered peers, who waits for whom, and the
  per-connection index of pending lookups.

  A `HashSet` is a `Finset`.  Where the source iterates over one, the function
  takes the order in which the set is enumerated; `Enumerates` says that it is
  such an order, and no property below depends on which one it is.
-/

import Mathlib.Data.Finset.Card
import P2pFile.Discovery.Signal

namespace P2pFile.Discovery

open Lib
open Relay (Instant)

/-- A registered peer.  The outbox and the close signal of the source's record are
    those of connection `connectionId`. -/
structure PeerRecord where
  connectionId : Nat
  candidates : List Candidate
  deriving DecidableEq

structure WaiterKey where
  requester : NodeId
  connectionId : Nat
  deriving DecidableEq

structure Registry where
  relay : Option Relay.State
  shortLookupIps : Buckets
  nodeLookupIps : Buckets
  peers : FinMap NodeId PeerRecord
  waiters : FinMap NodeId (Finset WaiterKey)
  pendingByConnection : FinMap WaiterKey (Finset NodeId)

/-- `order` lists the elements of `set`, each once. -/
def Enumerates {α : Type} [DecidableEq α] (order : List α) (set : Finset α) : Prop :=
  order.Nodup ∧ order.toFinset = set

instance {α : Type} [DecidableEq α] (order : List α) (set : Finset α) :
    Decidable (Enumerates order set) :=
  inferInstanceAs (Decidable (_ ∧ _))

namespace Registry

variable (reg : Registry)

/-- The peer record of `node` belongs to connection `id`. -/
def owns (node : NodeId) (id : Nat) : Bool :=
  (reg.peers.lookup node).any fun record => record.connectionId == id

variable (target : NodeId)

/-- `waiters[target]`, empty when there is no entry. -/
def waitersOf : Finset WaiterKey := (reg.waiters.lookup target).getD ∅

variable (key : WaiterKey)

/-- `pending_by_connection[key]`, empty when there is no entry. -/
def pendingOf : Finset NodeId := (reg.pendingByConnection.lookup key).getD ∅

variable (config : SignalServerConfig)

/-- `take_node_lookup`. -/
def takeNodeLookup (ip : IpAddr) (now : Instant) : Registry × Bool :=
  let (buckets, allowed) := takeBucket reg.nodeLookupIps config.nodeLookupsPerIp maxNodeLookupIps
    nodeLookupWindow ip now
  ({ reg with nodeLookupIps := buckets }, allowed)

/-- `take_short_lookup`. -/
def takeShortLookup (ip : IpAddr) (now : Instant) : Registry × Bool :=
  let (buckets, allowed) := takeBucket reg.shortLookupIps config.shortLookupsPerIp maxShortLookupIps
    shortLookupWindow ip now
  ({ reg with shortLookupIps := buckets }, allowed)

/-- `waiter_entries`. -/
def waiterEntries : Nat := reg.waiters.sumBy fun _ waiters => waiters.card

/-- `pending_count`. -/
def pendingCount : Nat := ((reg.pendingByConnection.lookup key).map Finset.card).getD 0

/-- `add_waiter`. -/
def addWaiter (requester : WaiterKey) (target : NodeId) : Registry :=
  let waiters := reg.waiters.insert target (insert requester (reg.waitersOf target))
  if requester ∈ reg.waitersOf target then { reg with waiters }
  else
    { reg with
      waiters
      pendingByConnection :=
        reg.pendingByConnection.insert requester (insert target (reg.pendingOf requester)) }

/-- In the loop of `take_waiters_for`: release the quota of `key`. -/
def releasePending : Registry :=
  match reg.pendingByConnection.lookup key with
  | none => reg
  | some targets =>
    if targets.erase target = ∅ then
      { reg with pendingByConnection := reg.pendingByConnection.erase key }
    else
      { reg with
        pendingByConnection := reg.pendingByConnection.insert key (targets.erase target) }

/-- One turn of that loop: the quota is released, and a requester whose waiting
    connection is still its current one is live. -/
def takeOne (acc : Registry × List NodeId) (key : WaiterKey) : Registry × List NodeId :=
  let reg := acc.1.releasePending target key
  if reg.owns key.requester key.connectionId && key.requester != target
  then (reg, acc.2 ++ [key.requester])
  else (reg, acc.2)

/-- `take_waiters_for`; `order` enumerates the waiters of `target`. -/
def takeWaitersFor (order : List WaiterKey) : Registry × List NodeId :=
  match reg.waiters.lookup target with
  | none => (reg, [])
  | some _ => order.foldl (takeOne target) ({ reg with waiters := reg.waiters.erase target }, [])

/-- One turn of the loop in `unregister`: forget that `key` waits for `target`. -/
def dropWaiter (waiters : FinMap NodeId (Finset WaiterKey)) (key : WaiterKey)
    (target : NodeId) : FinMap NodeId (Finset WaiterKey) :=
  match waiters.lookup target with
  | none => waiters
  | some set => waiters.insert target (set.erase key)

/-- `unregister`; `order` enumerates the pending targets of the connection. -/
def unregister (node : NodeId) (id : Nat) (order : List NodeId) : Registry :=
  let key : WaiterKey := ⟨node, id⟩
  let peers := if reg.owns node id then reg.peers.erase node else reg.peers
  let waiters :=
    match reg.pendingByConnection.lookup key with
    | none => reg.waiters
    | some _ => order.foldl (fun waiters target => dropWaiter waiters key target) reg.waiters
  { reg with
    peers
    waiters := waiters.retain fun _ set => decide (set ≠ ∅)
    pendingByConnection := reg.pendingByConnection.erase key }

end Registry

end P2pFile.Discovery
