/-
  P2pFile.Discovery.Waiters

  Bookkeeping of the signaling registry: the waiter table and the per-connection
  index of pending lookups are two views of one relation, neither keeps empty
  sets, and the quotas hold.

  Each operation of the registry has one lemma that says what the two tables hold
  afterwards; the loops of `take_waiters_for` and `unregister` are handled there,
  by induction on the enumeration.
-/

import P2pFile.Discovery.SignalInversion

namespace P2pFile.Discovery

open Lib

variable {c : Crypto} {config : SignalServerConfig} {reg : Registry}

namespace Registry

/-! ## Reading the tables -/

variable (k : WaiterKey)

theorem pendingCount_eq_card : reg.pendingCount k = (reg.pendingOf k).card := by
  unfold pendingCount pendingOf
  cases reg.pendingByConnection.lookup k with
  | none => rfl
  | some targets => rfl

variable {node : NodeId} {id : Nat}

theorem owns_iff : reg.owns node id = true ↔ ∃ record, reg.peers.lookup node = some record ∧
      record.connectionId = id := by
  simp [owns, Option.any_eq_true]

/-! ## `add_waiter` -/

variable {key : WaiterKey} {target : NodeId}

theorem waitersOf_addWaiter (t : NodeId) : (reg.addWaiter key target).waitersOf t =
      if t = target then insert key (reg.waitersOf target) else reg.waitersOf t := by
  have hlook : (reg.addWaiter key target).waiters.lookup t =
      if t = target then some (insert key (reg.waitersOf target)) else reg.waiters.lookup t := by
    unfold addWaiter
    split <;> exact AList.lookup_insert_eq_ite ..
  unfold waitersOf
  rw [hlook]
  split <;> rfl

/-- A new waiter goes into both tables. -/
theorem addWaiter_new (hnew : key ∉ reg.waitersOf target) : reg.addWaiter key target = { reg with
      waiters := reg.waiters.insert target (insert key (reg.waitersOf target))
      pendingByConnection :=
        reg.pendingByConnection.insert key (insert target (reg.pendingOf key)) } :=
  if_neg hnew

theorem pendingOf_addWaiter (hnew : key ∉ reg.waitersOf target) (k : WaiterKey) :
    (reg.addWaiter key target).pendingOf k =
      if k = key then insert target (reg.pendingOf key) else reg.pendingOf k := by
  rw [addWaiter_new hnew, pendingOf, AList.lookup_insert_eq_ite]
  split <;> rfl

@[simp] theorem peers_addWaiter : (reg.addWaiter key target).peers = reg.peers := by
  unfold addWaiter
  split <;> rfl

/-! ## `take_waiters_for` -/

/-- What `release_pending` leaves of the index: only the entry of `key` changes, to
    a non-empty set or to nothing. -/
theorem releasePending_lookup :
    (k ≠ key ∧ (reg.releasePending target key).pendingByConnection.lookup k =
        reg.pendingByConnection.lookup k) ∨
      (k = key ∧ (reg.pendingOf key).erase target = ∅ ∧
        (reg.releasePending target key).pendingByConnection.lookup k = none) ∨
      (k = key ∧ (reg.pendingOf key).erase target ≠ ∅ ∧
        (reg.releasePending target key).pendingByConnection.lookup k =
          some ((reg.pendingOf key).erase target)) := by
  unfold releasePending pendingOf
  by_cases hk : k = key
  · right
    subst hk
    split
    next hl =>
      left
      rw [hl]
      exact ⟨rfl, by simp, rfl⟩
    next set hl =>
      rw [hl, Option.getD_some]
      by_cases hempty : set.erase target = ∅
      · rw [if_pos hempty]
        exact Or.inl ⟨rfl, hempty, AList.lookup_erase _ _⟩
      · rw [if_neg hempty]
        exact Or.inr ⟨rfl, hempty, AList.lookup_insert _⟩
  · left
    refine ⟨hk, ?_⟩
    split
    · rfl
    · split
      · exact AList.lookup_erase_ne hk
      · exact AList.lookup_insert_ne hk

@[simp] theorem peers_releasePending : (reg.releasePending target key).peers = reg.peers := by
  unfold releasePending
  split
  · rfl
  · split <;> rfl

@[simp] theorem waiters_releasePending : (reg.releasePending target key).waiters = reg.waiters := by
  unfold releasePending
  split
  · rfl
  · split <;> rfl

theorem pendingOf_releasePending : (reg.releasePending target key).pendingOf k =
      if k = key then (reg.pendingOf key).erase target else reg.pendingOf k := by
  rcases releasePending_lookup k with ⟨hk, hl⟩ | ⟨hk, hempty, hl⟩ | ⟨hk, -, hl⟩
  · rw [if_neg hk]
    unfold pendingOf
    rw [hl]
  · rw [if_pos hk, hempty, pendingOf, hl]
    rfl
  · rw [if_pos hk, pendingOf, hl]
    rfl

/-- The loop of `take_waiters_for`, over any part of the enumeration. -/
structure Taken (reg : Registry) (target : NodeId) (order : List WaiterKey) (live : List NodeId)
    (out : Registry × List NodeId) : Prop where
  peers : out.1.peers = reg.peers
  waiters : out.1.waiters = reg.waiters
  pending : ∀ k, out.1.pendingOf k =
    if k ∈ order then (reg.pendingOf k).erase target else reg.pendingOf k
  nonempty : (∀ k, reg.pendingByConnection.lookup k ≠ some ∅) →
    ∀ k, out.1.pendingByConnection.lookup k ≠ some ∅
  live : out.2 = live ++ (order.filter fun key =>
    reg.owns key.requester key.connectionId && key.requester != target).map WaiterKey.requester

theorem takeLoop_taken (reg : Registry) (target : NodeId) (order : List WaiterKey)
    (live : List NodeId) :
    Taken reg target order live (order.foldl (takeOne target) (reg, live)) := by
  induction order generalizing reg live with
  | nil => exact ⟨rfl, rfl, by simp, fun h => h, by simp⟩
  | cons key rest ih =>
    have howns : ∀ node id, (reg.releasePending target key).owns node id = reg.owns node id := by
      intro node id
      simp only [owns, peers_releasePending]
    -- The rest of the loop runs on the registry with `key` released.
    generalize hlive : (if reg.owns key.requester key.connectionId && key.requester != target
      then live ++ [key.requester] else live) = live'
    have hturn : takeOne target (reg, live) key = (reg.releasePending target key, live') := by
      unfold takeOne
      simp only [howns]
      rw [← hlive]
      split <;> rfl
    have hrest := ih (reg.releasePending target key) live'
    rw [List.foldl_cons, hturn]
    constructor
    case peers => rw [hrest.peers, peers_releasePending]
    case waiters => rw [hrest.waiters, waiters_releasePending]
    case pending =>
      intro k
      rw [hrest.pending, pendingOf_releasePending]
      by_cases hk : k = key
      · subst hk
        simp
      · simp [hk]
    case nonempty =>
      intro hne
      refine hrest.nonempty ?_
      intro k
      rcases releasePending_lookup k with ⟨-, hl⟩ | ⟨-, -, hl⟩ | ⟨-, hset, hl⟩
      · rw [hl]
        exact hne k
      · rw [hl]
        simp
      · rw [hl]
        simpa using hset
    case live =>
      rw [hrest.live, ← hlive]
      simp only [howns, List.filter_cons]
      split <;> simp

variable {order : List WaiterKey}

theorem mem_order {set : Finset WaiterKey} (h : Enumerates order set) {k : WaiterKey} :
    k ∈ order ↔ k ∈ set := by
  rw [← h.2, List.mem_toFinset]

section Taking

variable (horder : Enumerates order (reg.waitersOf target))

include horder

theorem takeWaitersFor_taken :
    Taken { reg with waiters := reg.waiters.erase target } target order []
      (reg.takeWaitersFor target order) := by
  unfold takeWaitersFor
  cases hl : reg.waiters.lookup target with
  | none =>
    have hempty : reg.waitersOf target = ∅ := by
      unfold waitersOf
      rw [hl]
      rfl
    rw [hempty] at horder
    obtain rfl : order = [] := (List.toFinset_eq_empty_iff order).mp horder.2
    simp only [AList.erase_eq_self hl]
    exact takeLoop_taken reg target [] []
  | some set => exact takeLoop_taken _ target order []

theorem waitersOf_takeWaitersFor (t : NodeId) : (reg.takeWaitersFor target order).1.waitersOf t =
      if t = target then ∅ else reg.waitersOf t := by
  unfold waitersOf
  rw [(takeWaitersFor_taken horder).waiters, AList.lookup_erase_eq_ite]
  split <;> rfl

theorem pendingOf_takeWaitersFor (k : WaiterKey) : (reg.takeWaitersFor target order).1.pendingOf k =
      if k ∈ reg.waitersOf target then (reg.pendingOf k).erase target else reg.pendingOf k := by
  rw [(takeWaitersFor_taken horder).pending]
  by_cases hk : k ∈ reg.waitersOf target
  · rw [if_pos hk, if_pos ((mem_order horder).mpr hk)]
    rfl
  · rw [if_neg hk, if_neg (mt (mem_order horder).mp hk)]
    rfl

/-- The live waiters: those whose waiting connection is still current. -/
theorem mem_live {m : NodeId} : m ∈ (reg.takeWaitersFor target order).2 ↔
      ∃ id, ⟨m, id⟩ ∈ reg.waitersOf target ∧ reg.owns m id = true ∧ m ≠ target := by
  rw [(takeWaitersFor_taken horder).live, List.nil_append, List.mem_map]
  constructor
  · rintro ⟨key, hkey, rfl⟩
    rw [List.mem_filter, mem_order horder] at hkey
    obtain ⟨hmem, hlive⟩ := hkey
    simp only [Bool.and_eq_true, bne_iff_ne, ne_eq] at hlive
    exact ⟨key.connectionId, hmem, hlive.1, hlive.2⟩
  · rintro ⟨id, hmem, howns, hne⟩
    refine ⟨⟨m, id⟩, ?_, rfl⟩
    rw [List.mem_filter, mem_order horder]
    refine ⟨hmem, ?_⟩
    simp only [Bool.and_eq_true, bne_iff_ne, ne_eq]
    exact ⟨howns, hne⟩

end Taking

/-! ## `unregister` -/

section Dropping

variable (order : List NodeId) (waiters : FinMap NodeId (Finset WaiterKey))

theorem dropWaiter_lookup (t : NodeId) : (dropWaiter waiters key target).lookup t =
      (waiters.lookup t).map fun set => if t = target then set.erase key else set := by
  unfold dropWaiter
  split
  next hl =>
    by_cases ht : t = target
    · rw [ht, hl]
      rfl
    · simp [ht]
  next set hl =>
    rw [AList.lookup_insert_eq_ite]
    by_cases ht : t = target
    · rw [if_pos ht, ht, hl]
      simp
    · simp [ht]

theorem dropLoop_lookup (t : NodeId) :
    (order.foldl (fun waiters target => dropWaiter waiters key target) waiters).lookup t =
      (waiters.lookup t).map fun set => if t ∈ order then set.erase key else set := by
  induction order generalizing waiters with
  | nil => simp
  | cons target rest ih =>
    rw [List.foldl_cons, ih, dropWaiter_lookup, Option.map_map]
    congr 1
    funext set
    by_cases ht : t = target
    · simp [ht]
    · simp [ht]

theorem dropLoop_entries :
    (order.foldl (fun waiters target => dropWaiter waiters key target) waiters).sumBy
      (fun _ set => set.card) ≤ waiters.sumBy fun _ set => set.card := by
  induction order generalizing waiters with
  | nil => exact le_refl _
  | cons target rest ih =>
    rw [List.foldl_cons]
    refine (ih _).trans ?_
    unfold dropWaiter
    split
    · exact le_refl _
    rename_i set hl
    have hsum := AList.sumBy_insert (fun _ set => Finset.card set) waiters target (set.erase key)
    rw [hl, Option.elim_some] at hsum
    have hcard := Finset.card_erase_le (s := set) (a := key)
    omega

end Dropping

/-- The loop of `unregister` as the source runs it: nothing happens if the
    connection has no pending lookup. -/
def dropAll (reg : Registry) (key : WaiterKey) (order : List NodeId) :
    FinMap NodeId (Finset WaiterKey) :=
  match reg.pendingByConnection.lookup key with
  | none => reg.waiters
  | some _ => order.foldl (fun waiters target => dropWaiter waiters key target) reg.waiters

variable {order : List NodeId}

theorem dropAll_lookup (horder : Enumerates order (reg.pendingOf key)) (t : NodeId) :
    (reg.dropAll key order).lookup t = (reg.waiters.lookup t).map fun set =>
        if t ∈ reg.pendingOf key then set.erase key else set := by
  unfold dropAll
  split
  next hl =>
    have hempty : reg.pendingOf key = ∅ := by
      unfold pendingOf
      rw [hl]
      rfl
    simp [hempty]
  · rw [dropLoop_lookup, ← horder.2]
    simp only [List.mem_toFinset]

theorem unregister_waiters : (reg.unregister node id order).waiters =
      (reg.dropAll ⟨node, id⟩ order).retain fun _ set => decide (set ≠ ∅) := rfl

theorem waitersOf_unregister (horder : Enumerates order (reg.pendingOf ⟨node, id⟩)) (t : NodeId) :
    (reg.unregister node id order).waitersOf t =
      if t ∈ reg.pendingOf ⟨node, id⟩ then (reg.waitersOf t).erase ⟨node, id⟩
      else reg.waitersOf t := by
  unfold waitersOf
  rw [unregister_waiters, AList.lookup_retain, dropAll_lookup horder]
  cases reg.waiters.lookup t with
  | none => simp
  | some set =>
    simp only [Option.map_some, Option.getD_some]
    generalize (if t ∈ reg.pendingOf ⟨node, id⟩ then set.erase ⟨node, id⟩ else set) = kept
    by_cases hkept : kept = ∅
    · rw [hkept, Option.filter_some_neg (by simp)]
      rfl
    · rw [Option.filter_some_pos (by simp [hkept])]
      rfl

theorem pending_unregister :
    (reg.unregister node id order).pendingByConnection.lookup k =
      if k = ⟨node, id⟩ then none else reg.pendingByConnection.lookup k :=
  AList.lookup_erase_eq_ite ..

theorem pendingOf_unregister : (reg.unregister node id order).pendingOf k =
      if k = ⟨node, id⟩ then ∅ else reg.pendingOf k := by
  unfold pendingOf
  rw [pending_unregister]
  split <;> rfl

theorem peers_unregister (n : NodeId) : (reg.unregister node id order).peers.lookup n =
      if n = node ∧ reg.owns node id = true then none else reg.peers.lookup n := by
  unfold unregister
  split
  next howns =>
    rw [AList.lookup_erase_eq_ite]
    simp [howns]
  next howns =>
    simp [howns]

end Registry

/-! ## The invariant -/

/-- The bookkeeping of the registry. -/
structure Booked (config : SignalServerConfig) (reg : Registry) : Prop where
  /-- The two indexes are one relation. -/
  mem : ∀ k t, k ∈ reg.waitersOf t ↔ t ∈ reg.pendingOf k
  /-- Nobody waits for itself. -/
  other : ∀ k t, k ∈ reg.waitersOf t → k.requester ≠ t
  waiters : ∀ t, reg.waiters.lookup t ≠ some ∅
  pending : ∀ k, reg.pendingByConnection.lookup k ≠ some ∅
  entries : reg.waiterEntries ≤ config.maxWaiterEntries
  count : ∀ k, reg.pendingCount k ≤ config.maxPendingLookups
  peers : reg.peers.size ≤ config.maxRegisteredPeers

namespace Booked

variable {reg' : Registry} (h : Booked config reg)

include h

theorem same (hsame : reg.Same reg') : Booked config reg' := by
  obtain ⟨relay, shortLookupIps, nodeLookupIps, peers, waiters, pending⟩ := reg'
  cases hsame.peers
  cases hsame.waiters
  cases hsame.pending
  exact { h with }

variable {target : NodeId}

theorem addWaiter {key : WaiterKey} (hne : key.requester ≠ target)
    (hnew : key ∉ reg.waitersOf target)
    (hpend : reg.pendingCount key < config.maxPendingLookups)
    (hents : reg.waiterEntries < config.maxWaiterEntries) :
    Booked config (reg.addWaiter key target) where
  mem := by
    intro k t
    have hold := h.mem k t
    rw [Registry.waitersOf_addWaiter, Registry.pendingOf_addWaiter hnew]
    by_cases ht : t = target
    · by_cases hk : k = key
      · simp [ht, hk]
      · rw [ht] at hold
        simp [ht, hk, hold]
    · by_cases hk : k = key
      · rw [hk] at hold
        simp [ht, hk, hold]
      · simp [ht, hk, hold]
  other := by
    intro k t hmem
    rw [Registry.waitersOf_addWaiter] at hmem
    split at hmem
    next ht =>
      rw [ht]
      rcases Finset.mem_insert.mp hmem with rfl | hold
      · exact hne
      · exact h.other k target hold
    · exact h.other k t hmem
  waiters := by
    intro t
    rw [Registry.addWaiter_new hnew, AList.lookup_insert_eq_ite]
    split
    · simp
    · exact h.waiters t
  pending := by
    intro k
    rw [Registry.addWaiter_new hnew, AList.lookup_insert_eq_ite]
    split
    · simp
    · exact h.pending k
  entries := by
    -- The set of `target` grows by one element, the others stay.
    have hsum := AList.sumBy_insert (fun _ set => Finset.card set) reg.waiters target
      (insert key (reg.waitersOf target))
    have hcard : (insert key (reg.waitersOf target)).card = (reg.waitersOf target).card + 1 :=
      Finset.card_insert_of_notMem hnew
    have hold : (reg.waiters.lookup target).elim 0 (fun set => Finset.card set) =
        (reg.waitersOf target).card := by
      unfold Registry.waitersOf
      cases reg.waiters.lookup target with
      | none => rfl
      | some set => rfl
    have hle : reg.waiters.sumBy (fun _ set => set.card) < config.maxWaiterEntries := hents
    rw [Registry.addWaiter_new hnew]
    show (reg.waiters.insert target (insert key (reg.waitersOf target))).sumBy
      (fun _ set => set.card) ≤ _
    omega
  count := by
    intro k
    rw [Registry.pendingCount_eq_card, Registry.pendingOf_addWaiter hnew]
    split
    · have hcard := Finset.card_insert_le target (reg.pendingOf key)
      rw [Registry.pendingCount_eq_card] at hpend
      omega
    · rw [← Registry.pendingCount_eq_card]
      exact h.count k
  peers := by
    rw [Registry.peers_addWaiter]
    exact h.peers

theorem takeWaitersFor {order : List WaiterKey} (horder : Enumerates order (reg.waitersOf target)) :
    Booked config (reg.takeWaitersFor target order).1 where
  mem := by
    intro k t
    rw [Registry.waitersOf_takeWaitersFor horder, Registry.pendingOf_takeWaitersFor horder]
    have hold := h.mem k t
    have htgt := h.mem k target
    by_cases ht : t = target
    · -- Nobody waits for `target` any more, and no connection has it pending.
      rw [if_pos ht, ht]
      split
      · simp
      next hk =>
        rw [htgt] at hk
        simp [hk]
    · rw [if_neg ht]
      split
      · simp [ht, hold]
      · exact hold
  other := by
    intro k t hmem
    rw [Registry.waitersOf_takeWaitersFor horder] at hmem
    split at hmem
    · cases hmem
    · exact h.other k t hmem
  waiters := by
    intro t
    rw [(Registry.takeWaitersFor_taken horder).waiters, AList.lookup_erase_eq_ite]
    split
    · simp
    · exact h.waiters t
  pending := (Registry.takeWaitersFor_taken horder).nonempty h.pending
  entries := by
    have hsum := AList.sumBy_erase (fun _ set => Finset.card set) reg.waiters target
    have hle : reg.waiters.sumBy (fun _ set => set.card) ≤ config.maxWaiterEntries := h.entries
    unfold Registry.waiterEntries
    rw [(Registry.takeWaitersFor_taken horder).waiters]
    show (reg.waiters.erase target).sumBy _ ≤ _
    omega
  count := by
    intro k
    rw [Registry.pendingCount_eq_card, Registry.pendingOf_takeWaitersFor horder]
    have hold := h.count k
    rw [Registry.pendingCount_eq_card] at hold
    split
    · exact (Finset.card_erase_le).trans hold
    · exact hold
  peers := by
    rw [(Registry.takeWaitersFor_taken horder).peers]
    exact h.peers

variable {id : Nat}

theorem withPeer {r : Verified}
    (hroom : (reg.peers.lookup r.nodeId).isSome = true ∨
      reg.peers.size < config.maxRegisteredPeers) :
    Booked config (reg.withPeer id r) where
  __ := h
  peers := by
    show (reg.peers.insert r.nodeId ⟨id, r.candidates⟩).size ≤ _
    rcases hroom with hsome | hlt
    · obtain ⟨record, hrec⟩ := Option.isSome_iff_exists.mp hsome
      rw [AList.size_insert_of_lookup_some hrec]
      exact h.peers
    · exact (AList.size_insert_le ..).trans hlt

variable {node : NodeId} {order : List NodeId}

variable (horder : Enumerates order (reg.pendingOf ⟨node, id⟩))

include horder

/-- Under the invariant, `unregister` takes the connection's key out of every set. -/
theorem waitersOf_unregister_eq (t : NodeId) :
    (reg.unregister node id order).waitersOf t = (reg.waitersOf t).erase ⟨node, id⟩ := by
  rw [Registry.waitersOf_unregister horder]
  split
  · rfl
  next hnot =>
    rw [← h.mem] at hnot
    exact (Finset.erase_eq_of_notMem hnot).symm

theorem unregister : Booked config (reg.unregister node id order) where
  mem := by
    intro k t
    rw [h.waitersOf_unregister_eq horder, Registry.pendingOf_unregister, Finset.mem_erase]
    split
    next hk =>
      simp [hk]
    next hk =>
      simp [hk, h.mem k t]
  other := by
    intro k t hmem
    rw [h.waitersOf_unregister_eq horder] at hmem
    exact h.other k t (Finset.mem_of_mem_erase hmem)
  waiters := by
    intro t hempty
    rw [Registry.unregister_waiters, AList.lookup_retain_eq_some] at hempty
    exact absurd hempty.2 (by simp)
  pending := by
    intro k
    rw [Registry.pending_unregister]
    split
    · simp
    · exact h.pending k
  entries := by
    have hle : reg.waiters.sumBy (fun _ set => set.card) ≤ config.maxWaiterEntries := h.entries
    unfold Registry.waiterEntries
    rw [Registry.unregister_waiters]
    refine ((AList.sumBy_retain_le _ _ _).trans ?_).trans hle
    unfold Registry.dropAll
    split
    · exact le_refl _
    · exact Registry.dropLoop_entries ..
  count := by
    intro k
    rw [Registry.pendingCount_eq_card, Registry.pendingOf_unregister]
    split
    · simp
    · rw [← Registry.pendingCount_eq_card]
      exact h.count k
  peers := by
    show (if reg.owns node id then reg.peers.erase node else reg.peers).size ≤ _
    split
    · exact (AList.size_erase_le ..).trans h.peers
    · exact h.peers

omit horder

omit h

theorem empty (hstart : reg.start config) : Booked config reg := by
  obtain ⟨-, -, hpeers, hwaiters, hpend, -⟩ := hstart
  have hnone : ∀ t, reg.waitersOf t = ∅ := by
    intro t
    simp [Registry.waitersOf, hwaiters]
  have hnone' : ∀ k, reg.pendingOf k = ∅ := by
    intro k
    simp [Registry.pendingOf, hpend]
  constructor
  case mem => simp [hnone, hnone']
  case other => simp [hnone]
  case waiters => simp [hwaiters]
  case pending => simp [hpend]
  case entries => simp [Registry.waiterEntries, hwaiters, AList.sumBy]
  case count => simp [Registry.pendingCount_eq_card, hnone']
  case peers => simp [hpeers]

/-- Every step keeps the bookkeeping. -/
theorem step {s t : Server} {e : Event} (h : Booked config s.registry)
    (hmove : Move c config s t e) : Booked config t.registry := by
  cases hmove with
  | insert _ _ _ horder hroom _ _ _ hsame =>
    exact ((h.withPeer hroom).takeWaitersFor horder).same hsame
  | defer _ _ hask _ hdefers =>
    cases hdefers with
    | again _ hsame => exact h.same hsame
    | add hmem hpend hents hsame =>
      exact (h.addWaiter hask.ne hmem hpend hents).same hsame
  | leave _ _ _ horder _ _ hsame => exact (h.unregister horder).same hsame
  | _ => exact h.same ‹_›

end Booked

/-- The registry is booked in every reachable state. -/
theorem run_booked {es : List Event} {s : Server} (h : (machine c config).Run es s) :
    Booked config s.registry := by
  refine Machine.Run.inv (I := fun s => Booked config s.registry) ?_ ?_ h
  · intro s hs
    exact Booked.empty hs.1
  · intro s e t hI hstep
    exact hI.step (step_moves hstep)

/-! ## Sample runs -/

namespace Sample

def node (x : UInt8) : NodeId := Bytes.fill 16 x

def draw (x : UInt8) : Draw := ⟨0, 0, Bytes.fill 32 x, Bytes.fill 16 x⟩

def accept : Event := .accept (.v4 (.four 10 0 0 1)) 0

/-- Connection `id` registers node `x`, up to the insertion of its record.  `order`
    enumerates the waiters of `x`. -/
def register (id : Nat) (x : UInt8) (order : List WaiterKey) : List Event :=
  [.start id 0,
   .frame id (.registerHello 2 (node x) (Bytes.fill 32 x)) (draw x), .reply id,
   .frame id (.register (node x) (Bytes.fill 32 x) [] (List.replicate 64 7)) (draw x),
   .admission id, .store id (.ok ⟨firstShortId⟩) order]

def start : Server where
  registry := ⟨none, ∅, ∅, ∅, ∅, ∅⟩
  conns _ := none
  nextId := 1
  log := []

/-- The server with the default configuration after `events`. -/
def exec (events : List Event) : Option Server :=
  Machine.exec (Server.step .sample .default) start events

theorem start_init : (machine .sample .default).init start :=
  ⟨⟨rfl, rfl, rfl, rfl, rfl, rfl⟩, rfl, rfl, rfl⟩

theorem run_of_exec {events : List Event} {s : Server} (h : exec events = some s) :
    (machine .sample .default).Run events s :=
  Machine.run_of_exec start_init h

/-- Node 1 registers on connection 1 and looks up node 2, which is absent. -/
def waiting : List Event :=
  accept :: register 1 1 [] ++
    [.reply 1, .wake 1 (draw 0), .frame 1 (.lookup (node 2)) (draw 0), .reply 1]

theorem waiting_isSome : (exec waiting).isSome = true := by decide +kernel

def waitingServer : Server := (exec waiting).get waiting_isSome

theorem waiting_run : (machine .sample .default).Run waiting waitingServer :=
  run_of_exec (Option.some_get waiting_isSome).symm

end Sample

/-! ## The bookkeeping theorem -/

/-- **Waiter bookkeeping.**  In every reachable state of the registry a key waits
    for a target exactly if the target is pending for the key, neither index holds
    an empty set, the three quotas hold, and `unregister` removes every trace of its
    connection and nothing of any other. -/
theorem waiter_bookkeeping {es : List Event} {s : Server} (h : (machine c config).Run es s) :
    (∀ k t, k ∈ s.registry.waitersOf t ↔ t ∈ s.registry.pendingOf k) ∧
    (∀ t, s.registry.waiters.lookup t ≠ some ∅) ∧
    (∀ k, s.registry.pendingByConnection.lookup k ≠ some ∅) ∧
    s.registry.waiterEntries ≤ config.maxWaiterEntries ∧
    (∀ k, s.registry.pendingCount k ≤ config.maxPendingLookups) ∧
    s.registry.peers.size ≤ config.maxRegisteredPeers ∧
    (∀ n id order, Enumerates order (s.registry.pendingOf ⟨n, id⟩) →
      (∀ t, ⟨n, id⟩ ∉ (s.registry.unregister n id order).waitersOf t) ∧
      (s.registry.unregister n id order).pendingByConnection.lookup ⟨n, id⟩ = none ∧
      (s.registry.unregister n id order).owns n id = false ∧
      (∀ k t, k ≠ ⟨n, id⟩ → (k ∈ (s.registry.unregister n id order).waitersOf t ↔
        k ∈ s.registry.waitersOf t)) ∧
      (∀ k, k ≠ ⟨n, id⟩ → (s.registry.unregister n id order).pendingByConnection.lookup k =
        s.registry.pendingByConnection.lookup k) ∧
      (∀ m record, (m ≠ n ∨ record.connectionId ≠ id) →
        ((s.registry.unregister n id order).peers.lookup m = some record ↔
          s.registry.peers.lookup m = some record))) := by
  have hI := run_booked h
  refine ⟨hI.mem, hI.waiters, hI.pending, hI.entries, hI.count, hI.peers, ?_⟩
  intro n id order horder
  refine ⟨?_, ?_, ?_, ?_, ?_, ?_⟩
  · intro t
    rw [hI.waitersOf_unregister_eq horder]
    exact Finset.notMem_erase _ _
  · rw [Registry.pending_unregister, if_pos rfl]
  · rw [Bool.eq_false_iff]
    intro howns
    obtain ⟨record, hrecord, hid⟩ := Registry.owns_iff.mp howns
    rw [Registry.peers_unregister] at hrecord
    split at hrecord
    · cases hrecord
    next hnot =>
      exact hnot ⟨rfl, Registry.owns_iff.mpr ⟨record, hrecord, hid⟩⟩
  · intro k t hk
    rw [hI.waitersOf_unregister_eq horder, Finset.mem_erase]
    simp [hk]
  · intro k hk
    rw [Registry.pending_unregister, if_neg hk]
  · intro m record hother
    rw [Registry.peers_unregister]
    split
    next howned =>
      obtain ⟨rfl, howns⟩ := howned
      obtain ⟨record', hrecord', hid⟩ := Registry.owns_iff.mp howns
      constructor
      · intro hnone
        cases hnone
      · intro hrecord
        rw [hrecord'] at hrecord
        cases hrecord
        exact absurd hid (hother.resolve_left (by simp))
    · exact Iff.rfl

open Sample in
/-- In the sample run connection 1 of node 1 waits for node 2, in both indexes. -/
theorem waiter_bookkeeping_sample : ⟨node 1, 1⟩ ∈ waitingServer.registry.waitersOf (node 2) ∧
      node 2 ∈ waitingServer.registry.pendingOf ⟨node 1, 1⟩ := by
  have hmem : ⟨node 1, 1⟩ ∈ waitingServer.registry.waitersOf (node 2) := by
    decide +kernel
  exact ⟨hmem, ((waiter_bookkeeping waiting_run).1 _ _).mp hmem⟩

end P2pFile.Discovery
