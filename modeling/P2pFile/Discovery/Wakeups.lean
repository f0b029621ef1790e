/-
  P2pFile.Discovery.Wakeups

  What becomes of a deferred lookup.

  A registering handler takes the waiters of its node in one section and pairs them
  later, one section each.  In between the waiters are in no table: they are in the
  handler's wake-up list, by node id only.  Two things can go wrong there.  A waiter
  can reconnect, and its new connection gets the push that the old one asked for; and
  the pairing can fail, and the lookup is forgotten.  Each is shown by a run, and each
  is excluded in the runs where the gap between the two sections is harmless.
-/

import P2pFile.Discovery.Pairing

namespace P2pFile.Discovery

open Lib
open Relay (Token)
open Registry (owns_iff)
open Option (some_get)
open Function (update_of_ne update_self)

variable {c : Crypto} {config : SignalServerConfig} {s t : Server} {e : Event} {id : Nat}
  {m target : NodeId}

/-! ## Waiters asked -/

/-- Every waiter's connection has sent its lookup. -/
def Server.WaitersAsked (s : Server) : Prop :=
  ∀ key target, key ∈ s.registry.waitersOf target → .frame key.connectionId (.lookup target) ∈ s.log

/-- A waiter of the new table is an old one, or the handler that just looked up. -/
theorem Staged.waiters_cases (h : Staged c s) (hm : Move c config s t e) {key : WaiterKey}
    (hmem : key ∈ t.registry.waitersOf target) :
    key ∈ s.registry.waitersOf target ∨ .frame key.connectionId (.lookup target) ∈ t.log := by
  have hsame : s.registry.Same t.registry → key ∈ s.registry.waitersOf target := by
    intro hs
    rw [hs.waitersOf_eq] at hmem
    exact hmem
  cases hm with
  | @insert id _ order _ r _ _ _ _ horder _ _ _ _ hs =>
    have horder' : Enumerates order ((s.registry.withPeer id r).waitersOf r.nodeId) := horder
    rw [hs.waitersOf_eq, Registry.waitersOf_takeWaitersFor horder'] at hmem
    split at hmem
    · cases hmem
    · exact .inl hmem
  | @defer id asked _ k registration hk _ hask _ hdefers _ _ hlog =>
    cases hdefers with
    | again _ hs => exact .inl (hsame hs)
    | add _ _ _ hs =>
      rw [hs.waitersOf_eq, Registry.waitersOf_addWaiter] at hmem
      split at hmem
      next htgt =>
        rcases Finset.mem_insert.mp hmem with rfl | hold
        · -- The key is the handler's own, and its frame was logged now.
          have hid : registration.connectionId = id := ((hk ▸ h.stage id).of_active hask.active).1
          refine .inr ?_
          rw [hlog, htgt, ← hid]
          simp [ActiveRegistration.key]
        · exact .inl (htgt ▸ hold)
      · exact .inl hmem
  | @leave _ order _ registration _ _ _ horder _ _ hs =>
    rw [hs.waitersOf_eq, Registry.waitersOf_unregister horder] at hmem
    split at hmem
    · exact .inl (Finset.mem_of_mem_erase hmem)
    · exact .inl hmem
  | _ => exact .inl (hsame ‹_›)

variable {es : List Event}

theorem run_waitersAsked (h : (machine c config).Run es s) : s.WaitersAsked := by
  refine Machine.Run.hist (I := fun _ s => s.WaitersAsked) ?_ ?_ h
  · rintro s ⟨hstart, -⟩ key target hmem
    rw [Registry.waitersOf, hstart.2.2.2.1] at hmem
    cases hmem
  intro es s e t hrun hI hstep key target hmem
  have hm := step_moves hstep
  rcases (run_registered hrun).toStaged.waiters_cases hm hmem with hold | hnew
  · exact hm.log_mono (hI key target hold)
  · exact hnew

/-! ## Inherited lookups -/

/-- Some handler is about to wake `m` for `target`. -/
def Server.Waking (s : Server) (target m : NodeId) : Prop :=
  ∃ id k live, s.core id = some k ∧ k.phase.wakes = some (target, live) ∧ m ∈ live

/-- No node registers again while a wake-up list still holds it. -/
def NoReconnectInWakeup (s : Server) (e : Event) (_ : Server) : Prop :=
  ∀ id result order k r, e = .store id result order → s.core id = some k →
    k.phase = .storing r → ∀ node, ¬ s.Waking node r.nodeId

/-- The current connection of every node on a wake-up list has asked for the node of
    the list. -/
def Server.WakesAsked (s : Server) : Prop :=
  ∀ id k node live, s.core id = some k → k.phase.wakes = some (node, live) →
    ∀ m ∈ live, ∀ record, s.registry.peers.lookup m = some record →
      .frame record.connectionId (.lookup node) ∈ s.log

theorem run_wakesAsked (h : ((machine c config).restrict NoReconnectInWakeup).Run es s) :
    s.WakesAsked := by
  refine Machine.Run.hist (I := fun _ s => s.WakesAsked) ?_ ?_ h
  · rintro s ⟨-, hconns, -⟩ id k node live hk
    rw [Server.core, hconns] at hk
    cases hk
  rintro es s e t hrun hI ⟨hstep, hcond⟩ id k' node live hk' hwakes m hm record hrec
  have hmove := step_moves hstep
  have hstaged := (run_registered hrun.of_restrict).toStaged
  rcases hmove.wakes_cases hk' hwakes with ⟨k, live', hk, hold, hsub⟩ | htaken
  · -- The list is part of an old one, so the step did not register `m` again.
    cases hstaged.peerChange hmove m with
    | same hsame =>
      rw [hsame] at hrec
      exact hmove.log_mono (hI id k node live' hk hold m (hsub hm) record hrec)
    | insert hstoring hphase hnode =>
      have hnot := hcond _ _ _ _ _ rfl hstoring hphase node
      rw [hnode] at hnot
      exact absurd ⟨id, k, live', hk, hold, hsub hm⟩ hnot
    | remove _ hnone =>
      rw [hnone] at hrec
      cases hrec
  · -- The list was taken now, from connections that were current.
    obtain ⟨-, hsame, waiting, hmem, howns⟩ := htaken m hm
    obtain ⟨record', hrec', rfl⟩ := owns_iff.mp howns
    rw [hsame, hrec'] at hrec
    cases hrec
    exact hmove.log_mono (run_waitersAsked hrun.of_restrict _ _ hmem)

/-- The connection of the first node of a pairing has asked for the second one. -/
theorem PairCause.asked {a b : NodeId} {recordA : PeerRecord} (hcause : PairCause s t a b)
    (hmove : Move c config s t e) (hI : Registered c s) (hwakes : s.WakesAsked)
    (hA : s.registry.peers.lookup a = some recordA) :
    .frame recordA.connectionId (.lookup b) ∈ t.log := by
  cases hcause with
  | @wake id k rest hk hphase =>
    refine hmove.log_mono ?_
    exact hwakes id k b (a :: rest) hk (by rw [hphase]; rfl) a (.head _) recordA hA
  | @lookup id k registration hk hask hnode hframe =>
    have hid : registration.connectionId = id := ((hk ▸ hI.stage id).of_active hask.active).1
    have howns := hask.owner
    rw [hnode, hid] at howns
    rw [(hI.connectionId_eq_iff howns hA).mpr rfl]
    exact hframe

/-- **A pending lookup is not inherited**, in every run where no node registers again
    while a wake-up list holds it: a step queues `PeerCandidates` of `n` to the current
    connection of `m` only if that connection asked for `n`, or the current connection
    of `n` asked for `m`. -/
theorem lookup_not_inherited {es : List Event}
    (h : ((machine c config).restrict NoReconnectInWakeup).Run es s) :
    ∀ e t entries, (machine c config).step s e t → t.log = s.log ++ entries →
      ∀ id n candidates token, .queued id (.peerCandidates n candidates token) ∈ entries →
        ∃ m, s.registry.owns m id = true ∧
          (.frame id (.lookup n) ∈ t.log ∨
            ∃ record, s.registry.peers.lookup n = some record ∧
              .frame record.connectionId (.lookup m) ∈ t.log) := by
  intro e t entries hstep hlog id n candidates token hmem
  have hmove := step_moves hstep
  have hI := run_registered h.of_restrict
  obtain ⟨new, hnew, hadded⟩ := hmove.added
  obtain rfl : entries = new := List.append_cancel_left (hlog.symm.trans hnew)
  cases hadded _ hmem with
  | frame hx | consumed hx | inserted hx | deferred hx => cases hx
  | @reply _ reply _ _ hx =>
    obtain ⟨-, hmessage⟩ := Entry.queued.inj hx
    exact absurd hmessage.symm (reply.message_ne_peerCandidates n candidates token)
  | @push a b _ hx hcause =>
    obtain ⟨recordA, recordB, hA, hB, hpair⟩ := Server.mem_pairEntries hx
    have hasked := hcause.asked hmove hI (run_wakesAsked h) hA
    rcases hpair with hpair | hpair
    · -- The push to the side that asked.
      obtain ⟨rfl, hmessage⟩ := Entry.queued.inj hpair
      obtain ⟨rfl, -, -⟩ := SignalMessage.peerCandidates.inj hmessage
      exact ⟨a, owns_iff.mpr ⟨recordA, hA, rfl⟩, .inl hasked⟩
    · -- The push to the side that was asked for.
      obtain ⟨rfl, hmessage⟩ := Entry.queued.inj hpair
      obtain ⟨rfl, -, -⟩ := SignalMessage.peerCandidates.inj hmessage
      exact ⟨b, owns_iff.mpr ⟨recordB, hB, rfl⟩, .inr ⟨recordA, hA, hasked⟩⟩

namespace Sample

/-- All wake-up lists are empty. -/
def noWakeups (s : Server) : Bool :=
  (List.range s.nextId.toNat).all fun id =>
    ((s.conns id).bind fun conn => conn.phase.wakes).all fun w => w.2.isEmpty

variable {es : List Event}

theorem noWakeups_sound (h : (machine .sample .default).Run es s) (hok : noWakeups s = true)
    (n m : NodeId) : ¬ s.Waking n m := by
  rintro ⟨id, k, live, hk, hwakes, hmem⟩
  -- Only the connections below `nextId` exist.
  have hlt : id < s.nextId.toNat := by
    by_contra hge
    rw [(run_registered h).fresh id (by omega)] at hk
    cases hk
  obtain ⟨conn, hconn, rfl⟩ := Option.map_eq_some_iff.mp hk
  have hphase : conn.phase.wakes = some (n, live) := hwakes
  have hempty := List.all_eq_true.mp hok id (List.mem_range.mpr hlt)
  rw [hconn, Option.bind_some, hphase] at hempty
  obtain rfl : live = [] := by simpa using hempty
  cases hmem

/-- All wake-up lists are empty when a record is stored. -/
def noReconnect (s : Server) : Event → Bool
  | .store .. => noWakeups s
  | _ => true

theorem noReconnect_sound (h : (machine .sample .default).Run es s) (hok : noReconnect s e = true) :
    NoReconnectInWakeup s e t := by
  rintro id result order k r rfl hk hphase node
  exact noWakeups_sound h hok node r.nodeId

/-- Node 2 registers while node 1 waits for it, up to the wake-up. -/
def woken : List Event := waiting ++ accept :: register 2 2 [⟨node 1, 1⟩] ++ [.reply 2]

def execWoken : Option Server :=
  Machine.exec (fun s e => if noReconnect s e then s.step .sample .default e else none) start woken

theorem woken_isSome : execWoken.isSome = true := by decide +kernel

def wokenServer : Server := execWoken.get woken_isSome

theorem woken_run :
    ((machine .sample .default).restrict NoReconnectInWakeup).Run woken wokenServer :=
  Machine.restrict_run_of_exec (fun _ _ _ _ hrun _ hok => noReconnect_sound hrun hok) start_init
    (some_get woken_isSome).symm

theorem woken_step_isSome :
    (wokenServer.step .sample .default (.wake 2 (draw 9))).isSome = true := by decide +kernel

def wokenNext : Server :=
  (wokenServer.step .sample .default (.wake 2 (draw 9))).get woken_step_isSome

end Sample

open Sample in
/-- In the sample run the wake-up pushes to connection 1, which asked for node 2. -/
theorem lookup_not_inherited_sample : ∃ entries, wokenNext.log = wokenServer.log ++ entries ∧
      .queued 1 (.peerCandidates (node 2) [] (draw 9).token) ∈ entries ∧
      ∃ m, wokenServer.registry.owns m 1 = true ∧
        (.frame 1 (.lookup (node 2)) ∈ wokenNext.log ∨
          ∃ record, wokenServer.registry.peers.lookup (node 2) = some record ∧
            .frame record.connectionId (.lookup m) ∈ wokenNext.log) := by
  have hlog : wokenNext.log = wokenServer.log ++
      wokenNext.log.drop wokenServer.log.length := by decide +kernel
  have hmem : .queued 1 (.peerCandidates (node 2) [] (draw 9).token) ∈
      wokenNext.log.drop wokenServer.log.length := by decide +kernel
  exact ⟨_, hlog, hmem, lookup_not_inherited woken_run _ _ _
    (some_get woken_step_isSome).symm hlog 1 _ _ _ hmem⟩

namespace Sample

/-- Node 2 registers while connection 1 of node 1 waits for it; before the wake-up
    node 1 registers again, on connection 3. -/
def inherited : List Event :=
  waiting ++ accept :: register 2 2 [⟨node 1, 1⟩] ++ accept :: register 3 1 [] ++ [.reply 2]

theorem inherited_isSome : (exec inherited).isSome = true := by decide +kernel

def inheritedServer : Server := (exec inherited).get inherited_isSome

theorem inherited_run : (machine .sample .default).Run inherited inheritedServer :=
  run_of_exec (some_get inherited_isSome).symm

/-- The wake-up section of connection 2. -/
theorem inherited_step_isSome :
    (inheritedServer.step .sample .default (.wake 2 (draw 9))).isSome = true := by decide +kernel

def inheritedNext : Server :=
  (inheritedServer.step .sample .default (.wake 2 (draw 9))).get inherited_step_isSome

end Sample

open Sample in
/-- Connection 3 of node 1 is pushed the candidates of node 2 although only the
    replaced connection 1 ever sent a lookup. -/
theorem lookup_inherited : ∃ es s e t entries, (machine .sample .default).Run es s ∧
      (machine .sample .default).step s e t ∧ t.log = s.log ++ entries ∧
      ∃ id n candidates token, .queued id (.peerCandidates n candidates token) ∈ entries ∧
        ∀ m, s.registry.owns m id = true → .frame id (.lookup n) ∉ t.log ∧
          ∀ record, s.registry.peers.lookup n = some record →
            .frame record.connectionId (.lookup m) ∉ t.log := by
  have hasks : ∀ x ∈ inheritedNext.log, ∀ id n, x = .frame id (.lookup n) → id = 1 := by
    have hall : inheritedNext.log.all (fun x =>
        match x with
        | .frame id (.lookup _) => id == 1
        | _ => true) = true := by decide +kernel
    rintro x hx id n rfl
    simpa using List.all_eq_true.mp hall _ hx
  refine ⟨inherited, inheritedServer, .wake 2 (draw 9), inheritedNext,
    inheritedNext.log.drop inheritedServer.log.length, inherited_run,
    (some_get inherited_step_isSome).symm, by decide +kernel, 3, node 2, [],
    (draw 9).token, by decide +kernel, ?_⟩
  intro m _
  refine ⟨?_, ?_⟩
  · intro hframe
    exact absurd (hasks _ hframe 3 _ rfl) (by decide)
  · intro record hrecord hframe
    have hconn : inheritedServer.registry.peers.lookup (node 2) = some ⟨2, []⟩ := by
      decide +kernel
    cases hrecord
    exact absurd (hasks _ hframe 2 m rfl) (by decide)

/-! ## Lost lookups -/

/-- A lookup of `target` by connection `id` was deferred, and since then nothing was
    queued to `id` about `target`. -/
def Unanswered (id : Nat) (target : NodeId) (log : List Entry) : Prop :=
  ∃ pre post, log = pre ++ .deferred id target :: post ∧
    ∀ candidates token, .queued id (.peerCandidates target candidates token) ∉ post

variable {log : List Entry}

theorem Unanswered.deferred_mem (h : Unanswered id target log) : .deferred id target ∈ log := by
  obtain ⟨pre, post, rfl, -⟩ := h
  simp

/-- An unanswered lookup was unanswered before, or has just been deferred. -/
theorem Unanswered.append_cases {entries : List Entry} (h : Unanswered id target (log ++ entries)) :
    (Unanswered id target log ∧
      ∀ candidates token, .queued id (.peerCandidates target candidates token) ∉ entries) ∨
      .deferred id target ∈ entries := by
  obtain ⟨pre, post, heq, hnone⟩ := h
  rcases List.append_eq_append_iff.mp heq with ⟨mid, rfl, hents⟩ | ⟨mid, rfl, hpost⟩
  · exact .inr (by simp [hents])
  cases mid with
  | nil =>
    rw [List.nil_append] at hpost
    exact .inr (by simp [← hpost])
  | cons x mid =>
    obtain ⟨rfl, rfl⟩ := List.cons.inj hpost
    refine .inl ⟨⟨pre, mid, rfl, ?_⟩, ?_⟩
    · intro candidates token hmem
      exact hnone candidates token (List.mem_append_left _ hmem)
    · intro candidates token hmem
      exact hnone candidates token (List.mem_append_right _ hmem)

/-- Wake-ups fit: a handler with waiters to wake can queue its own answer, and a
    registered waiter that is woken finds the node registered and room in both
    outboxes. -/
def WakeupsFit (config : SignalServerConfig) (s : Server) (e : Event) (_ : Server) : Prop :=
  (∀ id k reply node replaced live, e = .reply id → s.core id = some k →
    k.phase = .replying reply (.wake node replaced live) → live ≠ [] → s.room config id 0 = true) ∧
  ∀ id d k node waiter rest recordA, e = .wake id d → s.core id = some k →
    k.phase = .waking node (waiter :: rest) → s.registry.peers.lookup waiter = some recordA →
      ∃ recordB, s.registry.peers.lookup node = some recordB ∧
        s.room config recordA.connectionId 0 = true ∧
        s.room config recordB.connectionId (Server.reserved recordA recordB) = true

/-- What a step does to a node on a wake-up list: it stays on it, it is dropped with
    the whole list because an answer did not fit, or it is woken. -/
theorem Staged.waking_cases (h : Staged c s) (hm : Move c config s t e)
    (hwaking : s.Waking target m) : t.Waking target m ∨
      (∃ id k reply replaced live, e = .reply id ∧ s.core id = some k ∧
        k.phase = .replying reply (.wake target replaced live) ∧ m ∈ live ∧
        s.room config id 0 = false) ∨
      ∃ id d k rest, e = .wake id d ∧ s.core id = some k ∧
        k.phase = .waking target (m :: rest) ∧
        t.log = s.log ++ s.pairEntries config m target d.token := by
  obtain ⟨id, k, live, hk, hwakes, hmem⟩ := hwaking
  have hsame : t.core = s.core → t.Waking target m := by
    intro hcore
    exact ⟨id, k, live, by rw [hcore, hk], hwakes, hmem⟩
  -- The handler that moved keeps `m`, or it is another one.
  have hupdate : ∀ {id' : Nat} {k₁ : Core}, t.core = Function.update s.core id' (some k₁) →
      (s.core id' = some k → ∃ live', k₁.phase.wakes = some (target, live') ∧ m ∈ live') →
      t.Waking target m := by
    intro id' k₁ hcore hkeep
    by_cases hid : id = id'
    · rw [hid] at hk
      obtain ⟨live', hwakes', hmem'⟩ := hkeep hk
      exact ⟨id', k₁, live', by rw [hcore, update_self], hwakes', hmem'⟩
    · exact ⟨id, k, live, by rw [hcore, update_of_ne hid, hk], hwakes, hmem⟩
  -- A handler with a non-empty wake-up list is in no other phase.
  have hnone : ∀ {id' : Nat} {k₀ k₁ : Core}, s.core id' = some k₀ →
      t.core = Function.update s.core id' (some k₁) → k₀.phase.wakes = none →
      t.Waking target m := by
    intro id' k₀ k₁ hk₀ hcore hphase
    refine hupdate hcore ?_
    intro heq
    rw [hk₀] at heq
    cases heq
    rw [hphase] at hwakes
    cases hwakes
  cases hm with
  | accept hcore =>
    refine .inl (hupdate hcore ?_)
    intro heq
    rw [h.fresh s.nextId.toNat (le_refl _)] at heq
    cases heq
  | outside hcore => exact .inl (hsame hcore)
  | start hk₀ hphase hcore | hello hk₀ hphase _ _ hcore | consume hk₀ hphase _ _ hcore
  | admission hk₀ hphase hcore | insert _ hk₀ hphase _ _ _ hcore | defer hk₀ hphase _ _ _ hcore
  | leave hk₀ hphase _ _ hcore => exact .inl (hnone hk₀ hcore (by rw [hphase]; rfl))
  | quiet hk₀ hrest _ _ hcore =>
    refine .inl (hupdate hcore ?_)
    intro heq
    rw [hk₀] at heq
    cases heq
    rw [hrest.live_eq hwakes] at hmem
    cases hmem
  | @send id' k₀ reply after hk₀ hphase hcore =>
    refine .inl (hupdate hcore ?_)
    intro heq
    rw [hk₀] at heq
    cases heq
    rw [hphase, Phase.wakes_replying] at hwakes
    exact ⟨live, hwakes, hmem⟩
  | @drop id' k₀ reply after hk₀ hphase hroom hcore =>
    by_cases hid : id = id'
    · rw [hid, hk₀] at hk
      obtain rfl := Option.some.inj hk
      rw [hphase] at hwakes
      cases after with
      | wake node replaced live' =>
        obtain ⟨rfl, rfl⟩ := Prod.mk.inj (Option.some.inj hwakes)
        exact .inr (.inl ⟨id', k₀, reply, replaced, live', rfl, hk₀, hphase, hmem, hroom⟩)
      | _ => exact absurd hwakes (by simp [Phase.wakes])
    · exact .inl ⟨id, k, live, by rw [hcore, update_of_ne hid, hk], hwakes, hmem⟩
  | kick hk₀ hphase hcore =>
    refine .inl (hupdate hcore ?_)
    intro heq
    rw [hk₀] at heq
    cases heq
    rw [hphase] at hwakes
    exact ⟨live, hwakes, hmem⟩
  | @wake id' d k₀ node waiter rest hk₀ hphase hcore _ _ hlog =>
    by_cases hid : id = id'
    · rw [hid, hk₀] at hk
      obtain rfl := Option.some.inj hk
      rw [hphase] at hwakes
      obtain ⟨rfl, rfl⟩ := Prod.mk.inj (Option.some.inj hwakes)
      rcases List.mem_cons.mp hmem with rfl | hrest
      · exact .inr (.inr ⟨id', d, k₀, rest, rfl, hk₀, hphase, hlog⟩)
      · exact .inl ⟨id', _, rest, by rw [hcore, update_self], rfl, hrest⟩
    · exact .inl ⟨id, k, live, by rw [hcore, update_of_ne hid, hk], hwakes, hmem⟩
  | pair _ _ _ hcore => exact .inl (hsame hcore)

/-- What a step does to a waiter whose connection stays current: it waits on, or the
    node it waits for has registered and is about to wake it. -/
theorem Booked.waiter_cases (hB : Booked config s.registry) (hm : Move c config s t e)
    (hmem : ⟨m, id⟩ ∈ s.registry.waitersOf target) (howns : s.registry.owns m id = true)
    (howns' : t.registry.owns m id = true) :
    ⟨m, id⟩ ∈ t.registry.waitersOf target ∨ t.Waking target m := by
  have hsame : s.registry.Same t.registry → ⟨m, id⟩ ∈ t.registry.waitersOf target := by
    intro hs
    rw [hs.waitersOf_eq]
    exact hmem
  cases hm with
  | @insert id' _ order _ r _ replaced _ _ horder _ _ hcore _ hs =>
    have horder' : Enumerates order ((s.registry.withPeer id' r).waitersOf r.nodeId) := horder
    by_cases htgt : target = r.nodeId
    · have hne : m ≠ r.nodeId := htgt ▸ hB.other ⟨m, id⟩ target hmem
      have hlive : m ∈ ((s.registry.withPeer id' r).takeWaitersFor r.nodeId order).2 := by
        refine (Registry.mem_live horder').mpr ⟨id, htgt ▸ hmem, ?_, hne⟩
        rw [Registry.owns_withPeer hne]
        exact howns
      refine .inr ⟨id', _, _, by rw [hcore, update_self], ?_, hlive⟩
      rw [htgt]
      rfl
    · refine .inl ?_
      rw [hs.waitersOf_eq, Registry.waitersOf_takeWaitersFor horder', if_neg htgt]
      exact hmem
  | @defer _ asked _ _ registration _ _ _ _ hdefers =>
    cases hdefers with
    | again _ hs => exact .inl (hsame hs)
    | add _ _ _ hs =>
      refine .inl ?_
      rw [hs.waitersOf_eq, Registry.waitersOf_addWaiter]
      split
      next htgt =>
        exact Finset.mem_insert_of_mem (htgt ▸ hmem)
      · exact hmem
  | @leave _ order _ registration _ _ _ horder _ _ hs =>
    refine .inl ?_
    rw [hs.waitersOf_eq, hB.waitersOf_unregister_eq horder, Finset.mem_erase]
    refine ⟨?_, hmem⟩
    -- Were the key its own, its record would be gone now.
    intro hkey
    obtain ⟨rfl, rfl⟩ := WaiterKey.mk.inj hkey
    obtain ⟨record, hrec, -⟩ := owns_iff.mp howns'
    rw [hs.peers, Registry.peers_unregister, if_pos ⟨rfl, howns⟩] at hrec
    cases hrec
  | _ => exact .inl (hsame ‹_›)

/-- A connection with a deferred lookup has registered. -/
theorem run_deferred_active (h : (machine c config).Run es s) (hmem : .deferred id target ∈ s.log) :
    ∃ k a, s.core id = some k ∧ k.active = some a := by
  revert hmem
  refine Machine.Run.hist (I := fun _ s => .deferred id target ∈ s.log →
    ∃ k a, s.core id = some k ∧ k.active = some a) ?_ ?_ h
  · rintro s ⟨-, -, -, hlog⟩ hmem
    rw [hlog] at hmem
    cases hmem
  intro es s e t hrun hI hstep hmem
  have hm := step_moves hstep
  have hstaged := (run_registered hrun).toStaged
  have hbefore : ∃ k a, s.core id = some k ∧ k.active = some a := by
    rcases hm.mem_cases hmem with hold | hnew
    · exact hI hold
    cases hnew with
    | frame hx | consumed hx | inserted hx | reply hx => cases hx
    | push hx =>
      obtain ⟨_, _, _, _, hx | hx⟩ := Server.mem_pairEntries hx
      · cases hx
      · cases hx
    | deferred hx hk hask =>
      obtain ⟨rfl, -⟩ := Entry.deferred.inj hx
      exact ⟨_, _, hk, hask.active⟩
  obtain ⟨k, a, hk, hact⟩ := hbefore
  obtain ⟨k', hk', hact'⟩ := hstaged.active_mono hm hk hact
  exact ⟨k', a, hk', hact'⟩

/-- A connection that has registered does not become current: it was. -/
theorem Staged.owns_of_owns (h : Staged c s) (hm : Move c config s t e) {k : Core}
    {a : ActiveRegistration} (hk : s.core id = some k) (hact : k.active = some a)
    (howns : t.registry.owns m id = true) : s.registry.owns m id = true := by
  obtain ⟨record, hrec, rfl⟩ := owns_iff.mp howns
  cases h.peerChange hm m with
  | same hsame =>
    rw [hsame] at hrec
    exact owns_iff.mpr ⟨record, hrec, rfl⟩
  | insert hstoring hphase _ hnew =>
    rw [hnew] at hrec
    cases hrec
    rw [hstoring] at hk
    cases hk
    have hnone := ((hstoring ▸ h.stage _ : Stage c _ (some _) _).of_storing hphase).2.1
    rw [hnone] at hact
    cases hact
  | remove _ hnone =>
    rw [hnone] at hrec
    cases hrec

/-- A handler that is putting its client off has just deferred the lookup. -/
theorem Move.pending_cases (hm : Move c config s t e) {k' : Core} {after : After}
    (hk' : t.core id = some k') (hphase' : k'.phase = .replying (.pending target) after) :
    s.core id = some k' ∨ .deferred id target ∈ t.log := by
  have hupdate : ∀ {id' : Nat} {k₁ : Core}, t.core = Function.update s.core id' (some k₁) →
      (k₁.phase ≠ .replying (.pending target) after) → s.core id = some k' := by
    intro id' k₁ hcore hne
    by_cases hid : id = id'
    · rw [hcore, hid, update_self] at hk'
      cases hk'
      exact absurd hphase' hne
    · rw [hcore, update_of_ne hid] at hk'
      exact hk'
  cases hm with
  | outside hcore | pair _ _ _ hcore => exact .inl (hcore ▸ hk')
  | quiet _ _ hcalm _ hcore => exact .inl (hupdate hcore (hcalm.ne_pending target after))
  | consume _ _ _ hnew hcore =>
    refine .inl (hupdate hcore ?_)
    rcases hnew with hend | ⟨r, rfl, -⟩
    · exact (Phase.Calm.ending hend).ne_pending target after
    · simp
  | insert _ _ _ _ _ hreply hcore =>
    refine .inl (hupdate hcore ?_)
    intro heq
    exact hreply.2 target (Phase.replying.inj heq).1
  | @send _ _ _ after' _ _ hcore =>
    refine .inl (hupdate hcore ?_)
    cases after' with
    | wake _ replaced _ => cases replaced <;> simp [After.phase]
    | _ => simp [After.phase]
  | @defer id' asked _ _ _ _ _ _ _ _ hcore _ hlog =>
    by_cases hid : id = id'
    · rw [hcore, hid, update_self] at hk'
      cases hk'
      obtain ⟨hreply, -⟩ := Phase.replying.inj hphase'
      obtain rfl := Reply.pending.inj hreply
      refine .inr ?_
      rw [hlog, hid]
      simp
    · rw [hcore, update_of_ne hid] at hk'
      exact .inl hk'
  | _ => exact .inl (hupdate ‹_› (by simp))

/-- A connection is told to wait only after its lookup was deferred. -/
structure Server.Honest (s : Server) : Prop where
  replying : ∀ id k target after, s.core id = some k →
    k.phase = .replying (.pending target) after → .deferred id target ∈ s.log
  queued : ∀ id target, .queued id (.peerPending target) ∈ s.log → .deferred id target ∈ s.log

theorem run_honest (h : (machine c config).Run es s) : s.Honest := by
  refine Machine.Run.inv (I := Server.Honest) ?_ ?_ h
  · rintro s ⟨-, hconns, -, hlog⟩
    refine ⟨?_, ?_⟩
    · intro id k target after hk
      rw [Server.core, hconns] at hk
      cases hk
    · intro id target hmem
      rw [hlog] at hmem
      cases hmem
  intro s e t hI hstep
  have hm := step_moves hstep
  refine ⟨?_, ?_⟩
  · intro id k target after hk hphase
    rcases hm.pending_cases hk hphase with hold | hnew
    · exact hm.log_mono (hI.replying id k target after hold hphase)
    · exact hnew
  intro id target hmem
  rcases hm.mem_cases hmem with hold | hnew
  · exact hm.log_mono (hI.queued id target hold)
  cases hnew with
  | frame hx | consumed hx | inserted hx | deferred hx => cases hx
  | @reply _ reply k after hx hk hphase =>
    obtain ⟨rfl, hmsg⟩ := Entry.queued.inj hx
    obtain rfl : reply = .pending target := by
      cases reply <;> simp_all [Reply.message]
    exact hm.log_mono (hI.replying id k target after hk hphase)
  | push hx =>
    obtain ⟨_, _, _, _, hx | hx⟩ := Server.mem_pairEntries hx
    · cases hx
    · cases hx

/-- Every unanswered lookup of a current connection is in the waiter table or on a
    wake-up list. -/
def Server.Remembers (s : Server) : Prop :=
  ∀ id target m, Unanswered id target s.log → s.registry.owns m id = true →
    ⟨m, id⟩ ∈ s.registry.waitersOf target ∨ s.Waking target m

/-- A woken waiter that is current is told, where wake-ups fit. -/
theorem WakeupsFit.queued_mem (h : WakeupsFit config s e t) {id' : Nat} {d : Draw} {k : Core}
    {rest : List NodeId} (he : e = .wake id' d) (hk : s.core id' = some k)
    (hphase : k.phase = .waking target (m :: rest)) (howns : s.registry.owns m id = true) :
    ∃ candidates token, .queued id (.peerCandidates target candidates token) ∈
      s.pairEntries config m target d.token := by
  obtain ⟨recordA, hA, rfl⟩ := owns_iff.mp howns
  obtain ⟨recordB, hB, hroomA, hroomB⟩ := h.2 id' d k target m rest recordA he hk hphase hA
  refine ⟨recordB.candidates, d.token, ?_⟩
  simp [Server.pairEntries, hA, hB, hroomA, hroomB]

theorem run_remembers (h : ((machine c config).restrict (WakeupsFit config)).Run es s) :
    s.Remembers := by
  refine Machine.Run.hist (I := fun _ s => s.Remembers) ?_ ?_ h
  · rintro s ⟨-, -, -, hlog⟩ id target m hunanswered
    have hmem := hunanswered.deferred_mem
    rw [hlog] at hmem
    cases hmem
  rintro es s e t hrun hI ⟨hstep, hfit⟩ id target m hunanswered howns
  have hm := step_moves hstep
  have hrun' := hrun.of_restrict
  have hR := run_registered hrun'
  obtain ⟨entries, hlog, hadded⟩ := hm.added
  rw [hlog] at hunanswered
  rcases hunanswered.append_cases with ⟨hold, hsilent⟩ | hnew
  · obtain ⟨k, a, hk, hact⟩ := run_deferred_active hrun' hold.deferred_mem
    have howned := hR.toStaged.owns_of_owns hm hk hact howns
    rcases hI id target m hold howned with hwaits | hwaking
    · exact (run_booked hrun').waiter_cases hm hwaits howned howns
    rcases hR.toStaged.waking_cases hm hwaking with hkeep | hdrop | hwoken
    · exact .inr hkeep
    · -- The answer of the handler fits, so its list is not dropped.
      obtain ⟨id', k', reply, replaced, live, he, hk', hphase, hmem, hroom⟩ := hdrop
      have hfull := hfit.1 id' k' reply target replaced live he hk' hphase (List.ne_nil_of_mem hmem)
      rw [hroom] at hfull
      cases hfull
    · -- The woken connection is told, so the lookup is answered.
      obtain ⟨id', d, k', rest, he, hk', hphase, hpair⟩ := hwoken
      obtain ⟨candidates, token, hmem⟩ := hfit.queued_mem he hk' hphase howned
      rw [List.append_cancel_left (hlog.symm.trans hpair)] at hsilent
      exact absurd hmem (hsilent candidates token)
  · -- The lookup has just been deferred, by the connection itself.
    cases hadded _ hnew with
    | frame hx | consumed hx | inserted hx | reply hx => cases hx
    | push hx =>
      obtain ⟨_, _, _, _, hx | hx⟩ := Server.mem_pairEntries hx
      · cases hx
      · cases hx
    | @deferred _ _ k registration hx hk hask hwaits =>
      obtain ⟨rfl, rfl⟩ := Entry.deferred.inj hx
      have hid : registration.connectionId = id := ((hk ▸ hR.stage id).of_active hask.active).1
      have howned := hR.toStaged.owns_of_owns hm hk hask.active howns
      have howner := hask.owner
      rw [hid] at howner
      obtain ⟨record, hrec, hconn⟩ := owns_iff.mp howned
      obtain ⟨record', hrec', hconn'⟩ := owns_iff.mp howner
      have hnode : m = registration.nodeId := hR.node_eq hrec hrec' (hconn.trans hconn'.symm)
      refine .inl ?_
      rw [hnode, ← hid]
      exact hwaits

/-- **No lookup is lost**, in every run whose wake-ups fit.  A connection that was told
    `PeerPending` had its lookup deferred; and whenever no handler is about to wake `m`
    for `target`, a lookup of `target` that was deferred for the current connection of
    `m` has been answered since by a `PeerCandidates`, or the connection still waits. -/
theorem no_lost_lookup {es : List Event}
    (h : ((machine c config).restrict (WakeupsFit config)).Run es s) :
    (∀ id target, .queued id (.peerPending target) ∈ s.log → .deferred id target ∈ s.log) ∧
    ∀ id target m, s.registry.owns m id = true → ¬ s.Waking target m →
      ∀ pre post, s.log = pre ++ .deferred id target :: post →
        (∃ candidates token, .queued id (.peerCandidates target candidates token) ∈ post) ∨
          ⟨m, id⟩ ∈ s.registry.waitersOf target := by
  refine ⟨(run_honest h.of_restrict).queued, ?_⟩
  intro id target m howns hidle pre post hlog
  by_cases hanswered : ∃ candidates token,
      .queued id (.peerCandidates target candidates token) ∈ post
  · exact .inl hanswered
  have hunanswered : Unanswered id target s.log := by
    refine ⟨pre, post, hlog, ?_⟩
    intro candidates token hmem
    exact hanswered ⟨candidates, token, hmem⟩
  exact .inr ((run_remembers h id target m hunanswered howns).resolve_right hidle)

namespace Sample

/-- A check that implies `WakeupsFit`. -/
def wakeupFits (s : Server) : Event → Bool
  | .reply id => s.room .default id 0
  | .wake id _ =>
    match (s.conns id).map Conn.phase with
    | some (.waking node (waiter :: _)) =>
      match s.registry.peers.lookup waiter, s.registry.peers.lookup node with
      | some recordA, some recordB =>
        s.room .default recordA.connectionId 0 &&
          s.room .default recordB.connectionId (Server.reserved recordA recordB)
      | _, _ => false
    | _ => true
  | _ => true

theorem wakeupFits_sound (hok : wakeupFits s e = true) : WakeupsFit .default s e t := by
  refine ⟨?_, ?_⟩
  · rintro id k reply node replaced live rfl - - -
    exact hok
  · rintro id d k node waiter rest recordA rfl hk hphase hA
    obtain ⟨conn, hconn, rfl⟩ := Option.map_eq_some_iff.mp hk
    have hphase' : conn.phase = .waking node (waiter :: rest) := hphase
    simp only [wakeupFits, hconn, Option.map_some, hphase', hA] at hok
    split at hok
    next recordA' recordB hA' hB =>
      cases hA'
      obtain ⟨hroomA, hroomB⟩ := Bool.and_eq_true_iff.mp hok
      exact ⟨recordB, hB, hroomA, hroomB⟩
    · cases hok

def execFitting : Option Server :=
  Machine.exec (fun s e => if wakeupFits s e then s.step .sample .default e else none) start paired

theorem fitting_isSome : execFitting.isSome = true := by decide +kernel

def fittingServer : Server := execFitting.get fitting_isSome

theorem fitting_run :
    ((machine .sample .default).restrict (WakeupsFit .default)).Run paired fittingServer :=
  Machine.restrict_run_of_exec (fun _ _ _ _ _ _ hok => wakeupFits_sound hok) start_init
    (some_get fitting_isSome).symm

/-- Node 2 registers on connection 2 and takes the waiter; it registers again on
    connection 3, which leaves; the wake-up of connection 2 then finds no node 2. -/
def lost : List Event :=
  waiting ++ accept :: register 2 2 [⟨node 1, 1⟩] ++ accept :: register 3 2 [] ++
    [.reply 3, .kick 3, .wake 3 (draw 0), .hangup 3, .leave 3 [],
     .reply 2, .wake 2 (draw 9), .wake 2 (draw 9), .hangup 2, .leave 2 []]

theorem lost_isSome : (exec lost).isSome = true := by decide +kernel

def lostServer : Server := (exec lost).get lost_isSome

theorem lost_run : (machine .sample .default).Run lost lostServer :=
  run_of_exec (some_get lost_isSome).symm

/-- The history up to the deferral of the lookup of connection 1. -/
def lostPre : List Entry := lostServer.log.takeWhile fun x => x != .deferred 1 (node 2)

/-- The history after it. -/
def lostPost : List Entry := lostServer.log.drop (lostPre.length + 1)

end Sample

open Sample in
/-- In the sample run the deferred lookup has been answered or is still recorded. -/
theorem no_lost_lookup_sample : fittingServer.registry.owns (node 1) 1 = true ∧
    ¬ fittingServer.Waking (node 2) (node 1) ∧
    ∃ pre post, fittingServer.log = pre ++ .deferred 1 (node 2) :: post ∧
      ((∃ candidates token, .queued 1 (.peerCandidates (node 2) candidates token) ∈ post) ∨
        ⟨node 1, 1⟩ ∈ fittingServer.registry.waitersOf (node 2)) := by
  have howns : fittingServer.registry.owns (node 1) 1 = true := by decide +kernel
  have hidle : ¬ fittingServer.Waking (node 2) (node 1) :=
    noWakeups_sound fitting_run.of_restrict (by decide +kernel) _ _
  have hmem : .deferred 1 (node 2) ∈ fittingServer.log := by decide +kernel
  obtain ⟨pre, post, hlog⟩ := List.append_of_mem hmem
  exact ⟨howns, hidle, pre, post, hlog,
    (no_lost_lookup fitting_run).2 1 _ _ howns hidle pre post hlog⟩

open Sample in
/-- In a state where no handler has anybody left to wake, the lookup that connection 1,
    the current connection of node 1, was told to wait for is neither answered nor
    recorded. -/
theorem lost_lookup : ∃ es s, (machine .sample .default).Run es s ∧
      ∃ id target m, s.registry.owns m id = true ∧ (∀ n n', ¬ s.Waking n n') ∧
        ∃ pre post, s.log = pre ++ .deferred id target :: post ∧
          .queued id (.peerPending target) ∈ post ∧
          (∀ candidates token, .queued id (.peerCandidates target candidates token) ∉ post) ∧
          ⟨m, id⟩ ∉ s.registry.waitersOf target := by
  refine ⟨lost, lostServer, lost_run, 1, node 2, node 1,
    by decide +kernel, noWakeups_sound lost_run (by decide +kernel),
    lostPre, lostPost, by decide +kernel, by decide +kernel, ?_, by decide +kernel⟩
  intro candidates token hmem
  have hsilent : lostPost.all (fun x => !x.isPush) = true := by decide +kernel
  exact absurd (List.all_eq_true.mp hsilent _ hmem) (by simp [Entry.isPush])

end P2pFile.Discovery
