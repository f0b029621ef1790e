/-
  P2pFile.Node.ActivityRuns

  Files and speed tests exclude each other.

  The invariant has two parts.  `Books` is about the counters: those of the activity are
  the numbers of live permits.  `Tests` is about who holds the permit of a speed test: a
  connection, or nobody any more.  Each operation on the counters has one lemma for the
  entries it leaves, and the events are put together from them.
-/

import P2pFile.Node.Activity

namespace P2pFile.Node

open Lib Protocol
open Handles (countP_issue countP_release get_issue get_issue_of_get get_issue_some get_modify
  get_modify_some get_release get_release_some)
open SpeedPeer (holds)

/-! ## The counters -/

namespace ActivityState

variable {s s' : ActivityState} {peer other : NodeId} {id : TaskId} {entry : ActivityEntry}

theorem entry_of_lookup (h : s.peers.lookup peer = some entry) : s.entry peer = entry := by
  unfold ActivityState.entry
  rw [h]
  rfl

@[simp] theorem entry_set :
    (s.set peer entry).entry other = if other = peer then entry else s.entry other := by
  unfold ActivityState.entry set
  rw [AList.lookup_insert_eq_ite]
  split <;> rfl

/-- An entry that is removed says nothing. -/
@[simp] theorem entry_prune : (s.prune peer).entry other = s.entry other := by
  unfold prune
  split
  next hany =>
    obtain ⟨e, he, hempty⟩ := (Option.any_eq_true _ _).mp hany
    rw [Bool.and_eq_true, beq_iff_eq, Option.isNone_iff_eq_none] at hempty
    by_cases hother : other = peer
    · subst hother
      rw [entry_of_lookup he]
      unfold ActivityState.entry
      rw [AList.lookup_erase_eq_ite, if_pos rfl]
      cases e
      obtain ⟨rfl, rfl⟩ := hempty
      rfl
    · unfold ActivityState.entry
      rw [AList.lookup_erase_eq_ite, if_neg hother]
  · rfl

theorem addFile_ok (h : s.addFile peer = .ok s') :
    (s.entry peer).speed = none ∧ ∃ files, files.toNat = (s.entry peer).files.toNat + 1 ∧
      ∀ other, s'.entry other =
        if other = peer then { s.entry peer with files } else s.entry other := by
  unfold addFile at h
  dsimp only at h
  split at h
  · cases h
  rename_i hspeed
  split at h
  · cases h
  next files hfiles =>
    cases h
    exact ⟨by simpa using hspeed, files, checkedAdd_one_toNat hfiles, fun _ => entry_set⟩

theorem addSpeed_ok (h : s.addSpeed peer id = .ok s') :
    (s.entry peer).files = 0 ∧ (s.entry peer).speed = none ∧
      ∀ other, s'.entry other =
        if other = peer then { s.entry peer with speed := some id } else s.entry other := by
  unfold addSpeed at h
  dsimp only at h
  split at h
  · cases h
  rename_i hidle
  cases h
  rw [not_or, not_not, Bool.not_eq_true, Option.isSome_eq_false_iff,
    Option.isNone_iff_eq_none] at hidle
  exact ⟨hidle.1, hidle.2, fun _ => entry_set⟩

theorem dropFile_entry (h : (s.entry peer).files ≠ 0) (other : NodeId) :
    (s.dropFile peer).entry other =
      if other = peer then { s.entry peer with files := (s.entry peer).files - 1 }
      else s.entry other := by
  unfold dropFile
  split
  next hnone =>
    unfold ActivityState.entry at h
    rw [hnone] at h
    exact absurd rfl h
  next entry hentry =>
    rw [entry_prune, entry_set, entry_of_lookup hentry]

theorem dropSpeed_entry (h : (s.entry peer).speed = some id) (other : NodeId) :
    (s.dropSpeed peer id).entry other =
      if other = peer then { s.entry peer with speed := none } else s.entry other := by
  unfold dropSpeed
  split
  next hnone =>
    unfold ActivityState.entry at h
    rw [hnone] at h
    cases h
  next entry hentry =>
    rw [entry_of_lookup hentry] at h ⊢
    rw [if_pos h, entry_prune, entry_set]

end ActivityState

/-! ## The arbiter -/

namespace SpeedArbiter

variable {a a' : SpeedArbiter} {lease : SpeedLease} {activeFiles : Nat}

theorem request_ok {requester : NodeId} {testId : TaskId} {direction : SpeedDirection}
    {seconds : UInt16} {token : Bytes 16}
    (h : a.request requester testId direction seconds activeFiles token = .ok (lease, a')) :
    a'.active = some lease ∧ a'.localId = a.localId := by
  unfold request at h
  dsimp only at h
  split at h
  · cases h
  split at h
  · cases h
  cases hseconds : SpeedControl.validateSpeedSeconds seconds with
  | error err =>
    rw [hseconds] at h
    cases h
  | ok _ =>
    rw [hseconds] at h
    split at h
    · cases h
    · cases h
      exact ⟨rfl, rfl⟩

theorem acceptGrant_ok {grantor : NodeId} (h : a.acceptGrant grantor lease activeFiles = .ok a') :
    a'.active = some lease ∧ a'.localId = a.localId := by
  unfold acceptGrant at h
  split at h
  · cases h
  cases hseconds : SpeedControl.validateSpeedSeconds lease.seconds with
  | error err =>
    rw [hseconds] at h
    cases h
  | ok _ =>
    rw [hseconds] at h
    cases h
    exact ⟨rfl, rfl⟩

theorem claimStream_keeps (a : SpeedArbiter) (sender : NodeId) (lease : SpeedLease) :
    ((a.claimStream sender lease).toOption.getD a).active = a.active ∧
      ((a.claimStream sender lease).toOption.getD a).localId = a.localId := by
  unfold claimStream
  dsimp only
  repeat' split
  all_goals exact ⟨rfl, rfl⟩

theorem finish_own (h : a.active = some lease) :
    a.finish a.localId lease = .ok { a with active := none, streamClaimed := false } := by
  unfold finish
  simp [h]

end SpeedArbiter

/-- Whether the event drops the permit of a file. -/
def ActivityEvent.drops (h : Nat) : ActivityEvent → Bool
  | .dropFile h' => h = h'
  | _ => false

namespace ActivityWorld

variable {w w' : ActivityWorld} {lease : SpeedLease} {p : SpeedPeer} {e : ActivityEvent}

theorem grantLease_ok {call : SpeedCall} {arbiter : SpeedArbiter}
    (h : grantLease p call = .ok (lease, arbiter)) :
    arbiter.active = some lease ∧ arbiter.localId = p.arbiter.localId := by
  unfold grantLease at h
  split at h
  · split at h
    next hgrant =>
      cases h
      exact SpeedArbiter.acceptGrant_ok hgrant
    · cases h
  · exact SpeedArbiter.request_ok h

/-! ## The books -/

/-- The counters of the activity are those of the live permits and leases, and a peer has
    either the ones or the other. -/
structure Books (activity : ActivityState) (permits : Handles FilePermit)
    (leases : Handles SpeedPermit) : Prop where
  counted : ∀ peer, (activity.entry peer).files.toNat =
    permits.live.countP fun _ p => p.peer == peer
  leased : ∀ h permit, leases.get h = some permit →
    (activity.entry permit.peer).speed = some permit.id
  single : ∀ h h' permit permit', leases.get h = some permit → leases.get h' = some permit' →
    permit.peer = permit'.peer → h = h'
  excluded : ∀ peer, (activity.entry peer).speed.isSome → (activity.entry peer).files = 0

namespace Books

variable {activity activity' : ActivityState} {permits : Handles FilePermit}
  {leases : Handles SpeedPermit} {peer : NodeId} {id : TaskId} {handle : Nat}
  (h : Books activity permits leases)

include h

/-- The count of one peer changes, which has no lease. -/
theorem recount {permits' : Handles FilePermit} {files : UInt64}
    (hspeed : (activity.entry peer).speed = none) (hentry : ∀ other, activity'.entry other =
      if other = peer then { activity.entry peer with files } else activity.entry other)
    (hcounted : files.toNat = permits'.live.countP fun _ p => p.peer == peer)
    (hothers : ∀ other, other ≠ peer → (permits'.live.countP fun _ p => p.peer == other) =
      permits.live.countP fun _ p => p.peer == other) : Books activity' permits' leases := by
  have hsame : ∀ other, (activity'.entry other).speed = (activity.entry other).speed := by
    intro other
    rw [hentry other]
    split
    next heq =>
      rw [heq]
    · rfl
  refine ⟨?_, ?_, h.single, ?_⟩
  · intro other
    rw [hentry other]
    split
    next heq =>
      rw [heq]
      exact hcounted
    next hne =>
      rw [hothers other hne]
      exact h.counted other
  · intro handle permit hpermit
    rw [hsame]
    exact h.leased handle permit hpermit
  · intro other hother
    rw [hsame] at hother
    have hne : other ≠ peer := by
      rintro rfl
      rw [hspeed] at hother
      cases hother
    rw [hentry other, if_neg hne]
    exact h.excluded other hother

theorem addFile (hadd : activity.addFile peer = .ok activity') :
    Books activity' (permits.issue ⟨peer⟩) leases := by
  obtain ⟨hspeed, files, hfiles, hentry⟩ := ActivityState.addFile_ok hadd
  refine h.recount hspeed hentry ?_ ?_
  · rw [countP_issue, ← h.counted peer]
    simpa using hfiles
  · intro other hne
    rw [countP_issue, if_neg (by simpa using Ne.symm hne), Nat.add_zero]

theorem dropFile (hpermit : permits.get handle = some ⟨peer⟩) :
    Books (activity.dropFile peer) (permits.release handle) leases := by
  have hcount := h.counted peer
  rw [countP_release _ hpermit] at hcount
  simp only [beq_self_eq_true, if_true] at hcount
  have hpos : (activity.entry peer).files ≠ 0 := by
    intro hzero
    rw [hzero] at hcount
    simp at hcount
  have hspeed : (activity.entry peer).speed = none := by
    by_contra hsome
    exact hpos (h.excluded peer (Option.isSome_iff_ne_none.mpr hsome))
  refine h.recount hspeed (ActivityState.dropFile_entry hpos) ?_ ?_
  · rw [UInt64.toNat_sub_of_le _ _ (by
      rw [UInt64.le_iff_toNat_le]
      have hone : (1 : UInt64).toNat = 1 := rfl
      omega)]
    have hone : (1 : UInt64).toNat = 1 := rfl
    omega
  · intro other hne
    rw [countP_release _ hpermit, if_neg (by simpa using Ne.symm hne), Nat.add_zero]

/-- The lease of one peer changes, which has no permits. -/
theorem relet {leases' : Handles SpeedPermit} {speed : Option TaskId}
    (hfiles : (activity.entry peer).files = 0) (hentry : ∀ other, activity'.entry other =
      if other = peer then { activity.entry peer with speed } else activity.entry other)
    (hleased : ∀ h permit, leases'.get h = some permit →
      (activity'.entry permit.peer).speed = some permit.id)
    (hsingle : ∀ h h' permit permit', leases'.get h = some permit →
      leases'.get h' = some permit' → permit.peer = permit'.peer → h = h') :
    Books activity' permits leases' := by
  have hsame : ∀ other, (activity'.entry other).files = (activity.entry other).files := by
    intro other
    rw [hentry other]
    split
    next heq =>
      rw [heq]
    · rfl
  refine ⟨?_, hleased, hsingle, ?_⟩
  · intro other
    rw [hsame]
    exact h.counted other
  · intro other hother
    rw [hsame]
    by_cases heq : other = peer
    · rw [heq]
      exact hfiles
    · rw [hentry other, if_neg heq] at hother
      exact h.excluded other hother

theorem addSpeed (hadd : activity.addSpeed peer id = .ok activity') :
    Books activity' permits (leases.issue ⟨peer, id⟩) := by
  obtain ⟨hfiles, hspeed, hentry⟩ := ActivityState.addSpeed_ok hadd
  -- The peer had no lease.
  have hnone : ∀ handle permit, leases.get handle = some permit → permit.peer ≠ peer := by
    rintro handle permit hpermit rfl
    have hleased := h.leased handle permit hpermit
    rw [hspeed] at hleased
    cases hleased
  refine h.relet hfiles hentry ?_ ?_
  · intro handle permit hpermit
    rcases get_issue_some hpermit with ⟨-, rfl⟩ | hpermit
    · rw [hentry peer, if_pos rfl]
    · rw [hentry, if_neg (hnone handle permit hpermit)]
      exact h.leased handle permit hpermit
  · intro handle handle' permit permit' hpermit hpermit' hpeer
    rcases get_issue_some hpermit with ⟨heq, rfl⟩ | hpermit
    · rcases get_issue_some hpermit' with ⟨heq', -⟩ | hpermit'
      · rw [heq, heq']
      · exact absurd hpeer.symm (hnone handle' permit' hpermit')
    · rcases get_issue_some hpermit' with ⟨-, rfl⟩ | hpermit'
      · exact absurd hpeer (hnone handle permit hpermit)
      · exact h.single handle handle' permit permit' hpermit hpermit' hpeer

theorem dropSpeed {permit : SpeedPermit} (hpermit : leases.get handle = some permit) :
    Books (activity.dropSpeed permit.peer permit.id) permits (leases.release handle) := by
  have hleased := h.leased handle permit hpermit
  have hentry := ActivityState.dropSpeed_entry hleased
  refine h.relet (h.excluded permit.peer (by rw [hleased]; rfl)) hentry ?_ ?_
  · intro handle' permit' hpermit'
    obtain ⟨hne, hpermit'⟩ := get_release_some hpermit'
    -- Another lease is one of another peer.
    have hpeer : permit'.peer ≠ permit.peer := fun hsame =>
      hne (h.single handle' handle permit' permit hpermit' hpermit hsame)
    rw [hentry, if_neg hpeer]
    exact h.leased handle' permit' hpermit'
  · intro handle₁ handle₂ permit₁ permit₂ h₁ h₂ hpeer
    exact h.single handle₁ handle₂ permit₁ permit₂ (get_release_some h₁).2
      (get_release_some h₂).2 hpeer

end Books

/-! ## The tests -/

/-- The permit of a speed test is held by one connection at most, which prepares the test or
    runs it, and a guard belongs to the test that runs. -/
structure Tests (localId : NodeId) (leases : Handles SpeedPermit)
    (connections : Handles SpeedPeer) (guards : Handles RunGuard) : Prop where
  arbiter : ∀ c p, connections.get c = some p →
    p.arbiter.active = p.active.map (·.1) ∧ p.arbiter.localId = localId
  prepared : ∀ c p call h, connections.get c = some p → p.preparing = some (call, h) →
    p.active = none ∧ leases.get h = some ⟨p.remote, call.id⟩
  tested : ∀ c p lease h, connections.get c = some p → p.active = some (lease, h) →
    ∃ id, leases.get h = some ⟨p.remote, id⟩
  owner : ∀ c c' p p' h, connections.get c = some p → connections.get c' = some p' →
    p.holds h = true → p'.holds h = true → c = c'
  guarded : ∀ g run, guards.get g = some run → ∃ p, connections.get run.connection = some p ∧
    p.active = some (run.lease, run.permit)
  alone : ∀ g g' run run', guards.get g = some run → guards.get g' = some run' →
    run.connection = run'.connection → g = g'

theorem SpeedPeer.holds_active {handle : Nat} (h : p.active = some (lease, handle)) :
    p.holds handle = true := by
  unfold holds
  simp [h]

theorem SpeedPeer.holds_preparing {call : SpeedCall} {handle : Nat}
    (h : p.preparing = some (call, handle)) : p.holds handle = true := by
  unfold holds
  simp [h]

namespace Tests

variable {localId : NodeId} {leases : Handles SpeedPermit} {connections : Handles SpeedPeer}
  {guards : Handles RunGuard} {c g : Nat} {p : SpeedPeer} {run : RunGuard}
  (h : Tests localId leases connections guards)

include h

/-- What a connection holds is live. -/
theorem live (hp : connections.get c = some p) {permit : Nat} (hholds : p.holds permit = true) :
    ∃ id, leases.get permit = some ⟨p.remote, id⟩ := by
  unfold holds at hholds
  rw [Bool.or_eq_true, Option.any_eq_true, Option.any_eq_true] at hholds
  rcases hholds with ⟨⟨lease, handle⟩, hact, heq⟩ | ⟨⟨call, handle⟩, hpreparing, heq⟩
  · obtain rfl : handle = permit := by simpa using heq
    exact h.tested c p lease handle hp hact
  · obtain rfl : handle = permit := by simpa using heq
    exact ⟨call.id, (h.prepared c p call handle hp hpreparing).2⟩

/-- One connection is new or changes: what has to be shown of its state `q`. -/
theorem put {q : SpeedPeer} {leases' : Handles SpeedPermit} {connections' : Handles SpeedPeer}
    {guards' : Handles RunGuard}
    (hget : ∀ c' p', connections'.get c' = some p' →
      c' = c ∧ p' = q ∨ c' ≠ c ∧ connections.get c' = some p')
    (harbiter : q.arbiter.active = q.active.map (·.1) ∧ q.arbiter.localId = localId)
    (hprep : ∀ call handle, q.preparing = some (call, handle) →
      q.active = none ∧ leases'.get handle = some ⟨q.remote, call.id⟩)
    (htested : ∀ lease handle, q.active = some (lease, handle) →
      ∃ id, leases'.get handle = some ⟨q.remote, id⟩)
    (hothers : ∀ c' p', c' ≠ c → connections.get c' = some p' → ∀ handle, p'.holds handle = true →
      q.holds handle = false ∧ leases'.get handle = leases.get handle)
    (hguarded : ∀ g run, guards'.get g = some run → ∃ p',
      connections'.get run.connection = some p' ∧ p'.active = some (run.lease, run.permit))
    (halone : ∀ g g' run run', guards'.get g = some run → guards'.get g' = some run' →
      run.connection = run'.connection → g = g') :
    Tests localId leases' connections' guards' := by
  refine ⟨?_, ?_, ?_, ?_, hguarded, halone⟩
  · intro c' p' hp'
    rcases hget c' p' hp' with ⟨rfl, rfl⟩ | ⟨hne, hp'⟩
    · exact harbiter
    · exact h.arbiter c' p' hp'
  · intro c' p' call handle hp' hpreparing
    rcases hget c' p' hp' with ⟨rfl, rfl⟩ | ⟨hne, hp'⟩
    · exact hprep call handle hpreparing
    rw [(hothers c' p' hne hp' handle (SpeedPeer.holds_preparing hpreparing)).2]
    exact h.prepared c' p' call handle hp' hpreparing
  · intro c' p' lease handle hp' hact
    rcases hget c' p' hp' with ⟨rfl, rfl⟩ | ⟨hne, hp'⟩
    · exact htested lease handle hact
    rw [(hothers c' p' hne hp' handle (SpeedPeer.holds_active hact)).2]
    exact h.tested c' p' lease handle hp' hact
  · intro c₁ c₂ p₁ p₂ handle h₁ h₂ hholds₁ hholds₂
    rcases hget c₁ p₁ h₁ with ⟨heq₁, rfl⟩ | ⟨hne₁, hget₁⟩
    · rcases hget c₂ p₂ h₂ with ⟨heq₂, rfl⟩ | ⟨hne₂, hget₂⟩
      · rw [heq₁, heq₂]
      · rw [(hothers c₂ p₂ hne₂ hget₂ handle hholds₂).1] at hholds₁
        cases hholds₁
    · rcases hget c₂ p₂ h₂ with ⟨heq₂, rfl⟩ | ⟨hne₂, hget₂⟩
      · rw [(hothers c₁ p₁ hne₁ hget₁ handle hholds₁).1] at hholds₂
        cases hholds₂
      · exact h.owner c₁ c₂ p₁ p₂ handle hget₁ hget₂ hholds₁ hholds₂

theorem connect (remote : NodeId) :
    Tests localId leases (connections.issue ⟨remote, .new localId remote, none, none⟩) guards := by
  refine h.put (c := connections.next) (q := ⟨remote, .new localId remote, none, none⟩)
    (fun c p hp => ?_) ⟨rfl, rfl⟩ nofun nofun (fun _ _ _ _ _ _ => ⟨rfl, rfl⟩)
    (fun g run hrun => ?_) h.alone
  · rcases get_issue_some hp with hnew | hold
    · exact .inl hnew
    · exact .inr ⟨Nat.ne_of_lt (Handles.lt_of_get hold), hold⟩
  · obtain ⟨p, hp, hact⟩ := h.guarded g run hrun
    exact ⟨p, get_issue_of_get hp, hact⟩

/-- Guards of a connection that does not run a test are none. -/
theorem no_guard (hp : connections.get c = some p) (hact : p.active = none)
    (hrun : guards.get g = some run) : run.connection ≠ c := by
  rintro rfl
  obtain ⟨p', hp', hact'⟩ := h.guarded g run hrun
  rw [hp] at hp'
  cases hp'
  rw [hact] at hact'
  cases hact'

/-- A guard keeps its test when another connection changes. -/
theorem guarded_elsewhere {f : SpeedPeer → SpeedPeer} (hrun : guards.get g = some run)
    (hne : run.connection ≠ c) :
    ∃ p, (connections.modify c f).get run.connection = some p ∧
      p.active = some (run.lease, run.permit) := by
  rw [get_modify, if_neg hne]
  exact h.guarded g run hrun

/-- The connection of a guard runs the test of the guard. -/
theorem own (hrun : guards.get g = some run) (hp : connections.get run.connection = some p) :
    p.active = some (run.lease, run.permit) := by
  obtain ⟨p', hp', hact⟩ := h.guarded g run hrun
  rw [hp] at hp'
  cases hp'
  exact hact

end Tests

/-! ## The events -/

structure Inv (w : ActivityWorld) : Prop where
  books : Books w.activity w.permits w.leases
  tests : Tests w.localId w.leases w.connections w.guards

variable {c : Nat} {p : SpeedPeer} {call : SpeedCall} {permit g : Nat} {run : RunGuard} (h : w.Inv)

include h

theorem Inv.prepare (hp : w.connections.get c = some p) :
    (w.prepare c p call).Inv := by
  unfold ActivityWorld.prepare
  split
  · exact h
  rename_i activity hadd
  have hbooks := h.books.addSpeed hadd
  obtain ⟨-, hspeed, -⟩ := ActivityState.addSpeed_ok hadd
  -- The peer has no lease, so that this connection runs no test.
  have hact : p.active = none := by
    cases hact : p.active with
    | none => rfl
    | some test =>
      obtain ⟨id, hlease⟩ := h.tests.tested c p test.1 test.2 hp hact
      have hleased := h.books.leased _ _ hlease
      rw [hspeed] at hleased
      cases hleased
  refine ⟨hbooks, ?_⟩
  refine h.tests.put (fun _ _ h => get_modify_some h hp) ?_ ?_ ?_ ?_ ?_ h.tests.alone
  · exact h.tests.arbiter c p hp
  · intro call' handle hpreparing
    cases hpreparing
    exact ⟨hact, by rw [get_issue, if_pos rfl]⟩
  · intro lease handle hact'
    rw [hact] at hact'
    cases hact'
  · intro c' p' hne hp' handle hholds
    obtain ⟨id, hlease⟩ := h.tests.live hp' hholds
    have hlt := Handles.lt_of_get hlease
    refine ⟨?_, ?_⟩
    · unfold holds
      simp only [hact, Option.any_none, Option.any_some, Bool.false_or]
      simpa using (by omega : ¬ w.leases.next = handle)
    · rw [get_issue, if_neg (by omega)]
  · exact fun g run hrun => h.tests.guarded_elsewhere hrun (h.tests.no_guard hp hact hrun)

theorem Inv.grant (hp : w.connections.get c = some p)
    (hpreparing : p.preparing = some (call, permit)) : (w.grant c p call permit).Inv := by
  obtain ⟨hact, hlease⟩ := h.tests.prepared c p call permit hp hpreparing
  have hguards : ∀ {f : SpeedPeer → SpeedPeer} {g : Nat} {run : RunGuard},
      w.guards.get g = some run → ∃ p', (w.connections.modify c f).get run.connection = some p' ∧
        p'.active = some (run.lease, run.permit) := by
    intro f g run hrun
    exact h.tests.guarded_elsewhere hrun (h.tests.no_guard hp hact hrun)
  -- Nobody else holds the permit.
  have hothers : ∀ c' p', c' ≠ c → w.connections.get c' = some p' → p'.holds permit = false := by
    intro c' p' hne hp'
    cases hholds : p'.holds permit with
    | false => rfl
    | true =>
      have hown := SpeedPeer.holds_preparing hpreparing
      exact absurd (h.tests.owner c' c p' p permit hp' hp hholds hown) hne
  unfold ActivityWorld.grant
  split
  · refine ⟨h.books.dropSpeed hlease, ?_⟩
    refine h.tests.put (fun _ _ h => get_modify_some h hp) ?_ ?_ ?_ ?_ (fun _ _ => hguards)
      h.tests.alone
    · exact h.tests.arbiter c p hp
    · intro call' handle hnone
      cases hnone
    · intro lease handle hact'
      rw [hact] at hact'
      cases hact'
    · intro c' p' hne hp' handle hholds
      refine ⟨?_, ?_⟩
      · unfold holds
        simp [hact]
      · show (w.leases.release permit).get handle = w.leases.get handle
        rw [get_release, if_neg]
        rintro rfl
        rw [hothers c' p' hne hp'] at hholds
        cases hholds
  next lease arbiter hgrant =>
    obtain ⟨hlocked, hlocal⟩ := grantLease_ok hgrant
    refine ⟨h.books, ?_⟩
    refine h.tests.put (fun _ _ h => get_modify_some h hp) ?_ ?_ ?_ ?_ ?_ ?_
    · exact ⟨hlocked, hlocal.trans (h.tests.arbiter c p hp).2⟩
    · intro call' handle hnone
      cases hnone
    · intro lease' handle hact'
      cases hact'
      exact ⟨call.id, hlease⟩
    · intro c' p' hne hp' handle hholds
      refine ⟨?_, rfl⟩
      unfold holds
      simp only [Option.any_none, Option.any_some, Bool.or_false]
      rw [beq_eq_false_iff_ne]
      rintro rfl
      rw [hothers c' p' hne hp'] at hholds
      cases hholds
    · intro g run hrun
      rcases get_issue_some hrun with ⟨-, rfl⟩ | hrun
      · refine ⟨{ p with arbiter, active := some (lease, permit), preparing := none }, ?_, rfl⟩
        rw [get_modify, if_pos rfl, hp]
        rfl
      · exact hguards hrun
    · intro g g' run run' hrun hrun' hsame
      rcases get_issue_some hrun with ⟨heq, rfl⟩ | hrun
      · rcases get_issue_some hrun' with ⟨heq', -⟩ | hrun'
        · rw [heq, heq']
        · exact absurd hsame.symm (h.tests.no_guard hp hact hrun')
      · rcases get_issue_some hrun' with ⟨-, rfl⟩ | hrun'
        · exact absurd hsame (h.tests.no_guard hp hact hrun)
        · exact h.tests.alone g g' run run' hrun hrun' hsame

theorem Inv.dropRun (hrun : w.guards.get g = some run)
    (hp : w.connections.get run.connection = some p) (hidle : p.preparing = none) :
    (w.dropRun g run p).Inv := by
  have hact := h.tests.own hrun hp
  obtain ⟨harbiter, hlocal⟩ := h.tests.arbiter _ p hp
  rw [hact] at harbiter
  have hfinish := SpeedArbiter.finish_own harbiter
  rw [hlocal] at hfinish
  unfold ActivityWorld.dropRun
  rw [if_neg (by rw [hact]; simp)]
  refine ⟨h.books, ?_⟩
  refine h.tests.put (fun _ _ h => get_modify_some h hp) ?_ ?_ ?_ ?_ ?_ ?_
  · rw [hfinish]
    exact ⟨rfl, rfl⟩
  · intro call' handle hpreparing
    rw [hidle] at hpreparing
    cases hpreparing
  · intro lease handle hnone
    cases hnone
  · intro c' p' hne hp' handle hholds
    refine ⟨?_, rfl⟩
    unfold holds
    simp [hidle]
  · intro g' run' hrun'
    obtain ⟨hne, hrun'⟩ := get_release_some hrun'
    exact h.tests.guarded_elsewhere hrun' fun hsame =>
      hne (h.tests.alone g' g run' run hrun' hrun hsame)
  · intro g₁ g₂ run₁ run₂ hrun₁ hrun₂ hsame
    exact h.tests.alone g₁ g₂ run₁ run₂ (get_release_some hrun₁).2 (get_release_some hrun₂).2 hsame

theorem Inv.claimStream (hp : w.connections.get c = some p) (sender : NodeId) (lease : SpeedLease) :
    Inv { w with
      connections := w.connections.modify c fun p =>
        { p with arbiter := (p.arbiter.claimStream sender lease).toOption.getD p.arbiter } } := by
  refine ⟨h.books, ?_⟩
  obtain ⟨hact, hlocal⟩ := p.arbiter.claimStream_keeps sender lease
  obtain ⟨harbiter, hlocal'⟩ := h.tests.arbiter c p hp
  refine h.tests.put (fun _ _ h => get_modify_some h hp)
    ⟨hact.trans harbiter, hlocal.trans hlocal'⟩ ?_ ?_ ?_ ?_ h.tests.alone
  · intro call handle hpreparing
    exact h.tests.prepared c p call handle hp hpreparing
  · intro lease' handle hact'
    exact h.tests.tested c p lease' handle hp hact'
  · intro c' p' hne hp' handle hholds
    refine ⟨?_, rfl⟩
    cases hown : p.holds handle with
    | false => exact hown
    | true => exact absurd (h.tests.owner c' c p' p handle hp' hp hholds hown) hne
  · intro g run hrun
    obtain ⟨p', hp', hact'⟩ := h.tests.guarded g run hrun
    rw [get_modify, hp']
    split
    · exact ⟨_, rfl, hact'⟩
    · exact ⟨p', rfl, hact'⟩

/-- A permit that no connection holds is given back. -/
theorem Inv.releaseSpeed {speed : SpeedPermit} (hlease : w.leases.get permit = some speed)
    (hfree : ∀ c p, w.connections.get c = some p → p.holds permit = false) :
    (w.releaseSpeed permit speed).Inv := by
  refine ⟨h.books.dropSpeed hlease, ?_⟩
  have hkept : ∀ {c : Nat} {p : SpeedPeer} {handle : Nat}, w.connections.get c = some p →
      p.holds handle = true → (w.leases.release permit).get handle = w.leases.get handle := by
    intro c p handle hp hholds
    rw [get_release, if_neg]
    rintro rfl
    rw [hfree c p hp] at hholds
    cases hholds
  refine ⟨h.tests.arbiter, ?_, ?_, h.tests.owner, h.tests.guarded, h.tests.alone⟩
  · intro c p call handle hp hpreparing
    obtain ⟨hact, hget⟩ := h.tests.prepared c p call handle hp hpreparing
    exact ⟨hact, (hkept hp (SpeedPeer.holds_preparing hpreparing)).trans hget⟩
  · intro c p lease handle hp hact
    obtain ⟨id, hget⟩ := h.tests.tested c p lease handle hp hact
    exact ⟨id, (hkept hp (SpeedPeer.holds_active hact)).trans hget⟩

omit h

/-- `holds` of no connection, from the count of those that hold. -/
theorem not_holds_of_countP {connections : Handles SpeedPeer}
    (h : connections.live.countP (fun _ p => p.holds permit) = 0)
    (hp : connections.get c = some p) : p.holds permit = false := by
  have hentry := AList.lookup_eq_some_iff.mp hp
  have hnone := List.countP_eq_zero.mp h _ hentry
  simpa using hnone

/-- What a step can do. -/
inductive ActivityStep (w : ActivityWorld) : ActivityEvent → ActivityWorld → Prop
  | kept {e : ActivityEvent} (hdrop : ∀ h, e ≠ .dropFile h) (queue : TaskQueue)
      (active : FinMap TaskId ActiveTask) :
      ActivityStep w e { w with queue, active }
  | filed {e : ActivityEvent} {peer : NodeId} {activity : ActivityState}
      (hdrop : ∀ h, e ≠ .dropFile h) (hadd : w.activity.addFile peer = .ok activity)
      (queue : TaskQueue) (active : FinMap TaskId ActiveTask) :
      ActivityStep w e { w with activity, permits := w.permits.issue ⟨peer⟩, queue, active }
  | dropped {h : Nat} {file : FilePermit} (hfile : w.permits.get h = some file) :
      ActivityStep w (.dropFile h)
        { w with activity := w.activity.dropFile file.peer, permits := w.permits.release h }
  | connected {remote : NodeId} :
      ActivityStep w (.connect remote)
        { w with connections := w.connections.issue ⟨remote, .new w.localId remote, none, none⟩ }
  | prepared {c : Nat} {p : SpeedPeer} {call : SpeedCall} (hp : w.connections.get c = some p)
      (hidle : p.preparing = none) : ActivityStep w (.prepare c call) (w.prepare c p call)
  | granted {c permit : Nat} {p : SpeedPeer} {call : SpeedCall}
      (hp : w.connections.get c = some p) (hpreparing : p.preparing = some (call, permit)) :
      ActivityStep w (.grant c) (w.grant c p call permit)
  | streamed {c : Nat} {p : SpeedPeer} {sender : NodeId} {lease : SpeedLease}
      (hp : w.connections.get c = some p) :
      ActivityStep w (.claimStream c sender lease) { w with
        connections := w.connections.modify c fun p =>
          { p with arbiter := (p.arbiter.claimStream sender lease).toOption.getD p.arbiter } }
  | ended {g : Nat} {run : RunGuard} {p : SpeedPeer} (hrun : w.guards.get g = some run)
      (hp : w.connections.get run.connection = some p) (hidle : p.preparing = none) :
      ActivityStep w (.dropRun g) (w.dropRun g run p)
  | freed {permit : Nat} {speed : SpeedPermit} (hlease : w.leases.get permit = some speed)
      (hfree : ∀ c p, w.connections.get c = some p → p.holds permit = false) :
      ActivityStep w (.dropSpeed permit) (w.releaseSpeed permit speed)

theorem file_cases {peer : NodeId} (h : w.file peer = .ok w') : ∃ activity,
    w.activity.addFile peer = .ok activity ∧
      w' = { w with activity, permits := w.permits.issue ⟨peer⟩ } := by
  unfold file at h
  split at h
  · cases h
  next activity hadd =>
    exact ⟨activity, hadd, (Except.ok.inj h).symm⟩

theorem claim_cases {peer : NodeId} {id : TaskId} {direction : TaskDirection} {metadata : Bool}
    {sendGeneration : Option UInt64} (hdrop : ∀ h, e ≠ .dropFile h)
    (h : w.claim peer id direction metadata sendGeneration = .ok w') : ActivityStep w e w' := by
  unfold claim at h
  dsimp only at h
  split at h
  · cases h
  split at h
  · split at h
    · cases h
    · cases h
      exact .kept hdrop _ _
  · split at h
    · cases h
    · split at h
      · cases h
      next w₁ hfile =>
        obtain ⟨activity, hadd, rfl⟩ := file_cases hfile
        cases h
        exact .filed hdrop hadd _ _

theorem dispatch_step {connected : NodeId → Bool} (h : w.dispatch connected = some w') :
    ActivityStep w (.dispatch connected) w' := by
  unfold dispatch at h
  split at h
  · cases h
    exact .kept (by simp) _ _
  split at h
  · cases h
  rename_i w₁ hfile
  obtain ⟨activity, hadd, rfl⟩ := file_cases hfile
  cases h
  exact .filed (by simp) hadd _ _

theorem step_cases (h : w.step e = some w') : ActivityStep w e w' := by
  unfold step at h
  cases e with
  | file peer =>
    cases h
    cases hfile : w.file peer with
    | error err => exact .kept (by simp) _ _
    | ok w₁ =>
      obtain ⟨activity, hadd, rfl⟩ := file_cases hfile
      exact .filed (by simp) hadd _ _
  | queue op =>
    cases h
    exact .kept (by simp) _ _
  | dispatch connected => exact dispatch_step h
  | claim peer id direction metadata sendGeneration =>
    cases h
    cases hclaim : w.claim peer id direction metadata sendGeneration with
    | error err => exact .kept (by simp) _ _
    | ok w₁ => exact claim_cases (by simp) hclaim
  | endActive id =>
    cases h
    exact .kept (by simp) _ _
  | dropFile permit =>
    dsimp only at h
    split at h
    · cases h
    next file hfile =>
      cases h
      exact .dropped hfile
  | connect remote =>
    cases h
    exact .connected
  | prepare connection call =>
    dsimp only at h
    split at h
    · cases h
    rename_i p hp
    split at h
    · cases h
    next hidle =>
      cases h
      exact .prepared hp (by simpa using hidle)
  | grant connection =>
    dsimp only at h
    split at h
    · cases h
    rename_i p hp
    split at h
    · cases h
    next call permit hpreparing =>
      cases h
      exact .granted hp hpreparing
  | claimStream connection sender lease =>
    dsimp only at h
    split at h
    · cases h
    rename_i p hp
    split at h
    · cases h
    · cases h
      exact .streamed hp
  | dropRun guard =>
    dsimp only at h
    split at h
    · cases h
    rename_i run hrun
    split at h
    · cases h
    rename_i p hp
    split at h
    · cases h
    next hidle =>
      cases h
      exact .ended hrun hp (by simpa using hidle)
  | dropSpeed permit =>
    dsimp only at h
    split at h
    · cases h
    rename_i speed hlease
    split at h
    next hfree =>
      cases h
      exact .freed hlease fun _ _ hp => not_holds_of_countP hfree hp
    · cases h

theorem Inv.step (h : w.Inv) (hstep : ActivityStep w e w') : w'.Inv := by
  cases hstep with
  | kept hdrop queue active => exact ⟨h.books, h.tests⟩
  | filed hdrop hadd queue active => exact ⟨h.books.addFile hadd, h.tests⟩
  | dropped hfile => exact ⟨h.books.dropFile hfile, h.tests⟩
  | connected => exact ⟨h.books, h.tests.connect _⟩
  | prepared hp hidle => exact h.prepare hp
  | granted hp hpreparing => exact h.grant hp hpreparing
  | streamed hp => exact h.claimStream hp _ _
  | ended hrun hp hidle => exact h.dropRun hrun hp hidle
  | freed hlease hfree => exact h.releaseSpeed hlease hfree

/-! ## Permits and leases over a step -/

@[simp] theorem prepare_permits : (w.prepare c p call).permits = w.permits := by
  unfold ActivityWorld.prepare
  split <;> rfl

@[simp] theorem grant_permits : (w.grant c p call permit).permits = w.permits := by
  unfold ActivityWorld.grant
  split <;> rfl

@[simp] theorem dropRun_permits : (w.dropRun g run p).permits = w.permits := by
  unfold ActivityWorld.dropRun
  split <;> rfl

@[simp] theorem dropRun_leases : (w.dropRun g run p).leases = w.leases := by
  unfold ActivityWorld.dropRun
  split <;> rfl

/-- A permit that was given out is live, or was dropped: the two numbers add up. -/
theorem permit_step (hstep : ActivityStep w e w') (h : Nat) :
    (if e.drops h then 1 else 0) + w'.permits.liveCount h + w.permits.issued h =
      w'.permits.issued h + w.permits.liveCount h := by
  have hnot : ∀ {e : ActivityEvent}, (∀ h, e ≠ .dropFile h) → e.drops h = false := by
    intro e hdrop
    cases e with
    | dropFile h => exact absurd rfl (hdrop h)
    | _ => rfl
  have hsame : ∀ {e : ActivityEvent} {permits : Handles FilePermit}, (∀ h, e ≠ .dropFile h) →
      permits = w.permits → (if e.drops h then 1 else 0) + permits.liveCount h +
        w.permits.issued h = permits.issued h + w.permits.liveCount h := by
    rintro e permits hdrop rfl
    rw [hnot hdrop]
    simp only [Bool.false_eq_true, if_false]
    omega
  cases hstep with
  | kept hdrop queue active => exact hsame hdrop rfl
  | @filed e peer activity hdrop hadd queue active =>
    rw [hnot hdrop]
    have hissue := @Handles.liveCount_issue _ w.permits h ⟨peer⟩
    simp only [Bool.false_eq_true, if_false]
    omega
  | @dropped h' file hfile =>
    have hrelease := @Handles.liveCount_release _ w.permits h h' file hfile
    have hdrops : (ActivityEvent.dropFile h').drops h = decide (h = h') := rfl
    have hissued : (w.permits.release h').issued h = w.permits.issued h := rfl
    rw [hdrops]
    simp only [decide_eq_true_eq]
    omega
  | prepared hp hidle => exact hsame nofun prepare_permits
  | granted hp hpreparing => exact hsame nofun grant_permits
  | ended hrun hp hidle => exact hsame nofun dropRun_permits
  | _ => exact hsame nofun rfl

/-- A lease ends when its own permit is dropped. -/
theorem lease_step (hstep : ActivityStep w e w') (hlease : w.leases.get permit = some speed) :
    w'.leases.get permit = some speed ∨ e = .dropSpeed permit ∨
      ∃ c p call, e = .grant c ∧ w.connections.get c = some p ∧
        p.preparing = some (call, permit) := by
  have hrelease : ∀ {permit' : Nat}, permit ≠ permit' →
      (w.leases.release permit').get permit = some speed := by
    intro permit' hne
    rw [get_release, if_neg hne]
    exact hlease
  cases hstep with
  | prepared hp hidle =>
    left
    unfold ActivityWorld.prepare
    split
    · exact hlease
    · exact get_issue_of_get hlease
  | @granted c permit' p call hp hpreparing =>
    by_cases hsame : permit = permit'
    · subst hsame
      exact .inr (.inr ⟨c, p, call, rfl, hp, hpreparing⟩)
    left
    unfold ActivityWorld.grant
    split
    · exact hrelease hsame
    · exact hlease
  | ended hrun hp hidle =>
    left
    rw [dropRun_leases]
    exact hlease
  | @freed permit' speed' hlease' hfree =>
    by_cases hsame : permit = permit'
    · exact .inr (.inl (by rw [hsame]))
    · exact .inl (hrelease hsame)
  | _ => exact .inl hlease

/-- A test ends when its own guard is dropped. -/
theorem test_step (h : w.Inv) (hstep : ActivityStep w e w') (hp : w.connections.get c = some p)
    (hact : p.active = some (lease, permit)) :
    (∃ p', w'.connections.get c = some p' ∧ p'.active = some (lease, permit)) ∨
      ∃ g, e = .dropRun g ∧ w.guards.get g = some ⟨c, lease, permit⟩ := by
  have hsame : ∃ p', w.connections.get c = some p' ∧ p'.active = some (lease, permit) :=
    ⟨p, hp, hact⟩
  -- A change of one connection keeps the test if it does not touch the test there.
  have hmodify : ∀ {c' : Nat} {f : SpeedPeer → SpeedPeer},
      (c = c' → (f p).active = p.active) →
      ∃ p', (w.connections.modify c' f).get c = some p' ∧ p'.active = some (lease, permit) := by
    intro c' f hf
    rw [get_modify, hp]
    split
    next heq =>
      exact ⟨f p, rfl, (hf heq).trans hact⟩
    · exact ⟨p, rfl, hact⟩
  cases hstep with
  | connected => exact .inl ⟨p, get_issue_of_get hp, hact⟩
  | prepared hp' hidle =>
    left
    unfold ActivityWorld.prepare
    split
    · exact hsame
    · exact hmodify fun _ => rfl
  | @granted c' permit' p' call hp' hpreparing =>
    left
    obtain ⟨hnone, -⟩ := h.tests.prepared c' p' call permit' hp' hpreparing
    have hother : c ≠ c' := by
      rintro rfl
      rw [hp] at hp'
      cases hp'
      rw [hnone] at hact
      cases hact
    unfold ActivityWorld.grant
    split
    · exact hmodify fun heq => absurd heq hother
    · exact hmodify fun heq => absurd heq hother
  | streamed hp' => exact .inl (hmodify fun _ => rfl)
  | @ended g run p' hrun hp' hidle =>
    by_cases hc : c = run.connection
    · subst hc
      have hown := h.tests.own hrun hp
      rw [hact] at hown
      cases hown
      exact .inr ⟨g, rfl, hrun⟩
    · left
      unfold ActivityWorld.dropRun
      split
      · exact hsame
      · exact hmodify fun heq => absurd heq hc
  | _ => exact .inl hsame

theorem new_inv (localId : NodeId) : (new localId).Inv := by
  refine ⟨⟨fun _ => rfl, ?_, ?_, ?_⟩, ?_, ?_, ?_, ?_, ?_, ?_⟩
  · exact fun _ _ hget => nomatch hget
  · exact fun _ _ _ _ hget => nomatch hget
  · exact fun _ hspeed => nomatch hspeed
  · exact fun _ _ hget => nomatch hget
  · exact fun _ _ _ _ hget => nomatch hget
  · exact fun _ _ _ _ hget => nomatch hget
  · exact fun _ _ _ _ _ hget => nomatch hget
  · exact fun _ _ hget => nomatch hget
  · exact fun _ _ _ _ hget => nomatch hget

end ActivityWorld

theorem activity_inv {localId : NodeId} {es : List ActivityEvent} {w : ActivityWorld}
    (h : (activityMachine localId).Run es w) : w.Inv := by
  refine h.inv ?_ ?_
  · rintro w rfl
    exact ActivityWorld.new_inv localId
  · intro w e w' hinv hstep
    exact hinv.step (ActivityWorld.step_cases hstep)

/-- **Files or a speed test.**  After any events: no peer has a live speed lease together
    with a live file permit; the count of a peer is the number of its live permits; a permit
    that was given out has been dropped once, or is live and has not been dropped; and a
    lease, or the test that runs under it, ends only by its own release, whatever else is
    released before. -/
theorem speed_and_files_exclude {localId : NodeId} {es : List ActivityEvent} {w : ActivityWorld}
    (h : (activityMachine localId).Run es w) :
    (∀ peer, ¬ ((∃ h permit, w.leases.get h = some permit ∧ permit.peer = peer) ∧
      ∃ h permit, w.permits.get h = some permit ∧ permit.peer = peer)) ∧
    (∀ peer, (w.activity.entry peer).files.toNat =
      w.permits.live.countP fun _ permit => permit.peer == peer) ∧
    (∀ permit, es.countP (·.drops permit) + w.permits.liveCount permit = w.permits.issued permit) ∧
    (∀ e w', w.step e = some w' →
      (∀ permit speed, w.leases.get permit = some speed →
        (w'.leases.get permit = some speed ∧ (w'.activity.entry speed.peer).speed = some speed.id) ∨
        e = .dropSpeed permit ∨
        ∃ c p call, e = .grant c ∧ w.connections.get c = some p ∧
          p.preparing = some (call, permit)) ∧
      (∀ c p lease permit, w.connections.get c = some p → p.active = some (lease, permit) →
        (∃ p', w'.connections.get c = some p' ∧ p'.active = some (lease, permit)) ∨
        ∃ g, e = .dropRun g ∧ w.guards.get g = some ⟨c, lease, permit⟩)) := by
  have hinv := activity_inv h
  refine ⟨?_, hinv.books.counted, ?_, ?_⟩
  · rintro peer ⟨⟨lease, speed, hlease, rfl⟩, permit, file, hfile, hpeer⟩
    have hzero := hinv.books.excluded speed.peer (by rw [hinv.books.leased lease speed hlease]; rfl)
    have hcount := hinv.books.counted speed.peer
    rw [hzero, countP_release _ hfile, hpeer] at hcount
    simp at hcount
  · intro permit
    refine Machine.Run.hist
      (I := fun es w => es.countP (·.drops permit) + w.permits.liveCount permit =
        w.permits.issued permit) ?_ ?_ h
    · rintro w rfl
      rfl
    · intro es w e w' _ hlaw hstep
      have hpermit := ActivityWorld.permit_step (ActivityWorld.step_cases hstep) permit
      rw [List.countP_append, List.countP_singleton]
      omega
  · intro e w' hstep
    have hcases := ActivityWorld.step_cases hstep
    refine ⟨?_, ?_⟩
    · intro permit speed hlease
      rcases ActivityWorld.lease_step hcases hlease with hlease' | hended
      · exact .inl ⟨hlease', (hinv.step hcases).books.leased permit speed hlease'⟩
      · exact .inr hended
    · intro c p lease permit hp hactive
      exact ActivityWorld.test_step hinv hcases hp hactive

namespace ActivitySample

def here : NodeId := Bytes.fill 16 1

def there : NodeId := Bytes.fill 16 2

def call : SpeedCall :=
  ⟨here, ⟨_, canonical_ascending⟩, .upload, 30, none, Bytes.fill 16 7⟩

/-- A file is sent, then a test runs while another file asks for a permit. -/
def events : List ActivityEvent :=
  [.connect there, .file there, .prepare 0 call, .dropFile 0, .prepare 0 call, .grant 0,
    .file there]

end ActivitySample

open ActivitySample in
/-- While the test runs, the file has no permit and the first one is not dropped again. -/
theorem speed_and_files_exclude_test : ∃ w, (activityMachine here).Run events w ∧
      (w.leases.get 0).isSome ∧ w.permits.next = 1 ∧
      (w.activity.entry there).files.toNat =
        w.permits.live.countP fun _ permit => permit.peer == there := by
  have hsome : (Machine.exec ActivityWorld.step (.new here)
      events).any (fun w => (w.leases.get 0).isSome && w.permits.next == 1)
      = true := by
    decide +kernel
  obtain ⟨w, hexec, hw⟩ := (Option.any_eq_true _ _).mp hsome
  rw [Bool.and_eq_true, beq_iff_eq] at hw
  have hrun : (activityMachine here).Run events w := Machine.run_of_exec rfl hexec
  obtain ⟨-, hcounted, -⟩ := speed_and_files_exclude hrun
  exact ⟨w, hrun, hw.1, hw.2, hcounted there⟩

end P2pFile.Node
