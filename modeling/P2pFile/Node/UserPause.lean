/-
  P2pFile.Node.UserPause

  A task that a user has paused or cancelled, and the recovery.

  A task is at rest when it is stored as paused or failed, the queue does not know it, and
  no attempt and no request for it is under way.  From then on no event but an explicit
  continuation, here or at the peer, gets it going again: every way of the recovery to an
  attempt looks at the stored state under the store's lock.

  A pause that is overtaken is another matter.  `finish_error` stores its verdict whatever
  the state is by then, unless it is final or interrupted: a recovery request that fails
  while the user pauses the task takes it out of the pause.
-/

import P2pFile.Node.RestDesk

namespace P2pFile.Node

open Lib Protocol Storage
open Option (any_eq_true bind_eq_some_iff ite_none_left_eq_some ite_none_right_eq_some
  map_eq_some_iff)

variable {c : Crypto} {T : TaskId}

/-! ## The service -/

/-- The attempt has not claimed its task, or it has given it up. -/
def SendPhase.Waits : SendPhase → Prop
  | .scheduled | .reserved _ | .leaving => True
  | _ => False

/-- The attempt is an automatic Offer that is not accepted yet, or it has ended. -/
def ReceivePhase.Waits : ReceivePhase → Prop
  | .offered _ _ _ automatic => automatic = true
  | .done => True
  | _ => False

/-- The call goes on with the task. -/
def ServiceCall.Continues (T : TaskId) : ServiceCall → Prop
  | .resuming _ ids => T ∈ ids
  | .continuing id | .asking id _ | .refused id _ _ | .asked _ id _ => id = T
  | _ => False

/-- A user continues the task, here or at the peer. -/
def TransferEvent.Resumes (T : TaskId) : TransferEvent → Prop
  | .resume _ ids => T ∈ ids
  | .resumeReceive _ id => id = T
  | .askResume _ id automatic => id = T ∧ automatic = false
  | .offer _ _ o automatic => o.taskId = T ∧ automatic = false
  | _ => False

/-- An attempt on the task, its data, or its recovery is noted. -/
def Note.Transfers (T : TaskId) : Note → Prop
  | .sent id | .accepted id | .began id _ | .resumed id => id = T
  | _ => False

/-- No attempt and no request for the task is under way. -/
structure Idle (T : TaskId) (s : Transfer) : Prop where
  sends : ∀ g a, s.sends.lookup g = some a → a.id = T → a.phase.Waits
  receives : ∀ phase, s.receives.lookup T = some phase → phase.Waits
  calls : ∀ call ∈ s.calls, ¬ call.Continues T

/-- Besides, the task is stored as paused or failed, and it is not queued. -/
structure Settled (T : TaskId) (s : Transfer) : Prop extends Idle T s where
  desk : s.desk.Sat (RestDesk T)

/-- The task stays at rest, and nothing is noted of it. -/
structure StaysSettled (T : TaskId) (s s' : Transfer) : Prop where
  settled : Settled T s'
  log : ∃ notes, s'.log = s.log ++ notes ∧ ∀ n ∈ notes, ¬ n.Transfers T

theorem StaysSettled.trans {s₁ s₂ s₃ : Transfer} (h₁ : StaysSettled T s₁ s₂)
    (h₂ : StaysSettled T s₂ s₃) : StaysSettled T s₁ s₃ := by
  obtain ⟨notes₁, hlog₁, hnotes₁⟩ := h₁.log
  obtain ⟨notes₂, hlog₂, hnotes₂⟩ := h₂.log
  refine ⟨h₂.settled, notes₁ ++ notes₂, ?_, ?_⟩
  · rw [hlog₂, hlog₁, List.append_assoc]
  · intro n hn
    rcases List.mem_append.mp hn with hn | hn
    · exact hnotes₁ n hn
    · exact hnotes₂ n hn

namespace Settled

variable {s s' : Transfer} {id : TaskId} {peer : NodeId} {io : StoreIo}

theorem stays (h : Settled T s') (hlog : s'.log = s.log) : StaysSettled T s s' :=
  ⟨h, [], by rw [hlog, List.append_nil], fun _ hn => absurd hn List.not_mem_nil⟩

theorem noted {n : Note} (h : Settled T s') (hlog : s'.log = s.log ++ [n])
    (hn : ¬ n.Transfers T) : StaysSettled T s s' :=
  ⟨h, [n], hlog, fun _ hm => List.mem_singleton.mp hm ▸ hn⟩

variable (h : Settled T s)

include h

theorem note {n : Note} : Settled T (s.note n) := { h with }

variable {g : UInt64} {a : SendAttempt}

theorem setSend {phase : SendPhase} (hphase : a.id = T → phase.Waits) :
    Settled T (s.setSend g a phase) where
  __ := h
  sends := by
    intro g' a' ha hid
    rcases AList.lookup_insert_some ha with ⟨-, rfl⟩ | ⟨-, ha⟩
    · exact hphase hid
    · exact h.sends g' a' ha hid

variable {phase : ReceivePhase}

theorem setReceive (hphase : id = T → phase.Waits) : Settled T (s.setReceive id phase) where
  __ := h
  receives := by
    intro p hp
    rcases AList.lookup_insert_some hp with ⟨heq, rfl⟩ | ⟨-, hp⟩
    · exact hphase heq.symm
    · exact h.receives p hp

/-- An attempt to send that is given up. -/
theorem leaves : Settled T (s.setSend g a .leaving) := by
  refine h.setSend ?_
  exact fun _ => trivial

/-- An attempt to receive that has ended. -/
theorem ended : Settled T (s.setReceive id .done) := by
  refine h.setReceive ?_
  exact fun _ => trivial

theorem addCalls {calls : List ServiceCall} (hcalls : ∀ call ∈ calls, ¬ call.Continues T) :
    Settled T { s with calls := s.calls ++ calls } where
  __ := h
  calls := by
    intro call hmem
    rcases List.mem_append.mp hmem with hmem | hmem
    · exact h.calls call hmem
    · exact hcalls call hmem

theorem call {call : ServiceCall} (hcall : ¬ call.Continues T) : Settled T (s.call call) :=
  h.addCalls fun _ hmem => List.mem_singleton.mp hmem ▸ hcall

variable {i : Nat}

theorem setCall {call : ServiceCall} (hcall : ¬ call.Continues T) :
    Settled T (s.setCall i call) where
  __ := h
  calls := by
    intro call' hmem
    rcases List.mem_or_eq_of_mem_set hmem with hmem | rfl
    · exact h.calls call' hmem
    · exact hcall

theorem endCall (i : Nat) : Settled T (s.endCall i) where
  __ := h
  calls := fun call hmem => h.calls call (List.eraseIdx_subset hmem)

variable {plan rest : List (Fault Error)} {α : Type} {p : DeskProg α} {r : Except Error α}

theorem onDesk {J : α → DeskProp} (hp : DeskSpec (RestDesk T) p J (RestDesk T))
    (hJ : ∀ a ts q n, J a ts q n → RestDesk T ts q n)
    (hrun : s.onDesk p plan = some (r, s', rest)) :
    Settled T s' ∧ s'.log = s.log ∧ s'.calls = s.calls ∧ ∀ a, r = .ok a → s'.desk.Sat (J a) := by
  obtain ⟨desk, rfl, hok, herr⟩ := Transfer.onDesk_spec hp h.desk hrun
  refine ⟨{ h with desk := ?_ }, rfl, rfl, hok⟩
  cases r with
  | ok a => exact hJ a _ _ _ (hok a rfl)
  | error err => exact herr err rfl

/-- A program that only keeps the task at rest, as an event that ends with it. -/
theorem runs (hp : Calm T p) (hrun : s.onDesk p plan = some (r, s', rest)) :
    Settled T s' ∧ s'.log = s.log := by
  obtain ⟨hs', hlog, -, -⟩ := h.onDesk hp (fun _ _ _ _ h => h) hrun
  exact ⟨hs', hlog⟩

/-- An event that ends with such a program, but for what `f` does. -/
theorem mapDesk (hp : Calm T p) {f : Except Error α × Transfer × List (Fault Error) → Transfer}
    (hstep : (s.onDesk p plan).map f = some s')
    (hf : ∀ r s₁ rest, Settled T s₁ → StaysSettled T s₁ (f (r, s₁, rest))) :
    StaysSettled T s s' := by
  obtain ⟨⟨r, s₁, rest⟩, hrun, rfl⟩ := map_eq_some_iff.mp hstep
  obtain ⟨hs₁, hlog⟩ := h.runs hp hrun
  exact (hs₁.stays hlog).trans (hf r s₁ rest hs₁)

theorem slot_none : s.desk.queue.slotGeneration T = none := h.desk.2.slot

theorem withQueue (op : QueueOp) (hop : op.Spares T) :
    Settled T { s with desk := { s.desk with queue := s.desk.queue.step op } } :=
  { h with desk := ⟨h.desk.1, h.desk.2.step hop⟩ }

/-- What reading the task gives. -/
theorem read {record : TaskRecord} {w : OpenStore}
    (hread : boundRecord peer id s.desk.store [] = (.ok record, w, rest)) (hid : id = T) :
    record.state = .paused ∨ record.state = .failed := by
  have hholds : HoldsTasks s.desk.tasks s.desk.store := rfl
  have hpost := boundRecord_spec peer id s.desk.store [] hholds
  rw [hread] at hpost
  exact h.desk.1.state hpost.2.1 (hpost.2.2.1.trans hid)

/-! ### Selection, resumption, dispatch -/

theorem select {kind : Transfer.Selecting} {records : List TaskRecord}
    (hstep : s.select c kind peer records io = some s') : StaysSettled T s s' := by
  unfold Transfer.select at hstep
  split at hstep
  · cases hstep
  rename_i hscanned
  have hne : T ∉ records.map fun r => r.taskId := by
    intro hmem
    obtain ⟨r, hr, hid⟩ := List.mem_map.mp hmem
    obtain ⟨t, ht, htid, -⟩ := h.desk.1.stored
    have hnew : r.taskId ∉ s.usedIds := by
      have hall := List.all_eq_true.mp (Bool.not_eq_false _ ▸ hscanned) r hr
      simpa using (Bool.and_eq_true_iff.mp hall).2
    refine hnew ?_
    unfold Transfer.usedIds
    simp only [List.append_assoc]
    refine List.mem_append_left _ (List.mem_map.mpr ⟨t, ht, ?_⟩)
    exact htid.trans hid.symm
  obtain ⟨p, hp, hrun⟩ := bind_eq_some_iff.mp hstep
  have hcalm : Calm T p := by
    split at hp
    · cases hp
      exact selectWith_calm (.inr ⟨_, rfl, rfl⟩) hne
    · cases hp
    · cases hp
      exact selectWith_calm (.inl rfl) hne
    · cases hp
      exact confirmDirectory_calm hne
  exact h.mapDesk hcalm hrun fun _ _ _ hs₁ => hs₁.stays rfl

theorem enqueueTasks {ids : List TaskId} (hne : T ∉ ids) :
    StaysSettled T s (s.enqueueTasks peer ids) := by
  have hfold : ∀ (rest : List TaskId) {s₁ : Transfer}, Settled T s₁ → s₁.log = s.log →
      Settled T (rest.foldl (fun s id => { s.cancelRecovery id with
        automaticSends := s.automaticSends.erase id }) s₁) ∧
      (rest.foldl (fun s id => { s.cancelRecovery id with
        automaticSends := s.automaticSends.erase id }) s₁).log = s.log := by
    intro rest
    induction rest with
    | nil => exact fun hs₁ hlog => ⟨hs₁, hlog⟩
    | cons id rest ih =>
      intro s₁ hs₁ hlog
      exact ih { hs₁ with } hlog
  obtain ⟨hs₁, hlog⟩ := hfold ids h rfl
  refine stays (hs₁.call ?_) hlog
  exact hne

theorem resumeReceive (hne : id ≠ T) (hstep : s.resumeReceive peer id = some s') :
    StaysSettled T s s' := by
  unfold Transfer.resumeReceive at hstep
  split at hstep
  · obtain ⟨-, hstep⟩ := ite_none_right_eq_some.mp hstep
    cases hstep
    refine (h.call ?_).stays rfl
    exact hne
  · cases hstep

theorem dispatch {connected : NodeId → Bool}
    (hstep : s.dispatch connected = some s') : StaysSettled T s s' := by
  unfold Transfer.dispatch at hstep
  split at hstep
  next entry queue hdispatch =>
    obtain ⟨generation, -, rfl⟩ := map_eq_some_iff.mp hstep
    have hqueue : queue = s.desk.queue.step (.dispatch connected) := by
      show queue = (s.desk.queue.dispatch connected).2
      rw [hdispatch]
    subst hqueue
    have hqueue := h.withQueue (.dispatch connected) trivial
    exact stays (hqueue.setSend (g := generation)
      (a := ⟨entry.id, entry.peer, entry.metadata, .scheduled⟩) fun _ => trivial) rfl
  · cases hstep

/-! ### Attempts to send -/

variable {automatic : Bool}

theorem askResume (hmanual : ¬ (id = T ∧ automatic = false))
    (hstep : s.askResume peer id automatic = some s') : StaysSettled T s s' := by
  unfold Transfer.askResume at hstep
  split at hstep
  next record _ _ hread =>
    obtain ⟨⟨-, -, hallowed⟩, hstep⟩ := ite_none_right_eq_some.mp hstep
    cases hstep
    refine stays (h.call ?_) rfl
    -- an automatic request for the task does not pass its check
    rintro (hid : id = T)
    have hautomatic : automatic = true := by
      by_contra hfalse
      exact hmanual ⟨hid, Bool.not_eq_true _ ▸ hfalse⟩
    rw [if_pos hautomatic] at hallowed
    rcases h.read hread hid with hstate | hstate <;>
      simp [automaticRecordAllowed, hstate] at hallowed
  · cases hstep

theorem reserve (hne : id ≠ T) (hstep : s.reserve i peer id automatic = some s') :
    StaysSettled T s s' := by
  unfold Transfer.reserve at hstep
  split at hstep
  next record _ _ _ =>
    dsimp only at hstep
    split at hstep
    · cases hstep
      exact (h.endCall i).stays rfl
    split at hstep
    next generation queue hreserve =>
      cases hstep
      have hqueue : queue =
          s.desk.queue.step (.reserveDirect ⟨id, peer, record.directoryDetails.isSome⟩) := by
        show queue = (s.desk.queue.reserveDirect _).2
        rw [hreserve]
      subst hqueue
      have hqueue := (h.endCall i).withQueue
        (.reserveDirect ⟨id, peer, record.directoryDetails.isSome⟩) hne
      exact stays (hqueue.setSend (g := generation)
        (a := ⟨id, peer, record.directoryDetails.isSome, .reserved automatic⟩)
        fun _ => trivial) rfl
    · cases hstep
      exact (h.endCall i).stays rfl
  · cases hstep
    exact (h.endCall i).stays rfl

/-- The task has no slot: an attempt that was scheduled for it is discarded. -/
theorem claim_discards (hid : a.id = T) (asked : Option Bool) :
    s.claim g a asked = s.setSend g a .leaving := by
  rcases s.claim_cases g a asked with ⟨-, heq⟩ | ⟨_, _, _, hslot, _⟩
  · exact heq
  · rw [hid, h.slot_none] at hslot
    cases hslot

theorem claim (g : UInt64) (a : SendAttempt) (asked : Option Bool) :
    StaysSettled T s (s.claim g a asked) := by
  by_cases hid : a.id = T
  · rw [h.claim_discards hid asked]
    exact h.leaves.stays rfl
  rcases s.claim_cases g a asked with ⟨-, heq⟩ | ⟨_, _, _, _, heq⟩
  · rw [heq]
    exact h.leaves.stays rfl
  · rw [heq]
    refine stays (setSend ?_ fun heq => absurd heq hid) rfl
    exact { h with }

theorem beginSending {mode : SendMode} (hne : a.id ≠ T)
    (hstep : s.beginSending c g a mode io = some s') : StaysSettled T s s' := by
  unfold Transfer.beginSending at hstep
  dsimp only at hstep
  split at hstep
  · cases hstep
  next hrun =>
    obtain ⟨hs₁, hlog⟩ := h.runs (beginSend_calm hne) hrun
    split at hstep
    · cases hstep
      exact (hs₁.setSend fun heq => absurd heq hne).stays hlog
    · cases hstep
      exact (hs₁.setSend fun heq => absurd heq hne).note.noted (congrArg (· ++ [_]) hlog) hne
  next hrun =>
    cases hstep
    obtain ⟨hs₁, hlog⟩ := h.runs (beginSend_calm hne) hrun
    exact (hs₁.setSend fun heq => absurd heq hne).stays hlog

theorem proceed (ha : s.sends.lookup g = some a) (hstep : s.proceed c g a io = some s') :
    StaysSettled T s s' := by
  have hwaits := h.sends g a ha
  unfold Transfer.proceed at hstep
  split at hstep
  case h_1 =>
    cases hstep
    exact h.claim g a none
  case h_2 automatic _ =>
    cases hstep
    exact h.claim g a (some automatic)
  case h_9 =>
    cases hstep
    have hqueue := h.withQueue (.finishIf a.id g) trivial
    refine stays ⟨⟨?_, h.receives, h.calls⟩, hqueue.desk⟩ rfl
    intro g' a' ha' hid
    exact h.sends g' a' (AList.lookup_erase_some ha').2 hid
  -- in the other phases the attempt has claimed its task
  all_goals
    rename_i hphase
    have hne : a.id ≠ T := by
      intro hid
      have hfalse := hwaits hid
      rw [hphase] at hfalse
      exact hfalse
  case h_3 =>
    cases hstep
    have herased : Settled T { s with automaticSends := s.automaticSends.erase a.id } := { h with }
    exact stays (herased.setSend fun heq => absurd heq hne) rfl
  case h_4 => exact h.beginSending hne hstep
  case h_5 =>
    cases hstep
    exact stays (h.setSend fun heq => absurd heq hne) rfl
  case h_6 => cases hstep
  case h_7 =>
    exact h.mapDesk (finishStored_calm hne) hstep fun _ _ _ hs₁ =>
      (hs₁.setSend fun heq => absurd heq hne).stays rfl
  case h_8 =>
    cases hstep
    have herased : Settled T { s with active := s.active.erase a.id } := { h with }
    exact stays (herased.setSend fun heq => absurd heq hne) rfl

theorem abortSend (ha : s.sends.lookup g = some a) : StaysSettled T s (s.abortSend g a) := by
  have hwaits := h.sends g a ha
  unfold Transfer.abortSend
  split
  case h_4 hscheduled hreserved hleaving =>
    refine stays (h.setSend fun hid => ?_) rfl
    have hphase := hwaits hid
    cases hp : a.phase with
    | scheduled => exact absurd hp hscheduled
    | reserved automatic => exact absurd hp (hreserved automatic)
    | leaving => exact absurd hp hleaving
    | _ =>
      rw [hp] at hphase
      exact hphase.elim
  all_goals exact h.leaves.stays rfl

/-! ### Attempts to receive -/

variable {peerId : PeerId}

theorem offer {o : Offer} (hmanual : ¬ (o.taskId = T ∧ automatic = false))
    (hstep : s.offer peer peerId o automatic = some s') : StaysSettled T s s' := by
  unfold Transfer.offer at hstep
  split at hstep
  · cases hstep
  obtain ⟨s₁, hclaim, rfl⟩ := map_eq_some_iff.mp hstep
  unfold Transfer.claimReceive at hclaim
  dsimp only at hclaim
  split at hclaim
  · cases hclaim
  cases hclaim
  have hclaimed : Settled T { s with
      active := s.active.insert o.taskId ⟨⟨peer, .receive, o.entry == .directory⟩, false⟩
      recovery := s.recovery.enroll s.now o.taskId peer .receive } := { h with }
  refine stays (hclaimed.setReceive fun hid => ?_) rfl
  by_contra hfalse
  exact hmanual ⟨hid, Bool.not_eq_true _ ▸ hfalse⟩

variable {root : PathBuf}

theorem accept {o : Offer} (hT : o.taskId = T → automatic = true)
    (hstep : s.accept c peer peerId o automatic root io = some s') : StaysSettled T s s' := by
  unfold Transfer.accept at hstep
  dsimp only at hstep
  split at hstep
  · cases hstep
  next hrun =>
    obtain ⟨hs₁, hlog, -, hok⟩ := h.onDesk (acceptStored_calm hT) (fun _ _ _ _ h => h.2) hrun
    have hne : o.taskId ≠ T := (hok _ rfl).1
    split at hstep
    · cases hstep
      exact hs₁.ended.stays hlog
    · cases hstep
      exact (hs₁.setReceive fun heq => absurd heq hne).note.noted (congrArg (· ++ [_]) hlog) hne
  next hrun =>
    cases hstep
    obtain ⟨hs₁, hlog, -, -⟩ := h.onDesk (acceptStored_calm hT) (fun _ _ _ _ h => h.2) hrun
    exact hs₁.ended.stays hlog

theorem proceedReceive (hphase : s.receives.lookup id = some phase)
    (hstep : s.proceedReceive c id root io phase = some s') : StaysSettled T s s' := by
  have hwaits : id = T → phase.Waits := by
    rintro rfl
    exact h.receives phase hphase
  cases phase with
  | offered peer peerId o automatic =>
    have hstep : (if o.taskId ≠ id then none else s.accept c peer peerId o automatic root io) =
      some s' := hstep
    obtain ⟨hsame, hstep⟩ := ite_none_left_eq_some.mp hstep
    rw [not_not] at hsame
    exact h.accept (fun hid => hwaits (hsame ▸ hid)) hstep
  | running automatic =>
    cases hstep
    have hended : Settled T (s.setReceive id .done) := h.ended
    exact stays { h with receives := hended.receives } rfl
  | failing verdict =>
    have hne : id ≠ T := fun hid => hwaits hid
    exact h.mapDesk (finishStored_calm hne) hstep fun _ _ _ hs₁ => hs₁.ended.stays rfl
  | done =>
    cases hstep
    refine stays { h with receives := ?_ } rfl
    intro p hp
    exact h.receives p (AList.lookup_erase_some hp).2

/-! ### Running attempts, users and the session -/

/-- The intentions do not matter. -/
theorem withRecovery (recovery : Recovery) : Settled T { s with recovery } := { h with }

theorem work {op : Transfer.AttemptOp} (hne : id ≠ T) (hstep : s.work c id op plan = some s') :
    StaysSettled T s s' := by
  obtain ⟨-, hstep⟩ := ite_none_left_eq_some.mp hstep
  obtain ⟨recovery, hbefore⟩ := op.before_eq s id
  rw [hbefore] at hstep
  refine StaysSettled.trans ((h.withRecovery recovery).stays rfl) ?_
  exact (h.withRecovery _).mapDesk (attemptOp_calm hne op) hstep fun _ _ _ hs₁ => hs₁.stays rfl

theorem pauseStored {waiting : Bool} (hstep : s.pauseStored c i id waiting io = some s') :
    StaysSettled T s s' := by
  unfold Transfer.pauseStored at hstep
  split at hstep
  next a _ =>
    cases hstep
    have hflag : Settled T { s with active := s.active.insert id { a with pause := true } } :=
      { h with }
    exact noted (hflag.endCall i).note rfl nofun
  · split at hstep
    · cases hstep
    next hrun =>
      cases hstep
      obtain ⟨hs₁, hlog⟩ := h.runs pauseIdle_calm hrun
      exact (hs₁.endCall i).note.noted (congrArg (· ++ [_]) hlog) nofun
    next hrun =>
      cases hstep
      obtain ⟨hs₁, hlog⟩ := h.runs pauseIdle_calm hrun
      exact (hs₁.endCall i).stays hlog

theorem cancelCommit (hstep : s.cancelCommit c i id io = some s') : StaysSettled T s s' := by
  unfold Transfer.cancelCommit at hstep
  dsimp only at hstep
  split at hstep
  · cases hstep
  next s₁ _ hrun =>
    cases hstep
    obtain ⟨hs₁, hlog⟩ := h.runs cancelStored_calm hrun
    split
    · have hset : Settled T (s₁.setCall i (.cancelled id)) := hs₁.setCall fun hn => hn
      exact stays { hs₁ with calls := hset.calls } hlog
    · exact stays (hs₁.setCall nofun) hlog
  next hrun =>
    cases hstep
    obtain ⟨hs₁, hlog⟩ := h.runs cancelStored_calm hrun
    exact (hs₁.endCall i).stays hlog

/-! ### Recovery -/

variable {ticket : Ticket}

theorem settle {rest : List Ticket} (hstep : s.settle c i peer ticket rest io = some s') :
    StaysSettled T s s' := by
  have hset : ∀ {s₁ : Transfer} (tickets : List Ticket), Settled T s₁ →
      Settled T (s₁.setCall i (.settling peer tickets)) := by
    intro s₁ tickets hs₁
    exact hs₁.setCall nofun
  unfold Transfer.settle at hstep
  dsimp only at hstep
  split at hstep
  · cases hstep
    exact (hset rest h).stays rfl
  split at hstep
  · cases hstep
  next drop _ _ hrun =>
    cases hstep
    obtain ⟨hs₁, hlog⟩ := (hset rest h).runs settleStored_calm hrun
    cases drop with
    | true => exact (hs₁.withRecovery _).stays hlog
    | false => exact hs₁.stays hlog
  next hrun =>
    cases hstep
    obtain ⟨hs₁, hlog⟩ := (hset rest h).runs settleStored_calm hrun
    exact (hset [] hs₁).stays hlog

theorem giveUp (i : Nat) (ticket : Ticket) : Settled T (s.giveUp i ticket) := by
  refine (h.setCall ?_).note
  exact fun hn => hn

theorem recover (hstep : s.recover c i ticket io = some s') :
    StaysSettled T s s' ∧ (ticket.id = T → s'.calls = s.calls.set i (.recovered ticket)) := by
  have hgiven : ∀ {s₁ : Transfer}, Settled T s₁ → s₁.log = s.log → s₁.calls = s.calls →
      StaysSettled T s (s₁.giveUp i ticket) ∧
        (ticket.id = T → (s₁.giveUp i ticket).calls = s.calls.set i (.recovered ticket)) := by
    intro s₁ hs₁ hlog hcalls
    refine ⟨(hs₁.giveUp i ticket).noted (congrArg (· ++ [_]) hlog) ?_, fun _ => ?_⟩
    · exact fun hn => hn
    · show s₁.calls.set i _ = _
      rw [hcalls]
  unfold Transfer.recover at hstep
  split at hstep
  · cases hstep
    exact hgiven h rfl rfl
  split at hstep
  · cases hstep
  next hrun =>
    cases hstep
    obtain ⟨hs₁, hlog, hcalls, -⟩ := h.onDesk recoverStored_calm (fun _ _ _ _ h => h.2) hrun
    exact hgiven hs₁ hlog hcalls
  next hrun =>
    cases hstep
    obtain ⟨hs₁, hlog, hcalls, -⟩ := h.onDesk recoverStored_calm (fun _ _ _ _ h => h.2) hrun
    exact hgiven (hs₁.withRecovery _) hlog hcalls
  -- from here on the task is another one
  next s₁ plan hrun =>
    obtain ⟨hs₁, hlog, hcalls, hok⟩ := h.onDesk recoverStored_calm (fun _ _ _ _ h => h.2) hrun
    have hne : ticket.id ≠ T := fun hid => nomatch (hok _ rfl).1 hid
    have hs₂ : Settled T { s₁ with
        automaticSends := s₁.automaticSends.insert ticket.id ticket } := { hs₁ with }
    dsimp only at hstep
    split at hstep
    · cases hstep
    next hadmit =>
      cases hstep
      obtain ⟨hs₃, hlog₃, hcalls₃, -⟩ := hs₂.onDesk (admitLocked_calm (by simpa using Ne.symm hne))
        (fun _ _ _ _ h => h) hadmit
      exact hgiven hs₃ (hlog₃.trans hlog) (hcalls₃.trans hcalls)
    next hadmit =>
      cases hstep
      obtain ⟨hs₃, hlog₃, -, -⟩ := hs₂.onDesk (admitLocked_calm (by simpa using Ne.symm hne))
        (fun _ _ _ _ h => h) hadmit
      refine ⟨noted (note ((hs₃.withRecovery _).setCall ?_))
        (congrArg (· ++ [_]) (hlog₃.trans hlog)) hne, fun hid => absurd hid hne⟩
      exact fun hn => hn
  next s₁ plan hrun =>
    obtain ⟨hs₁, hlog, hcalls, hok⟩ := h.onDesk recoverStored_calm (fun _ _ _ _ h => h.2) hrun
    have hne : ticket.id ≠ T := fun hid => nomatch (hok _ rfl).1 hid
    split at hstep
    · cases hstep
    next hqueue =>
      cases hstep
      obtain ⟨hs₃, hlog₃, hcalls₃, -⟩ := hs₁.onDesk (Calm.moves hne) (fun _ _ _ _ h => h) hqueue
      exact hgiven hs₃ (hlog₃.trans hlog) (hcalls₃.trans hcalls)
    next hqueue =>
      cases hstep
      obtain ⟨hs₃, hlog₃, -, -⟩ := hs₁.onDesk (Calm.moves hne) (fun _ _ _ _ h => h) hqueue
      refine ⟨noted (note (hs₃.setCall ?_))
        (congrArg (· ++ [_]) (hlog₃.trans hlog)) hne, fun hid => absurd hid hne⟩
      exact hne

theorem stop (hstep : s.stop ticket = some s') : StaysSettled T s s' := by
  obtain ⟨-, hstep⟩ := ite_none_left_eq_some.mp hstep
  cases hstep
  refine stays (call (h.withRecovery _) ?_) rfl
  split
  · exact fun hn => hn
  · exact fun hn => hn

theorem resumeCall {call : ServiceCall} (hcall : s.calls[i]? = some call)
    (hstep : s.resumeCall c i io call = some s') : StaysSettled T s s' := by
  have hother := h.calls call (List.mem_of_getElem? hcall)
  cases call with
  | resuming peer ids =>
    exact h.mapDesk (admitLocked_calm hother) hstep fun _ _ _ hs₁ => (hs₁.endCall i).stays rfl
  | continuing id =>
    refine h.mapDesk (Calm.moves hother) hstep fun r s₁ _ hs₁ => ?_
    cases r with
    | ok _ =>
      refine stays (hs₁.setCall ?_) rfl
      exact hother
    | error _ => exact (hs₁.endCall i).stays rfl
  | asking id ticket =>
    cases ticket with
    | none =>
      cases hstep
      exact (h.endCall i).stays rfl
    | some ticket =>
      cases hstep
      exact stays (h.setCall nofun) rfl
  | refused id verdict ticket =>
    refine h.mapDesk (finishStored_calm hother) hstep fun _ _ _ hs₁ => ?_
    cases ticket with
    | none => exact (hs₁.endCall i).stays rfl
    | some ticket =>
      exact stays (hs₁.setCall nofun) rfl
  | asked peer id automatic => exact h.reserve hother hstep
  | pausing id waiting => exact h.pauseStored hstep
  | cancelling id => exact h.cancelCommit hstep
  | cancelled id =>
    obtain ⟨-, hstep⟩ := ite_none_left_eq_some.mp hstep
    cases hstep
    exact (h.endCall i).note.noted rfl nofun
  | settling peer tickets =>
    cases tickets with
    | nil =>
      cases hstep
      exact (h.endCall i).stays rfl
    | cons ticket rest => exact h.settle hstep
  | recovering ticket => exact (h.recover hstep).1
  | stopping ticket =>
    have hstep : (if s.recovery.sameAttempt ticket = false then
        some (s.setCall i (.recovered ticket))
      else (s.onDesk (stopStored c ticket (io.clocks 0)) io.plan).map fun r =>
        r.2.1.setCall i (.recovered ticket)) = some s' := hstep
    split at hstep
    · cases hstep
      exact stays (h.setCall nofun) rfl
    · exact h.mapDesk stopStored_calm hstep fun _ _ _ hs₁ =>
        stays (hs₁.setCall nofun) rfl
  | recovered ticket =>
    cases hstep
    exact ((h.endCall i).withRecovery _).stays rfl
  | revoking peer rights =>
    exact h.mapDesk revokeStored_calm hstep fun _ _ _ hs₁ =>
      (hs₁.endCall i).stays rfl

/-! ### One event -/

/-- A running attempt is one of another task. -/
theorem running_send (ha : s.sends.lookup g = some a)
    (hphase : a.phase = .running automatic) : a.id ≠ T := by
  intro hid
  have hwaits := h.sends g a ha hid
  rw [hphase] at hwaits
  exact hwaits

theorem running_receive (hphase : s.receives.lookup id = some (.running automatic)) : id ≠ T := by
  rintro rfl
  exact h.receives _ hphase

theorem step {e : TransferEvent} (hmanual : ¬ e.Resumes T)
    (hstep : s.step c e = some s') : StaysSettled T s s' := by
  unfold Transfer.step at hstep
  cases e with
  | tick elapsed =>
    cases hstep
    exact stays { h with } rfl
  | select kind peer records io => exact h.select hstep
  | resume peer ids =>
    cases hstep
    exact h.enqueueTasks hmanual
  | resumeReceive peer id => exact h.resumeReceive hmanual hstep
  | dispatch connected => exact h.dispatch hstep
  | setLimit value =>
    cases hstep
    exact (h.withQueue (.setLimit value) trivial).stays rfl
  | askResume peer id automatic => exact h.askResume hmanual hstep
  | proceed generation io =>
    obtain ⟨a, ha, hstep⟩ := bind_eq_some_iff.mp hstep
    exact h.proceed ha hstep
  | abortSend generation =>
    obtain ⟨a, ha, rfl⟩ := map_eq_some_iff.mp hstep
    exact h.abortSend ha
  | workSend generation op plan =>
    dsimp only at hstep
    split at hstep
    next ha =>
      exact h.work (h.running_send ha rfl) hstep
    · cases hstep
  | sendData generation =>
    dsimp only at hstep
    split at hstep
    next ha =>
      cases hstep
      exact h.note.noted rfl (h.running_send ha rfl)
    · cases hstep
  | failSend generation verdict lost =>
    dsimp only at hstep
    split at hstep
    next a ha =>
      obtain ⟨hfails, hstep⟩ := ite_none_right_eq_some.mp hstep
      cases hstep
      obtain ⟨recovery, heq⟩ := s.finishError_eq a.id verdict lost
      rw [heq]
      refine stays ((h.withRecovery _).setSend fun hid => ?_) rfl
      have hwaits := h.sends generation a ha hid
      cases hp : a.phase with
      | running _ => exact absurd hid (h.running_send ha hp)
      | broken =>
        rw [hp] at hwaits
        exact hwaits.elim
      | _ =>
        rw [hp] at hfails
        cases hfails
    · cases hstep
  | offer peer peerId o automatic => exact h.offer hmanual hstep
  | proceedReceive id root io =>
    obtain ⟨phase, hphase, hstep⟩ := bind_eq_some_iff.mp hstep
    exact h.proceedReceive hphase hstep
  | abortReceive id =>
    obtain ⟨_, _, rfl⟩ := map_eq_some_iff.mp hstep
    exact h.ended.stays rfl
  | workReceive id op plan =>
    dsimp only at hstep
    split at hstep
    next hphase =>
      exact h.work (h.running_receive hphase) hstep
    · cases hstep
  | acceptData id =>
    dsimp only at hstep
    split at hstep
    next hphase =>
      cases hstep
      exact h.note.noted rfl (h.running_receive hphase)
    · cases hstep
  | failReceive id verdict lost =>
    dsimp only at hstep
    split at hstep
    next hphase =>
      cases hstep
      obtain ⟨recovery, heq⟩ := s.finishError_eq id verdict lost
      rw [heq]
      exact stays ((h.withRecovery _).setReceive fun hid =>
        absurd hid (h.running_receive hphase)) rfl
    · cases hstep
  | pause | cancel =>
    cases hstep
    exact stays (call (h.withRecovery _) nofun) rfl
  | revoke peer rights =>
    cases hstep
    have hcall : Settled T (s.call (.revoking peer rights)) := h.call fun hn => hn
    exact stays { h with calls := hcall.calls } rfl
  | removeCompleted op plan =>
    obtain ⟨hop, hstep⟩ := ite_none_right_eq_some.mp hstep
    exact h.mapDesk (removes_calm hop) hstep fun _ _ _ hs₁ => hs₁.stays rfl
  | settle peer =>
    cases hstep
    exact stays (h.call nofun) rfl
  | poll ready busy =>
    cases hstep
    have hjobs : Settled T { s with calls := s.calls ++
        (s.recovery.due s.now ready busy).1.2.map .recovering } := by
      refine h.addCalls fun call hmem => ?_
      obtain ⟨ticket, -, rfl⟩ := List.mem_map.mp hmem
      exact fun hn => hn
    exact stays { h with calls := hjobs.calls } rfl
  | stop ticket => exact h.stop hstep
  | refuse i verdict lost =>
    dsimp only at hstep
    split at hstep
    next id ticket hcall =>
      cases hstep
      obtain ⟨recovery, heq⟩ := s.finishError_eq id verdict lost
      rw [heq]
      have hne : id ≠ T := h.calls _ (List.mem_of_getElem? hcall)
      refine stays ((h.withRecovery _).setCall ?_) rfl
      exact hne
    · cases hstep
  | goOn i io =>
    obtain ⟨call, hcall, hstep⟩ := bind_eq_some_iff.mp hstep
    exact h.resumeCall hcall hstep
  | _ =>
    cases hstep
    exact (h.withRecovery _).stays rfl

end Settled

/-! ## Pause and cancellation -/

section Rests

variable {s s' : Transfer} {i : Nat} {io : StoreIo}

/-- Idleness does not depend on the desk and on the pending calls that end. -/
theorem Idle.endCall (h : Idle T s) (desk : Desk) : Idle T ({ s with desk }.endCall i) where
  __ := h
  calls := fun call hmem => h.calls call (List.eraseIdx_subset hmem)

variable (hidle : Idle T s) (hnone : s.active.lookup T = none)

include hidle hnone

/-- A pause that returns while no attempt has claimed the task and no request for it is under
    way brings it to rest. -/
theorem settled_of_pause (hdesk : s.desk.Sat SoundDesk) {waiting : Bool}
    (hcall : s.calls[i]? = some (.pausing T waiting)) (hstep : s.step c (.goOn i io) = some s')
    (hdone : s'.log = s.log ++ [.paused T]) : Settled T s' := by
  obtain ⟨call, hcall', hstep⟩ := bind_eq_some_iff.mp hstep
  rw [hcall] at hcall'
  cases hcall'
  have hstep : s.pauseStored c i T waiting io = some s' := hstep
  unfold Transfer.pauseStored at hstep
  rw [hnone] at hstep
  dsimp only at hstep
  split at hstep
  · cases hstep
  next hrun =>
    cases hstep
    obtain ⟨desk, rfl, hok, -⟩ := Transfer.onDesk_spec pauseIdle_rests hdesk hrun
    exact { hidle.endCall desk with desk := hok () rfl }
  next hrun =>
    cases hstep
    obtain ⟨desk, rfl, -, -⟩ := Transfer.onDesk_spec pauseIdle_rests hdesk hrun
    exact absurd (List.self_eq_append_right.mp hdone) (List.cons_ne_nil _ _)

/-- A cancellation that goes through in such a state does so as well. -/
theorem settled_of_cancel (hdesk : s.desk.Sat SoundDesk)
    (hbefore : ∀ t ∈ s.desk.tasks, t.taskId = T → t.CancelledBefore → t.state = .failed)
    (hcall : s.calls[i]? = some (.cancelling T)) (hstep : s.step c (.goOn i io) = some s')
    (hdone : s'.calls = s.calls.set i (.cancelled T)) : Settled T s' := by
  obtain ⟨call, hcall', hstep⟩ := bind_eq_some_iff.mp hstep
  rw [hcall] at hcall'
  cases hcall'
  have hstep : s.cancelCommit c i T io = some s' := hstep
  unfold Transfer.cancelCommit at hstep
  rw [hnone] at hstep
  dsimp only at hstep
  split at hstep
  · cases hstep
  next hrun =>
    cases hstep
    obtain ⟨desk, rfl, hok, -⟩ := Transfer.onDesk_spec cancelStored_rests ⟨hdesk, hbefore⟩ hrun
    have hsettled : Settled T { s with desk } := { hidle with desk := hok () rfl }
    exact hsettled.setCall fun hn => hn
  next hrun =>
    -- a cancellation that fails is over
    cases hstep
    obtain ⟨desk, rfl, -, -⟩ := Transfer.onDesk_spec cancelStored_rests ⟨hdesk, hbefore⟩ hrun
    have hlt : i < s.calls.length := (List.getElem?_eq_some_iff.mp hcall).1
    have hlength := congrArg List.length hdone
    rw [List.length_set, show (Transfer.endCall { s with desk } i).calls = s.calls.eraseIdx i from
      rfl, List.length_eraseIdx_of_lt hlt] at hlength
    omega

end Rests

/-! ## Runs -/

/-- What was scheduled for the task before is discarded: a ticket of the recovery is given
    up, and an attempt to send gives its slot back. -/
structure Discards (c : Crypto) (T : TaskId) (s : Transfer) : Prop where
  ticket : ∀ i io ticket s', s.calls[i]? = some (.recovering ticket) → ticket.id = T →
    s.step c (.goOn i io) = some s' → s'.calls[i]? = some (.recovered ticket)
  send : ∀ g a io s', s.sends.lookup g = some a → a.id = T →
    s.step c (.proceed g io) = some s' → ∀ a', s'.sends.lookup g = some a' → a'.phase = .leaving

theorem Settled.discards {s : Transfer} (h : Settled T s) : Discards c T s where
  ticket := by
    intro i io ticket s' hcall hid hstep
    obtain ⟨call, hcall', hstep⟩ := bind_eq_some_iff.mp hstep
    rw [hcall] at hcall'
    cases hcall'
    rw [(h.recover hstep).2 hid, List.getElem?_set_self]
    exact (List.getElem?_eq_some_iff.mp hcall).1
  send := by
    intro g a io s' ha hid hstep a' ha'
    obtain ⟨a₁, ha₁, hstep⟩ := bind_eq_some_iff.mp hstep
    rw [ha] at ha₁
    cases ha₁
    have hleft : ∀ {a'}, (s.setSend g a .leaving).sends.lookup g = some a' →
        a'.phase = .leaving := by
      intro a' ha'
      have ha' : (s.sends.insert g { a with phase := .leaving }).lookup g = some a' := ha'
      rw [AList.lookup_insert] at ha'
      cases ha'
      rfl
    have hwaits := h.sends g a ha hid
    unfold Transfer.proceed at hstep
    cases hp : a.phase with
    | scheduled | reserved =>
      rw [hp] at hstep
      cases hstep
      rw [h.claim_discards hid] at ha'
      exact hleft ha'
    | leaving =>
      rw [hp] at hstep
      cases hstep
      have ha' : (s.sends.erase g).lookup g = some a' := ha'
      rw [AList.lookup_erase] at ha'
      cases ha'
    | _ =>
      rw [hp] at hwaits
      exact hwaits.elim

/-- Once a task is at rest after a pause or a cancellation, it stays stored as paused or
    failed, nothing of it is sent or accepted, no attempt on it begins, and the recovery
    does not queue it, until a user continues it explicitly; what was scheduled for it
    before is discarded. -/
theorem settled_task_stays {s s' : Transfer} {es : List TransferEvent} (hsettled : Settled T s)
    (hsteps : ((transferMachine c).restrict fun _ e _ => ¬ e.Resumes T).Steps s es s') :
    StaysSettled T s s' ∧ Discards c T s' := by
  have hstays : StaysSettled T s s' := by
    refine hsteps.inv (I := StaysSettled T s) ?_ (hsettled.stays rfl)
    rintro s₁ e s₂ h ⟨hstep, hmanual⟩
    exact h.trans (h.settled.step hmanual hstep)
  exact ⟨hstays, hstays.settled.discards⟩

namespace PauseSample

def id : TaskId := ⟨_, canonical_ascending⟩

def peer : NodeId := Bytes.fill 16 0

/-- A directory that is to be sent to the peer. -/
def record : TaskRecord :=
  { schemaVersion := 1, taskId := id
    peerId := ⟨"00000000000000000000000000000000", by decide⟩, direction := .send
    localPath := .source (.ofString "/d")
    manifestIdentity := ⟨hexEncode (Crypto.sample.hash (utf8 "d")).toList, 0, 1, 0⟩
    state := .scanning, createdAtUnixMs := 1, updatedAtUnixMs := 1, diagnostic := none
    progressHint := none, fileDetails := none
    directoryDetails := some ⟨"d", false, false⟩, groupId := none }

def io : StoreIo := ⟨fun _ => .ok 2, []⟩

def opened : Option OpenStore :=
  (Machine.exec (StoreWorld.step .sample) .start [.openStore (.ok 1) []]).bind fun w =>
    w.store.map fun memory => ⟨memory, w.dir⟩

theorem opened_isSome : opened.isSome = true := by
  decide +kernel

def store : OpenStore := opened.get opened_isSome

def first : Transfer := .start store

theorem first_starts : (transferMachine .sample).init first := by
  have hopened : opened = some store := (Option.some_get _).symm
  have hnone : (store.memory.tasks.all fun t => !t.state.needsStartupRecovery) = true := by
    decide +kernel
  obtain ⟨⟨dir, running⟩, hexec, hrest⟩ := bind_eq_some_iff.mp hopened
  obtain ⟨memory, hmemory, hget⟩ := map_eq_some_iff.mp hrest
  obtain rfl : running = some memory := hmemory
  refine ⟨store, [.openStore (.ok 1) []], ?_, ?_, rfl⟩
  · rw [← hget]
    exact Machine.run_of_exec rfl hexec
  · intro t ht
    simpa using List.all_eq_true.mp hnone t ht

/-- The service after some events. -/
def after (es : List TransferEvent) : Option Transfer :=
  Machine.exec (fun s e => s.step .sample e) first es

/-- The directory is selected and sent, the network fails, and the attempt ends. -/
def lost : List TransferEvent :=
  [.setAutoResume true, .select .directory peer [record] io, .dispatch fun _ => true,
   .proceed 1 io, .proceed 1 io, .proceed 1 io, .networkLost peer,
   .failSend 1 .interrupted true, .proceed 1 io, .proceed 1 io, .proceed 1 io]

/-- The peer asks for it again, which passes the check; then the user pauses it. -/
def paused : List TransferEvent := [.askResume peer id true, .pause id, .goOn 1 io]

/-- The request goes on: it is refused, and that is stored. -/
def overtaken : List TransferEvent :=
  [.goOn 0 io, .proceed 2 io, .proceed 2 io, .proceed 2 io, .failSend 2 .interrupted false,
   .proceed 2 io]

/-- The recovery takes a ticket; then the user pauses the task. -/
def scheduled : List TransferEvent :=
  [.tick 1000, .poll (fun _ _ => true) (fun _ => false), .pause id, .goOn 1 io]

end PauseSample

open PauseSample in
/-- The user's pause has returned, and the task is stored as paused.  A request of the peer's
    recovery that was checked before goes on; it is refused, and `finish_error` stores the
    task as interrupted. -/
theorem pause_overtaken_by_request : ∃ s s', (transferMachine .sample).Run (lost ++ paused) s ∧
      s.log.getLast? = some (.paused PauseSample.id) ∧
      (∃ t ∈ s.desk.tasks, t.taskId = PauseSample.id ∧ t.state = .paused) ∧
      (transferMachine .sample).Steps s overtaken s' ∧
      (∀ e ∈ overtaken, ¬ e.Resumes PauseSample.id) ∧
      ∃ t ∈ s'.desk.tasks, t.taskId = PauseSample.id ∧ t.state = .interrupted := by
  have hrun : ((after (lost ++ paused)).any fun s =>
      s.log.getLast? == some (.paused PauseSample.id) &&
      (s.desk.tasks.any fun t => t.taskId == PauseSample.id && t.state == .paused) &&
      (Machine.exec (fun s e => s.step .sample e) s overtaken).any fun s' =>
        s'.desk.tasks.any fun t => t.taskId == PauseSample.id && t.state == .interrupted)
      = true := by
    decide +kernel
  obtain ⟨s, hexec, hchecks⟩ := (any_eq_true _ _).mp hrun
  simp only [Bool.and_eq_true, beq_iff_eq, List.any_eq_true] at hchecks
  obtain ⟨⟨hlog, hpaused⟩, hafter⟩ := hchecks
  obtain ⟨s', hexec', hinterrupted⟩ := (any_eq_true _ _).mp hafter
  simp only [Bool.and_eq_true, beq_iff_eq, List.any_eq_true] at hinterrupted
  refine ⟨s, s', Machine.run_of_exec first_starts hexec, hlog, hpaused,
    Machine.steps_of_exec hexec', ?_, hinterrupted⟩
  simp [overtaken, TransferEvent.Resumes]

namespace PauseSample

/-- The tasks, the queue, the attempts and the calls of a service that has only the paused
    task and tickets of the recovery. -/
def quiet (s : Transfer) : Bool :=
  s.desk.tasks.map (fun t => (t.taskId, t.state)) == [(id, .paused)] &&
    s.desk.queue.pending.isEmpty && (s.desk.queue.active.lookup id).isNone &&
    (s.desk.queue.generations.lookup id).isNone && s.sends.keys.isEmpty &&
    (s.receives.lookup id).isNone &&
    s.calls.all fun call => match call with
      | .recovering _ => true
      | _ => false

theorem settled_of_quiet {s : Transfer} (h : quiet s = true) : Settled id s := by
  simp only [quiet, Bool.and_eq_true, beq_iff_eq, List.isEmpty_iff, Option.isNone_iff_eq_none,
    List.all_eq_true] at h
  obtain ⟨⟨⟨⟨⟨⟨htasks, hpending⟩, hactive⟩, hslot⟩, hsends⟩, hreceives⟩, hcalls⟩ := h
  obtain ⟨t, hsingle, ht⟩ := List.map_eq_singleton_iff.mp htasks
  obtain ⟨hid, hstate⟩ := Prod.mk.inj ht
  refine ⟨⟨?_, ?_, ?_⟩, ⟨⟨?_, ?_⟩, t, ?_, hid, .inl hstate⟩, ⟨?_, hactive, hslot⟩⟩
  · intro g a ha
    have hmem : g ∈ s.sends := AList.lookup_isSome.mp (by rw [ha]; rfl)
    rw [AList.mem_keys, hsends] at hmem
    cases hmem
  · intro phase hphase
    rw [hreceives] at hphase
    cases hphase
  · intro call hmem
    have hcall := hcalls call hmem
    cases call with
    | recovering ticket => exact fun hn => hn
    | _ => cases hcall
  · simp [SortedIds, hsingle]
  · simp [UniqueIds, hsingle]
  · simp [hsingle]
  · simp [hpending]

end PauseSample

open PauseSample in
/-- The recovery has taken a ticket for the task when the user pauses it.  The network is
    lost once more, and the ticket is given up. -/
theorem settled_task_stays_ticket : ∃ s s', (transferMachine .sample).Run (lost ++ scheduled) s ∧
      s.log.getLast? = some (.paused PauseSample.id) ∧
      (s.calls.map ServiceCall.ticket).map (fun t => t.map Ticket.id) = [some PauseSample.id] ∧
      Settled PauseSample.id s ∧ StaysSettled PauseSample.id s s' ∧
      Discards .sample PauseSample.id s' ∧
      s'.log = s.log ++ [.discarded PauseSample.id] := by
  have hrun : ((after (lost ++ scheduled)).any fun s =>
      quiet s && s.log.getLast? == some (.paused PauseSample.id) &&
      (s.calls.map ServiceCall.ticket).map (fun t => t.map Ticket.id) == [some PauseSample.id] &&
      (s.step .sample (.networkLost peer)).any fun s₁ =>
        (s₁.step .sample (.goOn 0 io)).any fun s' =>
          s'.log == s.log ++ [.discarded PauseSample.id]) = true := by
    decide +kernel
  obtain ⟨s, hexec, hchecks⟩ := (any_eq_true _ _).mp hrun
  simp only [Bool.and_eq_true, beq_iff_eq] at hchecks
  obtain ⟨⟨⟨hquiet, hlog⟩, hcalls⟩, hafter⟩ := hchecks
  obtain ⟨s₁, hlost, hafter⟩ := (any_eq_true _ _).mp hafter
  obtain ⟨s', hgoOn, hgiven⟩ := (any_eq_true _ _).mp hafter
  have hsettled : Settled PauseSample.id s := settled_of_quiet hquiet
  have hfirst : ((transferMachine .sample).restrict
      fun _ e _ => ¬ e.Resumes PauseSample.id).Steps s [.networkLost peer] s₁ :=
    .single ⟨hlost, fun hn => hn⟩
  have hsecond : ((transferMachine .sample).restrict
      fun _ e _ => ¬ e.Resumes PauseSample.id).Steps s₁ [.goOn 0 io] s' :=
    .single ⟨hgoOn, fun hn => hn⟩
  obtain ⟨hstays, hdiscards⟩ := settled_task_stays hsettled (hfirst.append hsecond)
  exact ⟨s, s', Machine.run_of_exec first_starts hexec, hlog, hcalls, hsettled,
    hstays, hdiscards, by simpa using hgiven⟩

end P2pFile.Node
