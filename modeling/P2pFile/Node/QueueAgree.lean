/-
  P2pFile.Node.QueueAgree

  Store and queue agree between the events of the transfer service.

  In every run in which all the transitions of the queueing programs could be stored, and in
  which no attempt is given up while its task is still queued under its slot, each task
  that is sent and stored as queued waits in the queue or has a slot, and each entry that
  waits names a stored task of its peer.

  Without the condition a task stays behind: a `SendSlot` that is dropped gives its slot back
  and leaves the stored state alone, and a selection or a pause that cannot store one of its
  transitions returns in the middle.
-/

import P2pFile.Node.QueueDesk
import P2pFile.Node.UserPause

namespace P2pFile.Node

open Lib Protocol Storage
open Option (any_eq_true bind_eq_some_iff ite_none_left_eq_some ite_none_right_eq_some
  map_eq_some_iff)
open AList (lookup_erase_ne lookup_erase_some lookup_insert lookup_insert_some)

variable {c : Crypto}

/-! ## The invariant -/

/-- The attempt has claimed its task and not given it back yet. -/
def SendPhase.Guarded : SendPhase → Prop
  | .claimed _ | .ready _ | .running _ | .broken | .failing _ | .done => True
  | _ => False

/-- The attempt runs or has run. -/
def SendPhase.Spent : SendPhase → Prop
  | .running _ | .done | .leaving => True
  | _ => False

/-- The task of the attempt is known to be one that is received. -/
def ReceivePhase.Accepted : ReceivePhase → Prop
  | .running _ | .failing _ => True
  | _ => False

/-- What the attempts and the calls stand for. -/
def Transfer.duties (s : Transfer) : Duties where
  owns id g := ∃ a, s.sends.lookup g = some a ∧ a.id = id ∧ a.phase.Guarded
  spent id g := ∃ a, s.sends.lookup g = some a ∧ a.id = id ∧ a.phase.Spent
  receives id := (∃ p, s.receives.lookup id = some p ∧ p.Accepted) ∨
    ServiceCall.continuing id ∈ s.calls

structure Transfer.Agrees (s : Transfer) : Prop where
  desk : Agree s.duties [] s.desk.tasks s.desk.queue
  sending : ∀ g a, s.sends.lookup g = some a → a.phase.Guarded →
    ∃ x, s.active.lookup a.id = some x ∧ x.direction = .send
  receiving : ∀ id p, s.receives.lookup id = some p →
    ∃ x, s.active.lookup id = some x ∧ x.direction = .receive

variable {D D' : Duties} {tasks : List TaskRecord} {q : TaskQueue}

/-- Fewer duties are easier to fulfil. -/
theorem Agree.mono {L : List TaskId} (h : Agree D L tasks q)
    (howns : ∀ id g, D'.owns id g → D.owns id g) (hspent : ∀ id g, D'.spent id g → D.spent id g)
    (hrecv : ∀ id, D'.receives id → D.receives id) : Agree D' L tasks q :=
  { h with
    owns := fun id g hd => h.owns id g (howns id g hd)
    spent := fun id g hd => h.spent id g (hspent id g hd)
    receives := fun id hd => h.receives id (hrecv id hd) }

namespace Transfer

namespace Agrees

variable {s s' : Transfer} (h : s.Agrees)

include h

/-- Nothing has changed that matters. -/
theorem same (hdesk : s'.desk = s.desk) (hact : s'.active = s.active)
    (hsends : s'.sends = s.sends) (hrecv : s'.receives = s.receives)
    (hcalls : ∀ id, .continuing id ∈ s'.calls → .continuing id ∈ s.calls) : s'.Agrees := by
  obtain ⟨desk, recovery, active, automaticSends, sends, receives, calls, now, log⟩ := s'
  cases hdesk
  cases hact
  cases hsends
  cases hrecv
  refine ⟨h.desk.mono (fun _ _ hd => hd) (fun _ _ hd => hd) ?_, h.sending, h.receiving⟩
  exact fun id hd => hd.imp_right (hcalls id)

theorem call {call : ServiceCall} (hcall : ∀ id, call ≠ .continuing id) : (s.call call).Agrees := by
  refine h.same rfl rfl rfl rfl fun id hmem => ?_
  rcases List.mem_append.mp hmem with hmem | hmem
  · exact hmem
  · exact absurd (List.mem_singleton.mp hmem).symm (hcall id)

theorem setCall {i : Nat} {call : ServiceCall}
    (hcall : ∀ id, call ≠ .continuing id) : (s.setCall i call).Agrees := by
  refine h.same rfl rfl rfl rfl fun id hmem => ?_
  rcases List.mem_or_eq_of_mem_set hmem with hmem | heq
  · exact hmem
  · exact absurd heq.symm (hcall id)

theorem endCall (i : Nat) : (s.endCall i).Agrees :=
  h.same rfl rfl rfl rfl fun _ hmem => List.eraseIdx_subset hmem

theorem note {n : Note} : (s.note n).Agrees := h.same rfl rfl rfl rfl fun _ hmem => hmem

theorem withRecovery (recovery : Recovery) : Agrees { s with recovery } :=
  h.same rfl rfl rfl rfl fun _ hmem => hmem

variable {plan rest : List (Fault Error)}

/-- A program has run: if no failure is counted, store and queue agree. -/
theorem onDesk {α : Type} {p : DeskProg α} {J : α → DeskProp} {E : DeskProp}
    (hp : DeskSpec (AgreeDesk s.duties s.desk.failures []) p J E) {r : Except Error α}
    (hrun : s.onDesk p plan = some (r, s', rest)) :
    ∃ desk, s' = { s with desk } ∧ (∀ a, r = .ok a → desk.Sat (J a)) ∧
      ∀ err, r = .error err → desk.Sat E :=
  onDesk_spec hp ⟨rfl, h.desk⟩ hrun

theorem withDesk {desk : Desk}
    (hdesk : Agree s.duties [] desk.tasks desk.queue) : Agrees { s with desk } :=
  ⟨hdesk, h.sending, h.receiving⟩

theorem runs {α : Type} {p : DeskProg α} (hp : Fits s.duties s.desk.failures p) {r : Except Error α}
    (hrun : s.onDesk p plan = some (r, s', rest)) (hfail : s'.desk.failures = s.desk.failures) :
    s'.Agrees := by
  obtain ⟨desk, rfl, hok, herr⟩ := h.onDesk hp hrun
  refine h.withDesk ?_
  cases r with
  | ok a => exact (hok a rfl).2
  | error err => exact herr err rfl hfail

variable {a : SendAttempt}

/-- An attempt to send goes to another phase. -/
theorem setSend {g : UInt64} {phase : SendPhase}
    (hguarded : phase.Guarded → s.desk.queue.slotGeneration a.id = some g ∧
      ∃ x, s.active.lookup a.id = some x ∧ x.direction = .send)
    (hspent : phase.Spent → s.desk.queue.slotGeneration a.id = some g →
      ∀ t ∈ s.desk.tasks, t.taskId = a.id → t.direction = .send → t.state ≠ .queued) :
    (s.setSend g a phase).Agrees := by
  refine ⟨{ h.desk with owns := ?_, spent := ?_ }, ?_, h.receiving⟩
  · rintro id g' ⟨a', ha', rfl, hphase⟩
    rcases lookup_insert_some ha' with ⟨rfl, rfl⟩ | ⟨-, ha'⟩
    · exact (hguarded hphase).1
    · exact h.desk.owns _ g' ⟨a', ha', rfl, hphase⟩
  · rintro id g' ⟨a', ha', rfl, hphase⟩
    rcases lookup_insert_some ha' with ⟨rfl, rfl⟩ | ⟨-, ha'⟩
    · exact hspent hphase
    · exact h.desk.spent _ g' ⟨a', ha', rfl, hphase⟩
  · intro g' a' ha' hphase
    rcases lookup_insert_some ha' with ⟨rfl, rfl⟩ | ⟨-, ha'⟩
    · exact (hguarded hphase).2
    · exact h.sending g' a' ha' hphase

/-- An attempt that has claimed its task keeps it. -/
theorem guarded {g : UInt64} (ha : s.sends.lookup g = some a) (hphase : a.phase.Guarded) :
    s.desk.queue.slotGeneration a.id = some g ∧
      ∃ x, s.active.lookup a.id = some x ∧ x.direction = .send :=
  ⟨h.desk.owns a.id g ⟨a, ha, rfl, hphase⟩, h.sending g a ha hphase⟩

variable {id : TaskId}

/-- An attempt to receive goes to another phase. -/
theorem setReceive {phase : ReceivePhase}
    (hact : ∃ x, s.active.lookup id = some x ∧ x.direction = .receive)
    (hacc : phase.Accepted → ∀ t ∈ s.desk.tasks, t.taskId = id → t.direction = .receive) :
    (s.setReceive id phase).Agrees := by
  refine ⟨{ h.desk with receives := ?_ }, h.sending, ?_⟩
  · rintro id' (⟨p, hp, hphase⟩ | hcall)
    · rcases lookup_insert_some hp with ⟨rfl, rfl⟩ | ⟨-, hp⟩
      · exact hacc hphase
      · exact h.desk.receives id' (.inl ⟨p, hp, hphase⟩)
    · exact h.desk.receives id' (.inr hcall)
  · intro id' p hp
    rcases lookup_insert_some hp with ⟨rfl, rfl⟩ | ⟨-, hp⟩
    · exact hact
    · exact h.receiving id' p hp

/-- The active attempts are others, but those of the known ones are of the same direction. -/
theorem withActive {active : FinMap TaskId ActiveAttempt}
    (hact : ∀ id x, s.active.lookup id = some x →
      ∃ x', active.lookup id = some x' ∧ x'.direction = x.direction) :
    Agrees { s with active } := by
  refine ⟨h.desk, ?_, ?_⟩
  · intro g a ha hphase
    obtain ⟨x, hx, hsend⟩ := h.sending g a ha hphase
    obtain ⟨x', hx', heq⟩ := hact a.id x hx
    exact ⟨x', hx', heq.trans hsend⟩
  · intro id p hp
    obtain ⟨x, hx, hreceive⟩ := h.receiving id p hp
    obtain ⟨x', hx', heq⟩ := hact id x hx
    exact ⟨x', hx', heq.trans hreceive⟩

/-- A task that was not active is claimed. -/
theorem claimed (hfree : s.active.lookup id = none) (x : ActiveAttempt)
    (recovery : Recovery) : Agrees { s with active := s.active.insert id x, recovery } := by
  refine (h.withRecovery recovery).withActive ?_
  intro id' x' hx'
  refine ⟨x', ?_, rfl⟩
  rw [AList.lookup_insert_ne]
  · exact hx'
  · rintro rfl
    rw [hfree] at hx'
    cases hx'

end Agrees

end Transfer

/-! ## Slots -/

/-- The duties `D'` are some of `D`, and none is about the generation. -/
structure Duties.Fewer (D D' : Duties) (generation : UInt64) : Prop where
  owns : ∀ id g, D'.owns id g → g ≠ generation ∧ D.owns id g
  spent : ∀ id g, D'.spent id g → g ≠ generation ∧ D.spent id g
  receives : ∀ id, D'.receives id → D.receives id

variable {entry : QueueEntry} {generation : UInt64}

/-- A task gets a slot. -/
theorem Agree.activate {rest : List QueueEntry} (h : Agree D [] tasks q)
    (hduties : D.Fewer D' generation) (hfree : q.active.lookup entry.id = none)
    (hrest : ∀ e ∈ q.pending, e.id = entry.id ∨ e ∈ rest) (hsub : ∀ e ∈ rest, e ∈ q.pending)
    (hinv : ({ q with pending := rest }.activate entry generation).Inv) :
    Agree D' [] tasks ({ q with pending := rest }.activate entry generation) := by
  obtain ⟨howns, hspent, hrecv⟩ := hduties
  have hslot : ∀ id, ({ q with pending := rest }.activate entry generation).slotGeneration id =
      if id = entry.id then some generation else q.slotGeneration id := by
    intro id
    show (q.generations.insert entry.id generation).lookup id = _
    rw [AList.lookup_insert_eq_ite]
    rfl
  have hnone : q.slotGeneration entry.id = none := by
    have hkeys := h.inv.keys entry.id
    rw [hfree] at hkeys
    show q.generations.lookup entry.id = none
    cases hg : q.generations.lookup entry.id with
    | none => rfl
    | some g =>
      rw [hg] at hkeys
      cases hkeys
  refine ⟨h.tidy, hinv, h.clean, ?_, fun e he => h.pending e (hsub e he), ?_, ?_, ?_⟩
  · intro t ht hsend hqueued
    rcases h.queued t ht hsend hqueued with hmem | ⟨e, he, heid⟩ | hknown
    · cases hmem
    · rcases hrest e he with heq | he
      · right
        right
        rw [hslot, if_pos (heid.symm.trans heq)]
        rfl
      · exact .inr (.inl ⟨e, he, heid⟩)
    · right
      right
      rw [hslot]
      split
      · rfl
      · exact hknown
  · intro id g hd
    obtain ⟨-, hd⟩ := howns id g hd
    have hheld := h.owns id g hd
    rw [hslot, if_neg]
    · exact hheld
    · rintro rfl
      rw [hnone] at hheld
      cases hheld
  · intro id g hd hheld
    obtain ⟨hne, hd⟩ := hspent id g hd
    rw [hslot] at hheld
    split at hheld
    · exact absurd (Option.some.inj hheld).symm hne
    · exact h.spent id g hd hheld
  · exact fun id hd => h.receives id (hrecv id hd)

/-- The same for a task that waits. -/
theorem Agree.activate_without {waiting : QueueEntry} {l₁ l₂ : List QueueEntry}
    (h : Agree D [] tasks q) (hduties : D.Fewer D' generation)
    (hfree : q.active.lookup entry.id = none) (hpend : q.pending = l₁ ++ waiting :: l₂)
    (hid : waiting.id = entry.id)
    (hinv : ({ q with pending := l₁ ++ l₂ }.activate entry generation).Inv) :
    Agree D' [] tasks ({ q with pending := l₁ ++ l₂ }.activate entry generation) := by
  refine h.activate hduties hfree ?_ ?_ hinv
  · intro e he
    rw [hpend] at he
    rcases TaskQueue.mem_without he with rfl | he
    · exact .inl hid
    · exact .inr he
  · intro e he
    rw [hpend]
    exact (TaskQueue.sublist_without l₁ l₂ waiting).subset he

namespace Transfer

variable {s s' : Transfer}

variable {generation : UInt64} {a : SendAttempt}

/-- A new attempt has no duties yet. -/
theorem duties_fewer (hguarded : ¬ a.phase.Guarded) (hspent : ¬ a.phase.Spent)
    (hsends : s'.sends = s.sends.insert generation a) (hrecv : s'.receives = s.receives)
    (hcalls : ∀ id, .continuing id ∈ s'.calls → .continuing id ∈ s.calls) :
    s.duties.Fewer s'.duties generation := by
  obtain ⟨desk, recovery, active, automaticSends, sends, receives, calls, now, log⟩ := s'
  cases hsends
  cases hrecv
  refine ⟨?_, ?_, fun id hd => hd.imp_right (hcalls id)⟩
  · rintro id g ⟨a', ha', hid, hphase⟩
    rcases lookup_insert_some ha' with ⟨-, rfl⟩ | ⟨hne, ha'⟩
    · exact absurd hphase hguarded
    · exact ⟨hne, a', ha', hid, hphase⟩
  · rintro id g ⟨a', ha', hid, hphase⟩
    rcases lookup_insert_some ha' with ⟨-, rfl⟩ | ⟨hne, ha'⟩
    · exact absurd hphase hspent
    · exact ⟨hne, a', ha', hid, hphase⟩

/-- The state in which a task has got a slot, and an attempt for it waits. -/
theorem Agrees.activated (h : s.Agrees) (a : SendAttempt) {queue : TaskQueue}
    (hguarded : ¬ a.phase.Guarded) (hspent : ¬ a.phase.Spent)
    (hdesk : s'.desk = { s.desk with queue }) (hact : s'.active = s.active)
    (hsends : s'.sends = s.sends.insert generation a) (hrecv : s'.receives = s.receives)
    (hcalls : ∀ id, .continuing id ∈ s'.calls → .continuing id ∈ s.calls)
    (hagree : ∀ D', s.duties.Fewer D' generation → Agree D' [] s.desk.tasks queue) : s'.Agrees := by
  refine ⟨?_, ?_, ?_⟩
  · rw [hdesk]
    exact hagree _ (duties_fewer hguarded hspent hsends hrecv hcalls)
  · intro g a' ha' hphase
    rw [hsends] at ha'
    rw [hact]
    rcases lookup_insert_some ha' with ⟨-, rfl⟩ | ⟨-, ha'⟩
    · exact absurd hphase hguarded
    · exact h.sending g a' ha' hphase
  · rw [hrecv, hact]
    exact h.receiving

theorem Agrees.dispatch (h : s.Agrees) {connected : NodeId → Bool}
    (hstep : s.dispatch connected = some s') : s'.Agrees := by
  have hinv := h.desk.inv.step (s.desk.queue.step_cases (.dispatch connected))
  change (s.desk.queue.dispatch connected).2.Inv at hinv
  unfold Transfer.dispatch at hstep
  rcases s.desk.queue.dispatch_cases connected with ⟨heq, -⟩ |
    ⟨entry, generation, l₁, l₂, hpend, -, -, -, heq⟩
  · rw [heq] at hstep
    cases hstep
  · rw [heq] at hstep hinv
    obtain ⟨generation', hslot, rfl⟩ := map_eq_some_iff.mp hstep
    have hsame : generation = generation' := by
      change (s.desk.queue.generations.insert entry.id generation).lookup entry.id = _ at hslot
      rw [lookup_insert] at hslot
      exact Option.some.inj hslot
    subst hsame
    have hmem : entry ∈ s.desk.queue.pending := by
      rw [hpend]
      exact List.mem_append_right _ (.head _)
    refine h.activated ⟨entry.id, entry.peer, entry.metadata, .scheduled⟩
      (fun hphase => hphase) (fun hphase => hphase) rfl rfl rfl rfl (fun _ hc => hc) ?_
    intro D' hfewer
    exact h.desk.activate_without hfewer (h.desk.inv.waits entry hmem) hpend rfl hinv

variable {i : Nat} {peer : NodeId} {id : TaskId} {automatic : Bool}

theorem Agrees.reserve (h : s.Agrees) (hstep : s.reserve i peer id automatic = some s') :
    s'.Agrees := by
  unfold Transfer.reserve at hstep
  split at hstep
  next record _ _ _ =>
    dsimp only at hstep
    split at hstep
    · cases hstep
      exact h.endCall i
    split at hstep
    next generation queue hreserve =>
      cases hstep
      have hinv := h.desk.inv.step (s.desk.queue.step_cases
        (.reserveDirect ⟨id, peer, record.directoryDetails.isSome⟩))
      change (s.desk.queue.reserveDirect _).2.Inv at hinv
      rcases s.desk.queue.reserveDirect_cases ⟨id, peer, record.directoryDetails.isSome⟩ with
        ⟨_, heq⟩ | ⟨_, rest, hfree, -, -, hrest, heq⟩
      · rw [heq] at hreserve
        cases hreserve
      rw [heq] at hreserve hinv
      cases hreserve
      refine h.activated
        ⟨id, peer, record.directoryDetails.isSome, .reserved automatic⟩
        (fun hphase => hphase) (fun hphase => hphase) rfl rfl rfl rfl
        (fun _ hc => List.eraseIdx_subset hc) ?_
      intro D' hfewer
      rcases hrest with ⟨l₁, l₂, hpend, rfl⟩ | ⟨rfl, -⟩
      · exact h.desk.activate_without hfewer hfree hpend rfl hinv
      · exact h.desk.activate hfewer hfree (fun e he => .inr he) (fun e he => he) hinv
    · cases hstep
      exact h.endCall i
  · cases hstep
    exact h.endCall i

/-! ## The condition -/

/-- The attempt has its slot, and its task is stored as queued. -/
def HoldsQueued (s : Transfer) (generation : UInt64) : Prop :=
  ∃ a, s.sends.lookup generation = some a ∧ s.desk.queue.slotGeneration a.id = some generation ∧
    ∃ t ∈ s.desk.tasks, t.taskId = a.id ∧ t.state = .queued

/-- The attempt has not claimed its task, and it cannot. -/
def Unclaimable (s : Transfer) (generation : UInt64) : Prop :=
  ∃ a, s.sends.lookup generation = some a ∧
    (a.phase = .scheduled ∨ ∃ automatic, a.phase = .reserved automatic) ∧
    s.claimable generation a = false

/-- The event gives up an attempt whose task is still queued under its slot: it is dropped,
    or it cannot claim the task. -/
def Abandons (s : Transfer) : TransferEvent → Prop
  | .abortSend generation => s.HoldsQueued generation
  | .proceed generation _ => s.HoldsQueued generation ∧ s.Unclaimable generation
  | _ => False

variable (c) in
/-- No counted transition of the event would fail, and no attempt is given up like that. -/
def Orderly (s : Transfer) (e : TransferEvent) : Prop :=
  (∀ s', s.step c e = some s' → s'.desk.failures = s.desk.failures) ∧ ¬ s.Abandons e

variable {g : UInt64}

/-- An attempt that does not hold a queued task. -/
theorem not_holdsQueued (h : ¬ s.HoldsQueued g) (ha : s.sends.lookup g = some a)
    (hslot : s.desk.queue.slotGeneration a.id = some g) :
    ∀ t ∈ s.desk.tasks, t.taskId = a.id → t.direction = .send → t.state ≠ .queued :=
  fun t ht hid _ hqueued => h ⟨a, ha, hslot, t, ht, hid, hqueued⟩

variable {records : List TaskRecord}

/-- What was scanned for a peer is new to the service. -/
theorem scanned_spec (hscanned : s.scanned peer records = true) :
    ∀ r ∈ records, Scanned s.duties peer s.desk.queue r := by
  intro r hr
  have hall := List.all_eq_true.mp hscanned r hr
  simp only [Bool.and_eq_true, beq_iff_eq, Bool.not_eq_true', List.contains_eq_mem,
    decide_eq_false_iff_not] at hall
  obtain ⟨⟨⟨hpeer, hsend⟩, hdetails⟩, hnew⟩ := hall
  refine ⟨hsend, ⟨hpeer, ?_⟩, ?_, ?_⟩
  · cases hfile : r.fileDetails <;> cases hdirectory : r.directoryDetails <;> simp_all
  · rintro (⟨p, hp, -⟩ | hcall)
    · refine hnew ?_
      have hmem : r.taskId ∈ s.receives.keys := AList.lookup_isSome.mp (hp ▸ rfl)
      simp [usedIds, hmem]
    · refine hnew ?_
      have hmem : r.taskId ∈ s.calls.flatMap ServiceCall.ids :=
        List.mem_flatMap.mpr ⟨_, hcall, List.mem_singleton_self _⟩
      simp only [usedIds, List.mem_append]
      exact .inr hmem
  · cases hslot : s.desk.queue.slotGeneration r.taskId with
    | none => rfl
    | some g =>
      refine absurd ?_ hnew
      have hmem : r.taskId ∈ s.desk.queue.generations.keys :=
        AList.lookup_isSome.mp
          ((show s.desk.queue.generations.lookup r.taskId = _ from hslot) ▸ rfl)
      simp [usedIds, hmem]

namespace Agrees

variable (h : s.Agrees)

include h

/-! ## Attempts to send -/

theorem claim (asked : Option Bool) (ha : s.sends.lookup g = some a)
    (hheld : s.claimable g a = false → ¬ s.HoldsQueued g) : (s.claim g a asked).Agrees := by
  rcases s.claim_cases g a asked with ⟨hfails, heq⟩ | ⟨x, hsend, hfree, hslot, heq⟩
  · rw [heq]
    exact h.setSend (fun hphase => hphase.elim) fun _ hslot =>
      not_holdsQueued (hheld hfails) ha hslot
  · rw [heq]
    refine (h.claimed hfree x _).setSend (fun _ => ⟨hslot, x, lookup_insert _, hsend⟩) ?_
    exact fun hphase => hphase.elim

variable {io : StoreIo} (ha : s.sends.lookup g = some a)

include ha

theorem beginSending {mode : SendMode} (hphase : a.phase = .ready mode)
    (hstep : s.beginSending c g a mode io = some s')
    (hfail : s'.desk.failures = s.desk.failures) : s'.Agrees := by
  have hguarded : a.phase.Guarded := by
    rw [hphase]
    exact trivial
  have howns : s.duties.owns a.id g := ⟨a, ha, rfl, hguarded⟩
  have hspent : ¬ s.duties.spent a.id g := by
    rintro ⟨a', ha', -, hspent⟩
    rw [ha] at ha'
    cases ha'
    rw [hphase] at hspent
    exact hspent
  unfold Transfer.beginSending at hstep
  dsimp only at hstep
  split at hstep
  · cases hstep
  next record s₁ _ hrun =>
    obtain ⟨desk, rfl, hok, -⟩ := h.onDesk (beginSend_spec howns hspent) hrun
    obtain ⟨hagree, hidle⟩ := hok record rfl
    have hs₁ : Agrees { s with desk } := h.withDesk hagree.2
    have hslot : desk.queue.slotGeneration a.id = some g := hagree.2.owns a.id g howns
    split at hstep
    · cases hstep
      exact hs₁.setSend (fun _ => ⟨hslot, h.sending g a ha hguarded⟩)
        fun _ _ t ht hid _ => hidle t ht hid
    · cases hstep
      exact (hs₁.setSend (fun _ => ⟨hslot, h.sending g a ha hguarded⟩)
        fun _ _ t ht hid _ => hidle t ht hid).note
  next err s₁ _ hrun =>
    obtain ⟨desk, rfl, -, herr⟩ := h.onDesk (beginSend_spec howns hspent) hrun
    cases hstep
    have hagree : Agree s.duties [] desk.tasks desk.queue := herr err rfl hfail
    have hslot : desk.queue.slotGeneration a.id = some g := hagree.owns a.id g howns
    exact (h.withDesk hagree).setSend (fun _ => ⟨hslot, h.sending g a ha hguarded⟩)
      fun hphase => hphase.elim

/-- The guard of an attempt is dropped. -/
theorem dropGuard (hphase : a.phase = .done) : (s.dropGuard g a).Agrees := by
  have hguarded : a.phase.Guarded := by
    rw [hphase]
    exact trivial
  have hspent : a.phase.Spent := by
    rw [hphase]
    exact trivial
  obtain ⟨hslot, x, hx, hsend⟩ := h.guarded ha hguarded
  have hset : (s.setSend g a .leaving).Agrees :=
    h.setSend (fun hphase => hphase.elim) fun _ => h.desk.spent a.id g ⟨a, ha, rfl, hspent⟩
  -- nobody else has claimed the task
  refine ⟨hset.desk, ?_, ?_⟩
  · intro g' a' ha' hguarded'
    obtain ⟨y, hy, hysend⟩ := hset.sending g' a' ha' hguarded'
    refine ⟨y, (lookup_erase_ne ?_).trans hy, hysend⟩
    intro heq
    have hslot' := (hset.guarded ha' hguarded').1
    rw [heq] at hslot'
    obtain rfl : g = g' := Option.some.inj (hslot.symm.trans hslot')
    have ha' : (s.sends.insert g { a with phase := .leaving }).lookup g = some a' := ha'
    rw [lookup_insert] at ha'
    cases ha'
    exact hguarded'
  · intro id' p hp
    obtain ⟨y, hy, hyreceive⟩ := h.receiving id' p hp
    refine ⟨y, (lookup_erase_ne ?_).trans hy, hyreceive⟩
    rintro rfl
    rw [hx] at hy
    cases hy
    rw [hsend] at hyreceive
    cases hyreceive

/-- A slot is given back. -/
theorem dropSlot (hphase : a.phase = .leaving) : (s.dropSlot g a).Agrees := by
  have hspent : a.phase.Spent := by
    rw [hphase]
    exact trivial
  have hfinished : Agree s.duties [] s.desk.tasks (s.desk.queue.finishIf a.id g) := by
    refine h.desk.finishIf ?_ ?_
    · intro t ht hid hsend hqueued hslot
      exact h.desk.spent a.id g ⟨a, ha, rfl, hspent⟩ hslot t ht hid hsend hqueued
    · rintro ⟨a', ha', -, hguarded⟩
      rw [ha] at ha'
      cases ha'
      rw [hphase] at hguarded
      exact hguarded
  refine ⟨hfinished.mono ?_ ?_ fun _ hd => hd, ?_, h.receiving⟩
  · rintro id g' ⟨a', ha', hrest⟩
    exact ⟨a', (lookup_erase_some ha').2, hrest⟩
  · rintro id g' ⟨a', ha', hrest⟩
    exact ⟨a', (lookup_erase_some ha').2, hrest⟩
  · exact fun g' a' ha' => h.sending g' a' (lookup_erase_some ha').2

theorem proceed (hstep : s.proceed c g a io = some s')
    (hfail : s'.desk.failures = s.desk.failures) (hkept : ¬ s.Abandons (.proceed g io)) :
    s'.Agrees := by
  obtain ⟨id, peer, metadata, phase⟩ := a
  cases phase with
  | scheduled =>
    cases hstep
    refine h.claim none ha fun hfails hholds => hkept ⟨hholds, ?_⟩
    exact ⟨_, ha, .inl rfl, hfails⟩
  | reserved automatic =>
    cases hstep
    refine h.claim _ ha fun hfails hholds => hkept ⟨hholds, ?_⟩
    exact ⟨_, ha, .inr ⟨automatic, rfl⟩, hfails⟩
  | claimed asked =>
    cases hstep
    have herased : Agrees { s with automaticSends := s.automaticSends.erase id } :=
      h.same rfl rfl rfl rfl fun _ hmem => hmem
    exact herased.setSend (fun _ => h.guarded ha trivial) fun hphase => hphase.elim
  | ready mode => exact h.beginSending ha rfl hstep hfail
  | running automatic =>
    cases hstep
    exact h.setSend (fun _ => h.guarded ha trivial) fun _ => h.desk.spent id g ⟨_, ha, rfl, trivial⟩
  | broken => cases hstep
  | failing verdict =>
    obtain ⟨⟨r, s₁, rest⟩, hrun, rfl⟩ := map_eq_some_iff.mp hstep
    obtain ⟨desk, rfl, hok, herr⟩ := h.onDesk finishStored_spec hrun
    have hdone : Agree s.duties [] desk.tasks desk.queue ∧ NotQueued id desk.tasks := by
      cases r with
      | ok u => exact ⟨(hok u rfl).1.2, (hok u rfl).2⟩
      | error err => exact herr err rfl hfail
    have hslot : desk.queue.slotGeneration id = some g := hdone.1.owns id g ⟨_, ha, rfl, trivial⟩
    exact (h.withDesk hdone.1).setSend (fun _ => ⟨hslot, h.sending g _ ha trivial⟩)
      fun _ _ t ht hid _ => hdone.2 t ht hid
  | done =>
    cases hstep
    exact h.dropGuard ha rfl
  | leaving =>
    cases hstep
    exact h.dropSlot ha rfl

/-- An attempt is given up that does not hold a queued task. -/
theorem abortSend (hheld : ¬ s.HoldsQueued g) : (s.abortSend g a).Agrees := by
  unfold Transfer.abortSend
  split
  case h_4 hscheduled hreserved hleaving =>
    refine h.setSend (fun _ => h.guarded ha ?_) fun _ => not_holdsQueued hheld ha
    cases hp : a.phase with
    | scheduled => exact absurd hp hscheduled
    | reserved automatic => exact absurd hp (hreserved automatic)
    | leaving => exact absurd hp hleaving
    | _ => exact trivial
  all_goals exact h.setSend (fun hphase => hphase.elim) fun _ => not_holdsQueued hheld ha

omit ha

/-! ## Attempts to receive -/

variable {peerId : PeerId}

theorem offer {o : Offer} (hstep : s.offer peer peerId o automatic = some s') : s'.Agrees := by
  unfold Transfer.offer at hstep
  split at hstep
  · cases hstep
  obtain ⟨s₁, hclaim, rfl⟩ := map_eq_some_iff.mp hstep
  unfold Transfer.claimReceive at hclaim
  dsimp only at hclaim
  split at hclaim
  · cases hclaim
  rename_i hfree
  cases hclaim
  rw [not_or, Option.not_isSome_iff_eq_none] at hfree
  refine (h.claimed hfree.1 _ _).setReceive ⟨_, lookup_insert _, rfl⟩ ?_
  exact fun hacc => hacc.elim

variable {root : PathBuf}

theorem accept {o : Offer}
    (hact : ∃ x, s.active.lookup o.taskId = some x ∧ x.direction = .receive)
    (hstep : s.accept c peer peerId o automatic root io = some s')
    (hfail : s'.desk.failures = s.desk.failures) : s'.Agrees := by
  unfold Transfer.accept at hstep
  dsimp only at hstep
  split at hstep
  · cases hstep
  next record s₁ _ hrun =>
    obtain ⟨desk, rfl, hok, -⟩ := h.onDesk acceptStored_spec hrun
    obtain ⟨hagree, hreceived⟩ := hok record rfl
    have hs₁ : Agrees { s with desk } := h.withDesk hagree.2
    split at hstep
    · cases hstep
      exact hs₁.setReceive hact fun hacc => hacc.elim
    · cases hstep
      exact (hs₁.setReceive hact fun _ => hreceived).note
  next err s₁ _ hrun =>
    obtain ⟨desk, rfl, -, herr⟩ := h.onDesk acceptStored_spec hrun
    cases hstep
    exact (h.withDesk (herr err rfl hfail)).setReceive hact fun hacc => hacc.elim

variable {phase : ReceivePhase} (hphase : s.receives.lookup id = some phase)

include hphase

theorem endReceive : (s.endReceive id).Agrees := by
  refine ⟨h.desk.mono (fun _ _ hd => hd) (fun _ _ hd => hd) ?_, ?_, ?_⟩
  · rintro id' (⟨p, hp, hacc⟩ | hcall)
    · exact .inl ⟨p, (lookup_erase_some hp).2, hacc⟩
    · exact .inr hcall
  · -- the task is received, so no attempt to send has claimed it
    intro g a ha hguarded
    obtain ⟨x, hx, hsend⟩ := h.sending g a ha hguarded
    refine ⟨x, (lookup_erase_ne ?_).trans hx, hsend⟩
    rintro rfl
    obtain ⟨y, hy, hreceive⟩ := h.receiving a.id phase hphase
    rw [hx] at hy
    cases hy
    rw [hsend] at hreceive
    cases hreceive
  · intro id' p hp
    obtain ⟨hne, hp⟩ := lookup_erase_some hp
    obtain ⟨x, hx, hreceive⟩ := h.receiving id' p hp
    refine ⟨x, ?_, hreceive⟩
    show (s.active.erase id).lookup id' = some x
    rw [lookup_erase_ne hne]
    exact hx

theorem proceedReceive (hstep : s.proceedReceive c id root io phase = some s')
    (hfail : s'.desk.failures = s.desk.failures) : s'.Agrees := by
  have hact := h.receiving id phase hphase
  cases phase with
  | offered peer peerId o automatic =>
    have hstep : (if o.taskId ≠ id then none else s.accept c peer peerId o automatic root io) =
      some s' := hstep
    obtain ⟨hsame, hstep⟩ := ite_none_left_eq_some.mp hstep
    rw [not_not] at hsame
    rw [← hsame] at hact
    exact h.accept hact hstep hfail
  | running automatic =>
    cases hstep
    have hset : (s.setReceive id .done).Agrees := h.setReceive hact fun hacc => hacc.elim
    exact hset.withRecovery _
  | failing verdict =>
    obtain ⟨⟨r, s₁, rest⟩, hrun, rfl⟩ := map_eq_some_iff.mp hstep
    obtain ⟨desk, rfl, hok, herr⟩ := h.onDesk finishStored_spec hrun
    have hagree : Agree s.duties [] desk.tasks desk.queue := by
      cases r with
      | ok u => exact (hok u rfl).1.2
      | error err => exact (herr err rfl hfail).1
    exact (h.withDesk hagree).setReceive hact fun hacc => hacc.elim
  | done =>
    cases hstep
    exact h.endReceive hphase

omit hphase

/-! ## Running attempts, users and the session -/

/-- A running attempt works on its own task. -/
theorem work {op : Transfer.AttemptOp} {plan : List (Fault Error)}
    (hown : (∃ g, s.duties.owns id g) ∨ s.duties.receives id)
    (hstep : s.work c id op plan = some s') (hfail : s'.desk.failures = s.desk.failures) :
    s'.Agrees := by
  obtain ⟨hasks, hstep⟩ := ite_none_left_eq_some.mp hstep
  rw [Bool.not_eq_false] at hasks
  obtain ⟨recovery, hbefore⟩ := op.before_eq s id
  rw [hbefore] at hstep
  obtain ⟨⟨r, s₁, rest⟩, hrun, rfl⟩ := map_eq_some_iff.mp hstep
  exact (h.withRecovery recovery).runs (attemptOp_spec hown hasks) hrun hfail

/-- A task that is not active is not owned. -/
theorem not_owned (hnone : s.active.lookup id = none) : ∀ g, ¬ s.duties.owns id g := by
  rintro g ⟨a, ha, rfl, hguarded⟩
  obtain ⟨x, hx, -⟩ := h.sending g a ha hguarded
  rw [hnone] at hx
  cases hx

/-- An attempt is asked to pause. -/
theorem flag {x : ActiveAttempt} (hx : s.active.lookup id = some x) :
    Agrees { s with active := s.active.insert id { x with pause := true } } := by
  refine h.withActive fun id' y hy => ?_
  rw [AList.lookup_insert_eq_ite]
  split
  next heq =>
    rw [heq, hx] at hy
    cases hy
    exact ⟨_, rfl, rfl⟩
  · exact ⟨y, hy, rfl⟩

theorem pauseStored {waiting : Bool} (hstep : s.pauseStored c i id waiting io = some s')
    (hfail : s'.desk.failures = s.desk.failures) : s'.Agrees := by
  unfold Transfer.pauseStored at hstep
  split at hstep
  next a ha =>
    cases hstep
    exact ((h.flag ha).endCall i).note
  rename_i hnone
  split at hstep
  · cases hstep
  next hrun =>
    cases hstep
    exact ((h.runs (pauseIdle_spec (h.not_owned hnone)) hrun hfail).endCall i).note
  next hrun =>
    cases hstep
    exact (h.runs (pauseIdle_spec (h.not_owned hnone)) hrun hfail).endCall i

theorem cancelCommit (hstep : s.cancelCommit c i id io = some s')
    (hfail : s'.desk.failures = s.desk.failures) : s'.Agrees := by
  have hfree : (s.active.lookup id).isSome = false → ∀ g, ¬ s.duties.owns id g := by
    intro hnone
    rw [Option.isSome_eq_false_iff, Option.isNone_iff_eq_none] at hnone
    exact h.not_owned hnone
  unfold Transfer.cancelCommit at hstep
  dsimp only at hstep
  split at hstep
  · cases hstep
  next s₁ _ hrun =>
    cases hstep
    obtain ⟨desk, rfl, hok, -⟩ := h.onDesk (cancelStored_spec hfree) hrun
    have hs₁ : Agrees { s with desk } := h.withDesk (hok () rfl).2
    split
    next a ha =>
      exact setCall (hs₁.flag ha) nofun
    · exact hs₁.setCall nofun
  next s₁ _ hrun =>
    cases hstep
    exact (h.runs (cancelStored_spec hfree) hrun hfail).endCall i

/-- The attempts of a peer are asked to pause. -/
theorem revoke (peer : NodeId) (rights : Rights) : (s.revoke peer rights).Agrees := by
  refine call (withActive (h.withRecovery (s.recovery.cancelDenied peer rights)) ?_) ?_
  case refine_2 => exact nofun
  -- every map that the fold goes through has the directions of the first one
  have hfold : ∀ (l : List (Sigma fun _ : TaskId => ActiveAttempt))
      (m : FinMap TaskId ActiveAttempt),
      (∀ a ∈ l, s.active.lookup a.1 = some a.2) →
      (∀ id x, s.active.lookup id = some x →
        ∃ x', m.lookup id = some x' ∧ x'.direction = x.direction) →
      ∀ id x, s.active.lookup id = some x → ∃ x', (l.foldl (fun m a =>
        if (a.2.peer == peer && !rights.allow a.2.direction) = true then
          m.insert a.1 { a.2 with pause := true }
        else m) m).lookup id = some x' ∧ x'.direction = x.direction := by
    intro l
    induction l with
    | nil => exact fun m _ hm => hm
    | cons a rest ih =>
      intro m hl hm
      refine ih _ (fun b hb => hl b (.tail _ hb)) ?_
      intro id x hx
      dsimp only
      by_cases hflag : (a.2.peer == peer && !rights.allow a.2.direction) = true
      · rw [if_pos hflag, AList.lookup_insert_eq_ite]
        split
        next heq =>
          rw [heq, hl a (.head _)] at hx
          cases hx
          exact ⟨_, rfl, rfl⟩
        · exact hm id x hx
      · rw [if_neg hflag]
        exact hm id x hx
  refine hfold _ _ (fun a ha => ?_) fun id x hx => ⟨x, hx, rfl⟩
  exact AList.mem_lookup_iff.mpr ha

/-! ## Selection and resumption -/

theorem select {kind : Selecting} (hstep : s.select c kind peer records io = some s')
    (hfail : s'.desk.failures = s.desk.failures) : s'.Agrees := by
  unfold Transfer.select at hstep
  split at hstep
  · cases hstep
  rename_i hscanned
  rw [Bool.not_eq_false] at hscanned
  obtain ⟨p, hp, hrun⟩ := bind_eq_some_iff.mp hstep
  have hspec : DeskSpec (fun ts q n => AgreeDesk s.duties s.desk.failures [] ts q n ∧
      ∀ r ∈ records, Scanned s.duties peer q r) p
      (fun _ => AgreeDesk s.duties s.desk.failures []) (AgreeErr s.duties s.desk.failures) := by
    split at hp
    · cases hp
      exact selectWith_spec (.inr ⟨_, rfl, rfl⟩)
    · cases hp
    · cases hp
      exact selectWith_spec (.inl rfl)
    · cases hp
      exact confirmDirectory_spec
  obtain ⟨⟨r, s₁, rest⟩, hdesk, rfl⟩ := map_eq_some_iff.mp hrun
  obtain ⟨desk, rfl, hok, herr⟩ := onDesk_spec hspec ⟨⟨rfl, h.desk⟩, scanned_spec hscanned⟩ hdesk
  refine h.withDesk ?_
  cases r with
  | ok u => exact (hok u rfl).2
  | error err => exact herr err rfl hfail

theorem enqueueTasks (peer : NodeId) (ids : List TaskId) : (s.enqueueTasks peer ids).Agrees := by
  refine call ?_ nofun
  induction ids generalizing s with
  | nil => exact h
  | cons id rest ih =>
    refine ih ?_
    exact h.same rfl rfl rfl rfl fun _ hmem => hmem

theorem resumeReceive (hstep : s.resumeReceive peer id = some s') : s'.Agrees := by
  unfold Transfer.resumeReceive at hstep
  split at hstep
  next record w rest hrun =>
    obtain ⟨⟨hreceive, -⟩, hstep⟩ := ite_none_right_eq_some.mp hstep
    cases hstep
    have hbound := @boundRecord_spec s.desk.tasks peer id s.desk.store [] rfl
    rw [hrun] at hbound
    obtain ⟨-, hmem, hid, -⟩ := hbound
    refine ⟨{ h.desk with receives := ?_ }, h.sending, h.receiving⟩
    rintro id' (hreceiving | hcall) t ht htid
    · exact h.desk.receives id' (.inl hreceiving) t ht htid
    · rcases List.mem_append.mp hcall with hcall | hcall
      · exact h.desk.receives id' (.inr hcall) t ht htid
      · cases List.mem_singleton.mp hcall
        rw [h.desk.tidy.unique.eq ht hmem (htid.trans hid.symm)]
        exact hreceive
  · cases hstep

/-! ## Recovery -/

variable {ticket : Ticket}

theorem settle {rest : List Ticket} (hstep : s.settle c i peer ticket rest io = some s')
    (hfail : s'.desk.failures = s.desk.failures) : s'.Agrees := by
  have hset : (s.setCall i (.settling peer rest)).Agrees := h.setCall nofun
  unfold Transfer.settle at hstep
  dsimp only at hstep
  split at hstep
  · cases hstep
    exact hset
  split at hstep
  · cases hstep
  next drop _ _ hrun =>
    cases hstep
    cases drop with
    | true => exact (hset.runs settleStored_spec hrun hfail).withRecovery _
    | false => exact hset.runs settleStored_spec hrun hfail
  next hrun =>
    cases hstep
    exact (hset.runs settleStored_spec hrun hfail).setCall nofun

theorem giveUp (i : Nat) (ticket : Ticket) : (s.giveUp i ticket).Agrees := by
  refine note (h.setCall ?_)
  exact nofun

theorem recover (hstep : s.recover c i ticket io = some s')
    (hfail : s'.desk.failures = s.desk.failures) : s'.Agrees := by
  unfold Transfer.recover at hstep
  split at hstep
  · cases hstep
    exact h.giveUp i ticket
  split at hstep
  · cases hstep
  next err s₁ _ hrun =>
    obtain ⟨desk, rfl, -, herr⟩ := h.onDesk recoverStored_spec hrun
    cases hstep
    exact (h.withDesk (herr err rfl hfail)).giveUp i ticket
  next s₁ _ hrun =>
    obtain ⟨desk, rfl, hok, -⟩ := h.onDesk recoverStored_spec hrun
    cases hstep
    exact ((h.withDesk (hok none rfl).1.2).withRecovery _).giveUp i ticket
  next s₁ plan hrun =>
    obtain ⟨desk, rfl, hok, -⟩ := h.onDesk recoverStored_spec hrun
    obtain ⟨⟨hcount, hagree⟩, -⟩ := hok (some .send) rfl
    have hs₂ : Agrees { s with
        desk, automaticSends := s.automaticSends.insert ticket.id ticket } :=
      (h.withDesk hagree).same rfl rfl rfl rfl fun _ hmem => hmem
    dsimp only at hstep
    split at hstep
    · cases hstep
    next hadmit =>
      cases hstep
      exact (hs₂.runs admitLocked_fits hadmit (hfail.trans hcount.symm)).giveUp i ticket
    next hadmit =>
      cases hstep
      have hs₃ := hs₂.runs admitLocked_fits hadmit (hfail.trans hcount.symm)
      refine note ((hs₃.withRecovery _).setCall ?_)
      exact nofun
  next s₁ plan hrun =>
    obtain ⟨desk, rfl, hok, -⟩ := h.onDesk recoverStored_spec hrun
    obtain ⟨⟨hcount, hagree⟩, hdir⟩ := hok (some .receive) rfl
    have hs₁ : Agrees { s with desk } := h.withDesk hagree
    split at hstep
    · cases hstep
    next err s₂ _ hqueue =>
      obtain ⟨desk₂, rfl, -, herr⟩ := onDesk_spec moves_received
        ⟨⟨rfl, hs₁.desk⟩, hdir _ rfl⟩ hqueue
      cases hstep
      exact (hs₁.withDesk (herr err rfl (hfail.trans hcount.symm))).giveUp i ticket
    next s₂ _ hqueue =>
      obtain ⟨desk₂, rfl, hok₂, -⟩ := onDesk_spec moves_received
        ⟨⟨rfl, hs₁.desk⟩, hdir _ rfl⟩ hqueue
      cases hstep
      refine note ((hs₁.withDesk (hok₂ () rfl).2).setCall ?_)
      exact nofun

theorem stop (hstep : s.stop ticket = some s') : s'.Agrees := by
  obtain ⟨-, hstep⟩ := ite_none_left_eq_some.mp hstep
  cases hstep
  refine call (h.withRecovery _) fun id hcall => ?_
  split at hcall
  · cases hcall
  · cases hcall

theorem resumeCall {call : ServiceCall} (hcall : s.calls[i]? = some call)
    (hstep : s.resumeCall c i io call = some s') (hfail : s'.desk.failures = s.desk.failures) :
    s'.Agrees := by
  cases call with
  | resuming peer ids =>
    obtain ⟨⟨r, s₁, rest⟩, hrun, rfl⟩ := map_eq_some_iff.mp hstep
    exact (h.runs admitLocked_fits hrun hfail).endCall i
  | continuing id =>
    obtain ⟨⟨r, s₁, rest⟩, hrun, rfl⟩ := map_eq_some_iff.mp hstep
    have hreceived := h.desk.receives id (.inr (List.mem_of_getElem? hcall))
    obtain ⟨desk, rfl, hok, herr⟩ := onDesk_spec moves_received ⟨⟨rfl, h.desk⟩, hreceived⟩ hrun
    cases r with
    | ok u => exact (h.withDesk (hok u rfl).2).setCall nofun
    | error err => exact (h.withDesk (herr err rfl hfail)).endCall i
  | asking id ticket =>
    cases ticket with
    | none =>
      cases hstep
      exact h.endCall i
    | some ticket =>
      cases hstep
      exact h.setCall nofun
  | refused id verdict ticket =>
    obtain ⟨⟨r, s₁, rest⟩, hrun, rfl⟩ := map_eq_some_iff.mp hstep
    obtain ⟨desk, rfl, hok, herr⟩ := h.onDesk finishStored_spec hrun
    have hs₁ : (desk.failures = s.desk.failures) → Agrees { s with desk } := by
      intro hcount
      refine h.withDesk ?_
      cases r with
      | ok u => exact (hok u rfl).1.2
      | error err => exact (herr err rfl hcount).1
    cases ticket with
    | none => exact (hs₁ hfail).endCall i
    | some ticket => exact (hs₁ hfail).setCall nofun
  | asked peer id automatic => exact h.reserve hstep
  | pausing id waiting => exact h.pauseStored hstep hfail
  | cancelling id => exact h.cancelCommit hstep hfail
  | cancelled id =>
    obtain ⟨-, hstep⟩ := ite_none_left_eq_some.mp hstep
    cases hstep
    exact (h.endCall i).note
  | settling peer tickets =>
    cases tickets with
    | nil =>
      cases hstep
      exact h.endCall i
    | cons ticket rest => exact h.settle hstep hfail
  | recovering ticket => exact h.recover hstep hfail
  | stopping ticket =>
    have hstep : (if s.recovery.sameAttempt ticket = false then
        some (s.setCall i (.recovered ticket))
      else (s.onDesk (stopStored c ticket (io.clocks 0)) io.plan).map fun r =>
        r.2.1.setCall i (.recovered ticket)) = some s' := hstep
    split at hstep
    · cases hstep
      exact h.setCall nofun
    · obtain ⟨⟨r, s₁, rest⟩, hrun, rfl⟩ := map_eq_some_iff.mp hstep
      exact (h.runs stopStored_spec hrun hfail).setCall nofun
  | recovered ticket =>
    cases hstep
    exact (h.endCall i).withRecovery _
  | revoking peer rights =>
    obtain ⟨⟨r, s₁, rest⟩, hrun, rfl⟩ := map_eq_some_iff.mp hstep
    exact (h.runs revokeStored_spec hrun hfail).endCall i

/-! ## Runs -/

theorem failSend (verdict : Verdict) (lost : Bool)
    (ha : s.sends.lookup g = some a) (hfails : a.phase.fails = true) :
    ((s.finishError a.id verdict lost).setSend g a (.failing verdict)).Agrees := by
  have hguarded : a.phase.Guarded := by
    cases hp : a.phase with
    | running | broken => exact trivial
    | _ =>
      rw [hp] at hfails
      cases hfails
  obtain ⟨recovery, heq⟩ := s.finishError_eq a.id verdict lost
  rw [heq]
  exact (h.withRecovery _).setSend (fun _ => h.guarded ha hguarded) fun hphase => hphase.elim

/-- One event keeps the agreement, if it is orderly. -/
theorem step {e : TransferEvent} (hstep : s.step c e = some s')
    (horderly : s.Orderly c e) : s'.Agrees := by
  have hfail := horderly.1 s' hstep
  unfold Transfer.step at hstep
  cases e with
  | tick elapsed =>
    cases hstep
    exact h.same rfl rfl rfl rfl fun _ hmem => hmem
  | select kind peer records io => exact h.select hstep hfail
  | resume peer ids =>
    cases hstep
    exact h.enqueueTasks peer ids
  | resumeReceive peer id => exact h.resumeReceive hstep
  | dispatch connected => exact h.dispatch hstep
  | setLimit value =>
    cases hstep
    have hinv : (s.desk.queue.setLimit value).2.Inv :=
      h.desk.inv.step (s.desk.queue.step_cases (.setLimit value))
    refine h.withDesk ?_
    unfold TaskQueue.setLimit at hinv ⊢
    split
    next hvalue =>
      rw [if_pos hvalue] at hinv
      exact { h.desk with inv := hinv }
    · exact h.desk
  | askResume peer id automatic =>
    unfold Transfer.askResume at hstep
    dsimp only at hstep
    split at hstep
    · obtain ⟨-, hstep⟩ := ite_none_right_eq_some.mp hstep
      cases hstep
      exact h.call nofun
    · cases hstep
  | proceed generation io =>
    obtain ⟨a, ha, hstep⟩ := bind_eq_some_iff.mp hstep
    exact h.proceed ha hstep hfail horderly.2
  | abortSend generation =>
    obtain ⟨a, ha, rfl⟩ := map_eq_some_iff.mp hstep
    exact h.abortSend ha horderly.2
  | workSend generation op plan =>
    dsimp only at hstep
    split at hstep
    next ha =>
      exact h.work (.inl ⟨generation, _, ha, rfl, trivial⟩) hstep hfail
    · cases hstep
  | sendData | acceptData =>
    dsimp only at hstep
    split at hstep
    · cases hstep
      exact h.note
    · cases hstep
  | failSend generation verdict lost =>
    dsimp only at hstep
    split at hstep
    next a ha =>
      obtain ⟨hfails, hstep⟩ := ite_none_right_eq_some.mp hstep
      cases hstep
      exact h.failSend verdict lost ha hfails
    · cases hstep
  | offer peer peerId o automatic => exact h.offer hstep
  | proceedReceive id root io =>
    obtain ⟨phase, hphase, hstep⟩ := bind_eq_some_iff.mp hstep
    exact h.proceedReceive hphase hstep hfail
  | abortReceive id =>
    obtain ⟨phase, hphase, rfl⟩ := map_eq_some_iff.mp hstep
    exact h.setReceive (h.receiving id phase hphase) fun hacc => hacc.elim
  | workReceive id op plan =>
    dsimp only at hstep
    split at hstep
    next hphase =>
      exact h.work (.inr (.inl ⟨_, hphase, trivial⟩)) hstep hfail
    · cases hstep
  | failReceive id verdict lost =>
    dsimp only at hstep
    split at hstep
    next hphase =>
      cases hstep
      obtain ⟨recovery, heq⟩ := s.finishError_eq id verdict lost
      rw [heq]
      exact (h.withRecovery _).setReceive (h.receiving id _ hphase) fun _ =>
        h.desk.receives id (.inl ⟨_, hphase, trivial⟩)
    · cases hstep
  | pause | cancel =>
    cases hstep
    exact call (h.withRecovery _) nofun
  | revoke peer rights =>
    cases hstep
    exact h.revoke peer rights
  | removeCompleted op plan =>
    obtain ⟨hop, hstep⟩ := ite_none_right_eq_some.mp hstep
    obtain ⟨⟨r, s₁, rest⟩, hrun, rfl⟩ := map_eq_some_iff.mp hstep
    exact h.runs (removes_fits hop) hrun hfail
  | settle peer =>
    cases hstep
    exact h.call nofun
  | poll ready busy =>
    cases hstep
    refine h.same rfl rfl rfl rfl fun id hmem => ?_
    rcases List.mem_append.mp hmem with hmem | hmem
    · exact hmem
    · obtain ⟨_, -, hcall⟩ := List.mem_map.mp hmem
      cases hcall
  | stop ticket => exact h.stop hstep
  | refuse i verdict lost =>
    dsimp only at hstep
    split at hstep
    · cases hstep
      obtain ⟨recovery, heq⟩ := s.finishError_eq _ verdict lost
      rw [heq]
      exact (h.withRecovery _).setCall nofun
    · cases hstep
  | goOn i io =>
    obtain ⟨call, hcall, hstep⟩ := bind_eq_some_iff.mp hstep
    exact h.resumeCall hcall hstep hfail
  | _ =>
    cases hstep
    exact h.withRecovery _

end Agrees

/-- A service that has just started has nothing queued. -/
theorem Starts.agrees (h : Starts c s) : s.Agrees := by
  obtain ⟨store, es, hrun, hrecovered, rfl⟩ := h
  have hinv := run_inv hrun
  have hnone : ∀ t ∈ store.memory.tasks, t.state ≠ .queued := by
    intro t ht hqueued
    have hstate := hrecovered t ht
    rw [hqueued] at hstate
    cases hstate
  refine ⟨⟨⟨hinv.sorted, hinv.unique⟩, TaskQueue.new_inv, ?_, ?_, ?_, ?_, ?_, ?_⟩, ?_, ?_⟩
  · exact fun t ht _ hqueued => absurd hqueued (hnone t ht)
  · exact fun t ht _ hqueued => absurd hqueued (hnone t ht)
  · exact fun e he => absurd he List.not_mem_nil
  · exact fun id g hd => nomatch hd
  · exact fun id g hd => nomatch hd
  · rintro id (hd | hd)
    · exact nomatch hd
    · exact nomatch hd
  · exact fun g a ha => nomatch ha
  · exact fun id p hp => nomatch hp

section Runs

variable {es : List TransferEvent} {s : Transfer}
  (hrun : ((transferMachine c).restrict fun s e _ => s.Orderly c e).Run es s)

include hrun

theorem agrees_of_run : s.Agrees := by
  refine Machine.Run.inv (I := Transfer.Agrees) (fun _ hinit => Transfer.Starts.agrees hinit)
    ?_ hrun
  rintro s₁ e s₂ h ⟨hstep, horderly⟩
  exact h.step hstep horderly

/-- So a pause or a cancellation after such a run finds a sound desk. -/
theorem desk_sound_of_run : s.desk.Sat SoundDesk := by
  have hdesk := (agrees_of_run hrun).desk
  exact ⟨hdesk.tidy, hdesk.inv⟩

end Runs

end Transfer

/-- In every run of orderly events, each task that is sent and stored as queued waits in the
    queue or has a slot, and each entry that waits names a stored task that is sent to its
    peer. -/
theorem queue_and_store_agree {es : List TransferEvent} {s : Transfer}
    (hrun : ((transferMachine c).restrict fun s e _ => s.Orderly c e).Run es s) :
    (∀ t ∈ s.desk.tasks, t.direction = .send → t.state = .queued → s.desk.queue.Knows t.taskId) ∧
    ∀ e ∈ s.desk.queue.pending, ∃ t ∈ s.desk.tasks, t.Sends e.id e.peer := by
  have hagrees := Transfer.agrees_of_run hrun
  refine ⟨fun t ht hsend hqueued => ?_, fun e he => ?_⟩
  · rcases hagrees.desk.queued t ht hsend hqueued with hmem | hknown
    · cases hmem
    · exact hknown
  · obtain ⟨t, ht, hsends, -⟩ := hagrees.desk.pending e he
    exact ⟨t, ht, hsends⟩

namespace QueueSample

open PauseSample

def second : TaskRecord :=
  { record with taskId := ⟨_, canonical_descending⟩ }

/-- The first two commits can be stored, the third cannot. -/
def faulty : StoreIo := ⟨fun _ => .ok 2, List.replicate 10 .done ++ [.fail 0 (fail "write")]⟩

/-- A directory is selected and gets its slot. -/
def sending : List TransferEvent := [.select .directory peer [record] io, .dispatch fun _ => true]

/-- The `ScheduledSend` is dropped before it runs. -/
def dropped : List TransferEvent := sending ++ [.abortSend 1, .proceed 1 io]

/-- Two directories are selected; the second cannot be stored as queued. -/
def halted : List TransferEvent := [.select .directory peer [record, second] faulty]

/-- A task is stored as queued, and the queue does not know it. -/
def forgotten (s : Transfer) : Bool :=
  s.desk.tasks.any fun t => t.direction == .send && t.state == .queued &&
    s.desk.queue.pending.isEmpty && (s.desk.queue.slotGeneration t.taskId).isNone

theorem forgotten_spec {s : Transfer} (h : forgotten s = true) :
    ∃ t ∈ s.desk.tasks, t.direction = .send ∧ t.state = .queued ∧
      ¬ s.desk.queue.Knows t.taskId := by
  simp only [forgotten, List.any_eq_true, Bool.and_eq_true, beq_iff_eq, List.isEmpty_iff,
    Option.isNone_iff_eq_none] at h
  obtain ⟨t, ht, ⟨⟨hsend, hqueued⟩, hpend⟩, hslot⟩ := h
  refine ⟨t, ht, hsend, hqueued, ?_⟩
  rintro (⟨e, he, -⟩ | hknown)
  · rw [hpend] at he
    cases he
  · rw [hslot] at hknown
    cases hknown

end QueueSample

open PauseSample in
open QueueSample in
/-- A task stays stored as queued and the queue does not know it: a scheduled job is dropped
    before it runs, or a selection of two tasks cannot store the second one as queued. -/
theorem queued_task_forgotten : (∃ s, (transferMachine .sample).Run dropped s ∧
      ∃ t ∈ s.desk.tasks, t.direction = .send ∧ t.state = .queued ∧ ¬ s.desk.queue.Knows t.taskId) ∧
    ∃ s, (transferMachine .sample).Run halted s ∧
      ∃ t ∈ s.desk.tasks, t.direction = .send ∧ t.state = .queued ∧
        ¬ s.desk.queue.Knows t.taskId := by
  have hdropped : (after dropped).any forgotten = true := by
    decide +kernel
  have hhalted : (after halted).any forgotten = true := by
    decide +kernel
  obtain ⟨s, hexec, hforgotten⟩ := (any_eq_true _ _).mp hdropped
  obtain ⟨s', hexec', hforgotten'⟩ := (any_eq_true _ _).mp hhalted
  exact ⟨⟨s, Machine.run_of_exec first_starts hexec, forgotten_spec hforgotten⟩,
    s', Machine.run_of_exec first_starts hexec', forgotten_spec hforgotten'⟩

open PauseSample in
/-- A directory is selected, and its stored task is queued and has a slot. -/
theorem queue_and_store_agree_dispatched :
    ∃ s, ((transferMachine .sample).restrict fun s e _ => s.Orderly .sample e).Run
        QueueSample.sending s ∧
      ∃ t ∈ s.desk.tasks, t.direction = .send ∧ t.state = .queued ∧
        s.desk.queue.Knows t.taskId := by
  have hrun : ((first.step .sample
      (.select .directory peer [record] io)).any fun s₁ =>
        s₁.desk.failures == first.desk.failures &&
        (s₁.step .sample (.dispatch fun _ => true)).any fun s =>
          s.desk.failures == s₁.desk.failures &&
          s.desk.tasks.any fun t => t.direction == .send && t.state == .queued) = true := by
    decide +kernel
  obtain ⟨s₁, hselect, hchecks⟩ := (any_eq_true _ _).mp hrun
  simp only [Bool.and_eq_true, beq_iff_eq] at hchecks
  obtain ⟨hfailures₁, hafter⟩ := hchecks
  obtain ⟨s, hdispatch, hchecks⟩ := (any_eq_true _ _).mp hafter
  simp only [Bool.and_eq_true, beq_iff_eq, List.any_eq_true] at hchecks
  obtain ⟨hfailures, t, ht, hsend, hqueued⟩ := hchecks
  have horderly₁ : first.Orderly .sample (.select .directory peer [record] io) := by
    refine ⟨fun s' hs' => ?_, fun habandons => habandons⟩
    rw [hselect] at hs'
    cases hs'
    exact hfailures₁
  have horderly : s₁.Orderly .sample (.dispatch fun _ => true) := by
    refine ⟨fun s' hs' => ?_, fun habandons => habandons⟩
    rw [hdispatch] at hs'
    cases hs'
    exact hfailures
  have hfirst : ((transferMachine .sample).restrict fun s e _ => s.Orderly .sample e).Run []
      first := .nil first_starts
  have hruns : ((transferMachine .sample).restrict fun s e _ => s.Orderly .sample e).Run
      QueueSample.sending s :=
    (hfirst.snoc ⟨hselect, horderly₁⟩).snoc ⟨hdispatch, horderly⟩
  exact ⟨s, hruns, t, ht, hsend, hqueued, (queue_and_store_agree hruns).1 t ht hsend hqueued⟩

end P2pFile.Node
