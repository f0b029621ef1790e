/-
  P2pFile.Node.RestDesk

  A task that is stored as paused or failed and that the send queue does not know, and what
  the programs of the transfer service do to it.

  A program that is not about the task leaves it as it is.  One that is about it looks at
  the stored state first: there is nothing to pause, to settle or to recover, and an
  automatic attempt on it is refused.
-/

import P2pFile.Node.TransferSteps

namespace P2pFile.Node

open Lib Protocol Storage

variable {c : Crypto} {T : TaskId} {clock : Clock} {clocks : Nat → Clock}

/-! ## The store and the queue -/

/-- The task is stored as paused or failed. -/
structure StoredAtRest (T : TaskId) (tasks : List TaskRecord) : Prop where
  tidy : Tidy tasks
  stored : ∃ t ∈ tasks, t.taskId = T ∧ (t.state = .paused ∨ t.state = .failed)

/-- The queue does not know the task. -/
structure Unqueued (T : TaskId) (q : TaskQueue) : Prop where
  pending : ∀ e ∈ q.pending, e.id ≠ T
  active : q.active.lookup T = none
  slot : q.generations.lookup T = none

def RestDesk (T : TaskId) : DeskProp := fun tasks q _ => StoredAtRest T tasks ∧ Unqueued T q

/-- Every record of the task is at rest. -/
theorem StoredAtRest.state {tasks : List TaskRecord} (h : StoredAtRest T tasks)
    {t : TaskRecord} (ht : t ∈ tasks) (hid : t.taskId = T) :
    t.state = .paused ∨ t.state = .failed := by
  obtain ⟨u, hu, huid, hstate⟩ := h.stored
  rw [h.tidy.unique.eq ht hu (hid.trans huid.symm)]
  exact hstate

/-- The record that an operation leaves for the task is at rest. -/
theorem StoredAtRest.of_rewritten {R : TaskRecord → TaskRecord → Prop} {old new : List TaskRecord}
    (hnew : Rewrites T R old new) (hR : ∀ t t', R t t' → t'.state = .paused ∨ t'.state = .failed) :
    StoredAtRest T new := by
  obtain ⟨t, t', -, hid, hbind, hstate, hmem⟩ := hnew.ex
  exact ⟨hnew.tidy, t', (hmem t').mpr (.inl rfl), hbind.taskId.trans hid, hR t t' hstate⟩

variable {id : TaskId}

theorem StoredAtRest.of_rewrites {R : TaskRecord → TaskRecord → Prop} {old new : List TaskRecord}
    (h : StoredAtRest T old) (hnew : Rewrites id R old new) (hne : id ≠ T) :
    StoredAtRest T new := by
  obtain ⟨u, hu, huid, hstate⟩ := h.stored
  obtain ⟨_, _, _, _, _, _, hmem⟩ := hnew.ex
  refine ⟨hnew.tidy, u, (hmem u).mpr (.inr ⟨hu, ?_⟩), huid, hstate⟩
  intro heq
  exact hne (heq.symm.trans huid)

/-- The operation adds nothing for the task. -/
def QueueOp.Spares (T : TaskId) : QueueOp → Prop
  | .enqueue entries => ∀ e ∈ entries, e.id ≠ T
  | .reserveDirect entry => entry.id ≠ T
  | _ => True

variable {q : TaskQueue}

theorem Unqueued.activate (h : Unqueued T q) {entry : QueueEntry} (hne : entry.id ≠ T)
    {generation : UInt64} {rest : List QueueEntry} (hrest : ∀ e ∈ rest, e.id ≠ T) :
    Unqueued T ({ q with pending := rest }.activate entry generation) where
  pending := hrest
  active := by
    show (q.active.insert entry.id entry).lookup T = none
    rw [AList.lookup_insert_ne (Ne.symm hne)]
    exact h.active
  slot := by
    show (q.generations.insert entry.id generation).lookup T = none
    rw [AList.lookup_insert_ne (Ne.symm hne)]
    exact h.slot

theorem Unqueued.step (h : Unqueued T q) {op : QueueOp} (hop : op.Spares T) :
    Unqueued T (q.step op) := by
  have hstep := TaskQueue.step_cases q op
  generalize q.step op = q' at hstep
  cases hstep with
  | failed => exact h
  | enqueued hsub =>
    refine ⟨?_, h.active, h.slot⟩
    intro e he
    rcases List.mem_append.mp he with he | he
    · exact h.pending e he
    · exact hop e (hsub.subset he)
  | @dispatched _ entry _ l₁ l₂ hpend =>
    have hne : entry.id ≠ T := h.pending entry (by simp [hpend])
    refine h.activate hne fun e he => h.pending e ?_
    rw [hpend]
    exact (TaskQueue.sublist_without l₁ l₂ entry).subset he
  | @reserved entry _ rest _ _ _ hrest =>
    refine h.activate hop fun e he => h.pending e ?_
    rcases hrest with ⟨l₁, l₂, hpend, rfl⟩ | ⟨rfl, -⟩
    · rw [hpend]
      exact (TaskQueue.sublist_without l₁ l₂ _).subset he
    · exact he
  | @finished id _ _ =>
    exact ⟨h.pending, AList.lookup_erase_none h.active, AList.lookup_erase_none h.slot⟩
  | @removed entry l₁ l₂ hpend =>
    refine ⟨?_, h.active, h.slot⟩
    intro e he
    refine h.pending e ?_
    rw [hpend]
    exact (TaskQueue.sublist_without l₁ l₂ entry).subset he
  | limited => exact ⟨h.pending, h.active, h.slot⟩
  | cleared => exact ⟨fun _ he => absurd he List.not_mem_nil, rfl, rfl⟩

/-! ## Programs that leave the task at rest -/

/-- The program leaves the task at rest, whether it returns or fails. -/
def Calm {α : Type} (T : TaskId) (p : DeskProg α) : Prop :=
  DeskSpec (RestDesk T) p (fun _ => RestDesk T) (RestDesk T)

section Calm

variable {α β : Type}

theorem Calm.queueOp {f : TaskQueue → α × TaskQueue} (op : TaskQueue → QueueOp)
    (hf : ∀ q, (f q).2 = q.step (op q)) (hop : ∀ q, (op q).Spares T) : Calm T (onQueue f) := by
  refine DeskSpec.queue fun ts q n h => ⟨h.1, ?_⟩
  rw [hf q]
  exact h.2.step (hop q)

variable {p : StoreProg α}

/-- A program of the store that keeps the stored state. -/
theorem Calm.store (hp : ∀ ts, StoredAtRest T ts → Prog.Triple (HoldsTasks ts) p
      (fun _ w => StoredAtRest T w.memory.tasks) (fun w => StoredAtRest T w.memory.tasks)
      fun _ => True) : Calm T (onStore p) :=
  DeskSpec.store fun ts _ _ h => (hp ts h.1).conseq (fun _ hw => hw)
    (fun _ _ hw => ⟨hw, h.2⟩) (fun _ hw => ⟨hw, h.2⟩) fun _ h => h

/-- One that leaves the tasks alone if it fails. -/
theorem Calm.storeOp (hp : ∀ ts, StoredAtRest T ts → Prog.Triple (HoldsTasks ts) p
      (fun _ w => StoredAtRest T w.memory.tasks) (HoldsTasks ts) fun _ => True) :
    Calm T (onStore p) :=
  DeskSpec.storeOp (fun ts _ _ h => (hp ts h.1).post fun _ _ hw => ⟨hw, h.2⟩) fun _ _ _ h => h

variable {id : TaskId} {next : TaskState} {diagnostic : Option TaskDiagnostic}

theorem Calm.moves (hne : id ≠ T) : Calm T (onStore (transition c id next diagnostic clock)) :=
  DeskSpec.moves (fun _ _ _ h => h.1.tidy)
    (fun _ _ _ _ h hnew => ⟨h.1.of_rewrites hnew hne, h.2⟩) fun _ _ _ h => h

theorem Calm.counted (hne : id ≠ T) : Calm T (countedTransition c id next diagnostic clock) :=
  DeskSpec.counted (fun _ _ _ h => h.1.tidy)
    (fun _ _ _ _ h hnew => ⟨h.1.of_rewrites hnew hne, h.2⟩) fun _ _ _ h => h

/-- An operation on another task. -/
theorem Calm.alters {op : StoreOp} {R : TaskRecord → TaskRecord → Prop} (hop : op.Alters c id R)
    (hne : id ≠ T) : Calm T (onStore (performOp c op)) := by
  refine .storeOp fun ts hts => ?_
  exact (performOp_alters hop hts.tidy).post fun _ _ hnew => hts.of_rewrites hnew hne

variable {f : TaskRecord → DeskProg β}

variable (hf : ∀ t, (id = T → t.state = .paused ∨ t.state = .failed) → Calm T (f t))

include hf

/-- Reading a task: if it is the one at rest, its state is known. -/
theorem Calm.readThen : Calm T (onStore (readTask id) >>= f) := by
  refine .bind (J := fun t ts q n => (id = T → t.state = .paused ∨
    t.state = .failed) ∧ RestDesk T ts q n) (.read ?_ fun _ _ _ h _ => h) fun t => ?_
  · exact fun t ts q n h hmem hid => ⟨fun hT => h.1.state hmem (hid.trans hT), h⟩
  · exact .of_imp (fun hstate => (hf t hstate).pre fun _ _ _ h => h.2) fun _ _ _ h => h.1

/-- The same for a task that has to be bound to a peer. -/
theorem Calm.readBoundThen {peer : NodeId} : Calm T (onStore (boundRecord peer id) >>= f) := by
  refine .bind (J := fun t ts q n => (id = T → t.state = .paused ∨
    t.state = .failed) ∧ RestDesk T ts q n) (.readBound ?_ fun _ _ _ h => h) fun t => ?_
  · exact fun t ts q n h hmem hid _ => ⟨fun hT => h.1.state hmem (hid.trans hT), h⟩
  · exact .of_imp (fun hstate => (hf t hstate).pre fun _ _ _ h => h.2) fun _ _ _ h => h.1

end Calm

/-! ## Admission and selection -/

variable {peer : NodeId}

theorem admitEntries_calm (ids : List TaskId) : DeskSpec (RestDesk T) (admitEntries peer ids)
      (fun entries ts q n => (∀ e ∈ entries, e.id ∈ ids) ∧ RestDesk T ts q n) (RestDesk T) := by
  induction ids with
  | nil => exact .pure fun _ _ _ h => ⟨fun _ he => absurd he List.not_mem_nil, h⟩
  | cons id rest ih =>
    have hskip : DeskSpec (RestDesk T) (admitEntries peer rest)
        (fun entries ts q n => (∀ e ∈ entries, e.id ∈ id :: rest) ∧ RestDesk T ts q n)
        (RestDesk T) :=
      ih.conseq (fun _ _ _ h => h)
        (fun _ _ _ _ h => ⟨fun e he => .tail _ (h.1 e he), h.2⟩) fun _ _ _ h => h
    refine .bind (J := fun _ => RestDesk T)
      (.readBound (fun _ _ _ _ h _ _ _ => h) fun _ _ _ h => h) fun record => ?_
    dsimp only
    split
    · exact .stop fun _ _ _ h => h
    refine .get fun d => .pre ?_ (fun _ _ _ h => h.2.2.2)
    split
    · exact hskip
    split
    · exact .stop fun _ _ _ h => h
    refine .bind hskip fun entries => .pure fun _ _ _ h => ⟨?_, h.2⟩
    intro e he
    rcases List.mem_cons.mp he with rfl | he
    · exact (.head _)
    · exact h.1 e he

variable {entries : List QueueEntry} (n : Nat)

theorem queueEntries_calm (hne : ∀ e ∈ entries, e.id ≠ T) :
    Calm T (queueEntries c clocks n entries) := by
  induction entries generalizing n with
  | nil => exact .skip
  | cons entry rest ih =>
    have hrest : Calm T (queueEntries c clocks (n + 1) rest) :=
      ih (n + 1) fun e he => hne e (.tail _ he)
    refine .readThen fun t _ => ?_
    split
    · exact (Calm.counted (hne entry (.head _))).bind fun _ => hrest
    · exact hrest

theorem withdrawEntries_calm (hne : ∀ e ∈ entries, e.id ≠ T) :
    Calm T (withdrawEntries c clocks n entries) := by
  induction entries generalizing n with
  | nil => exact .skip
  | cons entry rest ih =>
    have hrest : Calm T (withdrawEntries c clocks (n + 1) rest) :=
      ih (n + 1) fun e he => hne e (.tail _ he)
    refine .getAny fun d => ?_
    split
    · refine Calm.readThen fun t _ => ?_
      split
      · exact (Calm.counted (hne entry (.head _))).bind fun _ => hrest
      · exact hrest
    · exact hrest

variable {ids : List TaskId}

theorem admitLocked_calm (hne : T ∉ ids) : Calm T (admitLocked c peer ids clocks) := by
  refine .bind (admitEntries_calm ids) fun entries => ?_
  refine .of_imp (fun hids => ?_) fun _ _ _ h => h.1
  have hother : ∀ e ∈ entries, e.id ≠ T := by
    rintro e he rfl
    exact hne (hids e he)
  have hqueue : Calm T (onQueue fun q => q.enqueue entries) :=
    .queueOp (fun _ => .enqueue entries) (fun _ => rfl) fun _ => hother
  refine .pre (A := RestDesk T) ?_ (fun _ _ _ h => h.2)
  refine (queueEntries_calm 0 hother).bind fun _ => hqueue.bind fun result => ?_
  cases result with
  | ok _ => exact .skip
  | error message => exact (withdrawEntries_calm 0 hother).bind fun _ => .throw fun _ _ _ h => h

theorem queueAll_calm (hne : T ∉ ids) : Calm T (queueAll c clocks n ids) := by
  induction ids generalizing n with
  | nil => exact .skip
  | cons id rest ih =>
    rw [List.mem_cons, not_or] at hne
    exact (Calm.counted (Ne.symm hne.1)).bind fun _ => ih (n + 1) hne.2

variable {op : StoreOp} {records : List TaskRecord}

theorem selectWith_calm (hop : op = .createSelection records ∨ ∃ r, op = .create r ∧ records = [r])
    (hne : T ∉ records.map fun r => r.taskId) :
    Calm T (selectWith c op peer (records.map fun r => r.taskId) clocks) := by
  have hcreate : Calm T (onStore (performOp c op)) := by
    refine .storeOp fun ts hts => ?_
    refine (creates_spec hop).post ?_
    intro _ w hadds
    obtain ⟨t, ht, hid, hstate⟩ := hts.stored
    exact ⟨hadds.tidy, t, (hadds.mem t).mpr (.inl ht), hid, hstate⟩
  exact hcreate.bind fun _ => (queueAll_calm 0 hne).bind fun _ => admitLocked_calm hne

theorem confirmDirectory_calm {supported : Bool} (hne : T ∉ records.map fun r => r.taskId) :
    Calm T (confirmDirectory c peer records supported clocks) := by
  unfold confirmDirectory
  cases hres : (if supported = true then enableAll records else .ok records) with
  | error err => exact .stop fun _ _ _ h => h
  | ok new =>
    refine selectWith_calm (.inl rfl) fun hmem => hne ?_
    obtain ⟨r', hr', hid⟩ := List.mem_map.mp hmem
    split at hres
    · obtain ⟨r, hr, hbind⟩ := enableAll_binding hres r' hr'
      exact List.mem_map.mpr ⟨r, hr, hbind.taskId.symm.trans hid⟩
    · rw [← Except.ok.inj hres] at hr'
      exact List.mem_map.mpr ⟨r', hr', hid⟩

/-! ## Pause, cancel, revocation -/

theorem pauseWaiting_calm : Calm T (pauseWaiting c id clocks) := by
  refine .readThen fun t hstate => ?_
  by_cases hT : id = T
  · -- at rest there is nothing to pause
    have hidle : Calm T (Pure.pure false) := .skip
    rcases hstate hT with h | h <;> simpa [h, TaskState.needsStartupRecovery] using hidle
  extract_lets active state pauses goesOn
  have hpauses : ∀ u, Calm T (pauses u) := by
    intro u
    unfold pauses
    split
    · exact (Calm.counted hT).bind fun _ => (Calm.counted hT).bind fun _ => .skip
    · exact .skip
  have hgoesOn : ∀ u, Calm T (goesOn u) := by
    intro u
    unfold goesOn
    split
    · exact (Calm.counted hT).bind hpauses
    · exact hpauses ()
  split
  · exact (Calm.counted hT).bind hgoesOn
  · exact hgoesOn ()

/-- The last part of `pause_task`: the task leaves the queue. -/
theorem Calm.leaveQueue (id : TaskId) (generation : Option UInt64) : Calm T (onQueue fun q =>
      let q := (q.removeQueued id).2
      ((), match generation with
        | some generation => q.finishIf id generation
        | none => q)) := by
  refine .queue fun ts q n h => ⟨h.1, ?_⟩
  have hrem : Unqueued T (q.step (.removeQueued id)) := h.2.step trivial
  cases generation with
  | none => exact hrem
  | some generation =>
    show Unqueued T ((q.step (.removeQueued id)).step (.finishIf id generation))
    exact hrem.step trivial

theorem pauseIdle_calm {waiting : Bool} : Calm T (pauseIdle c id waiting clocks) := by
  refine .getAny fun d => ?_
  extract_lets queued generation idle leaves reads goesOn
  have hgoesOn : ∀ paused : Bool, Calm T (goesOn paused) := by
    intro paused
    unfold goesOn
    split
    · exact .skip
    split
    · exact .stop fun _ _ _ h => h
    refine .readThen fun t hstate => ?_
    split
    · exact .stop fun _ _ _ h => h
    rename_i hqueued
    have hne : id ≠ T := by
      intro hT
      rw [not_not] at hqueued
      rcases hstate hT with h | h <;> rw [hqueued] at h <;> cases h
    exact (Calm.moves hne).bind fun _ => (Calm.moves hne).bind fun _ =>
      Calm.leaveQueue id _
  split
  · exact pauseWaiting_calm.bind hgoesOn
  · exact hgoesOn false

theorem cancelStored_calm {active : Bool} : Calm T (cancelStored c id active clock) := by
  have hcancel : Calm T (onStore (performOp c (.cancel id clock))) := by
    refine .storeOp fun ts hts => ?_
    refine (cancel_spec id clock).post ?_
    rintro _ w (hnew | ⟨heq, -⟩)
    · by_cases hT : id = T
      · -- a cancelled task is failed
        subst hT
        exact .of_rewritten hnew fun _ _ hcanc => .inr hcanc.2
      · exact hts.of_rewrites hnew hT
    · rw [heq]
      exact hts
  refine hcancel.bind fun _ => .queue fun ts q n h => ⟨h.1, ?_⟩
  have hrem : Unqueued T (q.step (.removeQueued id)) := h.2.step trivial
  dsimp only
  split
  next generation _ =>
    show Unqueued T ((q.step (.removeQueued id)).step (.finishIf id generation))
    exact hrem.step trivial
  · exact hrem

theorem revokeEach_calm (hne : T ∉ ids) : Calm T (revokeEach c clocks n ids) := by
  induction ids generalizing n with
  | nil => exact .skip
  | cons id rest ih =>
    rw [List.mem_cons, not_or] at hne
    have hremove : Calm T (onQueue fun q => ((), (q.removeQueued id).2)) :=
      .queueOp (fun _ => .removeQueued id) (fun _ => rfl) fun _ => trivial
    exact hremove.bind fun _ => (Calm.counted (Ne.symm hne.1)).bind fun _ =>
      ih (n + 1) hne.2

theorem revokeStored_calm {rights : Rights} : Calm T (revokeStored c peer rights clocks) := by
  refine .get fun d => ?_
  refine .of_imp (P := StoredAtRest T d.tasks) (fun hrest => ?_) ?_
  · refine (revokeEach_calm 0 ?_).pre (fun _ _ _ h => h.2.2.2)
    intro hmem
    obtain ⟨t, ht, hid⟩ := List.mem_map.mp hmem
    obtain ⟨ht, hunder⟩ := List.mem_filter.mp ht
    rcases hrest.state ht hid with h | h <;>
      simp [h, TaskState.needsStartupRecovery] at hunder
  · intro ts q n h
    rw [h.1]
    exact h.2.2.2.1

/-! ## Bringing the task to rest -/

/-- The tasks are in order, and the queue is sound. -/
def SoundDesk : DeskProp := fun tasks q _ => Tidy tasks ∧ q.Inv

section Rests

variable {q : TaskQueue} (h : q.Inv)

include h

omit h in
theorem removeQueued_slot (id : TaskId) :
    (q.removeQueued id).2.slotGeneration T = q.slotGeneration T := by
  rcases q.removeQueued_cases id with ⟨-, heq, -⟩ | ⟨_, _, _, -, -, -, heq⟩
  · rw [heq]
  · rw [heq]
    rfl

theorem TaskQueue.Inv.unqueued (hpending : ∀ e ∈ q.pending, e.id ≠ T)
    (hslot : q.slotGeneration T = none) : Unqueued T q := by
  refine ⟨hpending, ?_, hslot⟩
  have hkeys := h.keys T
  rw [show q.generations.lookup T = none from hslot] at hkeys
  simpa using hkeys

theorem removeQueued_pending : ∀ e ∈ (q.removeQueued T).2.pending, e.id ≠ T := by
  rcases q.removeQueued_cases T with ⟨-, heq, hother⟩ | ⟨entry, l₁, l₂, -, hid, hpend, heq⟩
  · rw [heq]
    exact hother
  rw [heq]
  intro e he heid
  have hunique := h.unique
  rw [hpend, List.map_append, List.map_cons, List.nodup_middle, List.nodup_cons,
    ← List.map_append, hid, ← heid] at hunique
  exact hunique.1 (List.mem_map_of_mem he)

/-- A task without a slot that has left the list is not known any more. -/
theorem Unqueued.of_removed (hslot : (q.removeQueued T).2.slotGeneration T = none) :
    Unqueued T (q.removeQueued T).2 :=
  TaskQueue.Inv.unqueued (h.step (q.step_cases (.removeQueued T))) (removeQueued_pending h) hslot

/-- Nor is one that has given its slot back. -/
theorem Unqueued.of_finished {generation : UInt64}
    (hslot : (q.removeQueued T).2.slotGeneration T = some generation) :
    Unqueued T ((q.removeQueued T).2.finishIf T generation) := by
  unfold TaskQueue.finishIf
  rw [if_pos hslot]
  exact ⟨removeQueued_pending h, AList.lookup_erase _ _, AList.lookup_erase _ _⟩

end Rests

/-- Whatever a failed program leaves. -/
def AnyDesk : DeskProp := fun _ _ _ => True

theorem pauseWaiting_rests : DeskSpec (fun ts q _ => Tidy ts ∧ Unqueued T q)
      (pauseWaiting c T clocks) (fun done ts q n => done = true → RestDesk T ts q n) AnyDesk := by
  refine .bind (J := fun _ ts q _ => Tidy ts ∧ Unqueued T q)
    (.read (fun _ _ _ _ h _ _ => h) fun _ _ _ _ _ => trivial) fun t => ?_
  extract_lets active state pauses goesOn
  have hmoves : ∀ next clock, DeskSpec (fun ts q _ => Tidy ts ∧ Unqueued T q)
      (countedTransition c T next none clock) (fun _ ts q _ => Tidy ts ∧ Unqueued T q) AnyDesk :=
    fun _ _ => .counted (fun _ _ _ h => h.1) (fun _ _ _ _ h hnew => ⟨hnew.tidy, h.2⟩)
      fun _ _ _ _ => trivial
  have hpauses : ∀ u, DeskSpec (fun ts q _ => Tidy ts ∧ Unqueued T q) (pauses u)
      (fun done ts q n => done = true → RestDesk T ts q n) AnyDesk := by
    intro u
    unfold pauses
    split
    · refine .bind (hmoves _ _) fun _ => .bind (J := fun _ => RestDesk T) ?_ fun _ =>
        .pure fun _ _ _ h _ => h
      exact .counted (fun _ _ _ h => h.1)
        (fun _ _ _ _ h hnew => ⟨.of_rewritten hnew fun _ _ hmoved => .inl hmoved.2.1, h.2⟩)
        fun _ _ _ _ => trivial
    · exact .pure fun _ _ _ _ hdone => nomatch hdone
  have hgoesOn : ∀ u, DeskSpec (fun ts q _ => Tidy ts ∧ Unqueued T q) (goesOn u)
      (fun done ts q n => done = true → RestDesk T ts q n) AnyDesk := by
    intro u
    unfold goesOn
    split
    · exact .bind (hmoves _ _) hpauses
    · exact hpauses ()
  split
  · exact .bind (hmoves _ _) hgoesOn
  · exact hgoesOn ()

/-- A pause that returns brings the task to rest. -/
theorem pauseIdle_rests {waiting : Bool} :
    DeskSpec SoundDesk (pauseIdle c T waiting clocks) (fun _ => RestDesk T) AnyDesk := by
  refine .get fun d => ?_
  extract_lets queued generation idle leaves reads goesOn
  split
  next hidle =>
    -- what `pauseWaiting` does not pause is refused
    rw [Bool.and_eq_true] at hidle
    refine .bind (pauseWaiting_rests.pre ?_) fun paused => ?_
    · rintro ts q n ⟨-, rfl, -, htidy, hinv⟩
      obtain ⟨hqueued, hslot⟩ := Bool.and_eq_true_iff.mp hidle.2
      refine ⟨htidy, hinv.unqueued ?_ (Option.isNone_iff_eq_none.mp hslot)⟩
      simpa [queued, Desk.isQueued] using hqueued
    cases paused with
    | true => exact .pure fun _ _ _ h => h rfl
    | false =>
      unfold goesOn
      rw [if_neg Bool.false_ne_true, if_pos hidle.2]
      exact .stop fun _ _ _ _ => trivial
  · show DeskSpec _ (goesOn false) _ _
    unfold goesOn
    rw [if_neg Bool.false_ne_true]
    split
    · exact .stop fun _ _ _ _ => trivial
    refine .bind (J := fun _ ts q n => d.queue = q ∧ SoundDesk ts q n)
      (.read (fun _ _ _ _ h _ _ => ⟨h.2.1, h.2.2.2⟩) fun _ _ _ _ _ => trivial) fun t => ?_
    split
    · exact .stop fun _ _ _ _ => trivial
    refine .bind (J := fun _ ts q n => d.queue = q ∧ SoundDesk ts q n) ?_ fun _ =>
      .bind (J := fun _ ts q _ => d.queue = q ∧ StoredAtRest T ts ∧ q.Inv) ?_ fun _ => ?_
    · exact .moves (fun _ _ _ h => h.2.1) (fun _ _ _ _ h hnew => ⟨h.1, hnew.tidy, h.2.2⟩)
        fun _ _ _ _ => trivial
    · refine .moves (fun _ _ _ h => h.2.1) (fun _ _ _ _ h hnew => ⟨h.1, ?_, h.2.2⟩)
        fun _ _ _ _ => trivial
      exact .of_rewritten hnew fun _ _ hmoved => .inl hmoved.2.1
    · refine .queue fun ts q n h => ⟨h.2.1, ?_⟩
      have hslot : (q.removeQueued T).2.slotGeneration T = generation :=
        (removeQueued_slot T).trans (h.1 ▸ rfl)
      dsimp only
      cases hgen : generation with
      | none => exact .of_removed h.2.2 (hslot.trans hgen)
      | some g => exact .of_finished h.2.2 (hslot.trans hgen)

/-- So does a cancellation that goes through when no attempt is active; a task that has been
    cancelled before stays as it is. -/
theorem cancelStored_rests :
    DeskSpec (fun ts q n => SoundDesk ts q n ∧
        ∀ t ∈ ts, t.taskId = T → t.CancelledBefore → t.state = .failed)
      (cancelStored c T false clock) (fun _ => RestDesk T) AnyDesk := by
  refine .bind (J := fun _ ts q _ => StoredAtRest T ts ∧ q.Inv) ?_ fun _ => ?_
  · refine .storeOp (fun ts q n h => ?_) fun _ _ _ _ => trivial
    refine (cancel_spec T clock).post ?_
    rintro _ w (hnew | ⟨heq, t, ht, hid, hbefore⟩)
    · exact ⟨.of_rewritten hnew fun _ _ hcanc => .inr hcanc.2, h.1.2⟩
    · rw [heq]
      exact ⟨⟨h.1.1, t, ht, hid, .inr (h.2 t ht hid hbefore)⟩, h.1.2⟩
  · refine .queue fun ts q n h => ⟨h.1, ?_⟩
    dsimp only
    cases hslot : (q.removeQueued T).2.slotGeneration T with
    | none => exact .of_removed h.2 hslot
    | some generation => exact .of_finished h.2 hslot

/-! ## Attempts and the recovery -/

/-- The check of an automatic attempt on the task fails. -/
theorem checkAutomatic_refuses {allowed : Bool} :
    DeskSpec (RestDesk T) (checkAutomatic peer T allowed) (fun _ _ _ _ => False) (RestDesk T) := by
  refine .get fun d => ?_
  refine .of_imp (P := StoredAtRest T d.tasks) (fun hrest => ?_) ?_
  · have hfound : (d.tasks.any fun t => t.taskId == T) = true := by
      obtain ⟨t, ht, hid, -⟩ := hrest.stored
      exact List.any_eq_true.mpr ⟨t, ht, by simpa using hid⟩
    rw [if_pos hfound]
    refine .bind (J := fun t ts q n => (t.state = .paused ∨ t.state = .failed) ∧
      RestDesk T ts q n) (.readBound ?_ fun _ _ _ h => h.2.2.2) fun t => ?_
    · exact fun t ts q n h hmem hid _ => ⟨h.2.2.2.1.state hmem hid, h.2.2.2⟩
    · refine .of_imp (fun hstate => ?_) fun _ _ _ h => h.1
      have hrefused : t.state ≠ .completed ∧
          (allowed = false ∨ automaticRecordAllowed t = false) := by
        rcases hstate with h | h <;> simp [h, automaticRecordAllowed]
      rw [if_pos hrefused]
      exact .throw fun _ _ _ h => h.2
  · intro ts q n h
    rw [h.1]
    exact h.2.2.2.1

theorem finishStored_calm (hne : id ≠ T) {verdict : Verdict} :
    Calm T (finishStored c id verdict clock) := by
  refine .readThen fun t _ => ?_
  split
  · exact .skip
  · exact .counted hne

theorem settleStored_calm : Calm T (settleStored c peer id clock) := by
  refine .readBoundThen fun t hstate => ?_
  split
  next hunder =>
    have hne : id ≠ T := by
      intro hT
      rcases hstate hT with h | h <;> simp [h, TaskState.needsStartupRecovery] at hunder
    exact (Calm.moves hne).bind fun _ => .skip
  · exact .skip

/-- The recovery finds nothing to do for the task. -/
theorem recoverStored_calm {ticket : Ticket} : DeskSpec (RestDesk T) (recoverStored c ticket clock)
      (fun direction ts q n => (ticket.id = T → direction = none) ∧ RestDesk T ts q n)
      (RestDesk T) := by
  refine .bind (J := fun t ts q n => (ticket.id = T → t.state = .paused ∨
    t.state = .failed) ∧ RestDesk T ts q n) (.readBound ?_ fun _ _ _ h => h) fun t => ?_
  · exact fun t ts q n h hmem hid _ => ⟨fun hT => h.1.state hmem (hid.trans hT), h⟩
  · refine .of_imp (fun hstate => ?_) fun _ _ _ h => h.1
    split
    · exact .pure fun _ _ _ h => ⟨fun _ => rfl, h.2⟩
    rename_i hallowed
    have hne : ticket.id ≠ T := by
      intro hT
      rcases hstate hT with h | h <;> simp [h, automaticRecordAllowed] at hallowed
    have hdone : DeskSpec (RestDesk T) (Pure.pure (some t.direction) : DeskProg _)
        (fun direction ts q n => (ticket.id = T → direction = none) ∧ RestDesk T ts q n)
        (RestDesk T) := .pure fun _ _ _ h => ⟨fun hT => absurd hT hne, h⟩
    refine .pre (A := RestDesk T) ?_ (fun _ _ _ h => h.2)
    split
    · exact .bind (Calm.moves hne) fun _ => hdone
    · exact hdone

theorem stopStored_calm {ticket : Ticket} : Calm T (stopStored c ticket clock) := by
  refine .readBoundThen fun t hstate => ?_
  split
  next hqueued =>
    have hne : ticket.id ≠ T := by
      intro hT
      rcases hstate hT with h | h <;> rw [hqueued] at h <;> cases h
    exact .moves hne
  · exact .skip

theorem attemptOp_calm (hne : id ≠ T) (op : Transfer.AttemptOp) : Calm T (op.program c id) := by
  cases op with
  | state next clock => exact .moves hne
  | prepare => exact .alters (alters_preparePublication id) hne
  | receipt now => exact .alters (alters_commitReceipt id now) hne
  | skipped now => exact .alters (alters_commitSkipped id now) hne
  | progress hint => exact .alters (alters_setProgressHint id hint) hne

theorem removes_calm (hop : Transfer.removes op = true) : Calm T (onStore (performOp c op)) := by
  refine .storeOp fun ts hts => ?_
  refine (removes_spec hts.tidy hop).post ?_
  intro _ w hremoves
  obtain ⟨t, ht, hid, hstate⟩ := hts.stored
  refine ⟨hremoves.tidy, t, hremoves.kept t ht ?_, hid, hstate⟩
  rcases hstate with h | h <;> rw [h] <;> decide

theorem beginSend_calm (hne : id ≠ T) {automatic cancelled allowed : Bool} :
    Calm T (beginSend c peer id automatic cancelled allowed clocks) := by
  have hmove : ∀ state clock,
      Keeps (fun w => StoredAtRest T w.memory.tasks) (moveTask c id state clock) := by
    intro state clock w plan hw
    refine (transition_spec hw.tidy id state none clock).conseq (fun _ h => h)
      (fun _ _ hnew => hw.of_rewrites hnew hne) ?_ (fun _ h => h) w plan rfl
    intro w' hw'
    rw [show w'.memory.tasks = w.memory.tasks from hw']
    exact hw
  have hbegin : Calm T (onStore (beginAttempt c id clocks)) := by
    refine .store fun ts hts => (Keeps.beginAttempt hmove).pre ?_
    intro w hw
    rw [show w.memory.tasks = ts from hw]
    exact hts
  refine .readBoundThen fun t _ => ?_
  dsimp only
  split
  · split
    · exact (Calm.moves hne).bind fun _ => .stop fun _ _ _ h => h
    · exact .stop fun _ _ _ h => h
  · split
    · exact (checkAutomatic_keeps fun _ _ _ h => h).bind fun _ => hbegin
    · exact hbegin

variable {offer : Offer} {peerId : PeerId} {root : PathBuf}

theorem acceptOffer_calm (hne : offer.taskId ≠ T) :
    Calm T (onStore (acceptOffer c peerId root offer clocks)) := by
  have hspares : ∀ {ts new : List TaskRecord}, StoredAtRest T ts →
      Spares offer.taskId peerId offer.groupId ts new → StoredAtRest T new := by
    intro ts new hts h
    obtain ⟨t, ht, hid, hstate⟩ := hts.stored
    have hmem : t ∈ new.filter fun u => u.taskId == T := by
      rw [h.same (fun u => u.taskId == T) fun u hu => by simpa [hu.taskId] using hne]
      exact List.mem_filter.mpr ⟨ht, by simpa using hid⟩
    exact ⟨⟨h.sorted, h.unique⟩, t, (List.mem_filter.mp hmem).1, hid, hstate⟩
  refine .store fun ts hts => ?_
  refine (acceptOffer_leavesOthers hts.tidy.sorted hts.tidy.unique).conseq
    (fun _ hw => hw) (fun _ _ hw => hspares hts hw) ?_ fun _ h => h
  rintro w (heq | hw)
  · rw [heq]
    exact hts
  · exact hspares hts hw

/-- The task is accepted in no automatic Offer. -/
theorem acceptStored_calm {automatic allowed : Bool} (hT : offer.taskId = T → automatic = true) :
    DeskSpec (RestDesk T) (acceptStored c peer peerId offer root automatic allowed clocks)
      (fun _ ts q n => offer.taskId ≠ T ∧ RestDesk T ts q n) (RestDesk T) := by
  unfold acceptStored
  by_cases hne : offer.taskId = T
  · rw [hT hne, if_pos rfl, hne]
    exact .bind checkAutomatic_refuses fun _ _ _ h => h.elim
  have haccept : DeskSpec (RestDesk T) (onStore (acceptOffer c peerId root offer clocks))
      (fun _ ts q n => offer.taskId ≠ T ∧ RestDesk T ts q n) (RestDesk T) :=
    (acceptOffer_calm hne).conseq (fun _ _ _ h => h) (fun _ _ _ _ h => ⟨hne, h⟩) fun _ _ _ h => h
  split
  · exact .bind (checkAutomatic_keeps fun _ _ _ h => h) fun _ => haccept
  · exact haccept

end P2pFile.Node
