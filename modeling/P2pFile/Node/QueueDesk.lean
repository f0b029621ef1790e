/-
  P2pFile.Node.QueueDesk

  The store and the send queue together: a task that is sent and stored as queued is known
  to the queue, and what waits in the queue names a stored task of its peer.

  The programs of the transfer service keep this between their locks.  In the middle of a
  program some tasks can be queued in the store alone; they are listed.  A transition that
  could not be stored is counted, and once one is, nothing is promised.
-/

import P2pFile.Node.TransferSteps

namespace P2pFile.Node

open Lib Protocol Storage

variable {c : Crypto} {clock : Clock} {clocks : Nat → Clock}

/-! ## Agreement -/

/-- The queue knows the task: it waits, or it has a slot. -/
def TaskQueue.Knows (q : TaskQueue) (id : TaskId) : Prop :=
  (∃ e ∈ q.pending, e.id = id) ∨ (q.slotGeneration id).isSome = true

/-- The record is that of a task which is sent to the peer. -/
structure TaskRecord.Sends (id : TaskId) (peer : NodeId) (t : TaskRecord) : Prop where
  taskId : t.taskId = id
  direction : t.direction = .send
  peerId : t.peerId.text = hexEncode peer.toList

theorem TaskRecord.Sends.of_binding {id : TaskId} {peer : NodeId} {t t' : TaskRecord}
    (h : t.Sends id peer) (hbind : t.SameBinding t') : t'.Sends id peer where
  taskId := hbind.taskId.trans h.taskId
  direction := hbind.direction.trans h.direction
  peerId := (congrArg _ hbind.peerId).trans h.peerId

/-- What the attempts and the calls of the service stand for. -/
structure Duties where
  /-- An attempt has claimed the task and holds the slot. -/
  owns : TaskId → UInt64 → Prop
  /-- An attempt runs or has run: with its slot the task is not queued any more. -/
  spent : TaskId → UInt64 → Prop
  /-- The task is one that is received. -/
  receives : TaskId → Prop

/-- The store and the queue agree, but for the listed tasks. -/
structure Agree (D : Duties) (L : List TaskId) (tasks : List TaskRecord) (q : TaskQueue) :
    Prop where
  tidy : Tidy tasks
  inv : q.Inv
  clean : ∀ t ∈ tasks, t.direction = .send → t.state = .queued → t.diagnostic = none
  queued : ∀ t ∈ tasks, t.direction = .send → t.state = .queued → t.taskId ∈ L ∨ q.Knows t.taskId
  pending : ∀ e ∈ q.pending, ∃ t ∈ tasks, t.Sends e.id e.peer ∧ t.state ≠ .completed
  owns : ∀ id g, D.owns id g → q.slotGeneration id = some g
  spent : ∀ id g, D.spent id g → q.slotGeneration id = some g →
    ∀ t ∈ tasks, t.taskId = id → t.direction = .send → t.state ≠ .queued
  receives : ∀ id, D.receives id → ∀ t ∈ tasks, t.taskId = id → t.direction = .receive

section Agree

variable {D : Duties} {L : List TaskId} {tasks new : List TaskRecord} {q : TaskQueue} {id : TaskId}

theorem Agree.weaken (h : Agree D L tasks q) {M : List TaskId} (hsub : ∀ id ∈ L, id ∈ M) :
    Agree D M tasks q :=
  { h with
    queued := fun t ht hsend hqueued =>
      (h.queued t ht hsend hqueued).imp_left (hsub t.taskId) }

/-- A task that the queue knows, or that is not queued, needs no mention. -/
theorem Agree.drop (h : Agree D (id :: L) tasks q)
    (hid : ∀ t ∈ tasks, t.taskId = id → t.direction = .send → t.state = .queued →
      q.Knows id) : Agree D L tasks q :=
  { h with
    queued := by
      intro t ht hsend hqueued
      rcases h.queued t ht hsend hqueued with hmem | hknown
      · rcases List.mem_cons.mp hmem with heq | hmem
        · rw [heq]
          exact .inr (hid t ht heq hsend hqueued)
        · exact .inl hmem
      · exact .inr hknown }

theorem Agree.of_nil (h : Agree D [] tasks q) : Agree D L tasks q :=
  h.weaken fun _ hmem => absurd hmem List.not_mem_nil

/-- A task that is not queued needs no mention. -/
theorem Agree.dropIdle (h : Agree D (id :: L) tasks q) {next : TaskState}
    (hid : ∀ t ∈ tasks, t.taskId = id → t.state = next) (hnext : next ≠ .queued) :
    Agree D L tasks q :=
  h.drop fun t ht heq _ hqueued => absurd ((hid t ht heq).symm.trans hqueued) hnext

variable {R : TaskRecord → TaskRecord → Prop}

/-- Every record is found again when one is rewritten. -/
theorem Rewrites.found (hnew : Rewrites id R tasks new) (huniq : UniqueIds tasks)
    {u : TaskRecord} (hu : u ∈ tasks) : ∃ u' ∈ new, u.SameBinding u' ∧
      (u.taskId = id ∧ R u u' ∨ u.taskId ≠ id ∧ u' = u) := by
  obtain ⟨t, t', ht, hid, hbind, hR, hmem⟩ := hnew.ex
  by_cases huid : u.taskId = id
  · obtain rfl := huniq.eq hu ht (huid.trans hid.symm)
    exact ⟨t', (hmem t').mpr (.inl rfl), hbind, .inl ⟨huid, hR⟩⟩
  · exact ⟨u, (hmem u).mpr (.inr ⟨hu, huid⟩), .refl u, .inr ⟨huid, rfl⟩⟩

variable (h : Agree D L tasks q)

include h

/-- A record that is rewritten: what matters is whether it enters the queue or completes. -/
theorem Agree.rewrite (hnew : Rewrites id R tasks new)
    (hqueued : ∀ t t', t ∈ tasks → t.taskId = id → t.direction = .send → R t t' →
      t'.state = .queued → t'.diagnostic = none ∧ (id ∈ L ∨ q.Knows id) ∧
        ∀ g, D.spent id g → q.slotGeneration id ≠ some g)
    (hcomp : ∀ t t', t ∈ tasks → t.taskId = id → t.direction = .send → R t t' →
      t'.state = .completed → ∀ e ∈ q.pending, e.id ≠ id) : Agree D L new q := by
  obtain ⟨t, t', ht, hid, hbind, hR, hmem⟩ := hnew.ex
  have hid' : t'.taskId = id := hbind.taskId.trans hid
  have hentered := fun hsend => hqueued t t' ht hid (hbind.direction.symm.trans hsend) hR
  refine ⟨hnew.tidy, h.inv, ?_, ?_, ?_, h.owns, ?_, ?_⟩
  · intro u hu hsend hstate
    rcases (hmem u).mp hu with rfl | ⟨hu, -⟩
    · exact (hentered hsend hstate).1
    · exact h.clean u hu hsend hstate
  · intro u hu hsend hstate
    rcases (hmem u).mp hu with rfl | ⟨hu, -⟩
    · rw [hid']
      exact (hentered hsend hstate).2.1
    · exact h.queued u hu hsend hstate
  · intro e he
    obtain ⟨u, hu, hsends, hopen⟩ := h.pending e he
    obtain ⟨u', hu', hsame, ⟨huid, hRu⟩ | ⟨-, rfl⟩⟩ := hnew.found h.tidy.unique hu
    · refine ⟨u', hu', hsends.of_binding hsame, fun hstate => ?_⟩
      exact hcomp u u' hu huid hsends.direction hRu hstate e he (hsends.taskId.symm.trans huid)
    · exact ⟨u', hu', hsends, hopen⟩
  · intro id' g hspent hslot u hu huid hsend hstate
    rcases (hmem u).mp hu with rfl | ⟨hu, -⟩
    · obtain rfl : id = id' := hid'.symm.trans huid
      exact (hentered hsend hstate).2.2 g hspent hslot
    · exact h.spent id' g hspent hslot u hu huid hsend hstate
  · intro id' hrecv u hu huid
    rcases (hmem u).mp hu with rfl | ⟨hu, -⟩
    · rw [hbind.direction]
      exact h.receives id' hrecv t ht (hbind.taskId.symm.trans huid)
    · exact h.receives id' hrecv u hu huid

variable {next : TaskState} {diagnostic : Option TaskDiagnostic}

/-- A transition that neither queues nor completes the task. -/
theorem Agree.leave (hnew : Rewrites id (Moved next diagnostic) tasks new)
    (hnext : next ≠ .queued ∧ next ≠ .completed) : Agree D L new q := by
  refine h.rewrite hnew ?_ ?_
  · intro _ t' _ _ _ hmoved hstate
    exact absurd (hmoved.2.1.symm.trans hstate) hnext.1
  · intro _ t' _ _ _ hmoved hstate
    exact absurd (hmoved.2.1.symm.trans hstate) hnext.2

/-- The task is queued in the store. -/
theorem Agree.enter (hnew : Rewrites id (Moved .queued none) tasks new)
    (hknown : id ∈ L ∨ q.Knows id) (hspent : ∀ g, D.spent id g → q.slotGeneration id ≠ some g) :
    Agree D L new q := by
  refine h.rewrite hnew ?_ ?_
  · intro _ _ _ _ _ hmoved _
    exact ⟨hmoved.2.2, hknown, hspent⟩
  · intro _ t' _ _ _ hmoved hstate
    cases hmoved.2.1.symm.trans hstate

/-- Whatever happens to a task that is received. -/
theorem Agree.received (hnew : Rewrites id R tasks new)
    (hreceive : ∀ t ∈ tasks, t.taskId = id → t.direction = .receive) : Agree D L new q := by
  have hnot : ∀ u ∈ tasks, u.taskId = id → u.direction ≠ .send := by
    intro u hu huid hsend
    rw [hreceive u hu huid] at hsend
    cases hsend
  exact h.rewrite hnew (fun u _ hu huid hsend => absurd hsend (hnot u hu huid))
    fun u _ hu huid hsend => absurd hsend (hnot u hu huid)

omit h

/-- After a transition the task is in the next state. -/
theorem Rewrites.state (hnew : Rewrites id (Moved next diagnostic) tasks new) {t : TaskRecord}
    (ht : t ∈ new) (hid : t.taskId = id) : t.state = next := by
  obtain ⟨_, t', _, _, _, hmoved, hmem⟩ := hnew.ex
  rcases (hmem t).mp ht with rfl | ⟨-, hne⟩
  · exact hmoved.2.1
  · exact absurd hid hne

/-! ## The queue's operations -/

/-- The task is taken from the waiting ones. -/
theorem Agree.removeQueued (h : Agree D L tasks q) (id : TaskId) :
    Agree D (id :: L) tasks (q.removeQueued id).2 := by
  have hinv : (q.removeQueued id).2.Inv := h.inv.step (q.step_cases (.removeQueued id))
  rcases q.removeQueued_cases id with ⟨-, heq, -⟩ | ⟨entry, l₁, l₂, -, hid, hpend, heq⟩
  · rw [heq]
    exact h.weaken fun _ => List.mem_cons_of_mem _
  rw [heq] at hinv ⊢
  refine { h with inv := hinv, queued := ?_, pending := ?_ }
  · intro t ht hsend hqueued
    rcases h.queued t ht hsend hqueued with hmem | ⟨e, he, heid⟩ | hslot
    · exact .inl (.tail _ hmem)
    · rw [hpend] at he
      rcases List.mem_append.mp he with he | he
      · exact .inr (.inl ⟨e, List.mem_append_left _ he, heid⟩)
      rcases List.mem_cons.mp he with rfl | he
      · refine .inl (List.mem_cons.mpr (.inl ?_))
        exact heid.symm.trans hid
      · exact .inr (.inl ⟨e, List.mem_append_right _ he, heid⟩)
    · exact .inr (.inr hslot)
  · intro e he
    refine h.pending e ?_
    rw [hpend]
    exact (TaskQueue.sublist_without l₁ l₂ entry).subset he

/-- A slot is given back of a task that is not queued. -/
theorem Agree.finishIf (h : Agree D L tasks q) {generation : UInt64}
    (hidle : ∀ t ∈ tasks, t.taskId = id → t.direction = .send → t.state = .queued →
      q.slotGeneration id = some generation → False)
    (hfree : ¬ D.owns id generation) : Agree D L tasks (q.finishIf id generation) := by
  have hinv : (q.finishIf id generation).Inv := h.inv.step (q.step_cases (.finishIf id generation))
  unfold TaskQueue.finishIf at hinv ⊢
  split at hinv
  next hslot =>
    rw [if_pos hslot]
    have hother : ∀ {id'}, id' ≠ id →
        (q.generations.erase id).lookup id' = q.generations.lookup id' :=
      fun hne => AList.lookup_erase_ne hne
    refine { h with inv := hinv, queued := ?_, owns := ?_, spent := ?_ }
    · intro t ht hsend hqueued
      have hne : t.taskId ≠ id := fun heq => hidle t ht heq hsend hqueued hslot
      rcases h.queued t ht hsend hqueued with hmem | hpend | hknown
      · exact .inl hmem
      · exact .inr (.inl hpend)
      refine .inr (.inr ?_)
      show ((q.generations.erase id).lookup t.taskId).isSome = true
      rw [hother hne]
      exact hknown
    · intro id' g howns
      have hheld := h.owns id' g howns
      have hne : id' ≠ id := by
        rintro rfl
        rw [hslot] at hheld
        cases hheld
        exact hfree howns
      show (q.generations.erase id).lookup id' = some g
      rw [hother hne]
      exact hheld
    · intro id' g hspent hheld
      exact h.spent id' g hspent (AList.lookup_erase_some hheld).2
  next hslot =>
    rw [if_neg hslot]
    exact h

/-- An entry that can be queued: its task is stored and has no slot. -/
structure Admissible (tasks : List TaskRecord) (q : TaskQueue) (e : QueueEntry) : Prop where
  stored : ∃ t ∈ tasks, t.Sends e.id e.peer ∧ t.state ≠ .completed
  free : q.slotGeneration e.id = none

/-- The listed tasks are queued. -/
theorem Agree.enqueued {entries : List QueueEntry} (h : Agree D (entries.map QueueEntry.id) tasks q)
    (hents : ∀ e ∈ entries, Admissible tasks q e) (hok : (q.enqueue entries).1 = .ok ()) :
    Agree D [] tasks (q.enqueue entries).2 := by
  have hinv : (q.enqueue entries).2.Inv := h.inv.step (q.step_cases (.enqueue entries))
  unfold TaskQueue.enqueue at hok hinv ⊢
  cases hall : TaskQueue.enqueueAll q.active q.pending entries with
  | error err =>
    rw [hall] at hok
    cases hok
  | ok candidate =>
    rw [hall] at hinv
    obtain ⟨fresh, rfl, hsub, -, -, -, hthere⟩ := TaskQueue.enqueueAll_ok hall
    refine { h with inv := hinv, queued := ?_, pending := ?_ }
    · intro t ht hsend hqueued
      refine .inr ?_
      rcases h.queued t ht hsend hqueued with hmem | ⟨e, he, heid⟩ | hslot
      · obtain ⟨e, he, heid⟩ := List.mem_map.mp hmem
        rcases hthere e he with hact | hin
        · right
          rw [← heid]
          show (q.generations.lookup e.id).isSome = true
          rw [← h.inv.keys e.id, hact]
          rfl
        · exact .inl ⟨e, hin, heid⟩
      · exact .inl ⟨e, List.mem_append_left _ he, heid⟩
      · exact .inr hslot
    · intro e he
      rcases List.mem_append.mp he with he | he
      · exact h.pending e he
      · exact (hents e (hsub.subset he)).stored

end Agree

/-! ## Programs that keep the agreement -/

variable (D : Duties)

/-- No failure has been counted beyond the first `N`, and store and queue agree. -/
def AgreeDesk (N : Nat) (L : List TaskId) : DeskProp :=
  fun tasks q n => n = N ∧ Agree D L tasks q

/-- A failure has been counted, or store and queue agree. -/
def AgreeErr (N : Nat) : DeskProp := fun tasks q n => n = N → Agree D [] tasks q

theorem AgreeDesk.err {D : Duties} {N n : Nat} {tasks : List TaskRecord} {q : TaskQueue}
    (h : AgreeDesk D N [] tasks q n) : AgreeErr D N tasks q n :=
  fun _ => h.2

variable {α : Type} (N : Nat) (p : DeskProg α)

/-- From `I` the program gets to the agreement, unless it counts a failure. -/
def FitsFrom (I : DeskProp) : Prop := DeskSpec I p (fun _ => AgreeDesk D N []) (AgreeErr D N)

/-- The program keeps the agreement, unless it counts a failure. -/
def Fits : Prop := FitsFrom D N p (AgreeDesk D N [])

/-- The same, and in the end `J` holds of the tasks. -/
def FitsWith (J : List TaskRecord → Prop) : Prop :=
  DeskSpec (AgreeDesk D N []) p (fun _ ts q n => AgreeDesk D N [] ts q n ∧ J ts) (AgreeErr D N)

section Fits

variable {D : Duties} {N : Nat} {id : TaskId} {next : TaskState}
  {diagnostic : Option TaskDiagnostic}

/-- Reading a task that has to be bound to a peer. -/
theorem Fits.readBound {peer : NodeId} : Fits D N (onStore (boundRecord peer id)) :=
  DeskSpec.readBound (fun _ _ _ _ h _ _ _ => h) fun _ _ _ h => h.err

/-- A transition that neither queues nor completes its task. -/
theorem FitsWith.leaves (hnext : next ≠ .queued ∧ next ≠ .completed) :
    FitsWith D N (onStore (transition c id next diagnostic clock))
      fun ts => ∀ t ∈ ts, t.taskId = id → t.state = next :=
  .moves (fun _ _ _ h => h.2.tidy)
    (fun _ _ _ _ h hnew => ⟨⟨h.1, h.2.leave hnew hnext⟩, fun _ => hnew.state⟩)
    fun _ _ _ h => h.err

theorem Fits.leaves (hnext : next ≠ .queued ∧ next ≠ .completed) :
    Fits D N (onStore (transition c id next diagnostic clock)) :=
  (FitsWith.leaves hnext).conseq (fun _ _ _ h => h) (fun _ _ _ _ h => h.1) fun _ _ _ h => h

/-- A counted transition: where it fails, nothing is promised. -/
theorem AgreeDesk.counted {L : List TaskId} {I : DeskProp} {J : Unit → DeskProp}
    (hI : ∀ ts q n, I ts q n → AgreeDesk D N L ts q n)
    (h : ∀ ts q n new, I ts q n → Rewrites id (Moved next diagnostic) ts new → J () new q n) :
    DeskSpec I (countedTransition c id next diagnostic clock) J (AgreeErr D N) := by
  refine .counted (fun ts q n hts => (hI ts q n hts).2.tidy) h fun ts q n hts heq => ?_
  have hcount := (hI ts q n hts).1
  omega

end Fits

/-! ## Admission -/

variable (tasks : List TaskRecord) (q : TaskQueue)

/-- The desk as it is. -/
def DeskAt (n : Nat) : DeskProp :=
  fun tasks' q' n' => tasks' = tasks ∧ q' = q ∧ n' = n

/-- A task as a selection has prepared it for the queue. -/
def Selected (peer : NodeId) (id : TaskId) : Prop :=
  ∃ t ∈ tasks, t.Sends id peer ∧ BoundTo peer t ∧ t.state = .queued ∧ q.slotGeneration id = none

section Admission

variable {D : Duties} {N : Nat} {tasks : List TaskRecord} {q : TaskQueue} {n : Nat} {peer : NodeId}

/-- The entries are those of tasks that can be queued; prepared tasks are all among them. -/
structure Entries (tasks : List TaskRecord) (q : TaskQueue) (peer : NodeId) (ids : List TaskId)
    (entries : List QueueEntry) : Prop where
  admissible : ∀ e ∈ entries, Admissible tasks q e
  all : (∀ id ∈ ids, Selected tasks q peer id) → entries.map QueueEntry.id = ids

/-- What is found under an identifier. -/
theorem UniqueIds.find (h : UniqueIds tasks) {t : TaskRecord} (ht : t ∈ tasks) {id : TaskId}
    (hid : t.taskId = id) : tasks.find? (fun u => u.taskId == id) = some t := by
  cases hfind : tasks.find? fun u => u.taskId == id with
  | none => exact absurd hid (by simpa using List.find?_eq_none.mp hfind t ht)
  | some u =>
    have huid : u.taskId = id := by simpa using List.find?_some hfind
    rw [h.eq (List.mem_of_find?_eq_some hfind) ht (huid.trans hid.symm)]

theorem admitEntries_spec (htidy : Tidy tasks) (ids : List TaskId) :
    DeskSpec (DeskAt tasks q n) (admitEntries peer ids)
      (fun entries ts q' n' => DeskAt tasks q n ts q' n' ∧ Entries tasks q peer ids entries)
      (fun ts q' n' => DeskAt tasks q n ts q' n' ∧ ¬ ∀ id ∈ ids, Selected tasks q peer id) := by
  induction ids with
  | nil =>
    refine .pure fun _ _ _ h => ⟨h, ?_, fun _ => rfl⟩
    exact fun _ he => absurd he List.not_mem_nil
  | cons id rest ih =>
    have hread : DeskSpec (DeskAt tasks q n) (onStore (boundRecord peer id))
        (fun t ts q' n' => (t ∈ tasks ∧ t.taskId = id ∧ BoundTo peer t) ∧ DeskAt tasks q n ts q' n')
        (fun ts q' n' => DeskAt tasks q n ts q' n' ∧
          ¬ ∀ id' ∈ id :: rest, Selected tasks q peer id') := by
      refine .store ?_
      rintro ts q' n' ⟨rfl, rfl, rfl⟩
      refine (boundRecord_spec peer id).conseq (fun _ hw => hw) ?_ ?_ fun _ h => h
      · rintro t w ⟨hw, hmem, hid, hbound⟩
        exact ⟨⟨hmem, hid, hbound⟩, hw, rfl, rfl⟩
      · rintro w ⟨hw, hnone⟩
        refine ⟨⟨hw, rfl, rfl⟩, ?_⟩
        intro hall
        obtain ⟨t, ht, hsends, hbound, -⟩ := hall id (.head _)
        exact hnone ⟨t, htidy.unique.find ht hsends.taskId, hbound⟩
    refine .bind hread fun t => .of_imp (fun hrec => ?_) fun _ _ _ h => h.1
    obtain ⟨ht, hid, hbound⟩ := hrec
    refine .pre (A := DeskAt tasks q n) ?_ (fun _ _ _ h => h.2)
    -- what a prepared task would look like
    have hprep : (∀ id' ∈ id :: rest, Selected tasks q peer id') →
        t.direction = .send ∧ t.state = .queued ∧ q.slotGeneration id = none := by
      intro hall
      obtain ⟨u, hu, hsends, -, hqueued, hslot⟩ := hall id (.head _)
      obtain rfl := htidy.unique.eq hu ht (hsends.taskId.trans hid.symm)
      exact ⟨hsends.direction, hqueued, hslot⟩
    have hrest : DeskSpec (DeskAt tasks q n) (admitEntries peer rest)
        (fun entries ts q' n' => DeskAt tasks q n ts q' n' ∧ Entries tasks q peer rest entries)
        (fun ts q' n' => DeskAt tasks q n ts q' n' ∧
          ¬ ∀ id' ∈ id :: rest, Selected tasks q peer id') := by
      refine ih.conseq (fun _ _ _ h => h) (fun _ _ _ _ h => h) ?_
      exact fun _ _ _ h => ⟨h.1, fun hall => h.2 fun id' hmem =>
        hall id' (.tail _ hmem)⟩
    dsimp only
    split
    next hdir =>
      refine .stop ?_
      exact fun _ _ _ h => ⟨h, fun hall => hdir (hprep hall).1⟩
    next hsend =>
      rw [not_not] at hsend
      refine .get fun d => .of_imp (P := d.queue = q) (fun hqueue => ?_) ?_
      · refine .pre (A := DeskAt tasks q n) ?_ (fun _ _ _ h => h.2.2.2)
        rw [hqueue]
        split
        next hskip =>
          refine hrest.conseq (fun _ _ _ h => h) ?_ fun _ _ _ h => h
          rintro entries ts q' n' ⟨hat, hents⟩
          refine ⟨hat, hents.admissible, fun hall => ?_⟩
          obtain ⟨-, hqueued, hslot⟩ := hprep hall
          rw [hqueued, hslot] at hskip
          rcases hskip with hskip | hskip <;> cases hskip
        next hskip =>
          rw [not_or] at hskip
          split
          next hstate =>
            refine .stop ?_
            exact fun _ _ _ h => ⟨h, fun hall => hstate.1 (hprep hall).2.1⟩
          · refine .bind hrest fun entries => .pure ?_
            rintro ts q' n' ⟨hat, hents⟩
            refine ⟨hat, ?_, fun hall => ?_⟩
            · intro e he
              rcases List.mem_cons.mp he with rfl | he
              · refine ⟨⟨t, ht, ⟨hid, hsend, hbound.1⟩, hskip.1⟩, ?_⟩
                exact Option.not_isSome_iff_eq_none.mp hskip.2
              · exact hents.admissible e he
            · rw [List.map_cons, hents.all fun id' hmem =>
                hall id' (.tail _ hmem)]
      · rintro ts q' n' ⟨-, hq, -, hat⟩
        exact hq.trans hat.2.1

variable {e : QueueEntry}

/-- A transition leaves an entry admissible. -/
theorem Admissible.moved {id : TaskId} {next : TaskState} {diagnostic : Option TaskDiagnostic}
    {new : List TaskRecord} (h : Admissible tasks q e) (htidy : Tidy tasks)
    (hnew : Rewrites id (Moved next diagnostic) tasks new) (hnext : next ≠ .completed) :
    Admissible new q e := by
  obtain ⟨u, hu, hsends, hopen⟩ := h.stored
  obtain ⟨u', hu', hsame, ⟨-, hmoved⟩ | ⟨-, rfl⟩⟩ := hnew.found htidy.unique hu
  · exact ⟨⟨u', hu', hsends.of_binding hsame, by rwa [hmoved.2.1]⟩, h.free⟩
  · exact ⟨⟨u', hu', hsends, hopen⟩, h.free⟩

/-- The tasks of the entries may be queued in the store alone. -/
def Admitting (D : Duties) (N : Nat) (entries : List QueueEntry) : DeskProp :=
  fun ts q n => AgreeDesk D N (entries.map QueueEntry.id) ts q n ∧ ∀ e ∈ entries, Admissible ts q e

variable {entries : List QueueEntry}

theorem Admitting.stored (h : Admitting D N entries tasks q n) (he : e ∈ entries) :
    ∃ t ∈ tasks, t.taskId = e.id := by
  obtain ⟨t, ht, hsends, -⟩ := (h.2 e he).stored
  exact ⟨t, ht, hsends.taskId⟩

theorem queueEntries_spec (k : Nat) {todo : List QueueEntry} (htodo : ∀ e ∈ todo, e ∈ entries) :
    DeskSpec (Admitting D N entries) (queueEntries c clocks k todo)
      (fun _ => Admitting D N entries) (AgreeErr D N) := by
  induction todo generalizing k with
  | nil => exact .skip
  | cons e rest ih =>
    have he : e ∈ entries := htodo e (.head _)
    have hrest := ih (k + 1) fun e' hmem => htodo e' (.tail _ hmem)
    refine .bind (J := fun _ => Admitting D N entries)
      (.read (fun _ _ _ _ h _ _ => h) ?_) fun t => ?_
    · intro ts q' n' h hnone
      obtain ⟨t, ht, hid⟩ := h.stored he
      exact absurd hid (hnone t ht)
    · split
      · refine .bind (AgreeDesk.counted (fun _ _ _ h => h.1) ?_) fun _ => hrest
        intro ts q' n' new h hnew
        refine ⟨⟨h.1.1, h.1.2.enter hnew (.inl ?_) ?_⟩, fun e' he' => ?_⟩
        · exact List.mem_map.mpr ⟨e, he, rfl⟩
        · intro g _ hslot
          rw [(h.2 e he).free] at hslot
          cases hslot
        · exact (h.2 e' he').moved h.1.2.tidy hnew (by decide)
      · exact hrest

/-- `retains` says whether the queue knows the task. -/
theorem Desk.retains_iff (d : Desk) (id : TaskId) : d.retains id = true ↔ d.queue.Knows id := by
  unfold Desk.retains Desk.isQueued TaskQueue.Knows
  rw [Bool.or_eq_true, List.any_eq_true]
  simp only [beq_iff_eq]

/-- The tasks of the entries may be queued in the store alone, and they are stored. -/
def Withdrawing (D : Duties) (N : Nat) (entries : List QueueEntry) : DeskProp :=
  fun ts q n => AgreeDesk D N (entries.map QueueEntry.id) ts q n ∧
    ∀ e ∈ entries, ∃ t ∈ ts, t.taskId = e.id

theorem Withdrawing.drop {rest : List QueueEntry} (h : Withdrawing D N (e :: rest) tasks q n)
    (hid : ∀ t ∈ tasks, t.taskId = e.id → t.direction = .send → t.state = .queued → q.Knows e.id) :
    Withdrawing D N rest tasks q n :=
  ⟨⟨h.1.1, Agree.drop h.1.2 hid⟩, fun e' he' => h.2 e' (.tail _ he')⟩

/-- After a refused admission the tasks are known to the queue or not queued. -/
theorem withdrawEntries_spec (k : Nat) (entries : List QueueEntry) :
    FitsFrom D N (withdrawEntries c clocks k entries) (Withdrawing D N entries) := by
  induction entries generalizing k with
  | nil => exact .pure fun _ _ _ h => h.1
  | cons e rest ih =>
    refine .get fun d => ?_
    split
    · refine .bind (J := fun t ts q n => (t ∈ ts ∧ t.taskId = e.id) ∧
        Withdrawing D N (e :: rest) ts q n) (.read ?_ ?_) fun t => ?_
      · exact fun t ts q n h ht hid => ⟨⟨ht, hid⟩, h.2.2.2⟩
      · intro ts q n h hnone
        obtain ⟨t, ht, hid⟩ := h.2.2.2.2 e (.head _)
        exact absurd hid (hnone t ht)
      · split
        · refine .bind (AgreeDesk.counted (fun _ _ _ h => h.2.1) ?_) fun _ => ih (k + 1)
          intro ts q n new h hnew
          have hleft : Withdrawing D N (e :: rest) new q n := by
            refine ⟨⟨h.2.1.1, h.2.1.2.leave hnew (by decide)⟩, fun e' he' => ?_⟩
            obtain ⟨u, hu, huid⟩ := h.2.2 e' he'
            obtain ⟨u', hu', hsame, -⟩ := hnew.found h.2.1.2.tidy.unique hu
            exact ⟨u', hu', hsame.taskId.trans huid⟩
          refine hleft.drop fun u hu huid _ hqueued => ?_
          rw [hnew.state hu huid] at hqueued
          cases hqueued
        next hstate =>
          refine (ih (k + 1)).pre ?_
          rintro ts q n ⟨⟨ht, hid⟩, h⟩
          refine h.drop fun u hu huid _ hqueued => ?_
          rw [h.1.2.tidy.unique.eq hu ht (huid.trans hid.symm)] at hqueued
          exact absurd hqueued hstate
    next hretained =>
      refine (ih (k + 1)).pre ?_
      rintro ts q n ⟨-, hq, -, h⟩
      refine h.drop fun _ _ _ _ _ => ?_
      rw [← hq]
      exact (d.retains_iff e.id).mp (Bool.not_eq_false _ ▸ hretained)

/-- The entries are in the queue, or they are to be withdrawn. -/
def Enqueued (D : Duties) (N : Nat) (entries : List QueueEntry) : Except String Unit → DeskProp
  | .ok () => AgreeDesk D N []
  | .error _ => Withdrawing D N entries

/-- Admission, from an agreement or of tasks that a selection has prepared. -/
theorem admitLocked_spec {ids L : List TaskId} : FitsFrom D N (admitLocked c peer ids clocks)
    fun ts q n => AgreeDesk D N L ts q n ∧
      (L = [] ∨ (L = ids ∧ ∀ id ∈ ids, Selected ts q peer id)) := by
  refine .of_fixed fun ts q n hpre => ?_
  obtain ⟨hagree, hlist⟩ := hpre
  refine .bind (J := fun entries ts' q' n' => DeskAt ts q n ts' q' n' ∧
    Entries ts q peer ids entries) ?_ fun entries => ?_
  · refine (admitEntries_spec hagree.2.tidy ids).conseq (fun _ _ _ h => h) (fun _ _ _ _ h => h) ?_
    rintro ts' q' n' ⟨⟨rfl, rfl, rfl⟩, hnot⟩
    rcases hlist with rfl | ⟨-, hall⟩
    · exact hagree.err
    · exact absurd hall hnot
  · have hadmitting : ∀ ts' q' n', (DeskAt ts q n ts' q' n' ∧ Entries ts q peer ids entries) →
        Admitting D N entries ts' q' n' := by
      rintro ts' q' n' ⟨⟨rfl, rfl, rfl⟩, hents⟩
      refine ⟨⟨hagree.1, hagree.2.weaken ?_⟩, hents.admissible⟩
      intro id hid
      rcases hlist with rfl | ⟨rfl, hall⟩
      · cases hid
      · rw [hents.all hall]
        exact hid
    refine .pre (A := Admitting D N entries) ?_ hadmitting
    refine .bind (queueEntries_spec 0 fun _ he => he) fun _ => ?_
    refine .bind (J := Enqueued D N entries) (.queue ?_) fun result => ?_
    · intro ts q n h
      cases hres : (q.enqueue entries).1 with
      | ok _ => exact ⟨h.1.1, h.1.2.enqueued h.2 hres⟩
      | error err =>
        have hfails : q.Fails (.enqueue entries) := ⟨err, hres⟩
        have hsame : q.step (.enqueue entries) = q := TaskQueue.step_of_fails hfails
        show Withdrawing D N entries ts (q.step (.enqueue entries)) n
        rw [hsame]
        exact ⟨h.1, fun e he => h.stored he⟩
    · cases result with
      | ok _ => exact .skip
      | error message =>
        exact .bind (withdrawEntries_spec 0 entries) fun _ =>
          .throw fun _ _ _ h => h.err

end Admission

theorem admitLocked_fits {D : Duties} {N : Nat} {peer : NodeId} {ids : List TaskId} :
    Fits D N (admitLocked c peer ids clocks) :=
  admitLocked_spec.pre fun _ _ _ h => ⟨h, .inl rfl⟩

/-! ## Selection -/

section Selection

variable {D : Duties} {N : Nat} {tasks : List TaskRecord} {q : TaskQueue} {n : Nat} {peer : NodeId}

theorem BoundTo.of_binding {t t' : TaskRecord} (h : BoundTo peer t) (hbind : t.SameBinding t') :
    BoundTo peer t' := by
  have hfile := congrArg Option.isNone hbind.file
  have hdirectory := congrArg Option.isNone hbind.directory
  rw [Option.isNone_map, Option.isNone_map] at hfile hdirectory
  refine ⟨?_, ?_⟩
  · rw [hbind.peerId]
    exact h.1
  · rw [hfile, hdirectory]
    exact h.2

/-- The tasks of a selection while they are being queued: all but those to do are. -/
def Preparing (D : Duties) (N : Nat) (peer : NodeId) (ids todo : List TaskId) : DeskProp :=
  fun ts q n => AgreeDesk D N ids ts q n ∧ ∀ id ∈ ids, ∃ t ∈ ts, t.Sends id peer ∧
    BoundTo peer t ∧ (id ∉ todo → t.state = .queued) ∧ q.slotGeneration id = none

theorem queueAll_spec (k : Nat) {ids todo : List TaskId} (htodo : ∀ id ∈ todo, id ∈ ids) :
    DeskSpec (Preparing D N peer ids todo) (queueAll c clocks k todo)
      (fun _ => Preparing D N peer ids []) (AgreeErr D N) := by
  induction todo generalizing k with
  | nil => exact .skip
  | cons id rest ih =>
    have hid : id ∈ ids := htodo id (.head _)
    refine .bind (AgreeDesk.counted (fun _ _ _ h => h.1) ?_)
      fun _ => ih (k + 1) fun id' hmem => htodo id' (.tail _ hmem)
    intro ts q n new h hnew
    refine ⟨⟨h.1.1, h.1.2.enter hnew (.inl hid) ?_⟩, fun id' hid' => ?_⟩
    · intro g _ hslot
      obtain ⟨_, _, _, _, _, hfree⟩ := h.2 id hid
      rw [hfree] at hslot
      cases hslot
    · obtain ⟨u, hu, hsends, hbound, hqueued, hfree⟩ := h.2 id' hid'
      obtain ⟨u', hu', hsame, hcase⟩ := hnew.found h.1.2.tidy.unique hu
      refine ⟨u', hu', hsends.of_binding hsame, hbound.of_binding hsame, fun hnot => ?_, hfree⟩
      rw [hsends.taskId] at hcase
      rcases hcase with ⟨-, hmoved⟩ | ⟨hne, rfl⟩
      · exact hmoved.2.1
      · exact hqueued (List.not_mem_cons_of_ne_of_not_mem hne hnot)

/-- A record that a scan for the peer gives, with an identifier that is in no use. -/
structure Scanned (D : Duties) (peer : NodeId) (q : TaskQueue) (r : TaskRecord) : Prop where
  direction : r.direction = .send
  bound : BoundTo peer r
  sent : ¬ D.receives r.taskId
  free : q.slotGeneration r.taskId = none

variable {records : List TaskRecord}

/-- New records are not queued yet. -/
theorem Agree.adds {new : List TaskRecord} (h : Agree D [] tasks q) (hadds : Adds records tasks new)
    (hrecords : ∀ r ∈ records, Scanned D peer q r) : Agree D [] new q := by
  have hold : ∀ t ∈ new, t.state = .queued → t ∈ tasks := by
    intro t ht hqueued
    rcases (hadds.mem t).mp ht with ht | ht
    · exact ht
    · rw [hadds.scanning t ht] at hqueued
      cases hqueued
  refine ⟨hadds.tidy, h.inv, ?_, ?_, ?_, h.owns, ?_, ?_⟩
  · exact fun t ht hsend hqueued => h.clean t (hold t ht hqueued) hsend hqueued
  · exact fun t ht hsend hqueued => h.queued t (hold t ht hqueued) hsend hqueued
  · intro e he
    obtain ⟨t, ht, hsends⟩ := h.pending e he
    exact ⟨t, (hadds.mem t).mpr (.inl ht), hsends⟩
  · intro id g hspent hslot t ht hid hsend hqueued
    exact h.spent id g hspent hslot t (hold t ht hqueued) hid hsend hqueued
  · intro id hrecv t ht hid
    rcases (hadds.mem t).mp ht with ht | ht
    · exact h.receives id hrecv t ht hid
    · exact absurd (hid ▸ hrecv) (hrecords t ht).sent

/-- Store and queue agree, and the records have been scanned for the peer. -/
def Selecting (D : Duties) (N : Nat) (peer : NodeId) (records : List TaskRecord) : DeskProp :=
  fun ts q n => AgreeDesk D N [] ts q n ∧ ∀ r ∈ records, Scanned D peer q r

theorem selectWith_spec {op : StoreOp}
    (hop : op = .createSelection records ∨ ∃ r, op = .create r ∧ records = [r]) :
    FitsFrom D N (selectWith c op peer (records.map fun r => r.taskId) clocks)
      (Selecting D N peer records) := by
  have hcreate : DeskSpec (Selecting D N peer records) (onStore (performOp c op))
      (fun _ => Preparing D N peer (records.map fun r => r.taskId)
        (records.map fun r => r.taskId)) (AgreeErr D N) := by
    refine .storeOp (fun ts q n h => ?_) fun _ _ _ h => h.1.err
    refine (creates_spec hop).post ?_
    intro _ w hadds
    refine ⟨⟨h.1.1, (h.1.2.adds hadds h.2).of_nil⟩, fun id hid => ?_⟩
    obtain ⟨r, hr, rfl⟩ := List.mem_map.mp hid
    have hscanned := h.2 r hr
    exact ⟨r, (hadds.mem r).mpr (.inr hr), ⟨rfl, hscanned.direction, hscanned.bound.1⟩,
      hscanned.bound, fun hnot => absurd hid hnot, hscanned.free⟩
  refine .bind hcreate fun _ => .bind (queueAll_spec 0 fun _ hid => hid) fun _ => ?_
  refine (admitLocked_spec (L := records.map fun r => r.taskId)).pre ?_
  intro ts q n h
  refine ⟨h.1, .inr ⟨rfl, fun id hid => ?_⟩⟩
  obtain ⟨t, ht, hsends, hbound, hqueued, hfree⟩ := h.2 id hid
  exact ⟨t, ht, hsends, hbound, hqueued List.not_mem_nil, hfree⟩

theorem confirmDirectory_spec {supported : Bool} :
    FitsFrom D N (confirmDirectory c peer records supported clocks)
      (Selecting D N peer records) := by
  unfold confirmDirectory
  cases hres : (if supported = true then enableAll records else .ok records) with
  | error err =>
    exact .stop fun _ _ _ h => h.1.err
  | ok new =>
    refine .pre (selectWith_spec (.inl rfl)) ?_
    rintro ts q n ⟨hagree, hrecords⟩
    refine ⟨hagree, fun r' hr' => ?_⟩
    obtain ⟨r, hr, hbind⟩ : ∃ r ∈ records, r.SameBinding r' := by
      split at hres
      · exact enableAll_binding hres r' hr'
      · rw [← Except.ok.inj hres] at hr'
        exact ⟨r', hr', .refl r'⟩
    have hscanned := hrecords r hr
    refine ⟨hbind.direction.trans hscanned.direction, hscanned.bound.of_binding hbind, ?_, ?_⟩
    · rw [hbind.taskId]
      exact hscanned.sent
    · rw [hbind.taskId]
      exact hscanned.free

end Selection

/-! ## Pause, cancel, revocation -/

section Stops

variable {D : Duties} {N : Nat} {id : TaskId}

/-- A counted transition that neither queues nor completes its task, which need not be
    mentioned then. -/
theorem counted_drops {L : List TaskId} {next : TaskState}
    (hnext : next ≠ .queued ∧ next ≠ .completed) :
    DeskSpec (AgreeDesk D N (id :: L)) (countedTransition c id next none clock)
      (fun _ => AgreeDesk D N L) (AgreeErr D N) := by
  refine AgreeDesk.counted (fun _ _ _ h => h) ?_
  intro ts q n new h hnew
  exact ⟨h.1, (h.2.leave hnew hnext).dropIdle (fun _ => hnew.state) hnext.1⟩

/-- Store and queue agree, and the task has no slot. -/
def AgreeIdle (D : Duties) (N : Nat) (id : TaskId) : DeskProp :=
  fun ts q n => AgreeDesk D N [] ts q n ∧ q.slotGeneration id = none

theorem pauseWaiting_spec : FitsFrom D N (pauseWaiting c id clocks) (AgreeIdle D N id) := by
  refine .bind (J := fun _ => AgreeIdle D N id)
    (.read (fun _ _ _ _ h _ _ => h) fun _ _ _ h _ => h.1.err) fun t => ?_
  extract_lets active state pauses goesOn
  -- at the end the task is paused, and it leaves the list
  have hpause : FitsFrom D N (do
      countedTransition c id .pausing none (clocks 2)
      countedTransition c id .paused none (clocks 3)
      return true) (AgreeDesk D N [id]) := by
    refine .bind (J := fun _ => AgreeDesk D N [id]) ?_ fun _ =>
      .bind (counted_drops (by decide)) fun _ => .skip
    exact AgreeDesk.counted (fun _ _ _ h => h) fun _ _ _ _ h hnew =>
      ⟨h.1, h.2.leave hnew (by decide)⟩
  have hgoesOn : ∀ u, FitsFrom D N (goesOn u) (AgreeIdle D N id) := by
    intro u
    unfold goesOn pauses
    split
    next hintr =>
      rw [if_pos (.inl hintr)]
      refine .bind (AgreeDesk.counted (fun _ _ _ h => h.1) ?_) fun _ => hpause
      intro ts q n new h hnew
      refine ⟨h.1.1, h.1.2.of_nil.enter hnew (.inl (.head _)) ?_⟩
      intro g _ hslot
      rw [h.2] at hslot
      cases hslot
    · split
      · exact hpause.pre fun _ _ _ h => ⟨h.1.1, h.1.2.of_nil⟩
      · exact .pure fun _ _ _ h => h.1
  split
  · refine .bind (J := fun _ => AgreeIdle D N id) ?_ hgoesOn
    exact AgreeDesk.counted (fun _ _ _ h => h.1) fun _ _ _ _ h hnew =>
      ⟨⟨h.1.1, h.1.2.leave hnew (by decide)⟩, h.2⟩
  · exact hgoesOn ()

/-- A paused task leaves the queue and its slot. -/
theorem leaves_spec (hfree : ∀ g, ¬ D.owns id g) (generation : Option UInt64) :
    FitsFrom D N (onQueue fun q =>
        let q := (q.removeQueued id).2
        ((), match generation with
          | some generation => q.finishIf id generation
          | none => q))
      fun ts q n => AgreeDesk D N [] ts q n ∧ ∀ t ∈ ts, t.taskId = id → t.state = .paused := by
  refine .queue fun ts q n h => ⟨h.1.1, ?_⟩
  have hrem : Agree D [] ts (q.removeQueued id).2 :=
    (h.1.2.removeQueued id).dropIdle h.2 (by decide)
  cases generation with
  | none => exact hrem
  | some generation =>
    refine hrem.finishIf (fun t ht hid _ hqueued _ => ?_) (hfree generation)
    rw [h.2 t ht hid] at hqueued
    cases hqueued

theorem pauseIdle_spec (hfree : ∀ g, ¬ D.owns id g) {waiting : Bool} :
    Fits D N (pauseIdle c id waiting clocks) := by
  refine .get fun d => ?_
  extract_lets queued generation idle leaves reads goesOn
  have hgoesOn : ∀ paused : Bool, Fits D N (goesOn paused) := by
    intro paused
    unfold goesOn
    split
    · exact .skip
    split
    · exact .stop fun _ _ _ h => h.err
    refine .bind (J := fun _ => AgreeDesk D N [])
      (.read (fun _ _ _ _ h _ _ => h) fun _ _ _ h _ => h.err) fun t => ?_
    split
    · exact .stop fun _ _ _ h => h.err
    refine .bind (Fits.leaves (by decide)) fun _ => ?_
    exact .bind (FitsWith.leaves (by decide)) fun _ => leaves_spec hfree _
  split
  next hidle =>
    refine .bind (J := fun _ => AgreeDesk D N []) ?_ hgoesOn
    refine pauseWaiting_spec.pre ?_
    rintro ts q n ⟨-, hq, -, h⟩
    refine ⟨h, ?_⟩
    rw [Bool.and_eq_true, Bool.and_eq_true, Option.isNone_iff_eq_none] at hidle
    exact hq ▸ hidle.2.2
  · exact (hgoesOn false).pre (fun _ _ _ h => h.2.2.2)

theorem cancelStored_spec {active : Bool} (hfree : active = false → ∀ g, ¬ D.owns id g) :
    Fits D N (cancelStored c id active clock) := by
  have hcancel : FitsWith D N (onStore (performOp c (.cancel id clock))) fun ts =>
      ∀ t ∈ ts, t.taskId = id → t.direction = .send → t.state ≠ .queued := by
    refine .storeOp (fun ts q n h => ?_) fun _ _ _ h => h.err
    refine (cancel_spec id clock).post ?_
    rintro _ w (hnew | ⟨heq, t, ht, hid, hdiag⟩)
    · refine ⟨⟨h.1, h.2.rewrite hnew ?_ ?_⟩, ?_⟩
      · intro _ t' _ _ _ hcanc hstate
        cases hcanc.2.symm.trans hstate
      · intro _ t' _ _ _ hcanc hstate
        cases hcanc.2.symm.trans hstate
      · intro u hu huid _ hqueued
        obtain ⟨_, t', _, _, _, hcanc, hmem⟩ := hnew.ex
        rcases (hmem u).mp hu with rfl | ⟨-, hne⟩
        · cases hcanc.2.symm.trans hqueued
        · exact hne huid
    · -- a task that has been cancelled before has its diagnostic, so it is not queued
      rw [heq]
      refine ⟨h, fun u hu huid hsend hqueued => ?_⟩
      obtain rfl := h.2.tidy.unique.eq hu ht (huid.trans hid.symm)
      unfold TaskRecord.CancelledBefore at hdiag
      rw [h.2.clean u hu hsend hqueued] at hdiag
      cases hdiag
  refine .bind hcancel fun _ => .queue fun ts q n h => ⟨h.1.1, ?_⟩
  have hrem : Agree D [] ts (q.removeQueued id).2 :=
    (h.1.2.removeQueued id).drop fun t ht hid hsend hqueued =>
      absurd hqueued (h.2 t ht hid hsend)
  dsimp only
  split
  next generation _ =>
    exact hrem.finishIf (fun t ht hid hsend hqueued _ => h.2 t ht hid hsend hqueued)
      (hfree rfl generation)
  · exact hrem

theorem revokeEach_spec (k : Nat) (ids : List TaskId) :
    Fits D N (revokeEach c clocks k ids) := by
  induction ids generalizing k with
  | nil => exact .skip
  | cons id rest ih =>
    refine .bind (J := fun _ => AgreeDesk D N [id]) ?_ fun _ =>
      .bind (counted_drops (by decide)) fun _ => ih (k + 1)
    exact .queue fun ts q n h => ⟨h.1, h.2.removeQueued id⟩

theorem revokeStored_spec {peer : NodeId} {rights : Rights} :
    Fits D N (revokeStored c peer rights clocks) := by
  exact .getAny fun d => revokeEach_spec 0 _

end Stops

/-! ## Attempts and the recovery -/

section Attempts

variable {D : Duties} {N : Nat} {id : TaskId}

/-- The task is not stored as queued. -/
def NotQueued (id : TaskId) (tasks : List TaskRecord) : Prop :=
  ∀ t ∈ tasks, t.taskId = id → t.state ≠ .queued

variable {g : UInt64} {q : TaskQueue}

/-- A task that an attempt owns does not wait in the queue. -/
theorem Agree.not_pending {tasks : List TaskRecord} (h : Agree D [] tasks q) (howns : D.owns id g) :
    ∀ e ∈ q.pending, e.id ≠ id := by
  rintro e he rfl
  have hslot : q.generations.lookup e.id = some g := h.owns e.id g howns
  have hkeys := h.inv.keys e.id
  rw [h.inv.waits e he, hslot] at hkeys
  cases hkeys

variable {next : TaskState} {tasks new : List TaskRecord}

/-- Whatever state an attempt gives its own task. -/
theorem Agree.owned (h : Agree D [] tasks q) (howns : D.owns id g) (hspent : ¬ D.spent id g)
    (hnew : Rewrites id (Moved next none) tasks new) : Agree D [] new q := by
  have hslot := h.owns id g howns
  refine h.rewrite hnew ?_ ?_
  · intro t t' _ _ _ hmoved hqueued
    have hnext : next = .queued := hmoved.2.1.symm.trans hqueued
    refine ⟨?_, .inr (.inr ?_), ?_⟩
    · rw [hmoved.2.2]
      exact if_pos hnext
    · rw [hslot]
      rfl
    · intro g' hspent' hslot'
      rw [hslot] at hslot'
      cases hslot'
      exact hspent hspent'
  · exact fun _ _ _ _ _ _ _ => h.not_pending howns

/-- An attempt begins with a task that it owns, and the task is not queued any more. -/
theorem beginAttempt_spec (howns : D.owns id g) (hspent : ¬ D.spent id g) :
    Prog.Triple (fun w => Agree D [] w.memory.tasks q) (beginAttempt c id clocks)
      (fun _ w => Agree D [] w.memory.tasks q ∧ NotQueued id w.memory.tasks)
      (fun w => Agree D [] w.memory.tasks q) fun _ => True := by
  have hmove : ∀ (next : TaskState) (clock : Clock),
      Prog.Triple (fun w => Agree D [] w.memory.tasks q) (moveTask c id next clock)
        (fun _ w => Agree D [] w.memory.tasks q ∧
          ∀ t ∈ w.memory.tasks, t.taskId = id → t.state = next)
        (fun w => Agree D [] w.memory.tasks q) fun _ => True := by
    intro next clock w plan hw
    refine (transition_spec hw.tidy id next none clock).conseq (fun _ h => h) ?_ ?_
      (fun _ h => h) w plan rfl
    · intro _ w' hnew
      exact ⟨hw.owned howns hspent hnew, fun t ht hid => hnew.state ht hid⟩
    · intro w' hw'
      rw [show w'.memory.tasks = w.memory.tasks from hw']
      exact hw
  have hmoves : Prog.Triple (fun w => Agree D [] w.memory.tasks q) (do
      moveTask c id .connecting (clocks 1)
      moveTask c id .negotiating (clocks 2)
      readTask id)
      (fun _ w => Agree D [] w.memory.tasks q ∧ NotQueued id w.memory.tasks)
      (fun w => Agree D [] w.memory.tasks q) fun _ => True := by
    refine .bind ((hmove .connecting _).post fun _ _ h => h.1) fun _ => ?_
    refine .bind (hmove .negotiating _) fun _ => ?_
    refine (readTask_spec id).conseq (fun _ h => h) ?_ (fun _ h => h.1) fun _ h => h
    rintro _ w ⟨⟨hagree, hstate⟩, -⟩
    refine ⟨hagree, fun t ht hid hqueued => ?_⟩
    rw [hstate t ht hid] at hqueued
    cases hqueued
  refine .bind (readTask_spec id) fun t => ?_
  split
  next hcomp =>
    refine .pure ?_
    rintro w ⟨hagree, ht, hid⟩
    refine ⟨hagree, fun u hu huid hqueued => ?_⟩
    rw [hagree.tidy.unique.eq hu ht (huid.trans hid.symm), hcomp] at hqueued
    cases hqueued
  · split
    · exact .bind ((hmove .queued _).conseq (fun _ h => h.1) (fun _ _ h => h.1)
        (fun _ h => h) fun _ h => h) fun _ => hmoves
    · exact hmoves.pre fun _ h => h.1

variable {peer : NodeId}

theorem beginSend_spec (howns : D.owns id g) (hspent : ¬ D.spent id g)
    {automatic cancelled allowed : Bool} :
    FitsWith D N (beginSend c peer id automatic cancelled allowed clocks) (NotQueued id) := by
  have hbegin : FitsWith D N (onStore (beginAttempt c id clocks)) (NotQueued id) := by
    refine .store fun ts q n h => ?_
    refine (beginAttempt_spec howns hspent).conseq ?_ (fun _ _ hw => ⟨⟨h.1, hw.1⟩, hw.2⟩)
      (fun _ hw _ => hw) fun _ h => h
    intro w hw
    rw [show w.memory.tasks = ts from hw]
    exact h.2
  refine .bind Fits.readBound fun t => ?_
  dsimp only
  have hstop : ∀ {f : PUnit → DeskProg TaskRecord},
      FitsWith D N (Prog.throw (fail "自动恢复已取消") >>= f) (NotQueued id) :=
    .stop fun _ _ _ h => h.err
  split
  · split
    · exact .bind (Fits.leaves (by decide)) fun _ => hstop
    · exact hstop
  · split
    · exact .bind (checkAutomatic_keeps fun _ _ _ h => h.err) fun _ => hbegin
    · exact hbegin

/-- An Offer that is accepted changes a task that is received, and no other. -/
theorem Agree.spares {peer : PeerId} {group : Option TaskId} (h : Agree D [] tasks q)
    (hnew : Spares id peer group tasks new) : Agree D [] new q := by
  have hsame : ∀ t, t.direction = .send → (t ∈ new ↔ t ∈ tasks) := by
    intro t hsend
    have hfilter := hnew.same (fun u => u.direction == .send) fun u hu => by
      rw [hu.direction]
      rfl
    have hmem : t ∈ new.filter (fun u => u.direction == .send) ↔
        t ∈ tasks.filter (fun u => u.direction == .send) := by rw [hfilter]
    simpa [List.mem_filter, hsend] using hmem
  refine ⟨⟨hnew.sorted, hnew.unique⟩, h.inv, ?_, ?_, ?_, h.owns, ?_, ?_⟩
  · exact fun t ht hsend => h.clean t ((hsame t hsend).mp ht) hsend
  · exact fun t ht hsend => h.queued t ((hsame t hsend).mp ht) hsend
  · intro e he
    obtain ⟨t, ht, hsends, hopen⟩ := h.pending e he
    exact ⟨t, (hsame t hsends.direction).mpr ht, hsends, hopen⟩
  · intro id' g hspent hslot t ht hid hsend
    exact h.spent id' g hspent hslot t ((hsame t hsend).mp ht) hid hsend
  · intro id' hrecv t ht hid
    cases hdir : t.direction with
    | receive => rfl
    | send =>
      have hold := h.receives id' hrecv t ((hsame t hdir).mp ht) hid
      rw [hdir] at hold
      cases hold

theorem acceptStored_spec {peerId : PeerId} {offer : Offer} {root : PathBuf}
    {automatic allowed : Bool} :
    FitsWith D N (acceptStored c peer peerId offer root automatic allowed clocks) fun ts =>
      ∀ t ∈ ts, t.taskId = offer.taskId → t.direction = .receive := by
  have haccept : FitsWith D N (onStore (acceptOffer c peerId root offer clocks)) fun ts =>
      ∀ t ∈ ts, t.taskId = offer.taskId → t.direction = .receive := by
    refine .store fun ts q n h => ?_
    refine (acceptOffer_leavesOthers h.2.tidy.sorted h.2.tidy.unique).conseq
      (fun _ hw => hw) ?_ ?_ fun _ h => h
    · intro _ w hspares
      exact ⟨⟨h.1, h.2.spares hspares⟩, fun t ht hid => (hspares.ours t ht hid).direction⟩
    · rintro w (heq | hspares) _
      · rw [heq]
        exact h.2
      · exact h.2.spares hspares
  unfold acceptStored
  split
  · exact .bind (checkAutomatic_keeps fun _ _ _ h => h.err) fun _ => haccept
  · exact haccept

/-- The verdict of `finish_error` is stored, or the task is at an end anyway. -/
theorem finishStored_spec {verdict : Verdict} :
    DeskSpec (AgreeDesk D N []) (finishStored c id verdict clock)
      (fun _ ts q n => AgreeDesk D N [] ts q n ∧ NotQueued id ts)
      (fun ts q n => n = N → Agree D [] ts q ∧ NotQueued id ts) := by
  refine .bind (J := fun t ts q n => (t ∈ ts ∧ t.taskId = id) ∧ AgreeDesk D N [] ts q n)
    (.read ?_ ?_) fun t => ?_
  · exact fun t ts q n h ht hid => ⟨⟨ht, hid⟩, h⟩
  · exact fun ts q n h hnone _ => ⟨h.2, fun t ht hid => absurd hid (hnone t ht)⟩
  · split
    next hended =>
      refine .pure ?_
      rintro ts q n ⟨⟨ht, hid⟩, h⟩
      refine ⟨h, fun u hu huid hqueued => ?_⟩
      rw [h.2.tidy.unique.eq hu ht (huid.trans hid.symm)] at hqueued
      rw [hqueued] at hended
      rcases hended with hended | hended | hended <;> cases hended
    · have hnext : verdict.state ≠ .queued ∧ verdict.state ≠ .completed := by
        cases verdict with
        | failed code retryable =>
          show TaskState.failed ≠ .queued ∧ TaskState.failed ≠ .completed
          decide
        | interrupted => decide
      refine .counted (fun _ _ _ h => h.2.2.tidy) ?_ ?_
      · intro ts q n new h hnew
        refine ⟨⟨h.2.1, h.2.2.leave hnew hnext⟩, fun u hu huid hqueued => ?_⟩
        exact hnext.1 ((hnew.state hu huid).symm.trans hqueued)
      · intro ts q n h heq
        have := h.2.1
        omega

theorem settleStored_spec : Fits D N (settleStored c peer id clock) := by
  refine Fits.readBound.bind fun t => ?_
  split
  · exact (Fits.leaves (by decide)).bind fun _ => .skip
  · exact .skip

theorem recoverStored_spec {ticket : Ticket} :
    DeskSpec (AgreeDesk D N []) (recoverStored c ticket clock)
      (fun direction ts q n => AgreeDesk D N [] ts q n ∧ ∀ d, direction = some d →
        ∀ t ∈ ts, t.taskId = ticket.id → t.direction = d) (AgreeErr D N) := by
  refine .bind (J := fun t ts q n => (t ∈ ts ∧ t.taskId = ticket.id) ∧
    AgreeDesk D N [] ts q n) (.readBound ?_ fun _ _ _ h => h.err) fun t => ?_
  · exact fun t ts q n h ht hid _ => ⟨⟨ht, hid⟩, h⟩
  · have hdir : ∀ {ts : List TaskRecord}, UniqueIds ts → t ∈ ts → t.taskId = ticket.id →
        ∀ d, some t.direction = some d → ∀ u ∈ ts, u.taskId = ticket.id → u.direction = d := by
      intro ts huniq ht hid d hd u hu huid
      rw [huniq.eq hu ht (huid.trans hid.symm)]
      exact Option.some.inj hd
    split
    · exact .pure fun _ _ _ h => ⟨h.2, fun _ hd => nomatch hd⟩
    split
    · refine .bind (J := fun _ ts q n => AgreeDesk D N [] ts q n ∧
        ∀ u ∈ ts, u.taskId = ticket.id → u.direction = t.direction)
        (.moves (fun _ _ _ h => h.2.2.tidy) ?_ fun _ _ _ h => h.2.err) fun _ => ?_
      · rintro ts q n new ⟨⟨ht, hid⟩, h⟩ hnew
        refine ⟨⟨h.1, h.2.leave hnew (by decide)⟩, fun u hu huid => ?_⟩
        obtain ⟨v, v', hv, hvid, hbind, -, hmem⟩ := hnew.ex
        rcases (hmem u).mp hu with rfl | ⟨-, hne⟩
        · rw [hbind.direction, h.2.tidy.unique.eq hv ht (hvid.trans hid.symm)]
        · exact absurd huid hne
      · refine .pure fun ts q n h => ⟨h.1, fun d hd u hu huid => ?_⟩
        rw [h.2 u hu huid]
        exact Option.some.inj hd
    · exact .pure fun _ _ _ h => ⟨h.2, hdir h.2.2.tidy.unique h.1.1 h.1.2⟩

theorem stopStored_spec {ticket : Ticket} : Fits D N (stopStored c ticket clock) := by
  refine Fits.readBound.bind fun t => ?_
  split
  · exact Fits.leaves (by decide)
  · exact .skip

/-- A transition of a task that is received. -/
theorem moves_received : FitsFrom D N (onStore (transition c id next none clock))
    fun ts q n => AgreeDesk D N [] ts q n ∧ ∀ t ∈ ts, t.taskId = id → t.direction = .receive :=
  .moves (fun _ _ _ h => h.1.2.tidy)
    (fun _ _ _ _ h hnew => ⟨h.1.1, h.1.2.received hnew h.2⟩) fun _ _ _ h => h.1.err

/-- What a running attempt does with its own task. -/
theorem Agree.worked (h : Agree D [] tasks q) (howns : D.owns id g)
    (hnew : Rewrites id Worked tasks new) : Agree D [] new q := by
  refine h.rewrite hnew ?_ fun _ _ _ _ _ _ _ => h.not_pending howns
  rintro t t' ht rfl hsend (⟨hstate, hdiag⟩ | ⟨hstate, -⟩) hqueued
  · have hold : t.state = .queued := hstate.symm.trans hqueued
    refine ⟨?_, h.queued t ht hsend hold, ?_⟩
    · rw [hdiag]
      exact h.clean t ht hsend hold
    · exact fun g' hspent hslot => h.spent _ g' hspent hslot t ht rfl hsend hold
  · exact absurd hqueued hstate

/-- The task is owned by an attempt to send, or it is one that is received. -/
theorem attemptOp_spec (hown : (∃ g, D.owns id g) ∨ D.receives id) {op : Transfer.AttemptOp}
    (hop : op.asks = true) : Fits D N (op.program c id) := by
  have hworks : ∀ {ts new : List TaskRecord} {q : TaskQueue}, Agree D [] ts q →
      Rewrites id Worked ts new → Agree D [] new q := by
    intro ts new q h hnew
    rcases hown with ⟨g, howns⟩ | hrecv
    · exact h.worked howns hnew
    · exact h.received hnew (h.receives id hrecv)
  have halters : ∀ {op : StoreOp}, op.Alters c id Worked → Fits D N (onStore (performOp c op)) := by
    intro op hop
    refine .storeOp (fun ts q n h => ?_) fun _ _ _ h => h.err
    exact (performOp_alters hop h.2.tidy).post fun _ _ hnew => ⟨h.1, hworks h.2 hnew⟩
  cases op with
  | state next clock =>
    refine .leaves ?_
    cases next <;> first | decide | cases hop
  | prepare => exact halters (alters_preparePublication id)
  | receipt now => exact halters (alters_commitReceipt id now)
  | skipped now => exact halters (alters_commitSkipped id now)
  | progress hint => exact halters (alters_setProgressHint id hint)

theorem removes_fits {op : StoreOp} (hop : Transfer.removes op = true) :
    Fits D N (onStore (performOp c op)) := by
  refine .storeOp (fun ts q n h => ?_) fun _ _ _ h => h.err
  refine (removes_spec h.2.tidy hop).post ?_
  intro _ w hremoves
  refine ⟨h.1, hremoves.tidy, h.2.inv, ?_, ?_, ?_, h.2.owns, ?_, ?_⟩
  · exact fun t ht => h.2.clean t (hremoves.sub t ht)
  · exact fun t ht => h.2.queued t (hremoves.sub t ht)
  · intro e he
    obtain ⟨t, ht, hsends, hopen⟩ := h.2.pending e he
    exact ⟨t, hremoves.kept t ht hopen, hsends, hopen⟩
  · exact fun id g hspent hslot t ht => h.2.spent id g hspent hslot t (hremoves.sub t ht)
  · exact fun id hrecv t ht => h.2.receives id hrecv t (hremoves.sub t ht)

end Attempts

end P2pFile.Node
