/-
  P2pFile.Node.TaskStoreSteps

  What one call of the task store can do, said once.

  `Decided` says what an operation wants to commit, `Committed` how a commit ends and
  `Performed` how a call ends.  Everything about the store is proved against these.
-/

import P2pFile.Node.TaskRecords
import P2pFile.Node.TaskStore

namespace P2pFile.Node

open Lib Protocol Storage
open TaskRecord (guard_ok unit_bind_ok)

variable {c : Crypto}

/-! ## Writing a snapshot -/

/-- The snapshot has a JSON text that the store accepts. -/
def StoreSnapshot.fits (c : Crypto) (s : StoreSnapshot) : Bool :=
  (s.jsonSize c).any fun size => size ≤ maxStoreBytes

/-- The directory after the snapshot has been put in place. -/
def StoreDir.replaced (d : StoreDir) (snapshot : StoreSnapshot) : StoreDir :=
  ⟨some ⟨some snapshot, true⟩, d.file :: d.older⟩

/-- The directory after it has been synced. -/
def StoreDir.settled (d : StoreDir) : StoreDir := { d with older := [] }

/-- What the directory can be after `write_snapshot` of a snapshot that fits. -/
inductive Replaced (c : Crypto) (d : StoreDir) (snapshot : StoreSnapshot) : StoreDir → Prop
  | unsynced (hfits : snapshot.fits c = true) : Replaced c d snapshot (d.replaced snapshot)
  | settled (hfits : snapshot.fits c = true) : Replaced c d snapshot (d.replaced snapshot).settled

variable {d d' : StoreDir}

theorem Replaced.fits {snapshot : StoreSnapshot} (h : Replaced c d snapshot d') :
    snapshot.fits c = true := by
  cases h <;> assumption

variable {α : Type}

/-- A call that leaves the directory as it is. -/
theorem touch_spec {A : StoreDir → Prop} (a : α) :
    Prog.Triple A (.atomic fun d => .ok (a, d) : StoreCall α) (fun r d => r = a ∧ A d) A A := by
  refine .atomic (fun _ h => h) (fun _ h => h) ?_
  intro d r d' hd heq
  cases heq
  exact ⟨⟨rfl, hd⟩, hd⟩

theorem writeAndReplace_spec (d : StoreDir) (snapshot : StoreSnapshot) :
    Prog.Triple (fun d' => d' = d) (writeAndReplace snapshot)
      (fun _ d' => d' = d.replaced snapshot) (fun d' => d' = d)
      (fun d' => d' = d ∨ d' = d.replaced snapshot) := by
  have hcrash : ∀ {α : Type} (a : α), Prog.Triple (fun d' => d' = d)
      (.atomic fun d => .ok (a, d) : StoreCall α) (fun r d' => r = a ∧ d' = d) (fun d' => d' = d)
      (fun d' => d' = d ∨ d' = d.replaced snapshot) := by
    intro α a
    exact (touch_spec a).exits (fun _ h => h) (fun _ h => Or.inl h)
  refine (hcrash (⟨none, false⟩ : SnapshotFile)).bind fun temp => ?_
  refine .of_imp (φ := temp = ⟨none, false⟩) ?_ fun _ h => h.1
  rintro rfl
  refine ((hcrash (⟨some snapshot, false⟩ : SnapshotFile)).pre fun _ h => h.2).bind fun temp => ?_
  refine .of_imp (φ := temp = ⟨some snapshot, false⟩) ?_ fun _ h => h.1
  rintro rfl
  refine ((hcrash (⟨some snapshot, true⟩ : SnapshotFile)).pre fun _ h => h.2).bind fun temp => ?_
  refine .of_imp (φ := temp = ⟨some snapshot, true⟩) ?_ fun _ h => h.1
  rintro rfl
  -- The replacement itself.
  refine .atomic (fun _ h => h.2) (fun _ h => Or.inl h.2) ?_
  rintro d' a t ⟨-, rfl⟩ heq
  cases heq
  exact ⟨rfl, Or.inr rfl⟩

/-- How `write_snapshot` ends: a failure before the replacement changes nothing. -/
theorem writeSnapshot_spec (d : StoreDir) (snapshot : StoreSnapshot) :
    Prog.Triple (fun d' => d' = d) (writeSnapshot c snapshot)
      (fun w d' => match w with
        | .done => snapshot.fits c = true ∧ d' = (d.replaced snapshot).settled
        | .afterReplace => snapshot.fits c = true ∧ d' = d.replaced snapshot
        | .beforeReplace _ => d' = d)
      (fun _ => False) (fun d' => d' = d ∨ Replaced c d snapshot d') := by
  unfold writeSnapshot
  split
  · exact .pure fun _ h => h
  rename_i size hsize
  split
  · exact .pure fun _ h => h
  rename_i hle
  have hfits : snapshot.fits c = true := by
    simp only [StoreSnapshot.fits, hsize, Option.any_some, decide_eq_true_eq]
    omega
  refine .attempt_bind (Q := fun _ d' => d' = d.replaced snapshot) (F := fun d' => d' = d)
    ?_ (fun _ => ?_) fun _ => .pure fun _ h => h
  · refine (writeAndReplace_spec d snapshot).exits (fun _ h => h) ?_
    rintro d' (rfl | rfl)
    · exact Or.inl rfl
    · exact Or.inr (.unsynced hfits)
  · refine .attempt_bind (Q := fun _ d' => d' = (d.replaced snapshot).settled)
      (F := fun d' => d' = d.replaced snapshot) ?_ (fun _ => .pure fun _ h => ⟨hfits, h⟩)
      fun _ => .pure fun _ h => ⟨hfits, h⟩
    refine .atomic (fun _ h => h) ?_ ?_
    · rintro d' rfl
      exact Or.inr (.unsynced hfits)
    · rintro d' a t rfl heq
      cases heq
      exact ⟨rfl, Or.inr (.settled hfits)⟩

/-! ## Commits -/

/-- The store after a commit. -/
def TaskStore.installed (s : TaskStore) (snapshot : StoreSnapshot) : TaskStore :=
  { s with tasks := snapshot.tasks, generation := snapshot.generation }

/-- The store after a commit whose end it does not know. -/
def TaskStore.poison (s : TaskStore) : TaskStore := { s with poisoned := true }

/-- How a commit ends. -/
inductive Committed (c : Crypto) (s : TaskStore) (d : StoreDir) (candidate : List TaskRecord) :
    Outcome Error (TaskStore × Except TaskStoreError Unit) → StoreDir → Prop
  | refused {err : TaskStoreError} (herr : err = .commitUncertain → s.poisoned = true) :
      Committed c s d candidate (.ok (s, .error err)) d
  | uncertain {snapshot : StoreSnapshot}
      (hsnapshot : s.candidateSnapshot c candidate = .ok snapshot)
      (hfits : snapshot.fits c = true) :
      Committed c s d candidate (.ok (s.poison, .error .commitUncertain)) (d.replaced snapshot)
  | done {snapshot : StoreSnapshot} (hsnapshot : s.candidateSnapshot c candidate = .ok snapshot)
      (hfits : snapshot.fits c = true) :
      Committed c s d candidate (.ok (s.installed snapshot, .ok ())) (d.replaced snapshot).settled
  | died : Committed c s d candidate .crashed d
  | diedReplaced {snapshot : StoreSnapshot} {d' : StoreDir}
      (hsnapshot : s.candidateSnapshot c candidate = .ok snapshot)
      (hreplaced : Replaced c d snapshot d') : Committed c s d candidate .crashed d'

variable {β : Type}

theorem result_inj {γ : Type} {a a' : α} {b b' : β} {r r' : γ} (h : (a, b, r) = (a', b', r')) :
    a = a' ∧ b = b' :=
  ⟨(Prod.mk.inj h).1, (Prod.mk.inj (Prod.mk.inj h).2).1⟩

/-- The computation does not end with the error of a poisoned store. -/
def Certain {α : Type} (x : Except TaskStoreError α) : Prop := x ≠ .error .commitUncertain

theorem Certain.ok (a : α) : Certain (.ok a) := by
  simp [Certain]

theorem Certain.pure (a : α) : Certain (Pure.pure a) := .ok a

variable {err : TaskStoreError}

theorem Certain.throw (h : err ≠ .commitUncertain) :
    Certain (MonadExcept.throw err : Except TaskStoreError α) := by
  simpa [Certain, MonadExcept.throw, throwThe, MonadExceptOf.throw] using h

variable {x : Except TaskStoreError α}

theorem Certain.bind {f : α → Except TaskStoreError β} (hx : Certain x) (hf : ∀ a, Certain (f a)) :
    Certain (x >>= f) := by
  cases x with
  | ok a => exact hf a
  | error err => simpa [Certain, Bind.bind, Except.bind] using hx

theorem Certain.guard {p : Prop} [Decidable p] {f : β → Except TaskStoreError α}
    (herr : err ≠ .commitUncertain) (hx : Certain x) :
    Certain (if p then (MonadExcept.throw err : Except TaskStoreError β) >>= f else x) := by
  split
  · simpa [Certain, MonadExcept.throw, throwThe, MonadExceptOf.throw, Bind.bind, Except.bind]
      using herr
  · exact hx

variable (tasks : List TaskRecord)

theorem certain_validateTasks : Certain (validateTasks c tasks) := by
  unfold validateTasks
  split <;> simp [Certain]

theorem certain_validateUniqueIds : Certain (validateUniqueIds tasks) := by
  unfold validateUniqueIds
  split <;> simp [Certain]

theorem certain_task (s : TaskStore) (id : TaskId) : Certain (s.task id) := by
  unfold TaskStore.task
  split <;> simp [Certain]

theorem certain_now (clock : Clock) : Certain (TaskStore.now clock) := by
  cases clock <;> simp [Certain, TaskStore.now]

theorem certain_mutate (s : TaskStore) (id : TaskId)
    (f : TaskRecord → Except TaskModelError TaskRecord) : Certain (s.mutate id f) := by
  refine (certain_task s id).bind fun old => ?_
  split
  · exact .throw (by simp)
  · exact .pure _

theorem certain_addAll (candidate records : List TaskRecord) :
    Certain (TaskStore.addAll c candidate records) := by
  induction records generalizing candidate with
  | nil => exact .ok _
  | cons record rest ih =>
    exact (certain_validateTasks _).bind fun _ => .guard (by simp) (ih _)

variable {s : TaskStore}

/-- A healthy store. -/
theorem ensureHealthy_ok : s.ensureHealthy = .ok () ↔ s.poisoned = false := by
  unfold TaskStore.ensureHealthy
  cases s.poisoned <;> simp

variable {f : Unit → Except TaskStoreError α}

theorem healthy_bind_ok {a : α} :
    (s.ensureHealthy >>= f) = .ok a ↔ s.poisoned = false ∧ f () = .ok a := by
  rw [unit_bind_ok, ensureHealthy_ok]

/-- Only a poisoned store refuses before it looks at anything else. -/
theorem poisoned_of_uncertain (hf : Certain (f ()))
    (h : (s.ensureHealthy >>= f) = .error .commitUncertain) : s.poisoned = true := by
  by_contra hhealthy
  rw [Bool.not_eq_true] at hhealthy
  rw [ensureHealthy_ok.mpr hhealthy] at h
  exact hf h

variable {candidate : List TaskRecord}

theorem candidateSnapshot_uncertain (h : s.candidateSnapshot c candidate = .error .commitUncertain)
    : s.poisoned = true := by
  refine poisoned_of_uncertain ?_ h
  refine (certain_validateTasks _).bind fun _ => (certain_validateUniqueIds _).bind fun _ => ?_
  split
  · exact .throw (by simp)
  · exact .pure _

variable {plan rest : List (Fault Error)}

theorem TaskStore.commitTasks_cases {out : Outcome Error (TaskStore × Except TaskStoreError Unit)}
    (h : s.commitTasks c candidate d plan = (out, d', rest)) :
    Committed c s d candidate out d' := by
  unfold commitTasks at h
  cases hsnap : s.candidateSnapshot c candidate with
  | error err =>
    rw [hsnap] at h
    obtain ⟨rfl, rfl⟩ := result_inj h
    refine .refused ?_
    rintro rfl
    exact candidateSnapshot_uncertain hsnap
  | ok snapshot =>
    have hwrite := writeSnapshot_spec (c := c) d snapshot d plan rfl
    rw [hsnap] at h
    simp only [bind, Prog.bind] at h
    generalize writeSnapshot c snapshot d plan = r at h hwrite
    obtain ⟨o, t, rest'⟩ := r
    cases o with
    | error err => exact hwrite.elim
    | crashed =>
      obtain ⟨rfl, rfl⟩ := result_inj h
      rcases hwrite with hsame | hrepl
      · rw [hsame]
        exact .died
      · exact .diedReplaced hsnap hrepl
    | ok w =>
      cases w with
      | done =>
        obtain ⟨hfits, rfl⟩ := hwrite
        obtain ⟨rfl, rfl⟩ := result_inj h
        exact .done hsnap hfits
      | afterReplace =>
        obtain ⟨hfits, rfl⟩ := hwrite
        obtain ⟨rfl, rfl⟩ := result_inj h
        exact .uncertain hsnap hfits
      | beforeReplace err =>
        obtain rfl := hwrite
        obtain ⟨rfl, rfl⟩ := result_inj h
        exact .refused (by simp)

/-! ## Decisions -/

/-- No two tasks have the same identifier. -/
def UniqueIds : Prop := (tasks.map fun t => t.taskId).Nodup

variable {t : TaskRecord}

theorem UniqueIds.eq {tasks : List TaskRecord} (h : UniqueIds tasks) {u : TaskRecord}
    (ht : t ∈ tasks) (hu : u ∈ tasks) (hid : t.taskId = u.taskId) : t = u :=
  List.inj_on_of_nodup_map h ht hu hid

/-- The tasks with `t'` in the place of the task that has its identifier. -/
def replaceTask (id : TaskId) (t' : TaskRecord) : List TaskRecord :=
  tasks.map fun t => if t.taskId = id then t' else t

/-- What an operation can decide. -/
inductive Decided (s : TaskStore) : Decision → Prop
  | keep {result : List TaskId} : Decided s (.keep result)
  | display {t : TaskRecord} {hint : ProgressHint} {event : TaskEvent} (hmem : t ∈ s.tasks)
      (hhint : hint.verifiedBytes ≤ t.manifestIdentity.totalBytes ∧ 0 ≤ hint.sampledAtUnixMs) :
      Decided s (.display (replaceTask s.tasks t.taskId { t with progressHint := some hint }) event)
  | change {t t' : TaskRecord} {events : List TaskEvent} (hmem : t ∈ s.tasks)
      (hchanged : t.Changed t') : Decided s (.commit (replaceTask s.tasks t.taskId t') events [])
  | add {records candidate : List TaskRecord} {events : List TaskEvent} {result : List TaskId}
      (hscanning : ∀ r ∈ records, r.state = .scanning)
      (hcandidate : candidate.Perm (s.tasks ++ records)) :
      Decided s (.commit candidate events result)
  | remove {p : TaskRecord → Bool} {events : List TaskEvent} {result : List TaskId}
      (hcompleted : ∀ t ∈ s.tasks, p t = false → t.state = .completed) :
      Decided s (.commit (s.tasks.filter p) events result)

variable {id : TaskId}

theorem TaskStore.task_ok (h : s.task id = .ok t) : t ∈ s.tasks ∧ t.taskId = id := by
  unfold TaskStore.task at h
  split at h
  next t' hfind =>
    cases h
    exact ⟨List.mem_of_find?_eq_some hfind, by simpa using List.find?_some hfind⟩
  · cases h

variable {f : TaskRecord → Except TaskModelError TaskRecord}
  {r : List TaskRecord × TaskRecord × TaskRecord}

theorem TaskStore.mutate_ok (h : s.mutate id f = .ok r) :
    ∃ t t', t ∈ s.tasks ∧ t.taskId = id ∧ f t = .ok t' ∧
      r = (replaceTask s.tasks t.taskId t', t, t') := by
  unfold mutate at h
  rw [bind_eq_ok] at h
  obtain ⟨t, ht, h⟩ := h
  obtain ⟨hmem, rfl⟩ := task_ok ht
  split at h
  · exact absurd h (by simp [throw, throwThe, MonadExceptOf.throw])
  next t' hf =>
    exact ⟨t, t', hmem, rfl, hf, (Except.ok.inj h).symm⟩

variable {dec : Decision} {events : List TaskRecord × TaskRecord × TaskRecord → List TaskEvent}

variable (h : (do
  s.ensureHealthy
  let r ← s.mutate id f
  return Decision.commit r.1 (events r) []) = .ok dec)

include h

/-- An operation that changes one task and commits. -/
theorem mutates_ok :
    s.poisoned = false ∧ ∃ t t' events, t ∈ s.tasks ∧ t.taskId = id ∧ f t = .ok t' ∧
      dec = .commit (replaceTask s.tasks t.taskId t') events [] := by
  obtain ⟨hhealthy, h⟩ := healthy_bind_ok.mp h
  obtain ⟨r, hmutate, hcommit⟩ := bind_eq_ok.mp h
  cases hcommit
  obtain ⟨t, t', hmem, hid, hft, rfl⟩ := TaskStore.mutate_ok hmutate
  exact ⟨hhealthy, t, t', _, hmem, hid, hft, rfl⟩

theorem Decided.of_mutate (hf : ∀ t t', f t = .ok t' → t.Changed t') :
    s.poisoned = false ∧ Decided s dec := by
  obtain ⟨hhealthy, t, t', _, hmem, -, hft, rfl⟩ := mutates_ok h
  exact ⟨hhealthy, .change hmem (hf t t' hft)⟩

omit h

theorem sortTasks_perm : (sortTasks tasks).Perm tasks := List.perm_insertionSort _ _

theorem TaskStore.addAll_ok : ∀ {records result : List TaskRecord} {candidate : List TaskRecord},
      addAll c candidate records = .ok result →
      result = candidate ++ records ∧ ∀ r ∈ records, r.state = .scanning := by
  intro records
  induction records with
  | nil =>
    intro result candidate h
    cases h
    exact ⟨(List.append_nil _).symm, by simp⟩
  | cons record rest ih =>
    intro result candidate h
    unfold addAll at h
    simp only [unit_bind_ok, guard_ok, Bool.or_eq_true, not_or,
      decide_eq_true_eq, ne_eq, not_not] at h
    obtain ⟨-, ⟨hscan, -⟩, hrest⟩ := h
    obtain ⟨rfl, hall⟩ := ih hrest
    refine ⟨by simp, ?_⟩
    intro r hr
    rcases List.mem_cons.mp hr with rfl | hr
    · exact hscan
    · exact hall r hr

/-- What the removals decide: nothing, or to leave completed tasks out. -/
inductive RemovalDecided (s : TaskStore) : Decision → Prop
  | keep {result : List TaskId} : RemovalDecided s (.keep result)
  | remove {p : TaskRecord → Bool} {events : List TaskEvent} {result : List TaskId}
      (hcompleted : ∀ t ∈ s.tasks, p t = false → t.state = .completed) :
      RemovalDecided s (.commit (s.tasks.filter p) events result)

variable {clock : Clock}

theorem TaskStore.removeCompleted_ok (hids : UniqueIds s.tasks)
    (h : s.removeCompleted id clock = .ok dec) : s.poisoned = false ∧ RemovalDecided s dec := by
  obtain ⟨hhealthy, h⟩ := healthy_bind_ok.mp h
  obtain ⟨t, ht, h⟩ := bind_eq_ok.mp h
  obtain ⟨hcomp, h⟩ := guard_ok.mp h
  obtain ⟨now, hnow, hdec⟩ := bind_eq_ok.mp h
  cases hdec
  obtain ⟨hmem, rfl⟩ := TaskStore.task_ok ht
  refine ⟨hhealthy, .remove ?_⟩
  intro u hu hrem
  have hid : u.taskId = t.taskId := by simpa using hrem
  rw [hids.eq hu hmem hid]
  exact not_not.mp hcomp

variable {requested : List TaskId}

theorem TaskStore.removeCompletedBatch_cases
    (h : s.removeCompletedBatch requested clock = .ok dec) :
    s.poisoned = false ∧ ((s.removable requested = [] ∧ dec = .keep []) ∨
      ∃ now, clock = .ok now ∧ dec = .commit
        (s.tasks.filter fun t => t.taskId ∉ s.removable requested)
        ((s.removable requested).map fun id => ⟨id, now, .removed⟩) (s.removable requested)) := by
  obtain ⟨hhealthy, h⟩ := healthy_bind_ok.mp h
  dsimp only at h
  split at h
  next hnone =>
    cases h
    exact ⟨hhealthy, .inl ⟨hnone, rfl⟩⟩
  obtain ⟨now, hnow, hdec⟩ := bind_eq_ok.mp h
  cases hdec
  refine ⟨hhealthy, .inr ⟨now, ?_, rfl⟩⟩
  cases clock <;> cases hnow
  rfl

theorem TaskStore.removeCompletedBatch_ok (hids : UniqueIds s.tasks)
    (h : s.removeCompletedBatch requested clock = .ok dec) :
    s.poisoned = false ∧ RemovalDecided s dec := by
  obtain ⟨hhealthy, ⟨-, rfl⟩ | ⟨now, -, rfl⟩⟩ := removeCompletedBatch_cases h
  · exact ⟨hhealthy, .keep⟩
  refine ⟨hhealthy, .remove ?_⟩
  intro t ht hrem
  have hid : t.taskId ∈ s.removable requested := by simpa using hrem
  simp only [TaskStore.removable, List.mem_map, List.mem_filter, decide_eq_true_eq] at hid
  obtain ⟨u, ⟨hu, hcomp, -⟩, hid⟩ := hid
  rw [← hids.eq hu ht hid]
  exact hcomp

theorem RemovalDecided.decided (h : RemovalDecided s dec) : Decided s dec := by
  cases h with
  | keep => exact .keep
  | remove hcomp => exact .remove hcomp

variable {op : StoreOp}

/-- What a healthy store can decide. -/
theorem StoreOp.decision_ok (hids : UniqueIds s.tasks) (h : op.decision c s = .ok dec) :
    s.poisoned = false ∧ Decided s dec := by
  cases op with
  | create task =>
    obtain ⟨hhealthy, h⟩ := healthy_bind_ok.mp h
    simp only [unit_bind_ok, guard_ok, ne_eq, not_not] at h
    obtain ⟨-, hscan, -, hdec⟩ := h
    cases hdec
    refine ⟨hhealthy, .add ?_ (sortTasks_perm _)⟩
    intro r hr
    rw [List.mem_singleton.mp hr]
    exact hscan
  | createSelection records =>
    obtain ⟨hhealthy, h⟩ := healthy_bind_ok.mp h
    obtain ⟨candidate, hcand, hdec⟩ := bind_eq_ok.mp h
    cases hdec
    obtain ⟨rfl, hscan⟩ := TaskStore.addAll_ok hcand
    exact ⟨hhealthy, .add hscan (sortTasks_perm _)⟩
  | transition id next diagnostic now =>
    refine Decided.of_mutate h ?_
    intro t t' hft
    obtain ⟨u, hmove, hft⟩ := bind_eq_ok.mp hft
    obtain ⟨-, hu⟩ := unit_bind_ok.mp hft
    cases hu
    exact .of_transitionTo hmove
  | cancel id clock =>
    obtain ⟨hhealthy, h⟩ := healthy_bind_ok.mp h
    obtain ⟨t, ht, h⟩ := bind_eq_ok.mp h
    split at h
    · cases h
      exact ⟨hhealthy, .keep⟩
    obtain ⟨now, hnow, h⟩ := bind_eq_ok.mp h
    obtain ⟨r, hmutate, hdec⟩ := bind_eq_ok.mp h
    cases hdec
    obtain ⟨t, t', hmem, rfl, hft, rfl⟩ := TaskStore.mutate_ok hmutate
    exact ⟨hhealthy, .change hmem (.of_cancel hft)⟩
  | preparePublication id => exact Decided.of_mutate h fun _ _ => .of_preparePublication
  | enableIncremental id => exact Decided.of_mutate h fun _ _ => .of_enableIncremental
  | commitSkipped id now => exact Decided.of_mutate h fun _ _ => .of_commitSkipped
  | commitReceipt id now => exact Decided.of_mutate h fun _ _ => .of_commitReceipt
  | setProgressHint id hint =>
    obtain ⟨hhealthy, h⟩ := healthy_bind_ok.mp h
    obtain ⟨r, hmutate, hdec⟩ := bind_eq_ok.mp h
    obtain ⟨t, t', hmem, rfl, hft, rfl⟩ := TaskStore.mutate_ok hmutate
    obtain ⟨hhint, rfl⟩ := TaskRecord.setProgressHint_ok hft
    cases hdec
    exact ⟨hhealthy, .display hmem hhint⟩
  | removeCompleted id clock =>
    obtain ⟨hhealthy, hdecided⟩ := TaskStore.removeCompleted_ok hids h
    exact ⟨hhealthy, hdecided.decided⟩
  | removeCompletedBatch requested clock =>
    obtain ⟨hhealthy, hdecided⟩ := TaskStore.removeCompletedBatch_ok hids h
    exact ⟨hhealthy, hdecided.decided⟩

/-- A poisoned store refuses every operation. -/
theorem StoreOp.decision_poisoned (h : s.poisoned = true) (op : StoreOp) :
    op.decision c s = .error .commitUncertain := by
  have hsick : s.ensureHealthy = .error .commitUncertain := by
    simp [TaskStore.ensureHealthy, h]
  cases op <;> exact congrArg (fun x => x >>= _) hsick

/-- Only a poisoned store does. -/
theorem StoreOp.decision_uncertain (h : op.decision c s = .error .commitUncertain) :
    s.poisoned = true := by
  cases op with
  | create task =>
    refine poisoned_of_uncertain ?_ h
    refine (certain_validateTasks _).bind fun _ => ?_
    exact .guard (by simp) (.guard (by simp) (.pure _))
  | createSelection records =>
    refine poisoned_of_uncertain ?_ h
    exact (certain_addAll _ _).bind fun _ => .pure _
  | cancel id clock =>
    refine poisoned_of_uncertain ?_ h
    refine (certain_task _ _).bind fun t => ?_
    split
    · exact .pure _
    · exact (certain_now _).bind fun _ => (certain_mutate _ _ _).bind fun _ => .pure _
  | removeCompleted id clock =>
    refine poisoned_of_uncertain ?_ h
    refine (certain_task _ _).bind fun t => ?_
    exact .guard (by simp) ((certain_now _).bind fun _ => .pure _)
  | removeCompletedBatch requested clock =>
    refine poisoned_of_uncertain ?_ h
    dsimp only
    split
    · exact .pure _
    · exact (certain_now _).bind fun _ => .pure _
  | _ =>
    exact poisoned_of_uncertain ((certain_mutate _ _ _).bind fun _ => .pure _) h

/-! ## Calls -/

/-- How a call of an operation ends. -/
inductive Performed (c : Crypto) (s : TaskStore) (d : StoreDir) (op : StoreOp) :
    Outcome Error (TaskStore × Except TaskStoreError (List TaskId)) → StoreDir → Prop
  | refused {err : TaskStoreError} (herr : err = .commitUncertain → s.poisoned = true) :
      Performed c s d op (.ok (s, .error err)) d
  | kept {result : List TaskId} (hdecision : op.decision c s = .ok (.keep result)) :
      Performed c s d op (.ok (s, .ok result)) d
  | displayed {tasks : List TaskRecord} {event : TaskEvent}
      (hdecision : op.decision c s = .ok (.display tasks event)) :
      Performed c s d op (.ok ({ s with tasks }.record [event], .ok [])) d
  | uncertain {candidate : List TaskRecord} {events : List TaskEvent} {result : List TaskId}
      {snapshot : StoreSnapshot}
      (hdecision : op.decision c s = .ok (.commit candidate events result))
      (hsnapshot : s.candidateSnapshot c candidate = .ok snapshot)
      (hfits : snapshot.fits c = true) :
      Performed c s d op (.ok (s.poison, .error .commitUncertain)) (d.replaced snapshot)
  | done {candidate : List TaskRecord} {events : List TaskEvent} {result : List TaskId}
      {snapshot : StoreSnapshot}
      (hdecision : op.decision c s = .ok (.commit candidate events result))
      (hsnapshot : s.candidateSnapshot c candidate = .ok snapshot)
      (hfits : snapshot.fits c = true) :
      Performed c s d op (.ok ((s.installed snapshot).record events, .ok result))
        (d.replaced snapshot).settled
  | died : Performed c s d op .crashed d
  | diedReplaced {candidate : List TaskRecord} {events : List TaskEvent} {result : List TaskId}
      {snapshot : StoreSnapshot} {d' : StoreDir}
      (hdecision : op.decision c s = .ok (.commit candidate events result))
      (hsnapshot : s.candidateSnapshot c candidate = .ok snapshot)
      (hreplaced : Replaced c d snapshot d') : Performed c s d op .crashed d'

theorem TaskStore.perform_cases
    {out : Outcome Error (TaskStore × Except TaskStoreError (List TaskId))}
    (h : s.perform c op d plan = (out, d', rest)) : Performed c s d op out d' := by
  unfold perform at h
  cases hdec : op.decision c s with
  | error err =>
    rw [hdec] at h
    obtain ⟨rfl, rfl⟩ := result_inj h
    refine .refused ?_
    rintro rfl
    exact StoreOp.decision_uncertain hdec
  | ok dec =>
    rw [hdec] at h
    cases dec with
    | keep result =>
      obtain ⟨rfl, rfl⟩ := result_inj h
      exact .kept hdec
    | display tasks event =>
      obtain ⟨rfl, rfl⟩ := result_inj h
      exact .displayed hdec
    | commit candidate events result =>
      simp only [bind, Prog.bind] at h
      cases hcommit : s.commitTasks c candidate d plan with
      | mk o r =>
        obtain ⟨t, rest'⟩ := r
        have hcommitted := commitTasks_cases hcommit
        rw [hcommit] at h
        cases hcommitted with
        | refused herr =>
          obtain ⟨rfl, rfl⟩ := result_inj h
          exact .refused herr
        | uncertain hsnap hfits =>
          obtain ⟨rfl, rfl⟩ := result_inj h
          exact .uncertain hdec hsnap hfits
        | done hsnap hfits =>
          obtain ⟨rfl, rfl⟩ := result_inj h
          exact .done hdec hsnap hfits
        | died =>
          obtain ⟨rfl, rfl⟩ := result_inj h
          exact .died
        | diedReplaced hsnap hrepl =>
          obtain ⟨rfl, rfl⟩ := result_inj h
          exact .diedReplaced hdec hsnap hrepl

/-! ## Opening -/

/-- What reading the directory gives. -/
def StoreDir.Reads (d : StoreDir) (found : Option StoreSnapshot) : Prop :=
  match d.file, found with
  | none, none => True
  | some f, some snapshot => f.parse = .ok snapshot
  | _, _ => False

theorem snapshotMetadata_spec (d : StoreDir) :
    Prog.Spec (fun d' => d' = d) snapshotMetadata (fun r d' => r = d.file ∧ d' = d)
      (fun d' => d' = d) := by
  refine Prog.Triple.atomic (fun _ h => h) (fun _ h => h) ?_
  rintro d' a t rfl heq
  cases heq
  exact ⟨⟨rfl, rfl⟩, rfl⟩

theorem metadataAttempt_spec {E : StoreDir → Prop} (d : StoreDir) :
    Prog.Triple (fun d' => d' = d) snapshotMetadata.attempt
      (fun r d' => (∀ found, r = .ok found → found = d.file) ∧ d' = d) E (fun d' => d' = d) := by
  refine .attempt (F := fun d' => d' = d) ?_ ?_
  · refine (snapshotMetadata_spec d).post ?_
    rintro found d' ⟨rfl, rfl⟩
    refine ⟨?_, rfl⟩
    rintro found hfound
    exact (Except.ok.inj hfound).symm
  · rintro err d' rfl
    exact ⟨by simp, rfl⟩

theorem snapshotExists_spec (d : StoreDir) : Prog.Triple (fun d' => d' = d) snapshotExists
      (fun b d' => (b = true → d.file.isSome = true) ∧ d' = d) (fun _ => False)
      (fun d' => d' = d) := by
  refine (metadataAttempt_spec d).bind ?_
  rintro (err | found)
  · exact .pure fun d' h => ⟨by simp, h.2⟩
  · refine .pure fun d' h => ⟨?_, h.2⟩
    rw [h.1 found rfl]
    exact fun hsome => hsome

theorem readSnapshot_spec (d : StoreDir) : Prog.Triple (fun d' => d' = d) (readSnapshot c)
      (fun r d' => (∀ found, r = .ok found → d.Reads found) ∧ d' = d) (fun _ => False)
      (fun d' => d' = d) := by
  refine (metadataAttempt_spec d).bind ?_
  rintro (err | (_ | file))
  · exact .pure fun d' h => ⟨by simp, h.2⟩
  · refine .pure fun d' h => ⟨?_, h.2⟩
    rintro found hfound
    cases hfound
    unfold StoreDir.Reads
    rw [← h.1 none rfl]
    trivial
  · refine .of_imp (φ := some file = d.file) ?_ fun _ h => h.1 _ rfl
    intro hfile
    dsimp only
    split
    · exact .pure fun d' h => ⟨by simp, h.2⟩
    refine .bind (R := fun r d' => (∀ f, r = .ok f → f = file) ∧ d' = d) ?_ ?_
    · refine .attempt (F := fun d' => d' = d) ?_ ?_
      · refine ((touch_spec file).pre fun _ h => h.2).post ?_
        rintro f d' ⟨rfl, hd'⟩
        exact ⟨fun f' hf' => (Except.ok.inj hf').symm, hd'⟩
      · rintro err d' hd'
        exact ⟨by simp, hd'⟩
    · rintro (err | f)
      · exact .pure fun d' h => ⟨by simp, h.2⟩
      · refine .pure fun d' h => ⟨?_, h.2⟩
        rintro found hfound
        obtain rfl := h.1 f rfl
        unfold StoreDir.Reads
        rw [← hfile]
        cases hparse : f.parse with
        | error err =>
          rw [hparse] at hfound
          exact absurd hfound (by simp [Except.map])
        | ok snapshot =>
          rw [hparse] at hfound
          cases hfound
          exact hparse

/-- Two stores that differ at most in their events. -/
def TaskStore.SameTasks (s s' : TaskStore) : Prop :=
  s'.tasks = s.tasks ∧ s'.generation = s.generation ∧ s'.poisoned = s.poisoned

/-- How opening the store ends.  The store has been loaded from what the directory
    reads, and is committed if there was no file or a task was interrupted. -/
inductive Opened (c : Crypto) (d : StoreDir) (clock : Clock) :
    Outcome Error (Except TaskStoreError (TaskStore × List TaskId)) → StoreDir → Prop
  | failed {err : TaskStoreError} : Opened c d clock (.ok (.error err)) d
  | loaded {found : Option StoreSnapshot} {s s' : TaskStore} (hreads : d.Reads found)
      (hload : loadSnapshot c clock found = .ok (s, [])) (hfound : d.file.isSome = true)
      (hsame : s.SameTasks s') : Opened c d clock (.ok (.ok (s', []))) d
  | uncertain {found : Option StoreSnapshot} {s s' : TaskStore} {interrupted : List TaskId}
      {snapshot : StoreSnapshot} (hreads : d.Reads found)
      (hload : loadSnapshot c clock found = .ok (s, interrupted)) (hsame : s.SameTasks s')
      (hsnapshot : s'.candidateSnapshot c s'.tasks = .ok snapshot)
      (hfits : snapshot.fits c = true) :
      Opened c d clock (.ok (.error .commitUncertain)) (d.replaced snapshot)
  | done {found : Option StoreSnapshot} {s s' : TaskStore} {interrupted : List TaskId}
      {snapshot : StoreSnapshot} (hreads : d.Reads found)
      (hload : loadSnapshot c clock found = .ok (s, interrupted)) (hsame : s.SameTasks s')
      (hsnapshot : s'.candidateSnapshot c s'.tasks = .ok snapshot)
      (hfits : snapshot.fits c = true) :
      Opened c d clock (.ok (.ok (s'.installed snapshot, interrupted)))
        (d.replaced snapshot).settled
  | died : Opened c d clock .crashed d
  | diedReplaced {found : Option StoreSnapshot} {s s' : TaskStore} {interrupted : List TaskId}
      {snapshot : StoreSnapshot} {d' : StoreDir} (hreads : d.Reads found)
      (hload : loadSnapshot c clock found = .ok (s, interrupted)) (hsame : s.SameTasks s')
      (hsnapshot : s'.candidateSnapshot c s'.tasks = .ok snapshot)
      (hreplaced : Replaced c d snapshot d') : Opened c d clock .crashed d'

theorem commitTasks_spec (s : TaskStore) (d : StoreDir) (candidate : List TaskRecord) :
    Prog.Triple (fun d' => d' = d) (s.commitTasks c candidate)
      (fun r d' => Committed c s d candidate (.ok r) d') (fun _ => False)
      (fun d' => Committed c s d candidate .crashed d') := by
  rintro d' plan rfl
  cases hrun : s.commitTasks c candidate d' plan with
  | mk out r =>
    have hcommitted := TaskStore.commitTasks_cases hrun
    cases out with
    | ok a => exact hcommitted
    | error err => cases hcommitted
    | crashed => exact hcommitted

theorem openStore_spec (d : StoreDir) (clock : Clock) :
    Prog.Triple (fun d' => d' = d) (openStore c clock) (fun r d' => Opened c d clock (.ok r) d')
      (fun _ => False) (fun d' => Opened c d clock .crashed d') := by
  have hdied : ∀ d', d' = d → Opened c d clock .crashed d' := by
    rintro d' rfl
    exact .died
  refine .bind ((readSnapshot_spec d).exits (fun _ h => h) hdied) ?_
  rintro (err | found)
  · refine .pure ?_
    rintro d' ⟨-, rfl⟩
    exact .failed
  · refine .of_imp (φ := d.Reads found) ?_ fun _ h => h.1 found rfl
    intro hreads
    dsimp only
    cases hload : loadSnapshot c clock found with
    | error err =>
      refine .pure ?_
      rintro d' ⟨-, rfl⟩
      exact .failed
    | ok r =>
      obtain ⟨s, interrupted⟩ := r
      refine .bind (((snapshotExists_spec d).exits (fun _ h => h) hdied).pre fun _ h => h.2) ?_
      intro present
      generalize hs' : (if present = true then s.recovered interrupted else s) = s'
      have hsame : s.SameTasks s' := by
        rw [← hs']
        split <;> exact ⟨rfl, rfl, rfl⟩
      refine .bind (((snapshotExists_spec d).exits (fun _ h => h) hdied).pre fun _ h => h.2) ?_
      intro present'
      split
      · refine .bind (R := fun r d' => Committed c s' d s'.tasks (.ok r) d') ?_ ?_
        · refine ((commitTasks_spec s' d s'.tasks).exits (fun _ h => h) ?_).pre fun _ h => h.2
          intro d' hcommitted
          cases hcommitted with
          | died => exact .died
          | diedReplaced hsnap hrepl =>
            exact .diedReplaced hreads hload hsame hsnap hrepl
        · rintro ⟨t, (err | ⟨⟩)⟩
          · refine .pure ?_
            intro d' hcommitted
            cases hcommitted with
            | refused => exact .failed
            | uncertain hsnap hfits => exact .uncertain hreads hload hsame hsnap hfits
          · refine .pure ?_
            intro d' hcommitted
            cases hcommitted with
            | done hsnap hfits => exact .done hreads hload hsame hsnap hfits
      next hnothing =>
        simp only [not_or, Bool.not_eq_false, ne_eq, not_not] at hnothing
        obtain ⟨hpresent, rfl⟩ := hnothing
        refine .pure ?_
        rintro d' ⟨hsome, rfl⟩
        exact .loaded hreads hload (hsome hpresent) hsame

end P2pFile.Node
