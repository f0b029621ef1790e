/-
  P2pFile.Node.BatchRemoval

  Completed tasks are removed together (`remove_completed_batch`).

  The source collects the groups that keep a member and spares all tasks of these groups.
  `Removes` says the same of one task: it is completed and requested, and so is every
  stored member of its group.
-/

import P2pFile.Node.TaskLifecycle
import P2pFile.Node.TaskStoreCrash
import P2pFile.Node.TaskViews

namespace P2pFile.Node

open Lib Protocol Storage

variable {c : Crypto} {s : TaskStore} {requested : List TaskId} {t u : TaskRecord} {g : TaskId}

/-! ## Which tasks -/

/-- The task is completed and requested, like every stored member of its group. -/
def TaskStore.Removes (s : TaskStore) (requested : List TaskId) (t : TaskRecord) : Prop :=
  t.state = .completed ∧ t.taskId ∈ requested ∧
    ∀ g ∈ t.groupId, ∀ u ∈ s.tasks, u.groupId = some g → u.state = .completed ∧ u.taskId ∈ requested

namespace TaskStore

/-- A group is blocked by a member that is not completed or not requested. -/
theorem not_mem_blocked : g ∉ s.blocked requested ↔
    ∀ u ∈ s.tasks, u.groupId = some g → u.state = .completed ∧ u.taskId ∈ requested := by
  simp only [mem_blocked, mem_recordsFor, Selection.selects, beq_iff_eq, not_exists, not_and,
    not_or, not_not, and_imp]

theorem mem_removable_iff (hids : UniqueIds s.tasks) (ht : t ∈ s.tasks) :
    t.taskId ∈ s.removable requested ↔ s.Removes requested t := by
  simp only [mem_removable, mem_recordsFor, Selection.selects, beq_iff_eq, not_mem_blocked]
  constructor
  · rintro ⟨u, ⟨hu, hid⟩, hremoves⟩
    rw [hids.eq hu ht hid] at hremoves
    exact hremoves
  · exact fun h => ⟨t, ⟨ht, rfl⟩, h⟩

/-- A group goes as a whole. -/
theorem Removes.member (h : s.Removes requested t) (ht : t.groupId = some g) (hu : u ∈ s.tasks)
    (hgroup : u.groupId = some g) : s.Removes requested u := by
  obtain ⟨hcompleted, hrequested⟩ := h.2.2 g ht u hu hgroup
  refine ⟨hcompleted, hrequested, ?_⟩
  intro g' hg'
  obtain rfl : g = g' := Option.some.inj (hgroup.symm.trans hg')
  exact h.2.2 g ht

/-- The tasks that stay. -/
def remaining (s : TaskStore) (requested : List TaskId) : List TaskRecord :=
  s.tasks.filter fun t => t.taskId ∉ s.removable requested

/-- The tasks `removed` are those to be removed, `tasks` are the others as they were, and no
    group is left in part. -/
structure Removed (s : TaskStore) (requested removed : List TaskId) (tasks : List TaskRecord) :
    Prop where
  exactly : ∀ t ∈ s.tasks, t.taskId ∈ removed ↔ s.Removes requested t
  stored : removed.Sublist (s.tasks.map fun t => t.taskId)
  others : tasks = s.tasks.filter fun t => t.taskId ∉ removed
  groups : ∀ g, (∀ t ∈ s.tasks, t.groupId = some g → t ∈ tasks) ∨
    ∀ t ∈ s.tasks, t.groupId = some g → t ∉ tasks

theorem removed (hids : UniqueIds s.tasks) :
    s.Removed requested (s.removable requested) (s.remaining requested) where
  exactly t ht := mem_removable_iff hids ht
  stored := List.filter_sublist.map _
  others := rfl
  groups g := by
    have hstays : ∀ t ∈ s.tasks, t ∈ s.remaining requested ↔ ¬ s.Removes requested t := by
      intro t ht
      simp only [remaining, List.mem_filter, decide_eq_true_eq, mem_removable_iff hids ht, ht,
        true_and]
    by_cases h : ∃ t ∈ s.tasks, t.groupId = some g ∧ s.Removes requested t
    · obtain ⟨t, -, hgroup, hremoves⟩ := h
      right
      intro u hu hu'
      rw [hstays u hu, not_not]
      exact hremoves.member hgroup hu hu'
    · left
      intro t ht hgroup
      rw [hstays t ht]
      exact fun hremoves => h ⟨t, ht, hgroup, hremoves⟩

end TaskStore

/-! ## One call -/

/-- The tasks that stay are in order. -/
theorem remaining_sorted (hsorted : SortedIds s.tasks) :
    sortTasks (s.remaining requested) = s.remaining requested :=
  sortTasks_of_sorted (hsorted.sublist (List.filter_sublist.map _))

/-- **Batch removal.**  In every state of the store, a call that succeeds gives the
    identifiers of exactly the tasks that are completed and requested together with their
    whole group; these are gone, the others are as they were, and no group has lost some of
    its tasks only.  There was nothing to do, or the new tasks are on disk and one event has
    followed for each task.  A call that fails leaves the tasks and the events; only when the
    last sync has failed the file may be the new one, and the store is poisoned.  Without
    failures the call succeeds. -/
theorem batch_removal {es : List StoreEvent} {w : StoreWorld} (h : (storeMachine c).Run es w)
    (hs : w.store = some s) (requested : List TaskId) (clock : Clock) (plan : List (Fault Error))
    (out : Outcome Error (TaskStore × Except TaskStoreError (List TaskId))) (d' : StoreDir)
    (hcall : ∃ rest, s.perform c (.removeCompletedBatch requested clock) w.dir plan =
      (out, d', rest)) : (∀ s' removed, out = .ok (s', .ok removed) →
      s.Removed requested removed s'.tasks ∧
      ((removed = [] ∧ s' = s ∧ d' = w.dir) ∨ ∃ now, clock = .ok now ∧
        s'.events = (s.record (removed.map fun id => ⟨id, now, .removed⟩)).events ∧
        s'.generation.toNat = s.generation.toNat + 1 ∧ d' =
          ⟨some (StoreSnapshot.file ⟨storeFormatVersion, s'.generation, s'.tasks⟩), []⟩)) ∧
    (∀ s' err, out = .ok (s', .error err) →
      (s' = s ∧ d' = w.dir) ∨ (err = .commitUncertain ∧ s' = s.poison ∧
        ∃ snapshot : StoreSnapshot, snapshot.tasks = s.remaining requested ∧
          d' = w.dir.replaced snapshot)) ∧
    (plan = [] → s.poisoned = false → (∃ now, clock = .ok now) →
      (∃ snapshot : StoreSnapshot, s.candidateSnapshot c (s.remaining requested) = .ok snapshot ∧
        snapshot.fits c = true) → ∃ s' removed, out = .ok (s', .ok removed)) := by
  obtain ⟨rest, hcall⟩ := hcall
  have hinv := run_inv h
  obtain ⟨d, store⟩ := w
  obtain rfl : store = some s := hs
  have hids : UniqueIds s.tasks := hinv.unique
  have hremaining : sortTasks (s.remaining requested) = s.remaining requested :=
    remaining_sorted hinv.sorted
  have hperformed := TaskStore.perform_cases hcall
  refine ⟨?_, ?_, ?_⟩
  · rintro s' removed rfl
    have hremoved : s.Removed requested _ _ := TaskStore.removed hids
    cases hperformed with
    | kept hdecision =>
      obtain ⟨-, ⟨hnone, heq⟩ | ⟨_, _, heq⟩⟩ := TaskStore.removeCompletedBatch_cases hdecision
      · cases heq
        have htasks : s.remaining requested = s.tasks := by simp [TaskStore.remaining, hnone]
        rw [hnone, htasks] at hremoved
        exact ⟨hremoved, .inl ⟨rfl, rfl, rfl⟩⟩
      · cases heq
    | displayed hdecision =>
      obtain ⟨-, ⟨_, heq⟩ | ⟨_, _, heq⟩⟩ := TaskStore.removeCompletedBatch_cases hdecision
      · cases heq
      · cases heq
    | done hdecision hsnapshot hfits =>
      obtain ⟨-, ⟨_, heq⟩ | ⟨now, hclock, heq⟩⟩ := TaskStore.removeCompletedBatch_cases hdecision
      · cases heq
      cases heq
      obtain ⟨hversion, htasks, hgeneration, -⟩ := candidateSnapshot_ok hsnapshot
      rw [← htasks.trans hremaining] at hremoved
      refine ⟨hremoved, .inr ⟨now, hclock, rfl, checkedAdd_one_toNat hgeneration, ?_⟩⟩
      rw [← hversion]
      rfl
  · rintro s' err rfl
    cases hperformed with
    | refused => exact .inl ⟨rfl, rfl⟩
    | uncertain hdecision hsnapshot =>
      obtain ⟨-, ⟨_, heq⟩ | ⟨_, _, heq⟩⟩ := TaskStore.removeCompletedBatch_cases hdecision
      · cases heq
      cases heq
      exact .inr ⟨rfl, rfl, _, (candidateSnapshot_ok hsnapshot).2.1.trans hremaining, rfl⟩
  · rintro rfl hhealthy ⟨now, rfl⟩ ⟨snapshot, hsnapshot, hfits⟩
    have hdecision : (StoreOp.removeCompletedBatch requested (.ok now)).decision c s =
        if s.removable requested = [] then .ok (.keep []) else .ok (.commit (s.remaining requested)
          ((s.removable requested).map fun id => ⟨id, now, .removed⟩) (s.removable requested)) := by
      show (s.ensureHealthy >>= fun _ => _) = _
      rw [ensureHealthy_ok.mpr hhealthy]
      rfl
    unfold TaskStore.perform at hcall
    rw [hdecision] at hcall
    by_cases hnone : s.removable requested = []
    · rw [if_pos hnone] at hcall
      obtain ⟨rfl, -⟩ := result_inj hcall
      exact ⟨_, _, rfl⟩
    · rw [if_neg hnone] at hcall
      simp only [bind, Prog.bind, commitTasks_working _ hsnapshot hfits] at hcall
      obtain ⟨rfl, -⟩ := result_inj hcall
      exact ⟨_, _, rfl⟩

namespace RemovalSample

/-- The completed task is to be removed. -/
def request : StoreOp := .removeCompletedBatch [LifecycleSample.id] (.ok 9)

/-- The call has removed the task. -/
def removesTask : Outcome Error (TaskStore × Except TaskStoreError (List TaskId)) → Bool
  | .ok (_, .ok removed) => removed == [LifecycleSample.id]
  | _ => false

/-- The call is uncertain, and the file is without the task. -/
def losesTask (s : TaskStore) : Outcome Error (TaskStore × Except TaskStoreError (List TaskId)) ×
    StoreDir × List (Fault Error) → Bool
  | (.ok (s', .error .commitUncertain), d', _) =>
    s' == s.poison && (d'.file.bind SnapshotFile.text).any fun f => f.tasks.isEmpty
  | _ => false

end RemovalSample

open LifecycleSample RemovalSample

/-- The sync of the directory fails: the file on disk is without the task, the store has it
    still and has recorded no event. -/
theorem removal_half_done :
    ∃ w s d' rest, (storeMachine .sample).Run completing w ∧ w.store = some s ∧
      s.perform .sample request w.dir unsynced =
        (.ok (s.poison, .error .commitUncertain), d', rest) ∧
      s.tasks ≠ [] ∧ (d'.file.bind SnapshotFile.text).any (fun f => f.tasks.isEmpty) = true := by
  have hcall : (completed.store.any fun s => !s.tasks.isEmpty &&
      losesTask s (s.perform .sample request completed.dir unsynced)) = true := by
    decide +kernel
  obtain ⟨s, hs, hcall⟩ := (Option.any_eq_true _ _).mp hcall
  rw [Bool.and_eq_true] at hcall
  obtain ⟨htasks, hcall⟩ := hcall
  unfold losesTask at hcall
  split at hcall
  next s' d' rest hperform =>
    rw [Bool.and_eq_true, beq_iff_eq] at hcall
    obtain ⟨rfl, hfile⟩ := hcall
    exact ⟨_, s, d', rest, completed_run, hs, hperform, by simpa using htasks, hfile⟩
  · cases hcall

/-- The only task is completed and requested, and it is removed. -/
theorem batch_removal_completed : ∃ s s' : TaskStore, completed.store = some s ∧
      s.Removed [LifecycleSample.id] [LifecycleSample.id] s'.tasks := by
  have hcall : (completed.store.any fun s =>
      removesTask (s.perform .sample request completed.dir []).1) = true := by
    decide +kernel
  obtain ⟨s, hs, hcall⟩ := (Option.any_eq_true _ _).mp hcall
  unfold removesTask at hcall
  split at hcall
  next s' removed hout =>
    rw [beq_iff_eq] at hcall
    subst hcall
    obtain ⟨hremoved, -⟩ :=
      batch_removal completed_run hs [LifecycleSample.id] (.ok 9) [] _ _ ⟨_, rfl⟩
    exact ⟨s, s', hs, (hremoved s' _ hout).1⟩
  · cases hcall

end P2pFile.Node
