/-
  P2pFile.Node.TaskList

  The rows of `Snapshot::filtered_list` (`src/node/core/snapshot.rs`).

  A header stands where the first match of its group is, and the tasks follow the time of
  their creation.  So the rows of a group stand under its header only if nothing else was
  created in between.
-/

import P2pFile.Node.Offers

namespace P2pFile.Node

open Lib

variable {query : ListQuery} {rows : List TaskRow}

/-! ## Headers -/

theorem groupRow_whole {g : TaskId} (h : (rows.filter fun t => t.group == some g) ≠ []) :
    groupRow query rows g = some (.whole query g (rows.filter fun t => t.group == some g)) := by
  unfold groupRow
  split
  · contradiction
  next heq =>
    rw [GroupRow.foldl_add, heq]
    rfl

/-! ## The rows under a header -/

/-- Each row of a group comes after the group's header, with no other header and no row
    without a group between them.  The first argument is the header so far. -/
def placed : Option TaskId → List ListRow → Bool
  | _, [] => true
  | _, .group row :: rest => placed (some row.id) rest
  | header, .task t :: rest =>
    match t.group with
    | none => placed none rest
    | some g => header == some g && placed header rest

/-- Each task that is shown under a group comes after the group's first match, and no match
    in between begins another group or has no group.  The arguments are the groups with a
    match so far, and the group that began last. -/
def gathered (query : ListQuery) : List TaskId → Option TaskId → List TaskRow → Bool
  | _, _, [] => true
  | seen, last, t :: rest =>
    if query.isMatch t = false then gathered query seen last rest
    else
      match t.group with
      | none => gathered query seen none rest
      | some g =>
        let last := if g ∈ seen then last else some g
        (!query.shows t || last == some g) && gathered query (g :: seen) last rest

/-- The rows that the loop adds for one match of a group. -/
theorem placed_member {t : TaskRow} {g : TaskId} (hgroup : t.group = some g) (shown : Bool)
    (header : Option TaskId) (rest : List ListRow) :
    placed header ((if shown then [.task t] else []) ++ rest) =
      ((!shown || header == some g) && placed header rest) := by
  cases shown with
  | false => rfl
  | true => simp [placed, hgroup]

theorem listLoop_placed {groups : TaskId → Option GroupRow}
    (hgroups : ∀ t ∈ rows, ∀ g, t.group = some g → ∃ row, groups g = some row ∧ row.id = g)
    (seen : List TaskId) (header : Option TaskId) :
    placed header (listLoop query groups seen rows) = gathered query seen header rows := by
  induction rows generalizing seen header with
  | nil => rfl
  | cons t rest ih =>
    have hrest := ih fun u hu => hgroups u (.tail _ hu)
    unfold gathered listLoop
    by_cases hmatch : query.isMatch t = false
    · rw [if_pos hmatch, if_pos hmatch]
      exact hrest _ _
    rw [if_neg hmatch, if_neg hmatch]
    cases hgroup : t.group with
    | none =>
      rw [placed, hgroup]
      exact hrest _ _
    | some g =>
      have hshows : query.shows t = (query.active || query.expanded g) := by
        simp [ListQuery.shows, hgroup, hmatch]
      obtain ⟨row, heq, rfl⟩ := hgroups t (.head _) g hgroup
      dsimp only
      rw [List.append_assoc, heq, hshows]
      split
      · -- The header of a group that was met stays where it is.
        rw [List.nil_append, placed_member hgroup, hrest]
      · rw [Option.map_some, Option.toList_some, List.singleton_append, placed,
          placed_member hgroup, hrest]

theorem filter_rows_id {env : ViewEnv} {records : List TaskRecord} (hids : UniqueIds records)
    {t : TaskRow} (ht : t ∈ taskRows env records) :
    (taskRows env records).filter (fun u => u.id == t.id) = [t] := by
  obtain ⟨r, hr, rfl⟩ := List.mem_map.mp ht
  have hr := (List.perm_insertionSort listLe records).mem_iff.mp hr
  have hone : (records.filter fun u => u.taskId == r.taskId) = [r] := by
    have hnodup := (List.Nodup.of_map _ hids).filter fun u => u.taskId == r.taskId
    rw [← List.perm_singleton, List.perm_ext_iff_of_nodup hnodup (List.nodup_singleton r)]
    grind [UniqueIds.eq]
  rw [filter_taskRows]
  exact congrArg (taskRows env) hone

/-- **The task list.**  With unique tasks and any filter: a task has one row if it matches
    and is not hidden in its group, else none; a group with a match has one header, with
    the totals of all its tasks; and the rows of each group follow its header, with no other
    header and no task without a group between them, exactly if the tasks that are shown are
    gathered in the order of the list. -/
theorem task_list_structure (query : ListQuery) (env : ViewEnv) {records : List TaskRecord}
    (hids : UniqueIds records) :
    (∀ t ∈ taskRows env records,
      (filteredList query (taskRows env records)).filter (ListRow.isTask t.id) =
        if query.shows t then [.task t] else []) ∧
    (∀ g members, ((taskRows env records).filter fun t => t.group == some g) = members →
      (filteredList query (taskRows env records)).filter (ListRow.isGroup g) =
        if members.any query.isMatch then [.group (.whole query g members)] else []) ∧
    (placed none (filteredList query (taskRows env records)) = true ↔
      gathered query [] none (taskRows env records) = true) := by
  unfold filteredList
  refine ⟨fun t ht => ?_, ?_, ?_⟩
  · rw [listLoop_filter_task, filter_rows_id hids ht]
    cases hshows : query.shows t <;> simp [hshows]
  · rintro g members rfl
    rw [listLoop_filter_group fun _ _ => groupRow_id]
    cases hany : (List.filter _ _).any query.isMatch with
    | false => simp
    | true =>
      rw [groupRow_whole]
      · simp
      · intro hnil
        rw [hnil] at hany
        cases hany
  · rw [listLoop_placed fun t ht g hg => ?_]
    refine ⟨_, groupRow_whole (List.ne_nil_of_mem (List.mem_filter.mpr ⟨ht, ?_⟩)), rfl⟩
    rw [hg, beq_self_eq_true]

namespace ListSample

open OfferSample

def third : TaskId := ⟨"33333333333333333333333333333333", by decide⟩

def all : ListQuery := ⟨fun _ => true, false, fun _ => true⟩

/-- The other group is shown, and the first one is folded. -/
def folded : ListQuery := { all with expanded := fun g => g == offered }

def create (taskId g : TaskId) (now : Int) : StoreEvent :=
  .call (.create { sent with
    taskId, groupId := some g, createdAtUnixMs := now, updatedAtUnixMs := now }) []

/-- Two tasks of one group, and one of another that was created between them. -/
def events : List StoreEvent :=
  [.openStore (.ok 1) [], create OfferSample.id group 1, create third offered 2,
   create offered group 3]

end ListSample

open OfferSample ListSample in
/-- The second task of the first group stands under the header of the other group. -/
theorem rows_interleave : ∃ w, (storeMachine .sample).Run events w ∧
    placed none (filteredList all (taskRows env w.tasks)) = false := by
  have hafter : ((Machine.exec (StoreWorld.step .sample) .start events).any fun w =>
      !placed none (filteredList all (taskRows env w.tasks))) = true := by
    decide +kernel
  obtain ⟨w, hexec, hw⟩ := (Option.any_eq_true _ _).mp hafter
  exact ⟨w, Machine.run_of_exec rfl hexec, Bool.not_eq_true' _ ▸ hw⟩

open OfferSample ListSample in
/-- With the first group folded the same tasks are placed: its second task has no row. -/
theorem task_list_structure_folded : ∃ w, (storeMachine .sample).Run events w ∧
    placed none (filteredList folded (taskRows env w.tasks)) = true := by
  have hafter : ((Machine.exec (StoreWorld.step .sample) .start events).any fun w =>
      gathered folded [] none (taskRows env w.tasks)) = true := by
    decide +kernel
  obtain ⟨w, hexec, hgathered⟩ := (Option.any_eq_true _ _).mp hafter
  have hrun : (storeMachine .sample).Run events w := Machine.run_of_exec rfl hexec
  exact ⟨w, hrun, (task_list_structure folded env (run_inv hrun).unique).2.2.mpr hgathered⟩

end P2pFile.Node
