/-
  P2pFile.Node.TransferSteps

  What the programs of the transfer service do with the tasks: one lemma for each operation
  on the store, and the rules by which they are put together.
-/

import P2pFile.Node.TransferMachine
import P2pFile.Node.QueueRuns

namespace P2pFile.Node

open Lib Protocol Storage
open TaskRecord (allows_completed cancel_ok guard_ok preparePublication transitionTo_ok
  unit_bind_ok)

variable {c : Crypto}

/-! ## One task is rewritten -/

/-- The tasks are in order and no two have the same identifier. -/
structure Tidy (tasks : List TaskRecord) : Prop where
  sorted : SortedIds tasks
  unique : UniqueIds tasks

/-- The record of one task is replaced by another of the same task. -/
structure Rewrites (id : TaskId) (R : TaskRecord → TaskRecord → Prop)
    (old new : List TaskRecord) : Prop where
  tidy : Tidy new
  ex : ∃ t t', t ∈ old ∧ t.taskId = id ∧ t.SameBinding t' ∧ R t t' ∧
    ∀ u, u ∈ new ↔ u = t' ∨ (u ∈ old ∧ u.taskId ≠ id)

/-- The operation, if it goes through, does that. -/
def StoreOp.Alters (c : Crypto) (op : StoreOp) (id : TaskId)
    (R : TaskRecord → TaskRecord → Prop) : Prop :=
  ∀ s dec, op.decision c s = .ok dec →
    ∃ t t', t ∈ s.tasks ∧ t.taskId = id ∧ t.SameBinding t' ∧ R t t' ∧
      ((∃ events result, dec = .commit (replaceTask s.tasks id t') events result) ∨
        ∃ event, dec = .display (replaceTask s.tasks id t') event)

variable {tasks : List TaskRecord} {id : TaskId} {t t' u : TaskRecord}

theorem mem_replaceTask (ht : t ∈ tasks) (hid : t.taskId = id) :
    u ∈ replaceTask tasks id t' ↔ u = t' ∨ (u ∈ tasks ∧ u.taskId ≠ id) := by
  unfold replaceTask
  rw [List.mem_map]
  constructor
  · rintro ⟨v, hv, rfl⟩
    by_cases hvid : v.taskId = id
    · exact .inl (if_pos hvid)
    · rw [if_neg hvid]
      exact .inr ⟨hv, hvid⟩
  · rintro (rfl | ⟨hu, huid⟩)
    · exact ⟨t, ht, if_pos hid⟩
    · exact ⟨u, hu, if_neg huid⟩

theorem map_replaceTask (hid : t'.taskId = id) :
    (replaceTask tasks id t').map (fun t => t.taskId) = tasks.map fun t => t.taskId := by
  unfold replaceTask
  rw [List.map_map]
  apply List.map_congr_left
  intro u _
  by_cases huid : u.taskId = id
  · simp [huid, hid]
  · simp [huid]

theorem Tidy.replaceTask (h : Tidy tasks) (hid : t'.taskId = id) :
    Tidy (replaceTask tasks id t') where
  sorted := by
    unfold SortedIds
    rw [map_replaceTask hid]
    exact h.sorted
  unique := by
    unfold UniqueIds
    rw [map_replaceTask hid]
    exact h.unique

theorem Tidy.of_snapshot {s : TaskStore} {candidate : List TaskRecord}
    {snapshot : StoreSnapshot} (h : s.candidateSnapshot c candidate = .ok snapshot) :
    Tidy snapshot.tasks ∧ ∀ u, u ∈ snapshot.tasks ↔ u ∈ candidate := by
  obtain ⟨-, htasks, -, -, huniq⟩ := candidateSnapshot_ok h
  rw [htasks] at huniq ⊢
  exact ⟨⟨sortTasks_sorted candidate, huniq⟩, fun u => (sortTasks_perm candidate).mem_iff⟩

variable {op : StoreOp} {old : List TaskRecord}

/-- What an operation leaves of the tasks: `new` if it returns, `old` if it fails. -/
theorem performOp_spec {Q : List TaskRecord → Prop}
    (hkeep : ∀ s result, s.tasks = old → op.decision c s = .ok (.keep result) → Q old)
    (hdisplay : ∀ s tasks event, s.tasks = old →
      op.decision c s = .ok (.display tasks event) → Q tasks)
    (hcommit : ∀ s candidate events result new, s.tasks = old →
      op.decision c s = .ok (.commit candidate events result) → Tidy new →
      (∀ u, u ∈ new ↔ u ∈ candidate) → Q new) :
    Prog.Triple (HoldsTasks old) (performOp c op) (fun _ w => Q w.memory.tasks)
      (HoldsTasks old) fun _ => True := by
  intro w plan hw
  unfold performOp
  cases hperform : w.memory.perform c op w.dir plan with
  | mk out r =>
    obtain ⟨dir, rest⟩ := r
    have hcases := TaskStore.perform_cases hperform
    cases hcases with
    | refused => exact hw
    | kept hdecision =>
      show Q w.memory.tasks
      rw [show w.memory.tasks = old from hw]
      exact hkeep _ _ hw hdecision
    | displayed hdecision => exact hdisplay _ _ _ hw hdecision
    | uncertain => exact hw
    | done hdecision hsnap =>
      obtain ⟨hnew, hmem⟩ := Tidy.of_snapshot hsnap
      exact hcommit _ _ _ _ _ hw hdecision hnew hmem
    | died => exact trivial
    | diedReplaced => exact trivial

variable {R : TaskRecord → TaskRecord → Prop}

theorem performOp_alters (h : op.Alters c id R) (htidy : Tidy old) :
    Prog.Triple (HoldsTasks old) (performOp c op)
      (fun _ w => Rewrites id R old w.memory.tasks) (HoldsTasks old) fun _ => True := by
  refine performOp_spec (Q := Rewrites id R old) ?_ ?_ ?_
  · intro s result _ hdecision
    obtain ⟨_, _, _, _, _, _, ⟨_, _, hdec⟩ | ⟨_, hdec⟩⟩ := h s _ hdecision
    · cases hdec
    · cases hdec
  · intro s tasks event hs hdecision
    obtain ⟨t, t', ht, hid, hbind, hR, ⟨_, _, hdec⟩ | ⟨_, hdec⟩⟩ := h s _ hdecision
    · cases hdec
    cases hdec
    rw [hs] at ht ⊢
    refine ⟨htidy.replaceTask (hbind.taskId.trans hid), t, t', ht, hid, hbind, hR, ?_⟩
    exact fun u => mem_replaceTask ht hid
  · intro s candidate events result new hs hdecision hnew hmem
    obtain ⟨t, t', ht, hid, hbind, hR, ⟨_, _, hdec⟩ | ⟨_, hdec⟩⟩ := h s _ hdecision
    · cases hdec
      rw [hs] at ht hmem
      refine ⟨hnew, t, t', ht, hid, hbind, hR, ?_⟩
      exact fun u => (hmem u).trans (mem_replaceTask ht hid)
    · cases hdec

/-! ## The operations -/

/-- An operation that changes one record and commits. -/
theorem alters_of_mutate {f : TaskRecord → Except TaskModelError TaskRecord}
    {events : List TaskRecord × TaskRecord × TaskRecord → List TaskEvent}
    (hop : ∀ s, op.decision c s = do
      s.ensureHealthy
      let r ← s.mutate id f
      return .commit r.1 (events r) [])
    (hf : ∀ t t', f t = .ok t' → t.SameBinding t' ∧ R t t') : op.Alters c id R := by
  intro s dec hdecision
  rw [hop s] at hdecision
  obtain ⟨-, t, t', events, ht, rfl, hft, rfl⟩ := mutates_ok hdecision
  obtain ⟨hbind, hR⟩ := hf t t' hft
  exact ⟨t, t', ht, rfl, hbind, hR, .inl ⟨events, [], rfl⟩⟩

/-- How a record is moved to a state. -/
def Moved (next : TaskState) (diagnostic : Option TaskDiagnostic) (t t' : TaskRecord) : Prop :=
  t.state.allows next t.retryable = true ∧ t'.state = next ∧
    t'.diagnostic = t.nextDiagnostic next diagnostic

variable (id : TaskId)

theorem alters_transition (next : TaskState) (diagnostic : Option TaskDiagnostic) (now : Int) :
    (StoreOp.transition id next diagnostic now).Alters c id (Moved next diagnostic) := by
  refine alters_of_mutate (f := fun t => do
    let updated ← t.transitionTo c next diagnostic now
    updated.validateBindingUnchanged t
    return updated) (fun _ => rfl) ?_
  intro t t' hft
  obtain ⟨updated, hupdated, hunchanged⟩ := bind_eq_ok.mp hft
  obtain ⟨-, hsame⟩ := unit_bind_ok.mp hunchanged
  cases hsame
  obtain ⟨hallows, rfl⟩ := transitionTo_ok hupdated
  exact ⟨(TaskRecord.Changed.transition hallows).later.binding, hallows, rfl, rfl⟩

theorem transition_spec (htidy : Tidy old) (id : TaskId) (next : TaskState)
    (diagnostic : Option TaskDiagnostic) (clock : Clock) :
    Prog.Triple (HoldsTasks old) (transition c id next diagnostic clock)
      (fun _ w => Rewrites id (Moved next diagnostic) old w.memory.tasks)
      (HoldsTasks old) fun _ => True := by
  cases clock with
  | error err => exact Prog.Triple.throw fun _ hw => hw
  | ok now => exact performOp_alters (alters_transition id next diagnostic now) htidy

/-- What a running attempt does to the record of its task. -/
def Worked (t t' : TaskRecord) : Prop :=
  (t'.state = t.state ∧ t'.diagnostic = t.diagnostic) ∨ (t'.state ≠ .queued ∧ t.state ≠ .completed)

theorem alters_preparePublication : (StoreOp.preparePublication id).Alters c id Worked := by
  refine alters_of_mutate (f := preparePublication) (fun _ => rfl) ?_
  intro t t' hft
  refine ⟨(TaskRecord.Changed.of_preparePublication hft).later.binding, .inl ?_⟩
  unfold preparePublication at hft
  split at hft
  · cases hft
  split at hft
  · cases hft
    exact ⟨rfl, rfl⟩
  · cases hft
    exact ⟨rfl, rfl⟩
  · cases hft

theorem commitReceipt_state {now : Int} (h : t.commitReceipt c now = .ok t') :
    t'.state = .completed ∧ t.state = .finalizing := by
  unfold TaskRecord.commitReceipt at h
  split at h
  · split at h
    · cases h
    · obtain ⟨hallows, rfl⟩ := transitionTo_ok h
      exact ⟨rfl, allows_completed hallows⟩
  · split at h
    · cases h
    · obtain ⟨hallows, rfl⟩ := transitionTo_ok h
      exact ⟨rfl, allows_completed hallows⟩
  · cases h

/-- A record that is completed by a receipt has been finalized. -/
theorem worked_of_receipt {now : Int} (hstate : u.state = t.state)
    (h : u.commitReceipt c now = .ok t') : Worked t t' := by
  obtain ⟨hcomp, hfinalizing⟩ := commitReceipt_state h
  refine .inr ⟨?_, ?_⟩
  · rw [hcomp]
    decide
  · rw [← hstate, hfinalizing]
    decide

theorem alters_commitReceipt (now : Int) : (StoreOp.commitReceipt id now).Alters c id Worked := by
  refine alters_of_mutate (f := fun t => t.commitReceipt c now) (fun _ => rfl) ?_
  intro t t' hft
  exact ⟨(TaskRecord.Changed.of_commitReceipt hft).later.binding, worked_of_receipt rfl hft⟩

theorem alters_commitSkipped (now : Int) : (StoreOp.commitSkipped id now).Alters c id Worked := by
  refine alters_of_mutate (f := fun t => t.commitSkipped c now) (fun _ => rfl) ?_
  intro t t' hft
  refine ⟨(TaskRecord.Changed.of_commitSkipped hft).later.binding, ?_⟩
  unfold TaskRecord.commitSkipped at hft
  split at hft
  · cases hft
  split at hft
  · cases hft
  next d _ _ =>
    exact worked_of_receipt (u := t.withFile { d with skippedExisting := true }) rfl hft

theorem alters_setProgressHint (hint : ProgressHint) :
    (StoreOp.setProgressHint id hint).Alters c id Worked := by
  intro s dec hdecision
  obtain ⟨-, hrest⟩ := healthy_bind_ok.mp hdecision
  obtain ⟨r, hmutate, hcommit⟩ := bind_eq_ok.mp hrest
  obtain ⟨t, t', ht, rfl, hft, rfl⟩ := TaskStore.mutate_ok hmutate
  obtain ⟨-, rfl⟩ := TaskRecord.setProgressHint_ok hft
  exact ⟨t, { t with progressHint := some hint }, ht, rfl,
    ⟨rfl, rfl, rfl, rfl, rfl, rfl, rfl, rfl⟩, .inl ⟨rfl, rfl⟩,
    .inr ⟨_, (Except.ok.inj hcommit).symm⟩⟩

/-- A cancelled record. -/
def Cancelled (t t' : TaskRecord) : Prop := t.state ≠ .completed ∧ t'.state = .failed

/-- A record that says the user has cancelled its task: `cancel` leaves it as it is. -/
def TaskRecord.CancelledBefore (t : TaskRecord) : Prop :=
  (t.diagnostic.any fun d => d.code == .userCancelled) = true

theorem cancel_spec (clock : Clock) :
    Prog.Triple (HoldsTasks old) (performOp c (.cancel id clock))
      (fun _ w => Rewrites id Cancelled old w.memory.tasks ∨ (w.memory.tasks = old ∧
        ∃ t ∈ old, t.taskId = id ∧ t.CancelledBefore)) (HoldsTasks old) fun _ => True := by
  have hdecide : ∀ s dec, (StoreOp.cancel id clock).decision c s = .ok dec →
      (∃ t, t ∈ s.tasks ∧ t.taskId = id ∧ t.CancelledBefore ∧ dec = .keep []) ∨
      (∃ t t' events, t ∈ s.tasks ∧ t.taskId = id ∧ t.SameBinding t' ∧ Cancelled t t' ∧
        dec = .commit (replaceTask s.tasks id t') events []) := by
    intro s dec hdecision
    obtain ⟨-, hrest⟩ := healthy_bind_ok.mp hdecision
    obtain ⟨t, htask, hrest⟩ := bind_eq_ok.mp hrest
    obtain ⟨ht, hid⟩ := TaskStore.task_ok htask
    split at hrest
    next hdiag =>
      cases hrest
      exact .inl ⟨t, ht, hid, hdiag, rfl⟩
    · obtain ⟨now, -, hrest⟩ := bind_eq_ok.mp hrest
      obtain ⟨r, hmutate, hcommit⟩ := bind_eq_ok.mp hrest
      cases hcommit
      obtain ⟨u, u', hu, hid, hcancel, rfl⟩ := TaskStore.mutate_ok hmutate
      obtain ⟨hopen, hprep, hreceipt, rfl⟩ := cancel_ok hcancel
      exact .inr ⟨u, _, _, hu, hid,
        (TaskRecord.Changed.cancel hopen hprep hreceipt).later.binding,
        ⟨hopen, rfl⟩, by rw [hid]⟩
  refine performOp_spec (Q := fun new => Rewrites id Cancelled old new ∨ (new = old ∧
    ∃ t ∈ old, t.taskId = id ∧ t.CancelledBefore)) ?_ ?_ ?_
  · intro s result hs hdecision
    rcases hdecide s _ hdecision with ⟨t, ht, hid, hdiag, -⟩ | ⟨_, _, _, _, _, _, _, hdec⟩
    · exact .inr ⟨rfl, t, hs ▸ ht, hid, hdiag⟩
    · cases hdec
  · intro s tasks event _ hdecision
    rcases hdecide s _ hdecision with ⟨_, _, _, _, hdec⟩ | ⟨_, _, _, _, _, _, _, hdec⟩
    · cases hdec
    · cases hdec
  · intro s candidate events result new hs hdecision hnew hmem
    rcases hdecide s _ hdecision with ⟨_, _, _, _, hdec⟩ | ⟨t, t', _, ht, hid, hbind, hR, hdec⟩
    · cases hdec
    cases hdec
    rw [hs] at ht hmem
    exact .inl ⟨hnew, t, t', ht, hid, hbind, hR, fun u => (hmem u).trans (mem_replaceTask ht hid)⟩

/-- Only completed tasks are removed. -/
structure Removes (old new : List TaskRecord) : Prop where
  tidy : Tidy new
  sub : ∀ u ∈ new, u ∈ old
  kept : ∀ u ∈ old, u.state ≠ .completed → u ∈ new

theorem removes_spec (htidy : Tidy old) (hop : Transfer.removes op = true) :
    Prog.Triple (HoldsTasks old) (performOp c op)
      (fun _ w => Removes old w.memory.tasks) (HoldsTasks old) fun _ => True := by
  have hdecided : ∀ s dec, s.tasks = old → op.decision c s = .ok dec → RemovalDecided s dec := by
    rintro s dec rfl hdecision
    cases op with
    | removeCompleted id clock =>
      exact (TaskStore.removeCompleted_ok htidy.unique hdecision).2
    | removeCompletedBatch requested clock =>
      exact (TaskStore.removeCompletedBatch_ok htidy.unique hdecision).2
    | _ => cases hop
  refine performOp_spec (Q := Removes old) ?_ ?_ ?_
  · exact fun _ _ _ _ => ⟨htidy, fun _ h => h, fun _ h _ => h⟩
  · intro s tasks event hs hdecision
    cases hdecided s _ hs hdecision
  · intro s candidate events result new hs hdecision hnew hmem
    cases hdecided s _ hs hdecision with
    | @remove p _ _ hcomp =>
      rw [hs] at hcomp hmem
      refine ⟨hnew, ?_, ?_⟩
      · intro u hu
        exact (List.mem_filter.mp ((hmem u).mp hu)).1
      · intro u hu hopen
        refine (hmem u).mpr (List.mem_filter.mpr ⟨hu, ?_⟩)
        by_contra hp
        exact hopen (hcomp u hu (Bool.not_eq_true _ ▸ hp))

/-- New records are added. -/
structure Adds (records old new : List TaskRecord) : Prop where
  tidy : Tidy new
  scanning : ∀ r ∈ records, r.state = .scanning
  mem : ∀ u, u ∈ new ↔ u ∈ old ∨ u ∈ records

variable {records : List TaskRecord}

theorem creates_spec (hop : op = .createSelection records ∨ ∃ r, op = .create r ∧ records = [r]) :
    Prog.Triple (HoldsTasks old) (performOp c op)
      (fun _ w => Adds records old w.memory.tasks) (HoldsTasks old) fun _ => True := by
  have hdecided : ∀ s dec, op.decision c s = .ok dec → (∀ r ∈ records, r.state = .scanning) ∧
      ∃ candidate events result, dec = .commit candidate events result ∧
        ∀ u, u ∈ candidate ↔ u ∈ s.tasks ∨ u ∈ records := by
    intro s dec hdecision
    rcases hop with rfl | ⟨r, rfl, rfl⟩
    · obtain ⟨-, hrest⟩ := healthy_bind_ok.mp hdecision
      obtain ⟨candidate, hcand, hcommit⟩ := bind_eq_ok.mp hrest
      cases hcommit
      obtain ⟨rfl, hscan⟩ := TaskStore.addAll_ok hcand
      refine ⟨hscan, _, _, _, rfl, fun u => ?_⟩
      rw [(sortTasks_perm _).mem_iff, List.mem_append]
    · obtain ⟨-, hrest⟩ := healthy_bind_ok.mp hdecision
      simp only [unit_bind_ok, guard_ok, ne_eq, not_not] at hrest
      obtain ⟨-, hscan, -, hcommit⟩ := hrest
      cases hcommit
      refine ⟨?_, _, _, _, rfl, fun u => ?_⟩
      · intro u hu
        rw [List.mem_singleton.mp hu]
        exact hscan
      · rw [(sortTasks_perm _).mem_iff, List.mem_append]
  refine performOp_spec (Q := Adds records old) ?_ ?_ ?_
  · intro s result _ hdecision
    obtain ⟨-, _, _, _, hdec, -⟩ := hdecided s _ hdecision
    cases hdec
  · intro s tasks event _ hdecision
    obtain ⟨-, _, _, _, hdec, -⟩ := hdecided s _ hdecision
    cases hdec
  · intro s candidate events result new hs hdecision hnew hmem
    obtain ⟨hscan, candidate', _, _, hdec, hcand⟩ := hdecided s _ hdecision
    cases hdec
    rw [hs] at hcand
    exact ⟨hnew, hscan, fun u => (hmem u).trans (hcand u)⟩

/-- The records of a preview keep what they stand for. -/
theorem enableAll_binding {new : List TaskRecord} (h : enableAll records = .ok new) :
    ∀ r' ∈ new, ∃ r ∈ records, r.SameBinding r' := by
  induction records generalizing new with
  | nil =>
    cases h
    exact fun _ hr' => absurd hr' List.not_mem_nil
  | cons r rest ih =>
    unfold enableAll at h
    rw [List.mapM_cons] at h
    obtain ⟨r₁, hr₁, h⟩ := bind_eq_ok.mp h
    obtain ⟨rest₁, hrest₁, h⟩ := bind_eq_ok.mp h
    cases h
    intro r' hr'
    rcases List.mem_cons.mp hr' with rfl | hr'
    · refine ⟨r, (.head _), ?_⟩
      split at hr₁
      · exact (TaskRecord.Changed.of_enableIncremental hr₁).later.binding
      · rw [Except.ok.inj hr₁]
        exact .refl r'
    · obtain ⟨u, hu, hbind⟩ := ih hrest₁ r' hr'
      exact ⟨u, .tail _ hu, hbind⟩

/-! ## Programs on the desk -/

/-- A property of the desk, given the tasks, the queue and the count of failures. -/
abbrev DeskProp := List TaskRecord → TaskQueue → Nat → Prop

def Desk.Sat (I : DeskProp) (d : Desk) : Prop := I d.tasks d.queue d.failures

/-- The program leads from `I` to `J` if it returns, and to `E` if it fails. -/
def DeskSpec {α : Type} (I : DeskProp) (p : DeskProg α) (J : α → DeskProp) (E : DeskProp) : Prop :=
  Prog.Triple (Desk.Sat I) p (fun a => Desk.Sat (J a)) (Desk.Sat E) fun _ => True

section DeskSpec

variable {α β : Type} {I E : DeskProp}

variable {J : α → DeskProp}

theorem DeskSpec.pure {a : α} (h : ∀ ts q n, I ts q n → J a ts q n) :
    DeskSpec I (Pure.pure a) J E :=
  Prog.Triple.pure fun _ hd => h _ _ _ hd

/-- Nothing is done. -/
theorem DeskSpec.skip {a : α} : DeskSpec I (Pure.pure a) (fun _ => I) E := .pure fun _ _ _ h => h

theorem DeskSpec.throw {err : Error} (h : ∀ ts q n, I ts q n → E ts q n) :
    DeskSpec I (Prog.throw err) J E :=
  Prog.Triple.throw fun _ hd => h _ _ _ hd

variable {p : DeskProg α} {f : α → DeskProg β} {K : β → DeskProp}

theorem DeskSpec.bind (hp : DeskSpec I p J E) (hf : ∀ a, DeskSpec (J a) (f a) K E) :
    DeskSpec I (p >>= f) K E :=
  Prog.Triple.bind hp hf

theorem DeskSpec.conseq {A B : DeskProp} {K : α → DeskProp} (h : DeskSpec A p K B)
    (hI : ∀ ts q n, I ts q n → A ts q n) (hJ : ∀ a ts q n, K a ts q n → J a ts q n)
    (hE : ∀ ts q n, B ts q n → E ts q n) : DeskSpec I p J E :=
  Prog.Triple.conseq h (fun _ => hI _ _ _) (fun a _ => hJ a _ _ _) (fun _ => hE _ _ _) fun _ h => h

theorem DeskSpec.pre {A : DeskProp} (h : DeskSpec A p J E) (hI : ∀ ts q n, I ts q n → A ts q n) :
    DeskSpec I p J E :=
  Prog.Triple.pre h fun _ => hI _ _ _

/-- What comes after a failure does not matter. -/
theorem DeskSpec.stop {err : Error} (h : ∀ ts q n, I ts q n → E ts q n) :
    DeskSpec I (Prog.throw err >>= f) K E :=
  .bind (.throw (J := fun _ _ _ _ => False) h) fun _ _ _ h => h.elim

/-- A property that fixes the desk is a family of properties. -/
theorem DeskSpec.of_fixed
    (h : ∀ ts q n, I ts q n → DeskSpec (fun ts' q' n' => ts' = ts ∧ q' = q ∧ n' = n) p J E) :
    DeskSpec I p J E :=
  fun d plan hd => h _ _ _ hd d plan ⟨rfl, rfl, rfl⟩

/-- A fact that does not depend on the desk is a hypothesis. -/
theorem DeskSpec.of_imp {P : Prop} (h : P → DeskSpec I p J E) (hP : ∀ ts q n, I ts q n → P) :
    DeskSpec I p J E :=
  Prog.Triple.of_imp h fun _ hd => hP _ _ _ hd

variable {f : Desk → DeskProg α}

theorem DeskSpec.get (h : ∀ d, DeskSpec
      (fun ts q n => d.tasks = ts ∧ d.queue = q ∧ d.failures = n ∧ I ts q n)
      (f d) J E) : DeskSpec I (Prog.get >>= f) J E :=
  fun d plan hd => h d d plan ⟨rfl, rfl, rfl, hd⟩

/-- Whatever the desk is. -/
theorem DeskSpec.getAny (h : ∀ d, DeskSpec I (f d) J E) : DeskSpec I (Prog.get >>= f) J E :=
  .get fun d => (h d).pre fun _ _ _ hd => hd.2.2.2

/-- A program of the store leaves the queue and the count alone. -/
theorem DeskSpec.store {p : StoreProg α} (h : ∀ ts q n, I ts q n → Prog.Triple (HoldsTasks ts) p
      (fun a w => J a w.memory.tasks q n) (fun w => E w.memory.tasks q n) fun _ => True) :
    DeskSpec I (onStore p) J E := by
  intro d plan hd
  have hpost := h d.tasks d.queue d.failures hd d.store plan rfl
  unfold onStore
  generalize p d.store plan = r at hpost
  obtain ⟨out, store, rest⟩ := r
  cases out with
  | ok a => exact hpost
  | error err => exact hpost
  | crashed => exact trivial

/-- One that leaves the tasks alone if it fails. -/
theorem DeskSpec.storeOp {p : StoreProg α} (h : ∀ ts q n, I ts q n → Prog.Triple (HoldsTasks ts) p
      (fun a w => J a w.memory.tasks q n) (HoldsTasks ts) fun _ => True)
    (herr : ∀ ts q n, I ts q n → E ts q n) : DeskSpec I (onStore p) J E := by
  refine .store fun ts q n hI => (h ts q n hI).exits ?_ fun _ h => h
  intro w hw
  rw [show w.memory.tasks = ts from hw]
  exact herr ts q n hI

theorem DeskSpec.queue {f : TaskQueue → α × TaskQueue}
    (h : ∀ ts q n, I ts q n → J (f q).1 ts (f q).2 n) : DeskSpec I (onQueue f) J E :=
  fun d _ hd => h d.tasks d.queue d.failures hd

variable {id : TaskId}

theorem readTask_run (id : TaskId) (w : OpenStore) (plan : List (Fault Error)) :
    readTask id w plan = match w.memory.tasks.find? fun t => t.taskId == id with
      | some t => (.ok t, w, plan)
      | none => (.error (fail TaskStoreError.taskNotFound.display), w, plan) := by
  unfold readTask TaskStore.task
  simp only [bind, Prog.bind, Prog.get]
  cases w.memory.tasks.find? fun t => t.taskId == id <;> rfl

variable {J : TaskRecord → DeskProp}

/-- Reading a task; it fails if the task is not stored. -/
theorem DeskSpec.read (h : ∀ t ts q n, I ts q n → t ∈ ts → t.taskId = id → J t ts q n)
    (herr : ∀ ts q n, I ts q n → (∀ t ∈ ts, t.taskId ≠ id) → E ts q n) :
    DeskSpec I (onStore (readTask id)) J E := by
  refine .store fun ts q n hI w plan hw => ?_
  rw [readTask_run, show w.memory.tasks = ts from hw]
  cases hfind : ts.find? fun t => t.taskId == id with
  | some t =>
    show J t w.memory.tasks q n
    rw [show w.memory.tasks = ts from hw]
    exact h t ts q n hI (List.mem_of_find?_eq_some hfind) (by simpa using List.find?_some hfind)
  | none =>
    show E w.memory.tasks q n
    rw [show w.memory.tasks = ts from hw]
    exact herr ts q n hI fun t ht => by simpa using List.find?_eq_none.mp hfind t ht

/-- The record is bound to the peer. -/
def BoundTo (peer : NodeId) (t : TaskRecord) : Prop :=
  t.peerId.text = hexEncode peer.toList ∧
    (t.fileDetails.isNone && t.directoryDetails.isNone) = false

theorem boundRecord_spec {old : List TaskRecord} (peer : NodeId) (id : TaskId) :
    Prog.Triple (HoldsTasks old) (boundRecord peer id)
      (fun t w => HoldsTasks old w ∧ t ∈ old ∧ t.taskId = id ∧ BoundTo peer t)
      (fun w => HoldsTasks old w ∧ ¬ ∃ t, old.find? (fun t => t.taskId == id) = some t ∧
        BoundTo peer t) fun _ => True := by
  intro w plan hw
  unfold boundRecord
  simp only [bind, Prog.bind, readTask_run, show w.memory.tasks = old from hw]
  cases hfind : old.find? fun t => t.taskId == id with
  | none =>
    refine ⟨hw, ?_⟩
    rintro ⟨t, ht, -⟩
    cases ht
  | some t =>
    dsimp only
    split
    next hunbound =>
      refine ⟨hw, ?_⟩
      rintro ⟨u, hu, hpeer, hdetails⟩
      cases hu
      rcases hunbound with hne | hnone
      · exact hne hpeer
      · rw [hdetails] at hnone
        cases hnone
    next hbound =>
      rw [not_or, not_not] at hbound
      exact ⟨hw, List.mem_of_find?_eq_some hfind, by simpa using List.find?_some hfind,
        hbound.1, Bool.not_eq_true _ ▸ hbound.2⟩

/-- Reading a task that has to be bound to the peer. -/
theorem DeskSpec.readBound {peer : NodeId}
    (h : ∀ t ts q n, I ts q n → t ∈ ts → t.taskId = id → BoundTo peer t → J t ts q n)
    (herr : ∀ ts q n, I ts q n → E ts q n) : DeskSpec I (onStore (boundRecord peer id)) J E := by
  refine .store fun ts q n hI => ?_
  refine .conseq (boundRecord_spec peer id) (fun _ hw => hw) ?_ ?_ fun _ h => h
  · rintro t w ⟨hw, hmem, hid, hbound⟩
    rw [show w.memory.tasks = ts from hw]
    exact h t ts q n hI hmem hid hbound
  · rintro w ⟨hw, -⟩
    rw [show w.memory.tasks = ts from hw]
    exact herr ts q n hI

/-- The check of an automatic attempt only reads. -/
theorem checkAutomatic_keeps (hIE : ∀ ts q n, I ts q n → E ts q n) {peer : NodeId}
    {allowed : Bool} : DeskSpec I (checkAutomatic peer id allowed) (fun _ => I) E := by
  refine .getAny fun d => ?_
  split
  · refine .bind (J := fun _ => I) (.readBound (fun _ _ _ _ h _ _ _ => h) hIE) fun t => ?_
    split
    · exact .throw hIE
    · exact .skip
  · exact .skip

variable {next : TaskState} {diagnostic : Option TaskDiagnostic} {clock : Clock}

variable {J : Unit → DeskProp} (htidy : ∀ ts q n, I ts q n → Tidy ts)

include htidy

variable (h : ∀ ts q n new, I ts q n → Rewrites id (Moved next diagnostic) ts new → J () new q n)

include h

/-- A transition under the store's lock. -/
theorem DeskSpec.moves (herr : ∀ ts q n, I ts q n → E ts q n) :
    DeskSpec I (onStore (transition c id next diagnostic clock)) J E := by
  refine .storeOp (fun ts q n hI => ?_) herr
  refine (transition_spec (htidy ts q n hI) id next diagnostic clock).post ?_
  exact fun _ w hrewrites => h ts q n _ hI hrewrites

/-- A transition whose failure is counted. -/
theorem DeskSpec.counted (herr : ∀ ts q n, I ts q n → E ts q (n + 1)) :
    DeskSpec I (countedTransition c id next diagnostic clock) J E := by
  refine Prog.Triple.attempt_bind (F := Desk.Sat I) (DeskSpec.moves htidy h fun _ _ _ hI => hI)
    (fun _ => .pure fun _ hd => hd) fun err => ?_
  refine .bind (R := fun _ => Desk.Sat E) (.modify ?_) ?_
  · exact fun d hd => herr _ _ _ hd
  · exact fun _ => .throw fun _ hd => hd

end DeskSpec

/-- A program on the desk as an event runs it. -/
theorem Transfer.onDesk_spec {α : Type} {s s' : Transfer} {p : DeskProg α} {I E : DeskProp}
    {J : α → DeskProp} {r : Except Error α} {plan rest : List (Fault Error)}
    (h : DeskSpec I p J E) (hI : s.desk.Sat I) (hrun : s.onDesk p plan = some (r, s', rest)) :
    ∃ desk, s' = { s with desk } ∧ (∀ a, r = .ok a → desk.Sat (J a)) ∧
      ∀ err, r = .error err → desk.Sat E := by
  have hpost := h s.desk plan hI
  unfold Transfer.onDesk at hrun
  cases hp : p s.desk plan with
  | mk out r' =>
    obtain ⟨desk, rest'⟩ := r'
    rw [hp] at hpost hrun
    cases out with
    | ok a =>
      cases hrun
      refine ⟨desk, rfl, ?_, ?_⟩
      · intro a' ha
        cases ha
        exact hpost
      · intro _ herr
        cases herr
    | error err =>
      cases hrun
      refine ⟨desk, rfl, ?_, fun _ _ => hpost⟩
      intro _ ha
      cases ha
    | crashed => cases hrun

/-- What comes before the store's part of `finish_error` is about the intentions alone. -/
theorem Transfer.finishError_eq (s : Transfer) (id : TaskId) (verdict : Verdict) (lost : Bool) :
    ∃ recovery, s.finishError id verdict lost = { s with recovery } := by
  unfold Transfer.finishError
  split
  · split <;> exact ⟨_, rfl⟩
  · exact ⟨_, rfl⟩

/-- The same of what comes before the store's part of a running attempt's operation. -/
theorem Transfer.AttemptOp.before_eq (op : AttemptOp) (s : Transfer) (id : TaskId) :
    ∃ recovery, op.before s id = { s with recovery } := by
  cases op with
  | state next clock =>
    unfold AttemptOp.before storeState
    dsimp only
    split <;> exact ⟨_, rfl⟩
  | _ => exact ⟨_, rfl⟩

/-- The attempt can claim its task: the stored record is sent to its peer, the task is not
    active, and the slot is the one of the attempt. -/
def Transfer.claimable (s : Transfer) (g : UInt64) (a : SendAttempt) : Bool :=
  match boundRecord a.peer a.id s.desk.store [] with
  | (.ok record, _, _) =>
    record.direction == .send && (s.active.lookup a.id).isNone &&
      s.desk.queue.slotGeneration a.id == some g
  | _ => false

/-- An attempt claims its task, or it is given up. -/
theorem Transfer.claim_cases (s : Transfer) (g : UInt64) (a : SendAttempt) (asked : Option Bool) :
    (s.claimable g a = false ∧ s.claim g a asked = s.setSend g a .leaving) ∨
    ∃ x : ActiveAttempt, x.direction = .send ∧ s.active.lookup a.id = none ∧
      s.desk.queue.slotGeneration a.id = some g ∧
      s.claim g a asked = { s with
        active := s.active.insert a.id x
        recovery := s.recovery.enroll s.now a.id a.peer .send }.setSend g a (.claimed asked) := by
  unfold Transfer.claim Transfer.claimable
  cases boundRecord a.peer a.id s.desk.store [] with
  | mk out rest =>
    cases out with
    | ok record =>
      dsimp only
      split
      next hdir =>
        exact .inl ⟨by simp [hdir], rfl⟩
      split
      next s₁ hclaim =>
        obtain ⟨hfree, hclaim⟩ := Option.ite_none_left_eq_some.mp hclaim
        rw [not_or, not_not, Option.not_isSome_iff_eq_none] at hfree
        cases hclaim
        exact .inr ⟨_, rfl, hfree.1, hfree.2, rfl⟩
      next hclaim =>
        refine .inl ⟨?_, rfl⟩
        unfold Transfer.claimSend at hclaim
        split at hclaim
        next htaken =>
          rcases htaken with hactive | hslot
          · simp [← Option.not_isSome, hactive]
          · simp [hslot]
        · cases hclaim
    | _ => exact .inl ⟨rfl, rfl⟩

end P2pFile.Node
