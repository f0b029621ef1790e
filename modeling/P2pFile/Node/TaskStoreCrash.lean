/-
  P2pFile.Node.TaskStoreCrash

  Failures and crashes of the task store.

  A commit writes a temporary file, renames it over the snapshot and syncs the directory;
  only then are the tasks in memory replaced.  A call that fails before the rename has
  changed nothing.  If only the last sync fails, nobody knows which snapshot a loss of power
  will leave, and the store refuses everything until it is opened again.  Opening does not
  sync the directory by itself, so the older snapshots can come back until the next commit.
-/

import P2pFile.Node.TaskStoreReopen

namespace P2pFile.Node

open Lib Protocol Storage
open TaskRecord (guard_ok restarted)

variable {c : Crypto}

/-! ## One call -/

variable {s : TaskStore} {op : StoreOp}

variable {d d' : StoreDir} {plan rest : List (Fault Error)}
  {out : Outcome Error (TaskStore × Except TaskStoreError (List TaskId))}

/-- The snapshot that the operation was going to write. -/
def StoreOp.Writes (c : Crypto) (s : TaskStore) (op : StoreOp) (snapshot : StoreSnapshot) : Prop :=
  ∃ candidate events result, op.decision c s = .ok (.commit candidate events result) ∧
    s.candidateSnapshot c candidate = .ok snapshot

/-- The entries after a call are those before it, and the snapshot that it was writing. -/
theorem Performed.entries (h : Performed c s d op out d') :
    (∀ entry ∈ d'.file :: d'.older, entry ∈ d.file :: d.older ∨
      ∃ snapshot : StoreSnapshot, entry = some snapshot.file ∧ op.Writes c s snapshot) ∧
    (d'.file = d.file ∨
      ∃ snapshot : StoreSnapshot, d'.file = some snapshot.file ∧ op.Writes c s snapshot) := by
  have hrepl : ∀ {snapshot : StoreSnapshot}, op.Writes c s snapshot → Replaced c d snapshot d' →
      (∀ entry ∈ d'.file :: d'.older, entry ∈ d.file :: d.older ∨
        ∃ snapshot : StoreSnapshot, entry = some snapshot.file ∧ op.Writes c s snapshot) ∧
      (d'.file = d.file ∨
        ∃ snapshot : StoreSnapshot, d'.file = some snapshot.file ∧ op.Writes c s snapshot) := by
    intro snapshot hwrites hrepl
    refine ⟨fun entry hentry => ?_, .inr ⟨snapshot, hrepl.file_eq, hwrites⟩⟩
    rcases hrepl.entries entry hentry with rfl | hold
    · exact .inr ⟨snapshot, rfl, hwrites⟩
    · exact .inl hold
  cases h with
  | uncertain hdec hsnap hfits => exact hrepl ⟨_, _, _, hdec, hsnap⟩ (.unsynced hfits)
  | done hdec hsnap hfits => exact hrepl ⟨_, _, _, hdec, hsnap⟩ (.settled hfits)
  | diedReplaced hdec hsnap hrep => exact hrepl ⟨_, _, _, hdec, hsnap⟩ hrep
  | _ => exact ⟨fun _ hentry => .inl hentry, .inl rfl⟩

/-- What a loss of power leaves is one of the entries. -/
theorem lose_entry (hinv : ∀ entry ∈ d.file :: d.older, EntryOk c entry) (back : Nat) :
    ∃ entry ∈ d.file :: d.older, d.lose back = ⟨entry, []⟩ := by
  refine ⟨revive d.file d.older back, revive_mem _ _ _, ?_⟩
  have hentry := hinv _ (revive_mem d.file d.older back)
  unfold StoreDir.lose
  cases hrevive : revive d.file d.older back with
  | none => rfl
  | some f =>
    obtain ⟨snapshot, rfl, -⟩ := hentry f hrevive
    rfl

variable {clock : Clock} {out : Outcome Error (Except TaskStoreError (TaskStore × List TaskId))}

/-- The same for the startup: what it commits are the recovered tasks. -/
theorem Opened.leaves (hinv : StoreInv c ⟨d, none⟩) (h : Opened c d clock out d') :
    (StoreWorld.tasks ⟨d', none⟩ = StoreWorld.tasks ⟨d, none⟩ ∨ ∃ now, clock = .ok now ∧
      StoreWorld.tasks ⟨d', none⟩ = (StoreWorld.tasks ⟨d, none⟩).map (restarted now)) ∧
    ∀ back, (d'.lose back).file ∈ d.file :: d.older ∨ ∃ now, clock = .ok now ∧
      StoreWorld.tasks ⟨d'.lose back, none⟩ =
        (StoreWorld.tasks ⟨d, none⟩).map (restarted now) := by
  obtain rfl | ⟨snapshot, hrepl, hnew, now, hclock, htasks, -⟩ := h.dir hinv
  · refine ⟨.inl rfl, fun back => .inl ?_⟩
    obtain ⟨entry, hentry, hlose⟩ := lose_entry hinv.entries back
    rw [hlose]
    exact hentry
  · refine ⟨.inr ⟨now, hclock, hrepl.tasks_eq.trans htasks⟩, fun back => ?_⟩
    obtain ⟨entry, hentry, hlose⟩ := lose_entry (hinv.replaced hnew hrepl).entries back
    rw [hlose]
    rcases hrepl.entries entry hentry with rfl | hold
    · exact .inr ⟨now, hclock, htasks⟩
    · exact .inl hold

/-! ## A poisoned store -/

variable {w w' : StoreWorld}

/-- The process ends. -/
def StoreEvent.ends : StoreEvent → Bool
  | .stop | .powerLoss _ => true
  | _ => false

/-- A store that has just been opened has the tasks of the file, after the recovery. -/
theorem Opened.tasks {interrupted : List TaskId} (hinv : StoreInv c ⟨d, none⟩)
    (h : Opened c d clock (.ok (.ok (s, interrupted))) d') : ∃ now, clock = .ok now ∧
      s.tasks = (StoreWorld.tasks ⟨d, none⟩).map (restarted now) ∧
      interrupted = interruptedIds (StoreWorld.tasks ⟨d, none⟩) := by
  cases h with
  | loaded hreads hload hfound hsame =>
    obtain ⟨-, now, hclock, htasks, hids, -, -⟩ := load_cases hinv hreads hload hsame
    exact ⟨now, hclock, htasks, hids⟩
  | done hreads hload hsame hcand hfits =>
    obtain ⟨-, _, -, -, hids, -, -⟩ := load_cases hinv hreads hload hsame
    obtain ⟨-, now, hclock, htasks, -⟩ := load_commit hinv hreads hload hsame hcand hfits
    exact ⟨now, hclock, htasks, hids⟩

namespace CrashSample

/-- The store with one task, a hint for it, and its next state. -/
def world : StoreWorld := ⟨⟨some (ReopenSample.stored 3).file, []⟩, some (ReopenSample.filled 3)⟩

def hint : StoreOp := .setProgressHint ReopenSample.id ⟨5, 1⟩

def queue : StoreOp := .transition ReopenSample.id .queued none 1

theorem run : (storeMachine .sample).Run (ReopenSample.events 3) world :=
  Machine.Run.of_restrict (ReopenSample.run (by decide))

end CrashSample

end P2pFile.Node
