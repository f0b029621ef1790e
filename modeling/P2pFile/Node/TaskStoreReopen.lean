/-
  P2pFile.Node.TaskStoreReopen

  When a task store can be opened again.

  Opening is not only reading: tasks that were active become interrupted, which makes
  their records longer, and the result is committed under the limit that the last
  commit may have used up.
-/

import P2pFile.Node.TaskStoreRuns

namespace P2pFile.Node

open Lib Protocol Storage
open Json (Fields Value byteSize intSize natSize stringSize)
open TaskRecord (forget)
open List (length_cons length_nil map_cons map_map map_nil replicate sum_cons sum_nil tail_nil)

variable {c : Crypto}

/-! ## Calls on a working disk

A plan that is used up lets every call succeed. -/

variable {snapshot : StoreSnapshot} (d : StoreDir) {older : List (Option SnapshotFile)}

theorem writeSnapshot_working (h : snapshot.fits c = true) :
    writeSnapshot c snapshot d [] = (.ok .done, (d.replaced snapshot).settled, []) := by
  unfold StoreSnapshot.fits at h
  unfold writeSnapshot
  cases hsize : snapshot.jsonSize c with
  | none => simp [hsize] at h
  | some size =>
    rw [hsize, Option.any_some, decide_eq_true_eq] at h
    show (if size > maxStoreBytes then _ else _ : StoreCall _) _ _ = _
    rw [if_neg (Nat.not_lt.mpr h)]
    rfl

/-- A snapshot that does not fit is refused before the first call. -/
theorem writeSnapshot_refused (h : snapshot.fits c = false) :
    ∃ err, writeSnapshot c snapshot d [] = (.ok (.beforeReplace err), d, []) := by
  unfold StoreSnapshot.fits at h
  unfold writeSnapshot
  cases hsize : snapshot.jsonSize c with
  | none => exact ⟨_, rfl⟩
  | some size =>
    rw [hsize, Option.any_some, decide_eq_false_iff_not, Nat.not_le] at h
    refine ⟨.io .other "task store exceeds its size limit", ?_⟩
    show (if size > maxStoreBytes then _ else _ : StoreCall _) _ _ = _
    rw [if_pos h]
    rfl

theorem readSnapshot_working (h : SnapshotOk c snapshot) :
    readSnapshot c ⟨some snapshot.file, older⟩ [] =
      (.ok (.ok (some snapshot)), ⟨some snapshot.file, older⟩, []) := by
  have hfits := h.fits
  have hlen : ¬ snapshot.file.len c > maxStoreBytes := by
    unfold StoreSnapshot.fits at hfits
    unfold SnapshotFile.len StoreSnapshot.file
    cases hsize : snapshot.jsonSize c with
    | none => simp [hsize] at hfits
    | some size =>
      rw [hsize, Option.any_some, decide_eq_true_eq] at hfits
      simp only [Option.bind_some, hsize, Option.getD_some]
      omega
  show (if snapshot.file.len c > maxStoreBytes then _ else _ : StoreCall _) _ _ = _
  rw [if_neg hlen]
  show (Outcome.ok (snapshot.file.parse.map some), _, _) = _
  rw [h.parse]
  rfl

variable {tasks : List TaskRecord}

/-- What the startup commits. -/
def StoreSnapshot.recoveredAt (snapshot : StoreSnapshot) (now : Int) (generation : UInt64) :
    StoreSnapshot :=
  ⟨storeFormatVersion, generation, snapshot.tasks.map (TaskRecord.restarted now)⟩

/-- There is nothing to recover, or the recovered tasks can be committed. -/
def StoreSnapshot.RecoveryFits (c : Crypto) (snapshot : StoreSnapshot) (now : Int) : Prop :=
  interruptedIds snapshot.tasks = [] ∨
    ∃ generation, checkedAdd snapshot.generation 1 = some generation ∧
      (snapshot.recoveredAt now generation).fits c = true

variable {s : TaskStore} {candidate : List TaskRecord}

/-- A candidate that is in order fails only for want of a generation. -/
theorem candidateSnapshot_eq (hhealthy : s.poisoned = false) (hsorted : SortedIds candidate)
    (huniq : UniqueIds candidate) (hvalid : ∀ t ∈ candidate, t.Valid c) :
    s.candidateSnapshot c candidate =
      match checkedAdd s.generation 1 with
      | none => .error .generationExhausted
      | some generation => .ok ⟨storeFormatVersion, generation, candidate⟩ := by
  unfold TaskStore.candidateSnapshot
  rw [ensureHealthy_ok.mpr hhealthy, sortTasks_of_sorted hsorted]
  dsimp only
  rw [validateTasks_ok.mpr hvalid, validateUniqueIds_ok.mpr huniq]
  cases checkedAdd s.generation 1 <;> rfl

variable {now : Int}

/-- The candidate of the startup. -/
theorem candidateSnapshot_recovered (h : SnapshotOk c snapshot)
    (htasks : s.tasks = snapshot.tasks.map (TaskRecord.restarted now))
    (hgen : s.generation = snapshot.generation) (hhealthy : s.poisoned = false) :
    s.candidateSnapshot c s.tasks =
      match checkedAdd snapshot.generation 1 with
      | none => .error .generationExhausted
      | some generation => .ok (snapshot.recoveredAt now generation) := by
  have hids := map_restarted_ids now snapshot.tasks
  have hsorted : SortedIds s.tasks := by
    unfold SortedIds
    rw [htasks, hids]
    exact h.sorted
  have huniq : UniqueIds s.tasks := by
    unfold UniqueIds
    rw [htasks, hids]
    exact h.unique
  have hvalid : ∀ t ∈ s.tasks, t.Valid c := by
    intro t ht
    rw [htasks] at ht
    obtain ⟨u, hu, rfl⟩ := List.mem_map.mp ht
    exact (recoverTask_eq (h.valid u hu)).2
  rw [candidateSnapshot_eq hhealthy hsorted huniq hvalid, hgen, htasks]
  rfl

/-! ## Opening on a working disk -/

/-- The store that is loaded, with the events of the tasks that were interrupted. -/
def StoreSnapshot.loaded (snapshot : StoreSnapshot) (now : Int) : TaskStore :=
  TaskStore.recovered
    ⟨snapshot.tasks.map (TaskRecord.restarted now), snapshot.generation, .empty, false⟩
    (interruptedIds snapshot.tasks)

/-- Nothing to recover: the store is what was read. -/
theorem openStore_idle (h : SnapshotOk c snapshot) (now : Int)
    (hidle : interruptedIds snapshot.tasks = []) :
    openStore c (.ok now) ⟨some snapshot.file, older⟩ [] =
      (.ok (.ok (snapshot.loaded now, [])), ⟨some snapshot.file, older⟩, []) := by
  show Prog.bind (readSnapshot c) _ _ _ = _
  unfold Prog.bind StoreSnapshot.loaded
  rw [readSnapshot_working h]
  dsimp only
  rw [loadSnapshot_eq h, hidle]
  rfl

variable {d' : StoreDir}

/-- Otherwise the recovered tasks are committed. -/
theorem openStore_busy (h : SnapshotOk c snapshot) (now : Int)
    (hbusy : interruptedIds snapshot.tasks ≠ []) {result : Except TaskStoreError Unit}
    (hcommit : (snapshot.loaded now).commitTasks c (snapshot.loaded now).tasks
      ⟨some snapshot.file, older⟩ [] = (.ok (s, result), d', [])) :
    openStore c (.ok now) ⟨some snapshot.file, older⟩ [] =
      (.ok (result.map fun _ => (s, interruptedIds snapshot.tasks)), d', []) := by
  show Prog.bind (readSnapshot c) _ _ _ = _
  unfold Prog.bind
  rw [readSnapshot_working h]
  dsimp only
  rw [loadSnapshot_eq h]
  show (if true = false ∨ interruptedIds snapshot.tasks ≠ [] then
    Prog.bind ((snapshot.loaded now).commitTasks c (snapshot.loaded now).tasks) _
    else _ : StoreCall _) _ _ = _
  rw [if_pos (Or.inr hbusy)]
  unfold Prog.bind
  rw [tail_nil, tail_nil, hcommit]
  cases result <;> rfl

theorem commitTasks_refused {err : TaskStoreError}
    (h : s.candidateSnapshot c candidate = .error err) :
    s.commitTasks c candidate d [] = (.ok (s, .error err), d, []) := by
  unfold TaskStore.commitTasks
  rw [h]
  rfl

variable (h : s.candidateSnapshot c candidate = .ok snapshot)

include h

theorem commitTasks_working (hfits : snapshot.fits c = true) : s.commitTasks c candidate d [] =
      (.ok (s.installed snapshot, .ok ()), (d.replaced snapshot).settled, []) := by
  unfold TaskStore.commitTasks
  rw [h]
  show Prog.bind (writeSnapshot c snapshot) _ _ _ = _
  unfold Prog.bind
  rw [writeSnapshot_working d hfits]
  rfl

theorem commitTasks_tooLarge (hfits : snapshot.fits c = false) :
    ∃ err, s.commitTasks c candidate d [] = (.ok (s, .error err), d, []) := by
  obtain ⟨err, hwrite⟩ := writeSnapshot_refused d hfits
  refine ⟨.io err, ?_⟩
  unfold TaskStore.commitTasks
  rw [h]
  show Prog.bind (writeSnapshot c snapshot) _ _ _ = _
  unfold Prog.bind
  rw [hwrite]
  rfl

omit h

variable (older) in
/-- What is recovered can be committed: the store opens with all its tasks. -/
theorem openStore_recovers (h : SnapshotOk c snapshot) (hroom : snapshot.RecoveryFits c now) :
    ∃ s d', openStore c (.ok now) ⟨some snapshot.file, older⟩ [] =
        (.ok (.ok (s, interruptedIds snapshot.tasks)), d', []) ∧
      s.tasks = snapshot.tasks.map (TaskRecord.restarted now) := by
  by_cases hidle : interruptedIds snapshot.tasks = []
  · refine ⟨snapshot.loaded now, ⟨some snapshot.file, older⟩, ?_, rfl⟩
    rw [openStore_idle h now hidle, hidle]
  obtain ⟨generation, hgen, hfits⟩ := hroom.resolve_left hidle
  have hcand : (snapshot.loaded now).candidateSnapshot c (snapshot.loaded now).tasks =
      .ok (snapshot.recoveredAt now generation) := by
    rw [candidateSnapshot_recovered h rfl rfl rfl, hgen]
  have hcommit := commitTasks_working ⟨some snapshot.file, older⟩ hcand hfits
  exact ⟨_, _, openStore_busy h now hidle hcommit, rfl⟩

/-- It cannot be committed: the store does not open. -/
theorem openStore_fails (h : SnapshotOk c snapshot) (hroom : ¬ snapshot.RecoveryFits c now) :
    ∃ err, openStore c (.ok now) ⟨some snapshot.file, older⟩ [] =
      (.ok (.error err), ⟨some snapshot.file, older⟩, []) := by
  unfold StoreSnapshot.RecoveryFits at hroom
  simp only [not_or, not_exists, not_and, Bool.not_eq_true] at hroom
  obtain ⟨hbusy, hlarge⟩ := hroom
  have hcand := candidateSnapshot_recovered (c := c) h (s := snapshot.loaded now) rfl rfl rfl
  cases hgen : checkedAdd snapshot.generation 1 with
  | none =>
    rw [hgen] at hcand
    have hcommit := commitTasks_refused ⟨some snapshot.file, older⟩ hcand
    exact ⟨_, openStore_busy h now hbusy hcommit⟩
  | some generation =>
    rw [hgen] at hcand
    obtain ⟨err, hcommit⟩ := commitTasks_tooLarge ⟨some snapshot.file, older⟩ hcand (hlarge _ hgen)
    exact ⟨_, openStore_busy h now hbusy hcommit⟩

/-! ## Progress hints do not matter -/

theorem TaskRecord.forget_restarted (now : Int) (t : TaskRecord) :
    (t.restarted now).forget = t.forget.restarted now := by
  show forget (if t.state.needsStartupRecovery = true then _ else _) =
    if t.state.needsStartupRecovery = true then _ else _
  split <;> rfl

variable {tasks' : List TaskRecord}

theorem SameButHints.restarted (h : SameButHints tasks tasks') (now : Int) :
    SameButHints (tasks.map (TaskRecord.restarted now))
      (tasks'.map (TaskRecord.restarted now)) := by
  have hcomm : ∀ l : List TaskRecord, (l.map (TaskRecord.restarted now)).map forget =
      (l.map forget).map (TaskRecord.restarted now) := by
    intro l
    rw [map_map, map_map]
    exact List.map_congr_left fun t _ => TaskRecord.forget_restarted now t
  unfold SameButHints at *
  rw [hcomm, hcomm, h]

theorem SameButHints.interruptedIds (h : SameButHints tasks tasks') :
    interruptedIds tasks = interruptedIds tasks' := by
  have hforget : ∀ l : List TaskRecord,
      Node.interruptedIds l = Node.interruptedIds (l.map forget) := by
    intro l
    unfold Node.interruptedIds
    rw [List.filter_map, map_map]
    rfl
  rw [hforget, hforget tasks', h]

/-! ## Runs of successful operations -/

/-- A call that the store reports as successful. -/
def Succeeds (c : Crypto) (w : StoreWorld) (e : StoreEvent) (_ : StoreWorld) : Prop :=
  match e with
  | .call op plan => ∀ s ∈ w.store, ∃ s' result,
    (s.perform c op w.dir plan).1 = .ok (s', .ok result)
  | _ => True

variable {d : StoreDir}

/-- A store that has just been opened is healthy. -/
theorem Opened.healthy {clock : Clock} {interrupted : List TaskId}
    (hinv : StoreInv c ⟨d, none⟩) (h : Opened c d clock (.ok (.ok (s, interrupted))) d') :
    s.poisoned = false := by
  cases h with
  | loaded hreads hload hfound hsame | done hreads hload hsame =>
    exact (load_cases hinv hreads hload hsame).1

/-- A successful operation does not poison the store. -/
theorem Performed.healthy {s' : TaskStore} {op : StoreOp} {result : List TaskId}
    (h : Performed c s d op (.ok (s', .ok result)) d') : s'.poisoned = s.poisoned := by
  cases h <;> rfl

variable {w : StoreWorld}

theorem step_healthy {w' : StoreWorld} {e : StoreEvent} (hinv : StoreInv c w)
    (hhealthy : ∀ s ∈ w.store, s.poisoned = false) (hstep : w.step c e = some w')
    (hsucceeds : Succeeds c w e w') : ∀ s ∈ w'.store, s.poisoned = false := by
  obtain ⟨d, store⟩ := w
  cases e with
  | openStore clock plan =>
    cases store with
    | some s => exact absurd hstep (by simp [StoreWorld.step])
    | none =>
      have hopened := openStore_spec (c := c) d clock d plan rfl
      simp only [StoreWorld.step] at hstep
      generalize openStore c clock d plan = r at hstep hopened
      obtain ⟨out, d', rest⟩ := r
      rcases out with (err | ⟨s, interrupted⟩) | err | -
      · cases hstep
        simp
      · cases hstep
        intro s' hs'
        obtain rfl : s = s' := Option.some.inj hs'
        exact Opened.healthy hinv hopened
      · exact hopened.elim
      · cases hstep
        simp
  | call op plan =>
    cases store with
    | none => exact absurd hstep (by simp [StoreWorld.step])
    | some s =>
      obtain ⟨s', result, hok⟩ := hsucceeds s rfl
      simp only [StoreWorld.step] at hstep
      cases hrun : s.perform c op d plan with
      | mk out r =>
        rw [hrun] at hstep hok
        obtain rfl : out = .ok (s', .ok result) := hok
        cases hstep
        intro s'' hs''
        obtain rfl : s' = s'' := Option.some.inj hs''
        rw [(TaskStore.perform_cases hrun).healthy]
        exact hhealthy s rfl
  | stop | powerLoss back =>
    cases hstep
    simp
  | _ =>
    cases store with
    | none => exact absurd hstep (by simp [StoreWorld.step])
    | some s =>
      cases hstep
      intro s' hs'
      cases hs'
      exact hhealthy s rfl

/-- A store whose operations have all been successful is healthy. -/
theorem healthy_of_succeeds {es : List StoreEvent}
    (h : ((storeMachine c).restrict (Succeeds c)).Run es w) :
    StoreInv c w ∧ ∀ s ∈ w.store, s.poisoned = false := by
  refine Machine.Run.inv (I := fun w => StoreInv c w ∧ ∀ s ∈ w.store, s.poisoned = false) ?_ ?_ h
  · rintro w rfl
    exact ⟨.fresh, by simp [StoreWorld.start]⟩
  · rintro w e w' ⟨hinv, hhealthy⟩ ⟨hstep, hsucceeds⟩
    exact ⟨(step_inv hinv hstep).1, step_healthy hinv hhealthy hstep hsucceeds⟩

/-- The process stops, or the machine does when every replacement is synced. -/
def StoreDir.Stopped (d d' : StoreDir) : Prop := d' = d ∨ (d.older = [] ∧ ∃ back, d' = d.lose back)

/-- **Reopening.**  After operations that were all reported as successful, the process
    stops.  On a working disk the store opens again with all its tasks, the active ones
    interrupted, if there is nothing to recover or what is recovered can be committed. -/
theorem task_store_reopens {es : List StoreEvent} {w : StoreWorld}
    (h : ((storeMachine c).restrict (Succeeds c)).Run es w) {s : TaskStore}
    (hs : w.store = some s) {d : StoreDir} (hstopped : w.dir.Stopped d) (now : Int)
    (hroom : ∀ snapshot : StoreSnapshot, w.dir.file = some snapshot.file →
      snapshot.RecoveryFits c now) : ∃ s' d', openStore c (.ok now) d [] =
        (.ok (.ok (s', interruptedIds s.tasks)), d', []) ∧
      SameButHints s'.tasks (s.tasks.map (TaskRecord.restarted now)) := by
  obtain ⟨hinv, hhealthy⟩ := healthy_of_succeeds h
  obtain rfl : d = w.dir := by
    rcases hstopped with heq | ⟨hsettled, back, heq⟩
    · exact heq
    · rw [heq, lose_settled hinv hsettled]
  obtain ⟨d, store⟩ := w
  obtain rfl : store = some s := hs
  cases hinv with
  | poisoned hsnapshot hnew holder hmirrors hpoisoned =>
    exact absurd hpoisoned (by simp [hhealthy])
  | up hsnapshot holder hmirrors hup =>
    obtain ⟨s', d', hopen, htasks⟩ := openStore_recovers _ hsnapshot (hroom _ rfl)
    refine ⟨s', d', ?_, ?_⟩
    · rw [hopen, hmirrors.tasks.interruptedIds]
    · rw [htasks]
      exact (hmirrors.tasks.restarted now).symm

/-! ## A store that cannot be opened again -/

section Sizes

variable (w : Json.Writer) (t : TaskRecord) (path : Value) (file : Fields)

/-- The size of the path counts as it is. -/
theorem len_valueWith_path (path' : Value) :
    w.len (t.valueWith path file) + w.len path' = w.len (t.valueWith path' file) + w.len path := by
  unfold TaskRecord.valueWith
  simp only [w.len_obj, List.map_append, map_cons, map_nil, List.sum_append, sum_cons,
    sum_nil, List.length_append, length_cons, length_nil]
  omega

/-- A later time takes more digits. -/
theorem len_valueWith_updated (updated : Int) :
    w.len ({ t with updatedAtUnixMs := 0 }.valueWith path file) ≤
      w.len ({ t with updatedAtUnixMs := updated }.valueWith path file) := by
  have hzero : intSize 0 = 1 := by decide
  have hpos : 1 ≤ intSize updated := by
    unfold intSize natSize
    have hdigits := Nat.length_toDigits_pos (b := 10) (n := updated.natAbs)
    omega
  unfold TaskRecord.valueWith
  simp only [w.len_obj, w.len_int, List.map_append, map_cons, map_nil, List.sum_append, sum_cons,
    sum_nil, List.length_append, length_cons, length_nil, hzero]
  omega

end Sizes

namespace ReopenSample

def id : TaskId := ⟨_, canonical_ascending⟩

def other : PeerId := ⟨_, canonical_descending⟩

variable (n : Nat)

/-- The path `/aaa...a` with `n` letters. -/
def path : PathBuf := ⟨PathBuf.slash :: replicate n 0x61⟩

/-- A record of `new_sender` with that path. -/
def record : TaskRecord :=
  { schemaVersion := 1, taskId := id, peerId := other, direction := .send,
    localPath := .source (path n),
    manifestIdentity := ⟨hexEncode (Bytes.fill 32 7).toList, 10, 4, 3⟩, state := .scanning,
    createdAtUnixMs := 0, updatedAtUnixMs := 0, diagnostic := none, progressHint := none,
    fileDetails := none, directoryDetails := none, groupId := none }

theorem path_toValue :
    ∃ text, (path n).toValue = some (.str text) ∧ stringSize text = 3 + n := by
  have hvalid : ByteArray.IsValidUTF8 ⟨(path n).bytes.toArray⟩ := by
    refine ⟨'/' :: replicate n 'a', ?_⟩
    have hbytes : ('/' :: replicate n 'a').flatMap String.utf8EncodeChar = (path n).bytes := by
      rw [List.flatMap_cons, List.flatMap_replicate]
      show _ ++ (replicate n [(0x61 : UInt8)]).flatten = _
      rw [List.flatten_replicate_singleton]
      rfl
    refine ByteArray.ext ?_
    unfold List.utf8Encode
    rw [hbytes, List.data_toByteArray]
  have hsum : ((path n).bytes.map byteSize).sum = 1 + n := by
    unfold path
    simp [byteSize, PathBuf.slash]
  refine ⟨String.fromUTF8 _ hvalid, ?_, ?_⟩
  · unfold PathBuf.toValue PathBuf.toStr String.fromUTF8?
    rw [dif_pos hvalid]
    rfl
  · show 2 + ((path n).bytes.map byteSize).sum = 3 + n
    rw [hsum]
    omega

/-- The check of a record reads only the first byte of its path. -/
theorem record_valid : (record n).Valid .sample := by
  have hshort : (record 0).Valid .sample := by decide +kernel
  exact hshort

/-- The snapshot of a store without tasks, and that of the store with the one task. -/
def started : StoreSnapshot := ⟨storeFormatVersion, 1, []⟩

def stored : StoreSnapshot := ⟨storeFormatVersion, 2, [record n]⟩

/-- A snapshot of one task whose path is `/`. -/
def shortest (t : TaskRecord) (generation : UInt64) : Value :=
  .obj [("format_version", .num storeFormatVersion.toNat), ("generation", .num generation.toNat),
    ("tasks", .arr [t.valueWith (.str "/") []])]

theorem snapshot_jsonSize (c : Crypto) (t : TaskRecord) (generation : UInt64) (n : Nat)
    (hpath : t.localPath.path = path n) (hfile : t.fileDetails = none) :
    (⟨storeFormatVersion, generation, [t]⟩ : StoreSnapshot).jsonSize c =
      some (c.json.len (shortest t generation) + n) := by
  obtain ⟨text, hvalue, hsize⟩ := path_toValue n
  have htask : t.toValue = some (t.valueWith (.str text) []) := by
    unfold TaskRecord.toValue
    rw [hpath, hvalue, hfile]
    rfl
  have hslash : stringSize "/" = 3 := by decide
  have hlen := len_valueWith_path c.json t (.str text) [] (.str "/")
  rw [c.json.len_str, c.json.len_str, hsize, hslash] at hlen
  unfold StoreSnapshot.jsonSize StoreSnapshot.toValue
  rw [List.mapM_cons, htask]
  show some (c.json.len (.obj [_, _, ("tasks", .arr [t.valueWith (.str text) []])])) = _
  unfold shortest
  simp only [c.json.len_obj, c.json.len_arr, map_cons, map_nil, sum_cons, sum_nil, length_cons,
    length_nil]
  congr 1
  omega

theorem stored_fits : (stored n).fits .sample = true ↔ n ≤ 16776722 := by
  have hsize := snapshot_jsonSize .sample (record n) 2 n rfl rfl
  have hshort : Crypto.sample.json.len (shortest (record n) 2) = 494 := by
    show Crypto.sample.json.len (shortest (record 0) 2) = 494
    decide +kernel
  unfold StoreSnapshot.fits stored
  rw [hsize, hshort, Option.any_some, decide_eq_true_eq]
  show 494 + n ≤ 16777216 ↔ _
  omega

variable {n : Nat}

/-- The records of the tasks that are interrupted take 49 bytes more, or more if the time
    has more digits. -/
theorem recovered_too_large (hn : 16776673 < n) (now : Int) :
    ((stored n).recoveredAt now 3).fits .sample = false := by
  have hsize := snapshot_jsonSize .sample ((record n).restarted now) 3 n rfl rfl
  have hshort : Crypto.sample.json.len (shortest ((record 0).restarted 0) 3) = 543 := by
    decide +kernel
  have hupdated : Crypto.sample.json.len (((record 0).restarted 0).valueWith (.str "/") []) ≤
      Crypto.sample.json.len (((record n).restarted now).valueWith (.str "/") []) :=
    len_valueWith_updated _ ((record 0).restarted 0) _ [] _
  have hlarge : 543 ≤ Crypto.sample.json.len (shortest ((record n).restarted now) 3) := by
    rw [← hshort]
    unfold shortest
    simp only [Json.Writer.len_obj, Json.Writer.len_arr, map_cons, map_nil, sum_cons, sum_nil,
      length_cons, length_nil]
    omega
  show Option.any _ (StoreSnapshot.jsonSize .sample ⟨storeFormatVersion, 3, [_]⟩) = _
  rw [hsize, Option.any_some, decide_eq_false_iff_not]
  show ¬ _ + n ≤ 16777216
  omega

theorem stored_ok (hn : n ≤ 16776722) : SnapshotOk .sample (stored n) where
  version := rfl
  valid := by
    intro t ht
    obtain rfl := List.mem_singleton.mp ht
    exact record_valid n
  sorted := List.pairwise_singleton _ _
  unique := List.nodup_singleton _
  fits := (stored_fits n).mpr hn

/-- The store after the start, and after the task has been created. -/
def opened : TaskStore := ⟨[], 1, .empty, false⟩

def filled (n : Nat) : TaskStore := (opened.installed (stored n)).record [⟨id, 0, .created⟩]

def events (n : Nat) : List StoreEvent :=
  [.openStore (.ok 0) [], .call (.create (record n)) []]

theorem creates (hn : n ≤ 16776722) :
    opened.perform .sample (.create (record n)) ⟨some started.file, []⟩ [] =
      (.ok (filled n, .ok [id]), ⟨some (stored n).file, []⟩, []) := by
  have hok := stored_ok hn
  have hvalid : ∀ t ∈ [record n], t.Valid .sample := hok.valid
  have hdec : (StoreOp.create (record n)).decision .sample opened =
      .ok (.commit [record n] [⟨id, 0, .created⟩] [id]) := by
    show opened.create .sample (record n) = _
    unfold TaskStore.create
    rw [ensureHealthy_ok.mpr rfl, validateTasks_ok.mpr hvalid]
    rfl
  have hcand : opened.candidateSnapshot .sample [record n] = .ok (stored n) := by
    show opened.candidateSnapshot .sample (stored n).tasks = _
    rw [candidateSnapshot_eq (s := opened) rfl hok.sorted hok.unique hok.valid]
    rfl
  have hcommit := commitTasks_working ⟨some started.file, []⟩ hcand hok.fits
  unfold TaskStore.perform
  rw [hdec]
  show Prog.bind (opened.commitTasks .sample [record n]) _ _ _ = _
  unfold Prog.bind
  rw [hcommit]
  rfl

theorem run (hn : n ≤ 16776722) :
    ((storeMachine .sample).restrict (Succeeds .sample)).Run (events n)
      ⟨⟨some (stored n).file, []⟩, some (filled n)⟩ := by
  have hopen : StoreWorld.step .sample .start (.openStore (.ok 0) []) =
      some ⟨⟨some started.file, []⟩, some opened⟩ := rfl
  have hcreate : StoreWorld.step .sample ⟨⟨some started.file, []⟩, some opened⟩
      (.call (.create (record n)) []) =
      some ⟨⟨some (stored n).file, []⟩, some (filled n)⟩ := by
    simp only [StoreWorld.step, creates hn]
  have hrun := Machine.Run.snoc
    (M := (storeMachine .sample).restrict (Succeeds .sample)) (.nil rfl) ⟨hopen, trivial⟩
  refine hrun.snoc ⟨hcreate, ?_⟩
  rintro s hs
  cases hs
  exact ⟨filled n, [id], by rw [creates hn]⟩

end ReopenSample

open ReopenSample in
/-- A record with a short path leaves room for its recovery, also after a loss of power. -/
theorem task_store_reopens_small :
    ∃ s' d', openStore .sample (.ok 5) (StoreDir.lose ⟨some (stored 3).file, []⟩ 1) [] =
        (.ok (.ok (s', [id])), d', []) ∧
      SameButHints s'.tasks [(record 3).restarted 5] := by
  have hroom : ∀ snapshot : StoreSnapshot, some (stored 3).file = some snapshot.file →
      snapshot.RecoveryFits .sample 5 := by
    intro snapshot hfile
    have htext : some (stored 3) = some snapshot :=
      congrArg SnapshotFile.text (Option.some.inj hfile)
    cases htext
    exact .inr ⟨3, by decide, by decide +kernel⟩
  exact task_store_reopens (run (by decide)) rfl (.inr ⟨rfl, 1, rfl⟩) 5 hroom

open ReopenSample in
/-- One task with a path that fills the snapshot: the operations are all successful, and
    the store never opens again, whatever the time and however it has stopped. -/
theorem full_store_never_reopens : ∃ (es : List StoreEvent) (w : StoreWorld) (s : TaskStore),
      ((storeMachine .sample).restrict (Succeeds .sample)).Run es w ∧
      w.store = some s ∧ s.tasks = [record 16776722] ∧
      ∀ d now, (d = w.dir ∨ ∃ back, d = w.dir.lose back) →
        ∃ err, openStore .sample (.ok now) d [] = (.ok (.error err), w.dir, []) := by
  refine ⟨_, _, _, run (Nat.le_refl _), rfl, rfl, ?_⟩
  intro d now hd
  have hroom : ¬ (stored 16776722).RecoveryFits .sample now := by
    rintro (hidle | ⟨generation, hgeneration, hfits⟩)
    · cases hidle
    · obtain rfl : 3 = generation := Option.some.inj hgeneration
      rw [recovered_too_large (by decide)] at hfits
      cases hfits
  have hsame : d = ⟨some (stored 16776722).file, []⟩ := by
    rcases hd with heq | ⟨back, heq⟩
    · exact heq
    · rw [heq, lose_settled (StoreInv.down (stored_ok (Nat.le_refl _)) (by simp)) rfl]
  rw [hsame]
  exact openStore_fails (stored_ok (Nat.le_refl _)) hroom

end P2pFile.Node
