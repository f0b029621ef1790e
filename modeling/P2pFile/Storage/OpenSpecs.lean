/-
  P2pFile.Storage.OpenSpecs

  What opening a download establishes.

  `Holds` says that a content has the full length and every chunk of a bitmap.  Opening
  reaches it from any disk: the loop over the stored bitmap clears every chunk that does
  not verify, and a file of another length is reset together with its bitmap.  `Open` is
  the invariant that the methods of an open download then keep.
-/

import P2pFile.Storage.DiskSpecs

namespace P2pFile.Storage

open Lib Protocol Transfer

variable {c : Crypto} {dir : Path} {m : FileManifest}

/-! ## Chunks in a content -/

/-- Chunk `index` verifies in the content. -/
def ChunkAt (c : Crypto) (m : FileManifest) (content : List UInt8) (index : UInt32) : Prop :=
  ∃ offset len, m.chunkRange index = some (offset, len) ∧
    m.verifyChunk c index (slice content offset.toNat len.toNat) = true

/-- The content has the full length, and every chunk of the bitmap. -/
structure Holds (c : Crypto) (m : FileManifest) (content : List UInt8) (bitmap : ChunkBitmap) :
    Prop where
  count : bitmap.chunkCount = m.count
  length : content.length = m.totalLen.toNat
  chunks : ∀ index, bitmap.isSet index = true → ChunkAt c m content index

/-- The hash is treated as injective: at most one chunk content verifies. -/
def CollisionFree (c : Crypto) (m : FileManifest) : Prop :=
  ∀ index data data', m.verifyChunk c index data = true → m.verifyChunk c index data' = true →
    data = data'

section Write

variable {content data : List UInt8} {bitmap : ChunkBitmap} {index : UInt32} {offset : UInt64}

/-- Writing part of a verified chunk keeps all chunks: those of other indexes are
    elsewhere, and the chunk itself, if it was there, has the same bytes. -/
theorem Holds.write (hvalid : m.Valid c) (hinj : CollisionFree c m) (h : Holds c m content bitmap)
    (hver : m.verifyChunk c index data = true) (hoff : m.chunkOffset index = some offset)
    (k : Nat) :
    Holds c m ((putAll offset.toNat (data.take k)).foldl Write.apply content) bitmap := by
  obtain ⟨len, hrange, hdata, hpos, hsize, hend⟩ := hvalid.range_of_verifyChunk hver hoff
  have hin : offset.toNat + (data.take k).length ≤ content.length := by
    rw [List.length_take, h.length]
    omega
  rw [foldl_putAll hin]
  refine ⟨h.count, ?_, ?_⟩
  · rw [length_replace hin, h.length]
  · intro j hj
    obtain ⟨offsetj, lenj, hrangej, hverifyj⟩ := h.chunks j hj
    refine ⟨offsetj, lenj, hrangej, ?_⟩
    by_cases hji : j = index
    · subst hji
      rw [hrange] at hrangej
      cases hrangej
      have hsame := hinj j _ _ hverifyj hver
      rw [slice_replace_same hin (by rw [List.length_take]; omega), hsame, List.length_take]
      have hdrop : data.drop (min k data.length) = data.drop k := by
        rcases Nat.le_total k data.length with hk | hk
        · rw [Nat.min_eq_left hk]
        · rw [Nat.min_eq_right hk, List.drop_length, List.drop_eq_nil_of_le hk]
      rw [hdrop, List.take_append_drop]
      exact hver
    · have hjcount : j < m.count := h.count ▸ ChunkBitmap.lt_of_isSet hj
      obtain ⟨_, _, hr, -, -, hposj, hsizej, -⟩ := hvalid.chunkRange_eq hjcount
      rw [hrangej] at hr
      cases hr
      have hne : index.toNat ≠ j.toNat := fun heq => hji (UInt32.toNat_inj.mp heq.symm)
      have htake : (data.take k).length ≤ m.chunkSize.toNat := by
        rw [List.length_take]
        omega
      rw [slice_replace_of_disjoint hin ?_]
      · exact hverifyj
      · rw [hpos, hposj]
        exact FileManifest.disjoint_of_ne hne htake hsizej

/-- Writing a verified chunk adds it. -/
theorem Holds.writeAll {bitmap' : ChunkBitmap} (hvalid : m.Valid c) (hinj : CollisionFree c m)
    (h : Holds c m content bitmap) (hver : m.verifyChunk c index data = true)
    (hoff : m.chunkOffset index = some offset) (hset : bitmap.set index = .ok bitmap') :
    Holds c m ((putAll offset.toNat data).foldl Write.apply content) bitmap' := by
  have hold := h.write hvalid hinj hver hoff data.length
  rw [List.take_length] at hold
  obtain ⟨hcount, hbits⟩ := ChunkBitmap.set_ok hset
  refine ⟨hcount.trans h.count, hold.length, ?_⟩
  intro j hj
  rw [hbits, Bool.or_eq_true, decide_eq_true_eq] at hj
  rcases hj with hj | rfl
  · exact hold.chunks j hj
  obtain ⟨len, hrange, hdata, -, -, hend⟩ := hvalid.range_of_verifyChunk hver hoff
  refine ⟨offset, len, hrange, ?_⟩
  have hin : offset.toNat + data.length ≤ content.length := by
    rw [h.length]
    omega
  rw [foldl_putAll hin, slice_replace_same hin (by omega), List.drop_eq_nil_of_le, List.append_nil]
  · exact hver
  · rw [length_slice (by omega)]
    omega

end Write

/-! ## Opening -/

variable {p : Path} {i : Nat} {content : List UInt8} {A : Disk → Prop}

/-- The loop clears every chunk that does not verify: chunks are set in the result only
    if they verify, or if the loop was not asked about them. -/
theorem recheck_spec (hview : ∀ s, A s → (s.files i).view = content) (l : List UInt32)
    (state : ChunkBitmap × Bool) : Prog.Spec A (recheck c m i l state)
      (fun r s => A s ∧ r.1.chunkCount = state.1.chunkCount ∧ ∀ index, r.1.isSet index = true →
        state.1.isSet index = true ∧ (index ∈ l → ChunkAt c m content index)) A := by
  induction l generalizing state with
  | nil => exact .pure fun s hs => ⟨hs, rfl, fun index h => ⟨h, by simp⟩⟩
  | cons index rest ih =>
    obtain ⟨bitmap, changed⟩ := state
    -- The rest of the loop, after the bit was cleared.
    have hclear : Prog.Spec A
        (do let bitmap ← Prog.ofExcept (bitmap.clear index); recheck c m i rest (bitmap, true))
        (fun r s => A s ∧ r.1.chunkCount = bitmap.chunkCount ∧ ∀ j, r.1.isSet j = true →
          bitmap.isSet j = true ∧ (j ∈ index :: rest → ChunkAt c m content j)) A := by
      refine .bind (R := fun b s => A s ∧ bitmap.clear index = .ok b)
        (.ofExcept (fun b hb s hs => ⟨hs, hb⟩) fun _ hs => hs) ?_
      intro b
      refine .of_imp (φ := bitmap.clear index = .ok b) ?_ fun _ hs => hs.2
      intro hb
      obtain ⟨hcount, hbits⟩ := ChunkBitmap.clear_ok hb
      refine ((ih (b, true)).pre fun _ hs => hs.1).post ?_
      rintro r s ⟨hs, hr, hset⟩
      refine ⟨hs, hr.trans hcount, ?_⟩
      intro j hj
      obtain ⟨hjb, hjrest⟩ := hset j hj
      rw [hbits, Bool.and_eq_true, Bool.not_eq_true', decide_eq_false_iff_not] at hjb
      refine ⟨hjb.1, ?_⟩
      intro hmem
      exact hjrest ((List.mem_cons.mp hmem).resolve_left hjb.2)
    unfold recheck
    split
    · exact .throw fun _ hs => hs
    rename_i offset len hrange
    refine .bind seek_spec fun _ => ?_
    refine .bind (R := fun r s => A s ∧ ∀ data, r = .ok data →
      data = slice content offset.toNat len.toNat) (.attempt ((readExact_spec _ _ _).post ?_)
      fun err s hs => ⟨hs, by simp⟩) ?_
    · rintro data s ⟨hs, hdata⟩
      refine ⟨hs, ?_⟩
      intro data' heq
      rw [← Except.ok.inj heq, hdata, hview s hs]
    · intro read
      cases read with
      | ok data =>
        refine .of_imp (φ := data = slice content offset.toNat len.toNat) ?_
          fun s hs => hs.2 data rfl
        intro hdata
        dsimp only
        split
        next hver =>
          refine ((ih (bitmap, changed)).pre fun _ hs => hs.1).post ?_
          rintro r s ⟨hs, hr, hset⟩
          refine ⟨hs, hr, ?_⟩
          intro j hj
          refine ⟨(hset j hj).1, ?_⟩
          intro hmem
          rcases List.mem_cons.mp hmem with rfl | hmem
          · exact ⟨offset, len, hrange, hdata ▸ hver⟩
          · exact (hset j hj).2 hmem
        · exact hclear.pre fun _ hs => hs.1
      | error err =>
        dsimp only
        split
        · exact hclear.pre fun _ hs => hs.1
        · exact .throw fun _ hs => hs.1

/-- What `inspect` has found out: what the bitmap and the file are to each other. -/
structure Found (c : Crypto) (m : FileManifest) (p : Path) (e : Existing) (s : Disk) : Prop where
  count : e.bitmap.chunkCount = m.count
  entry : ∀ i, e.file = some i → s.entries p = some (.file i)
  /-- A file that is reset, or not there yet, has no chunks. -/
  empty : e.reset = true → ∀ index, e.bitmap.isSet index = false
  missing : e.file = none → e.reset = true
  kept : e.reset = false → ∀ i, e.file = some i → Holds c m (s.files i).view e.bitmap

/-- The same on a tidy disk. -/
structure Inspected (c : Crypto) (dir : Path) (m : FileManifest) (p : Path) (e : Existing)
    (s : Disk) : Prop extends s.Tidy dir m, Found c m p e s

variable (directory : DownloadDirectory)

/-- `inspect` only reads. -/
theorem inspect_found (p statePath : Path) :
    Prog.Spec A (inspect c directory m p statePath) (fun e s => A s ∧ Found c m p e s) A := by
  refine .bind (load_spec directory statePath m.count) ?_
  rintro ⟨bitmap, needsRepair⟩
  refine .of_imp (φ := bitmap.chunkCount = m.count) (fun hcount => ?_) fun _ h => h.2
  refine .bind ((openExistingPart_spec p).pre fun _ h => h.1) ?_
  intro found
  cases found with
  | none =>
    refine .pure ?_
    rintro s ⟨hs, -⟩
    exact ⟨hs, rfl, by simp, fun _ _ => ChunkBitmap.isSet_new _ _, fun _ => rfl, by simp⟩
  | some i =>
    refine .bind ((fileLen_spec i).exits (fun _ h => h.1)) ?_
    intro len
    split
    · refine .pure ?_
      rintro s ⟨⟨hs, hentry⟩, -⟩
      refine ⟨hs, rfl, ?_, fun _ _ => ChunkBitmap.isSet_new _ _, fun _ => rfl, by simp⟩
      intro j hj
      exact hentry j hj
    next hlen =>
      -- Name the content, so that the loop can speak of it.
      refine Prog.Triple.pre (R := fun s => ∃ content : List UInt8,
        A s ∧ s.entries p = some (.file i) ∧ (s.files i).view = content ∧
        content.length = m.totalLen.toNat) (.ex ?_) ?_
      · intro content
        refine .bind ((recheck_spec (fun s hs => hs.2.2.1) bitmap.present
          (bitmap, needsRepair)).exits (fun _ h => h.1)) ?_
        rintro ⟨bitmap', changed⟩
        refine .pure ?_
        rintro s ⟨⟨hs, hentry, hview, hlength⟩, hcount', hset⟩
        refine ⟨hs, hcount'.trans hcount, ?_, by simp, by simp, ?_⟩
        · rintro j heq
          rw [← Option.some.inj heq]
          exact hentry
        · rintro - j heq
          rw [← Option.some.inj heq, hview]
          refine ⟨hcount'.trans hcount, hlength, ?_⟩
          intro index hindex
          obtain ⟨hold, hchunk⟩ := hset index hindex
          exact hchunk (ChunkBitmap.mem_present.mpr hold)
      · rintro s ⟨⟨hs, hentry⟩, hlength⟩
        exact ⟨_, hs, hentry i rfl, rfl, by omega⟩

theorem inspect_spec (p statePath : Path) :
    Prog.Spec (Disk.Tidy dir m) (inspect c directory m p statePath)
      (fun e => Inspected c dir m p e) (Disk.Tidy dir m) := by
  refine (inspect_found directory p statePath).post ?_
  rintro e s ⟨hs, h⟩
  exact ⟨hs, h⟩

/-- The `.part` file `i` under the name `p` holds the chunks of the bitmap. -/
def PartHolds (c : Crypto) (dir : Path) (m : FileManifest) (p : Path) (i : Nat)
    (bitmap : ChunkBitmap) (s : Disk) : Prop :=
  ∃ content, Part dir m p i content s ∧ Holds c m content bitmap

theorem PartHolds.tidy {bitmap : ChunkBitmap} {s : Disk} (h : PartHolds c dir m p i bitmap s) :
    s.Tidy dir m := by
  obtain ⟨content, hpart, -⟩ := h
  exact hpart.toTidy

/-- `set_len` keeps the name of the file. -/
theorem setLen_spec (len : Nat) :
    Prog.Spec (fun s => s.Tidy dir m ∧ s.entries p = some (.file i)) (setLen i len)
      (fun _ s => s.Tidy dir m ∧ s.entries p = some (.file i) ∧ (s.files i).view.length = len)
      (Disk.Tidy dir m) := by
  refine .atomic (fun _ h => h.1) ?_
  rintro s _ t ⟨hs, hentry⟩ hok
  cases hok
  refine ⟨⟨hs.setFile _ _, hentry, ?_⟩, hs.setFile _ _⟩
  rw [Disk.files_setFile, if_pos rfl, File.view_setLen, length_resize]

/-- Syncing the `.part` file changes nothing that is seen. -/
theorem sync_part_spec {F : (Path → Option Entry) → Prop} :
    Prog.Spec (fun s => Part dir m p i content s ∧ F s.entries) (sync i)
      (fun _ s => Part dir m p i content s ∧ F s.entries ∧ (s.files i).pending = [])
      (Part dir m p i content) := by
  refine .atomic (fun _ h => h.1) ?_
  rintro s _ t ⟨hs, hF⟩ hok
  cases hok
  have hfile : (s.setFile i (s.files i).sync).files i = (s.files i).sync := by
    rw [Disk.files_setFile, if_pos rfl]
  have hpart : Part dir m p i content (s.setFile i (s.files i).sync) := by
    refine ⟨hs.toTidy.setFile _ _, hs.entry, ?_⟩
    rw [hfile, File.view_sync, hs.view]
  exact ⟨⟨hpart, hF, by rw [hfile, File.pending_sync]⟩, hpart⟩

/-- The file is open.  It is to be reset, or known to hold the chunks. -/
structure Opened (c : Crypto) (dir : Path) (m : FileManifest) (p : Path) (e : Existing) (i : Nat)
    (s : Disk) : Prop extends s.Tidy dir m where
  entry : s.entries p = some (.file i)
  count : e.bitmap.chunkCount = m.count
  empty : e.reset = true → ∀ index, e.bitmap.isSet index = false
  kept : e.reset = false → Holds c m (s.files i).view e.bitmap

theorem openPart_spec (e : Existing) :
    Prog.Spec (Inspected c dir m p e) (openPart p e.file) (fun i => Opened c dir m p e i)
      (Disk.Tidy dir m) := by
  cases hfile : e.file with
  | some i =>
    refine .pure ?_
    intro s hs
    exact ⟨hs.toTidy, hs.entry i hfile, hs.count, hs.empty, fun h => hs.kept h i hfile⟩
  | none =>
    refine .atomic (fun _ h => h.toTidy) ?_
    intro s i t hs hok
    have hreset := hs.missing hfile
    split at hok
    next hentry =>
      cases hok
      exact ⟨⟨hs.toTidy, hentry, hs.count, hs.empty, by simp [hreset]⟩, hs.toTidy⟩
    · cases hok
    · cases hok
      have hadded := hs.toTidy.addFile p
      have hentry : (s.addFile p).entries p = some (.file s.next) := by
        rw [Disk.entries_addFile, if_pos rfl]
      exact ⟨⟨hadded, hentry, hs.count, hs.empty, by simp [hreset]⟩, hadded⟩

section Establish

variable {statePath : Path} (hp : p ∈ partPaths dir m) (hstate : statePath ∈ statePaths dir m)

include hp hstate

variable (platform : Platform) (directory : DownloadDirectory)

theorem save_partHolds_spec (bitmap bitmap' : ChunkBitmap) (random : Nat)
    (hcli : directory.capability = false → statePath = statePathFor dir m) :
    Prog.Spec (PartHolds c dir m p i bitmap') (directory.save platform statePath bitmap random)
      (fun _ => PartHolds c dir m p i bitmap') (Disk.Tidy dir m) := by
  refine .ex ?_
  intro content
  refine .of_imp (φ := Holds c m content bitmap') ?_ fun _ hs => hs.2
  intro hholds
  exact (save_spec hp hstate platform directory bitmap random hcli).conseq (fun _ hs => hs.1)
    (fun _ _ h => ⟨content, h.1, hholds⟩) (fun _ h => h.toTidy)

theorem repair_spec (e : Existing) (random : Nat)
    (hcli : directory.capability = false → statePath = statePathFor dir m) :
    Prog.Spec (Opened c dir m p e i) (repair platform directory m statePath e random i)
      (fun _ => PartHolds c dir m p i e.bitmap) (Disk.Tidy dir m) := by
  have hsave := save_partHolds_spec hp hstate (c := c) (i := i) platform directory e.bitmap e.bitmap
    random hcli
  unfold repair
  split
  next hreset =>
    refine .of_imp (φ := e.bitmap.chunkCount = m.count ∧ ∀ index, e.bitmap.isSet index = false) ?_
      fun s hs => ⟨hs.count, hs.empty hreset⟩
    rintro ⟨hcount, hempty⟩
    refine .bind ((setLen_spec 0).pre fun _ h => ⟨h.toTidy, h.entry⟩) fun _ => ?_
    refine .bind ((setLen_spec m.totalLen.toNat).pre fun _ h => ⟨h.1, h.2.1⟩) fun _ => ?_
    refine .bind (R := fun _ => PartHolds c dir m p i e.bitmap) ?_ fun _ => hsave
    refine Prog.Triple.pre (R := fun s => ∃ content, Part dir m p i content s ∧
      content.length = m.totalLen.toNat) (.ex ?_) ?_
    · intro content
      refine .of_imp (φ := content.length = m.totalLen.toNat) ?_ fun _ hs => hs.2
      intro hlength
      refine (sync_part_spec (F := fun _ => True)).conseq (fun _ hs => ⟨hs.1, trivial⟩) ?_
        (fun _ h => h.toTidy)
      rintro _ s ⟨hs, -⟩
      exact ⟨content, hs, hcount, hlength, by simp [hempty]⟩
    · rintro s ⟨hs, hentry, hlength⟩
      exact ⟨_, ⟨hs, hentry, rfl⟩, hlength⟩
  next hreset =>
    refine Prog.Triple.pre (R := PartHolds c dir m p i e.bitmap) ?_ ?_
    · split
      · exact hsave
      · exact .pure fun _ h => h
    · intro s hs
      exact ⟨_, ⟨hs.toTidy, hs.entry, rfl⟩, hs.kept (by simpa using hreset)⟩

end Establish

/-- The paths are working names of the download. -/
structure Staged (dir : Path) (m : FileManifest) (capability : Bool) (paths : Path × Path) :
    Prop where
  part : paths.1 ∈ partPaths dir m
  state : paths.2 ∈ statePaths dir m
  cli : capability = false → paths.2 = statePathFor dir m

theorem stagingPaths_spec :
    Prog.Spec A (stagingPaths directory m)
      (fun r s => A s ∧ Staged directory.path m directory.capability r) A := by
  have hlong : Staged directory.path m directory.capability
      (tempPathFor directory.path m, statePathFor directory.path m) :=
    ⟨tempPathFor_mem, statePathFor_mem, fun _ => rfl⟩
  unfold stagingPaths
  split
  next hcap =>
    refine .bind (R := fun _ => A) (.attempt (F := A) ?_ fun _ _ h => h) ?_
    · unfold legacyMetadata
      split
      · exact symlinkMetadata_spec _
      · exact .throw fun _ h => h
    · intro found
      cases found with
      | ok => exact .pure fun s hs => ⟨hs, hlong⟩
      | error err =>
        dsimp only
        split
        · exact .pure fun s hs => ⟨hs, dataPart_mem, dataBitmap_mem, by simp [hcap]⟩
        · exact .throw fun _ h => h
  · exact .pure fun s hs => ⟨hs, hlong⟩

/-- What does not change while a download is open. -/
structure PartialDownload.Fixed (c : Crypto) (dir : Path) (m : FileManifest)
    (d : PartialDownload) : Prop where
  valid : m.Valid c
  manifest : d.manifest = m
  target : d.targetPath = targetPathFor dir m
  staged : Staged dir m d.directory.capability (d.tempPath, d.statePath)

/-- The invariant of an open download. -/
def Open (c : Crypto) (dir : Path) (m : FileManifest) (x : Disk × PartialDownload) : Prop :=
  x.2.Fixed c dir m ∧ ∃ i, x.2.file = some i ∧
    PartHolds c dir m x.2.tempPath i x.2.writtenBitmap x.1

theorem Open.tidy {x : Disk × PartialDownload} (h : Open c dir m x) : x.1.Tidy dir m := by
  obtain ⟨-, i, -, hpart⟩ := h
  exact hpart.tidy

variable (platform : Platform)

theorem createInWithAdmission_spec {T : Type} (capability : Bool) (policy : CheckpointPolicy)
    (admission : UInt64 → Except Error T) (moment : Moment) :
    Prog.Spec (Disk.Tidy dir m)
      (createInWithAdmission c platform ⟨dir, capability⟩ m policy admission moment)
      (fun r s => Open c dir m (s, r.1)) (Disk.Tidy dir m) := by
  refine .bind (R := fun _ s => s.Tidy dir m ∧ m.Valid c)
    (.ofExcept (fun _ h s hs => ⟨hs, FileManifest.validate_ok h⟩) fun _ h => h) fun _ => ?_
  refine .of_imp (φ := m.Valid c) (fun hvalid => ?_) fun _ h => h.2
  refine .bind ((stagingPaths_spec _).pre fun _ h => h.1) ?_
  rintro ⟨tempPath, statePath⟩
  refine .of_imp (φ := Staged dir m capability (tempPath, statePath)) (fun hstaged => ?_)
    fun _ h => h.2
  refine .bind ((inspect_spec _ _ _).pre fun _ h => h.1) ?_
  intro e
  refine .bind (R := fun _ => Inspected c dir m tempPath e)
    (.ofExcept (fun _ _ _ h => h) fun _ h => h.toTidy) fun verified => ?_
  refine .bind (R := fun _ => Inspected c dir m tempPath e)
    (.ofExcept (fun _ _ _ h => h) fun _ h => h.toTidy) fun admitted => ?_
  refine .bind (openPart_spec e) fun i => ?_
  refine .bind (repair_spec hstaged.part hstaged.state platform ⟨dir, capability⟩ e moment.random
    hstaged.cli) fun _ => ?_
  refine .pure ?_
  intro s hs
  exact ⟨⟨hvalid, rfl, rfl, hstaged⟩, i, rfl, hs⟩

theorem createWithPolicy_spec (policy : CheckpointPolicy) (moment : Moment) :
    Prog.Spec (Disk.Tidy dir m) (createWithPolicy c platform dir m policy moment)
      (fun d s => Open c dir m (s, d)) (Disk.Tidy dir m) := by
  refine .bind (R := fun _ => Disk.Tidy dir m) (.ofExcept (fun _ _ _ h => h) fun _ h => h)
    fun _ => ?_
  refine .bind touchDir_spec fun _ => ?_
  refine .bind (createInWithAdmission_spec platform false policy _ moment) ?_
  rintro ⟨d, ⟨⟩⟩
  exact .pure fun _ h => h

end P2pFile.Storage
