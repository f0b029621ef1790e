/-
  P2pFile.Storage.DiskSpecs

  What the calls and the small functions over them keep.

  The working files of a download do not get in one another's way: the temporary
  bitmap file, the only one that is truncated by name, is never a second name of the
  `.part` file (`Tidy`).  So everything but the two functions that write to the `.part`
  file on purpose leaves its name and its content alone (`Part`).
-/

import P2pFile.Storage.PartialDownload

namespace P2pFile.Storage

open Lib Protocol Transfer

/-! ## Updates -/

namespace Disk

variable (s : Disk)

theorem entries_setEntry (q : Path) (e : Option Entry) (p : Path) :
    (s.setEntry q e).entries p = if p = q then e else s.entries p :=
  Function.update_apply ..

theorem entries_addFile (q p : Path) :
    (s.addFile q).entries p = if p = q then some (.file s.next) else s.entries p :=
  Function.update_apply ..

/-- The name is file `i`, or can be after a loss of power. -/
def Possible (path : Path) (i : Nat) : Prop := some (.file i) ∈ s.entries path :: s.older path

variable {s} {p q : Path} {i : Nat}

theorem Possible.of_entry (h : s.entries p = some (.file i)) : s.Possible p i :=
  List.mem_cons.mpr (.inl h.symm)

theorem possible_setEntry {e : Option Entry} :
    (s.setEntry q e).Possible p i ↔ (p = q ∧ e = some (.file i)) ∨ s.Possible p i := by
  unfold Possible setEntry
  dsimp only
  rw [Function.update_apply, Function.update_apply]
  by_cases hpq : p = q
  · subst hpq
    simp only [if_true, List.mem_cons, true_and, eq_comm (a := e)]
  · simp only [hpq, if_false, false_and, false_or]

theorem possible_addFile :
    (s.addFile q).Possible p i ↔ (p = q ∧ s.next = i) ∨ s.Possible p i := by
  have hset : (s.addFile q).Possible p i ↔ (s.setEntry q (some (.file s.next))).Possible p i :=
    Iff.rfl
  rw [hset, possible_setEntry, Option.some.injEq, Entry.file.injEq]

theorem Possible.of_settle {dir : Path} (h : (s.settle dir).Possible p i) : s.Possible p i := by
  unfold Possible settle at h
  dsimp only at h
  split at h
  · exact .of_entry (List.mem_singleton.mp h).symm
  · exact h

/-- After a loss of power a name is something that it was. -/
theorem Possible.of_lose {keep : Nat → Nat → Bool} {back : Path → Nat}
    (h : (s.lose keep back).Possible p i) : s.Possible p i := by
  have hentry : some (.file i) = revive (s.entries p) (s.older p) (back p) :=
    List.mem_singleton.mp h
  unfold Possible
  rw [hentry]
  exact revive_mem _ _ _

variable (s)

theorem files_setFile (j : Nat) (f : File) (i : Nat) :
    (s.setFile j f).files i = if i = j then f else s.files i :=
  Function.update_apply ..

theorem files_addFile (q : Path) (i : Nat) :
    (s.addFile q).files i = if i = s.next then .empty else s.files i :=
  Function.update_apply ..

end Disk

/-! ## Tidy disks -/

variable {dir : Path} {m : FileManifest} {s : Disk}

/-- Numbers are handed out once, and no name of the `.part` file shares its file with the
    temporary bitmap file, whatever a loss of power makes of the names. -/
structure Disk.Tidy (dir : Path) (m : FileManifest) (s : Disk) : Prop where
  bound : ∀ p i, s.Possible p i → i < s.next
  apart : ∀ p ∈ partPaths dir m, ∀ i, s.Possible p i → ¬ s.Possible (tmpPath dir m) i

namespace Disk.Tidy

variable (h : s.Tidy dir m)

include h

theorem setFile (j : Nat) (f : File) : (s.setFile j f).Tidy dir m := ⟨h.bound, h.apart⟩

/-- Names that go back to what they were. -/
theorem of_possible {s' : Disk} (hnext : s'.next = s.next)
    (hback : ∀ p i, s'.Possible p i → s.Possible p i) : s'.Tidy dir m where
  bound := fun p i hi => hnext ▸ h.bound p i (hback p i hi)
  apart := fun p hp i hi htmp => h.apart p hp i (hback p i hi) (hback _ i htmp)

theorem lose (keep : Nat → Nat → Bool) (back : Path → Nat) : (s.lose keep back).Tidy dir m :=
  h.of_possible rfl fun _ _ hi => hi.of_lose

theorem settle (q : Path) : (s.settle q).Tidy dir m :=
  h.of_possible rfl fun _ _ hi => hi.of_settle

theorem addFile (q : Path) : (s.addFile q).Tidy dir m where
  bound := by
    intro p i hi
    show i < s.next + 1
    rcases possible_addFile.mp hi with ⟨-, rfl⟩ | hi
    · omega
    · have := h.bound p i hi
      omega
  apart := by
    intro p hp i hi htmp
    have hne := partPath_ne_tmpPath hp
    rcases possible_addFile.mp hi with ⟨rfl, rfl⟩ | hi
    · rcases possible_addFile.mp htmp with ⟨heq, -⟩ | htmp
      · exact hne heq.symm
      · exact absurd (h.bound _ _ htmp) (lt_irrefl _)
    · rcases possible_addFile.mp htmp with ⟨-, rfl⟩ | htmp
      · exact absurd (h.bound _ _ hi) (lt_irrefl _)
      · exact h.apart p hp i hi htmp

theorem remove (q : Path) : (s.setEntry q none).Tidy dir m :=
  h.of_possible rfl fun _ _ hi => (possible_setEntry.mp hi).resolve_left fun hnew => nomatch hnew.2

/-- A new name for a file; a name of the `.part` file only if the temporary bitmap file
    does not share it. -/
theorem link {q : Path} {k : Nat} (hq : q ≠ tmpPath dir m) (hk : k < s.next)
    (htmp : q ∈ partPaths dir m → ¬ s.Possible (tmpPath dir m) k) :
    (s.setEntry q (some (.file k))).Tidy dir m where
  bound := by
    intro p i hi
    rcases possible_setEntry.mp hi with ⟨-, heq⟩ | hi
    · obtain rfl : k = i := Entry.file.inj (Option.some.inj heq)
      exact hk
    · exact h.bound p i hi
  apart := by
    intro p hp i hi hsame
    replace hsame : s.Possible (tmpPath dir m) i :=
      (possible_setEntry.mp hsame).resolve_left fun hnew => hq hnew.1.symm
    rcases possible_setEntry.mp hi with ⟨rfl, heq⟩ | hi
    · obtain rfl : k = i := Entry.file.inj (Option.some.inj heq)
      exact htmp hp hsame
    · exact h.apart p hp i hi hsame

end Disk.Tidy

/-! ## The `.part` file -/

/-- On a tidy disk, `p` is the name of file `i`, which reads as `content`. -/
structure Part (dir : Path) (m : FileManifest) (p : Path) (i : Nat) (content : List UInt8)
    (s : Disk) : Prop extends s.Tidy dir m where
  entry : s.entries p = some (.file i)
  view : (s.files i).view = content

variable {p : Path} {i : Nat} {content : List UInt8}

namespace Part

variable (h : Part dir m p i content s)

include h

theorem lt_next : i < s.next := h.bound p i (.of_entry h.entry)

theorem setFile {j : Nat} (hj : j ≠ i) (f : File) : Part dir m p i content (s.setFile j f) where
  toTidy := h.toTidy.setFile j f
  entry := h.entry
  view := by
    rw [Disk.files_setFile, if_neg (fun heq => hj heq.symm)]
    exact h.view

theorem settle (q : Path) : Part dir m p i content (s.settle q) :=
  ⟨h.toTidy.settle q, h.entry, h.view⟩

theorem addFile {q : Path} (hq : s.entries q = none) : Part dir m p i content (s.addFile q) where
  toTidy := h.toTidy.addFile q
  entry := by
    have hne : p ≠ q := by
      rintro rfl
      rw [h.entry] at hq
      cases hq
    rw [Disk.entries_addFile, if_neg hne]
    exact h.entry
  view := by
    have hlt := h.lt_next
    rw [Disk.files_addFile, if_neg (by omega)]
    exact h.view

theorem setEntry {q : Path} {e : Option Entry} (hq : p ≠ q) (htidy : (s.setEntry q e).Tidy dir m) :
    Part dir m p i content (s.setEntry q e) where
  toTidy := htidy
  entry := by
    rw [Disk.entries_setEntry, if_neg hq]
    exact h.entry
  view := h.view

end Part

/-! ## Calls that only read -/

section Reads

variable {A : Disk → Prop}

theorem read_spec {α : Type} {f : Disk → Except Error (α × Disk)}
    (hf : ∀ s a t, f s = .ok (a, t) → t = s) :
    Prog.Spec A (.atomic f) (fun a s => A s ∧ f s = .ok (a, s)) A := by
  refine .atomic (fun _ h => h) ?_
  intro s a t hs hok
  obtain rfl := hf s a t hok
  exact ⟨⟨hs, hok⟩, hs⟩

variable (path : Path)

theorem openFile_spec :
    Prog.Spec A (openFile path) (fun i s => A s ∧ s.entries path = some (.file i)) A := by
  refine (read_spec ?_).post ?_
  · intro s i t hok
    split at hok
    · exact (Prod.mk.inj (Except.ok.inj hok)).2.symm
    · cases hok
    · cases hok
  · rintro i s ⟨hs, hok⟩
    split at hok
    next hentry =>
      cases hok
      exact ⟨hs, hentry⟩
    · cases hok
    · cases hok

theorem fileLen_spec (i : Nat) :
    Prog.Spec A (fileLen i) (fun n s => A s ∧ n = (s.files i).view.length) A := by
  refine (read_spec ?_).post ?_
  · intro s n t hok
    exact (Prod.mk.inj (Except.ok.inj hok)).2.symm
  · rintro n s ⟨hs, hok⟩
    exact ⟨hs, (Prod.mk.inj (Except.ok.inj hok)).1.symm⟩

theorem seek_spec : Prog.Spec A seek (fun _ => A) A :=
  .atomic (fun _ h => h) fun _ _ _ hs hok =>
    (Prod.mk.inj (Except.ok.inj hok)).2 ▸ ⟨hs, hs⟩

theorem touchDir_spec : Prog.Spec A touchDir (fun _ => A) A :=
  .atomic (fun _ h => h) fun _ _ _ hs hok =>
    (Prod.mk.inj (Except.ok.inj hok)).2 ▸ ⟨hs, hs⟩

theorem readExact_spec (i offset len : Nat) : Prog.Spec A (readExact i offset len)
      (fun data s => A s ∧ data = slice (s.files i).view offset len) A := by
  refine (read_spec ?_).post ?_
  · intro s data t hok
    simp only at hok
    split at hok
    · exact (Prod.mk.inj (Except.ok.inj hok)).2.symm
    · cases hok
  · rintro data s ⟨hs, hok⟩
    simp only at hok
    split at hok
    · exact ⟨hs, (Prod.mk.inj (Except.ok.inj hok)).1.symm⟩
    · cases hok

theorem readToEnd_spec (i : Nat) (limit : Option Nat) :
    Prog.Spec A (readToEnd i limit) (fun _ => A) A :=
  .atomic (fun _ h => h) fun _ _ _ hs hok =>
    (Prod.mk.inj (Except.ok.inj hok)).2 ▸ ⟨hs, hs⟩

theorem symlinkMetadata_spec : Prog.Spec A (symlinkMetadata path) (fun _ => A) A := by
  refine (read_spec ?_).post fun _ _ h => h.1
  intro s _ t hok
  split at hok
  · exact (Prod.mk.inj (Except.ok.inj hok)).2.symm
  · cases hok

theorem pathExists_spec : Prog.Spec A (pathExists path) (fun _ => A) A := by
  refine .bind (R := fun _ => A) ((symlinkMetadata_spec path).attempt fun _ _ h => h) ?_
  intro found
  cases found with
  | ok => exact .pure fun _ h => h
  | error => exact .pure fun _ h => h

section Sync

variable (hA : ∀ s dir, A s → A (s.settle dir)) (platform : Platform)

include hA

theorem syncDirectory_spec (dir : Path) : Prog.Spec A (syncDirectory dir) (fun _ => A) A :=
  .atomic (fun _ h => h) fun s _ _ hs hok =>
    (Prod.mk.inj (Except.ok.inj hok)).2 ▸ ⟨hA s _ hs, hA s _ hs⟩

theorem secureSync_spec (dir : Path) : Prog.Spec A (secureSync platform dir) (fun _ => A) A := by
  cases platform with
  | unix => exact syncDirectory_spec hA dir
  | windows => exact .pure fun _ h => h

theorem syncParentDir_spec : Prog.Spec A (syncParentDir platform path) (fun _ => A) A := by
  unfold syncParentDir
  split
  · exact secureSync_spec hA platform _
  · exact .pure fun _ h => h

end Sync

theorem openExistingPart_spec : Prog.Spec A (openExistingPart path)
      (fun found s => A s ∧ ∀ i, found = some i → s.entries path = some (.file i)) A := by
  refine .bind (R := fun r s => A s ∧ ∀ i, r = .ok i → s.entries path = some (.file i))
    (.attempt ((openFile_spec path).post ?_) ?_) ?_
  · rintro i s ⟨hs, hentry⟩
    refine ⟨hs, ?_⟩
    rintro j heq
    rw [← Except.ok.inj heq]
    exact hentry
  · intro err s hs
    exact ⟨hs, by simp⟩
  · intro found
    cases found with
    | ok i =>
      refine .pure ?_
      rintro s ⟨hs, hentry⟩
      refine ⟨hs, ?_⟩
      intro j heq
      exact hentry j (by rw [Option.some.inj heq])
    | error err =>
      dsimp only
      split
      · exact .pure fun s hs => ⟨hs.1, by simp⟩
      · exact .throw fun s hs => hs.1

theorem chunkCount_bitmapOfBytes (chunks : UInt32) (bytes : List UInt8) :
    (bitmapOfBytes chunks bytes).1.chunkCount = chunks := by
  unfold bitmapOfBytes
  split
  next hok =>
    exact ChunkBitmap.fromBytes_ok hok
  · rfl

/-- Whatever the `.bitmap` file is, the bitmap that is loaded has the right size. -/
theorem load_spec (directory : DownloadDirectory) (path : Path) (chunks : UInt32) :
    Prog.Spec A (directory.load path chunks) (fun r s => A s ∧ r.1.chunkCount = chunks) A := by
  have herror : ∀ err : Error, Prog.Spec A
      (if isNotFound err then pure (ChunkBitmap.new chunks, false) else Prog.throw err)
      (fun r s => A s ∧ r.1.chunkCount = chunks) A := by
    intro err
    split
    · exact .pure fun s hs => ⟨hs, rfl⟩
    · exact .throw fun _ hs => hs
  unfold DownloadDirectory.load
  split
  · refine .bind (R := fun _ => A)
      (.attempt ((openFile_spec path).post fun _ _ h => h.1) fun _ _ h => h) ?_
    intro found
    cases found with
    | ok i =>
      refine .bind (R := fun _ => A) (readToEnd_spec i _) ?_
      intro bytes
      exact .pure fun s hs => ⟨hs, chunkCount_bitmapOfBytes chunks bytes⟩
    | error err => exact herror err
  · refine .bind (R := fun _ => A) (.attempt (F := A) ?_ fun _ _ h => h) ?_
    · refine .bind (R := fun _ => A) ((openFile_spec path).post fun _ _ h => h.1) ?_
      exact fun i => readToEnd_spec i none
    · intro bytes
      cases bytes with
      | ok bytes => exact .pure fun s hs => ⟨hs, chunkCount_bitmapOfBytes chunks bytes⟩
      | error err => exact herror err

end Reads

/-! ## Writing to a file -/

section Writes

variable {A : Disk → Prop} {j : Nat} (hA : ∀ s f, A s → A (s.setFile j f))

include hA

theorem writeAll_spec (offset : Nat) (data : List UInt8) :
    Prog.Spec A (writeAll j offset data) (fun _ => A) A :=
  .gradual (fun s _ hs _ => hA s _ hs) (fun s _ hs _ => hA s _ hs) fun s hs => hA s _ hs

theorem sync_spec : Prog.Spec A (sync j) (fun _ => A) A :=
  .atomic (fun _ h => h) fun s _ _ hs hok =>
    (Prod.mk.inj (Except.ok.inj hok)).2 ▸ ⟨hA s _ hs, hA s _ hs⟩

end Writes

/-! ## Saving the bitmap -/

/-- File `j`, under the name `src`, is about to replace the `.bitmap` file: it is not the
    `.part` file. -/
structure Replacing (dir : Path) (m : FileManifest) (p : Path) (i : Nat) (content : List UInt8)
    (src : Path) (j : Nat) (s : Disk) : Prop extends Part dir m p i content s where
  ne : j ≠ i
  source : s.entries src = some (.file j)

namespace Replacing

variable {src : Path} {j : Nat} (h : Replacing dir m p i content src j s)

include h

theorem setFile (f : File) : Replacing dir m p i content src j (s.setFile j f) :=
  ⟨h.toPart.setFile h.ne f, h.ne, h.source⟩

theorem ne_source : p ≠ src := by
  rintro rfl
  have hsame := h.entry.symm.trans h.source
  exact h.ne (Entry.file.inj (Option.some.inj hsame)).symm

/-- The file after the move. -/
theorem move {path : Path} (hp : p ∈ partPaths dir m) (hpath : path ∈ statePaths dir m) :
    Part dir m p i content ((s.setEntry src none).setEntry path (some (.file j))) := by
  have hremoved := h.toPart.setEntry h.ne_source (h.toTidy.remove src)
  refine hremoved.setEntry (partPath_ne_statePath hp hpath)
    (hremoved.toTidy.link (statePath_ne_tmpPath hpath) ?_ ?_)
  · exact h.bound src j (.of_entry h.source)
  · intro hmem
    exact absurd rfl (partPath_ne_statePath hmem hpath)

omit h

theorem of_addFile (h : Part dir m p i content s) (hnone : s.entries src = none) :
    Replacing dir m p i content src s.next (s.addFile src) where
  toPart := h.addFile hnone
  ne := by
    have hlt := h.lt_next
    omega
  source := by rw [Disk.entries_addFile, if_pos rfl]

theorem rename_spec {path : Path} (hp : p ∈ partPaths dir m) (hpath : path ∈ statePaths dir m) :
    Prog.Spec (Replacing dir m p i content src j) (rename src path)
      (fun _ s => Part dir m p i content s ∧ s.entries path ≠ none) (Part dir m p i content) := by
  refine .atomic (fun _ h => h.toPart) ?_
  intro s _ t hs hok
  rw [hs.source] at hok
  split at hok
  · cases hok
  · cases hok
  rename_i hentry _
  rw [← Option.some.inj hentry] at hok
  cases hok
  refine ⟨⟨hs.move hp hpath, ?_⟩, hs.move hp hpath⟩
  rw [Disk.entries_setEntry, if_pos rfl]
  simp

end Replacing

/-- Writing and syncing the new bitmap, and putting it in place. -/
theorem replace_spec {path src : Path} {j : Nat} (bytes : List UInt8)
    {replace after : DiskProg Unit}
    (hreplace : Prog.Spec (Replacing dir m p i content src j) replace
      (fun _ s => Part dir m p i content s ∧ s.entries path ≠ none) (Part dir m p i content))
    (hafter : ∀ A : Disk → Prop, (∀ s dir, A s → A (s.settle dir)) →
      Prog.Spec A after (fun _ => A) A) :
    Prog.Spec (Replacing dir m p i content src j)
      (do writeAll j 0 bytes; sync j; replace; after)
      (fun _ s => Part dir m p i content s ∧ s.entries path ≠ none) (Part dir m p i content) := by
  have hset : ∀ s f, Replacing dir m p i content src j s →
      Replacing dir m p i content src j (s.setFile j f) := fun _ f h => h.setFile f
  refine .bind ((writeAll_spec hset 0 bytes).exits (fun _ h => h.toPart)) fun _ => ?_
  refine .bind ((sync_spec hset).exits (fun _ h => h.toPart)) fun _ => ?_
  refine .bind hreplace fun _ => ?_
  exact (hafter _ fun _ dir h => ⟨h.1.settle dir, h.2⟩).exits (fun _ h => h.1)

variable {path : Path} (hp : p ∈ partPaths dir m) (hpath : path ∈ statePaths dir m)

include hp hpath

variable (platform : Platform)

/-- `replace_bitmap_file`: on Windows the old file is removed first. -/
theorem replaceBitmapFile_spec {src : Path} {j : Nat} (hsrc : src ≠ path) :
    Prog.Spec (Replacing dir m p i content src j) (replaceBitmapFile platform src path)
      (fun _ s => Part dir m p i content s ∧ s.entries path ≠ none) (Part dir m p i content) := by
  cases platform with
  | unix => exact Replacing.rename_spec hp hpath
  | windows =>
    have hremove : Prog.Spec (Replacing dir m p i content src j) (removeFile path)
        (fun _ => Replacing dir m p i content src j) (Part dir m p i content) := by
      refine .atomic (fun _ h => h.toPart) ?_
      intro s _ t hs hok
      split at hok
      · cases hok
        have hpart := hs.toPart.setEntry (partPath_ne_statePath hp hpath) (hs.toTidy.remove path)
        refine ⟨⟨hpart, hs.ne, ?_⟩, hpart⟩
        rw [Disk.entries_setEntry, if_neg hsrc]
        exact hs.source
      · cases hok
      · cases hok
    refine .bind (R := fun _ => Replacing dir m p i content src j)
      ((pathExists_spec path).exits (fun _ h => h.toPart)) ?_
    intro found
    cases found with
    | true => exact .bind hremove fun _ => Replacing.rename_spec hp hpath
    | false => exact Replacing.rename_spec hp hpath

/-- Saving the bitmap leaves the `.part` file alone.  Without a capability the state
    path is the one whose temporary name the disk keeps apart. -/
theorem save_spec (directory : DownloadDirectory) (bitmap : ChunkBitmap) (random : Nat)
    (hstate : directory.capability = false → path = statePathFor dir m) :
    Prog.Spec (Part dir m p i content) (directory.save platform path bitmap random)
      (fun _ s => Part dir m p i content s ∧ s.entries path ≠ none) (Part dir m p i content) := by
  unfold DownloadDirectory.save
  split
  · refine .bind (R := fun j => Replacing dir m p i content
      (Path.join directory.path (randomTmpName random)) j) ?_ ?_
    · refine .atomic (fun _ h => h) ?_
      intro s j t hs hok
      split at hok
      · cases hok
      next hnone =>
        cases hok
        exact ⟨.of_addFile hs hnone, hs.addFile hnone⟩
    · intro j
      exact replace_spec _ (Replacing.rename_spec hp hpath)
        fun _ hA => secureSync_spec hA platform _
  next hcap =>
    have hpath' := hstate (by simpa using hcap)
    have htmp : bitmapTmpPath path = tmpPath dir m := by rw [hpath', tmpPath]
    unfold saveBitmap
    rw [htmp]
    refine .bind (R := fun j => Replacing dir m p i content (tmpPath dir m) j) ?_ ?_
    · refine .atomic (fun _ h => h) ?_
      intro s j t hs hok
      split at hok
      next k hentry =>
        obtain ⟨rfl, rfl⟩ := Prod.mk.inj (Except.ok.inj hok)
        have hne : k ≠ i := by
          rintro rfl
          exact hs.apart p hp k (.of_entry hs.entry) (.of_entry hentry)
        exact ⟨⟨hs.setFile hne _, hne, hentry⟩, hs.setFile hne _⟩
      · cases hok
      next hnone =>
        cases hok
        exact ⟨.of_addFile hs hnone, hs.addFile hnone⟩
    · intro j
      exact replace_spec _
        (replaceBitmapFile_spec hp hpath platform (statePath_ne_tmpPath hpath).symm)
        fun _ hA => syncParentDir_spec _ hA platform

end P2pFile.Storage
