/-
  P2pFile.Storage.ResumeSound

  A published file is the file of the manifest.

  While a download is open, its `.part` file has the full length, and every chunk that
  is set in the bitmap in memory verifies in what the file reads as.  Opening
  establishes this from any disk; writing a chunk keeps it; a crash ends the download.

  `finalize` syncs the file before it is published and its directory afterwards, so that
  on Unix a loss of power cannot undo the publication.
-/

import P2pFile.Lib.Machine
import P2pFile.Storage.OpenSpecs

namespace P2pFile.Storage

open Lib Protocol Transfer

variable {c : Crypto} {dir : Path} {m : FileManifest} {p : Path} {i : Nat} {content : List UInt8}

/-! ## Methods -/

section Methods

variable {d : PartialDownload}

/-- The download is `d`, and its `.part` file `i` reads as `content`. -/
def At (dir : Path) (m : FileManifest) (d : PartialDownload) (i : Nat) (content : List UInt8)
    (x : Disk × PartialDownload) : Prop :=
  x.2 = d ∧ Part dir m d.tempPath i content x.1

/-- A method that starts with its own download. -/
theorem self_bind {α : Type} {P E C : Disk × PartialDownload → Prop}
    {f : PartialDownload → DownloadProg α} {Q : α → Disk × PartialDownload → Prop}
    (hP : ∀ x, P x → x.2 = d) (hf : Prog.Triple P (f d) Q E C) :
    Prog.Triple P (PartialDownload.self >>= f) Q E C := by
  intro x plan hx
  obtain rfl := hP x hx
  exact hf x plan hx

variable (hd : d.Fixed c dir m)

include hd

variable (hfile : d.file = some i)

include hfile

/-- A checkpoint leaves the file alone and the bitmap in place.  If it stops, the download
    is as before. -/
theorem checkpoint_spec (platform : Platform) (moment : Moment) :
    Prog.Spec (At dir m d i content) (PartialDownload.checkpoint platform moment)
      (fun _ x => At dir m (d.checkpointed d.writtenBitmap moment.later) i content x ∧
        x.1.entries d.statePath ≠ none) (At dir m d i content) := by
  refine self_bind (fun _ h => h.1) ?_
  rw [hfile]
  refine .bind (R := fun _ => At dir m d i content) (.onFst fun b => ?_) fun _ => ?_
  · refine .of_imp (φ := b = d) ?_ fun _ h => h.1
    rintro rfl
    exact (sync_part_spec (F := fun _ => True)).conseq (fun _ h => ⟨h.2, trivial⟩)
      (fun _ _ h => ⟨rfl, h.1⟩) (fun _ h => ⟨rfl, h⟩)
  refine .bind (R := fun _ x => At dir m d i content x ∧
    x.1.entries d.statePath ≠ none) (.onFst fun b => ?_) fun _ => ?_
  · refine .of_imp (φ := b = d) ?_ fun _ h => h.1
    rintro rfl
    exact (save_spec hd.staged.part hd.staged.state platform b.directory b.writtenBitmap
      moment.random hd.staged.cli).conseq (fun _ h => h.2) (fun _ _ h => ⟨⟨rfl, h.1⟩, h.2⟩)
      (fun _ h => ⟨rfl, h⟩)
  · refine .modify ?_
    rintro ⟨disk, b⟩ ⟨⟨rfl, hpart⟩, hstate⟩
    exact ⟨⟨rfl, hpart⟩, hstate⟩

variable (hholds : Holds c m content d.writtenBitmap)

include hholds

/-- `At` with the chunks is the invariant. -/
theorem At.open {x : Disk × PartialDownload} (h : At dir m d i content x) : Open c dir m x := by
  obtain ⟨rfl, hpart⟩ := h
  exact ⟨hd, i, hfile, content, hpart, hholds⟩

theorem checkpoint_open_spec (platform : Platform) (moment : Moment) :
    Prog.Spec (At dir m d i content) (PartialDownload.checkpoint platform moment)
      (fun _ => Open c dir m) (Open c dir m) := by
  refine (checkpoint_spec hd hfile platform moment).conseq (fun _ h => h) ?_
    (fun _ h => h.open hd hfile hholds)
  rintro _ x ⟨hx, -⟩
  have hd' : (d.checkpointed d.writtenBitmap moment.later).Fixed c dir m := { hd with }
  exact At.open hd' hfile hholds hx

omit hholds

omit hfile

omit hd

/-- A triple from the invariant, with the parts of the invariant named. -/
theorem of_open {α : Type} {p : DownloadProg α} {Q : α → Disk × PartialDownload → Prop}
    {E C : Disk × PartialDownload → Prop}
    (h : ∀ d i content, d.Fixed c dir m → d.file = some i → Holds c m content d.writtenBitmap →
      Prog.Triple (At dir m d i content) p Q E C) : Prog.Triple (Open c dir m) p Q E C := by
  rintro ⟨disk, d⟩ plan ⟨hd, i, hfile, content, hpart, hholds⟩
  exact h d i content hd hfile hholds (disk, d) plan ⟨rfl, hpart⟩

theorem checkpointIfDue_spec (hd : d.Fixed c dir m) (hfile : d.file = some i)
    (hholds : Holds c m content d.writtenBitmap) (platform : Platform) (moment : Moment) :
    Prog.Spec (At dir m d i content) (PartialDownload.checkpointIfDue platform moment)
      (fun _ => Open c dir m) (Open c dir m) := by
  refine self_bind (fun _ h => h.1) ?_
  split
  · exact checkpoint_open_spec hd hfile hholds platform moment
  · exact .pure fun _ h => h.open hd hfile hholds

theorem Part.writeAt {s : Disk} (h : Part dir m p i content s) (offset : Nat) (data : List UInt8) :
    Part dir m p i ((putAll offset data).foldl Write.apply content)
      (s.setFile i ((s.files i).writeAt offset data)) := by
  refine ⟨h.toTidy.setFile _ _, h.entry, ?_⟩
  rw [Disk.files_setFile, if_pos rfl, File.view_writeAt, h.view]

/-- Whatever becomes of the calls of `write_chunk`, the invariant holds afterwards. -/
theorem writeChunk_spec (hinj : CollisionFree c m) (platform : Platform) (index : UInt32)
    (data : List UInt8) (moment : Moment) :
    Prog.Spec (Open c dir m) (PartialDownload.writeChunk platform c index data moment)
      (fun _ => Open c dir m) (Open c dir m) := by
  refine of_open ?_
  intro d i content hd hfile hholds
  have hopen : ∀ x, At dir m d i content x → Open c dir m x := fun _ h => h.open hd hfile hholds
  refine self_bind (fun _ h => h.1) ?_
  split
  next hver =>
    rw [hd.manifest] at hver ⊢
    split
    · exact .throw hopen
    rename_i offset hoff
    rw [hfile]
    refine .bind (R := fun _ => At dir m d i content) (.onFst fun b => ?_) fun _ => ?_
    · exact seek_spec.exits fun _ => hopen _
    refine .bind (R := fun _ => At dir m d i
      ((putAll offset.toNat data).foldl Write.apply content)) (.onFst fun b => ?_) fun _ => ?_
    · have hpart : ∀ s k, At dir m d i content (s, b) → Open c dir m
          (s.setFile i ((s.files i).writeAt offset.toNat (data.take k)), b) := by
        rintro s k ⟨rfl, hpart⟩
        exact ⟨hd, i, hfile, _, hpart.writeAt _ _, hholds.write hd.valid hinj hver hoff k⟩
      refine .gradual (fun s k hs _ => hpart s k hs) (fun s k hs _ => hpart s k hs) ?_
      rintro s ⟨rfl, hs⟩
      rw [List.take_length]
      exact ⟨rfl, hs.writeAt _ _⟩
    have hsame := hholds.write hd.valid hinj hver hoff data.length
    rw [List.take_length] at hsame
    refine .bind (R := fun bitmap x => At dir m d i
      ((putAll offset.toNat data).foldl Write.apply content) x ∧
      d.writtenBitmap.set index = .ok bitmap)
      (.ofExcept (fun _ h x hx => ⟨hx, h⟩) fun x hx => hx.open hd hfile hsame) ?_
    intro bitmap
    refine .of_imp (φ := d.writtenBitmap.set index = .ok bitmap) ?_ fun _ h => h.2
    intro hset
    have hd' : (d.chunkWritten bitmap data.length).Fixed c dir m := { hd with }
    refine .bind (R := fun _ => At dir m (d.chunkWritten bitmap data.length) i
      ((putAll offset.toNat data).foldl Write.apply content)) (.modify ?_) fun _ => ?_
    · rintro ⟨disk, b⟩ ⟨⟨rfl, hpart⟩, -⟩
      exact ⟨rfl, hpart⟩
    · exact checkpointIfDue_spec hd' hfile
        (hholds.writeAll hd.valid hinj hver hoff hset) platform moment
  · exact .throw hopen

end Methods

/-! ## Publication -/

section Publication

variable {state : Path}

/-- The `.part` file is synced, and the `.bitmap` file is there. -/
structure Ready (dir : Path) (m : FileManifest) (p : Path) (i : Nat) (content : List UInt8)
    (state : Path) (s : Disk) : Prop extends Part dir m p i content s where
  state : s.entries state ≠ none
  pending : (s.files i).pending = []

/-- The file is published under `target`, which is not the name of the `.bitmap` file. -/
structure Linked (dir : Path) (m : FileManifest) (i : Nat) (content : List UInt8) (state : Path)
    (target : Path) (s : Disk) : Prop extends s.Tidy dir m where
  entry : s.entries target = some (.file i)
  ne : target ≠ state
  view : (s.files i).view = content
  pending : (s.files i).pending = []

theorem Linked.remove {target : Path} {s : Disk} (h : Linked dir m i content state target s)
    {q : Path} (hq : target ≠ q) : Linked dir m i content state target (s.setEntry q none) where
  __ := h
  toTidy := h.toTidy.remove q
  entry := by
    rw [Disk.entries_setEntry, if_neg hq]
    exact h.entry

theorem Linked.settle {target : Path} {s : Disk} (h : Linked dir m i content state target s)
    (q : Path) : Linked dir m i content state target (s.settle q) :=
  { h with toTidy := h.toTidy.settle q }

section

variable {A : Disk → Prop} {q : Path} (hA : ∀ s, A s → A (s.setEntry q none))

include hA

theorem removeFile_spec : Prog.Spec A (removeFile q) (fun _ => A) A := by
  refine .atomic (fun _ h => h) ?_
  intro s _ t hs hok
  split at hok
  · cases hok
    exact ⟨hA s hs, hA s hs⟩
  · cases hok
  · cases hok

theorem removeFileIfExists_spec : Prog.Spec A (removeFileIfExists q) (fun _ => A) A := by
  refine .bind (R := fun _ => A) ((removeFile_spec hA).attempt fun _ _ h => h) ?_
  intro removed
  cases removed with
  | ok => exact .pure fun _ h => h
  | error err =>
    dsimp only
    split
    · exact .pure fun _ h => h
    · exact .throw fun _ h => h

end

/-- A link takes a name that was free: neither the `.part` nor the `.bitmap` file. -/
theorem hardLink_spec (hp : p ∈ partPaths dir m) {candidate : Path}
    (hcand : candidate ≠ tmpPath dir m) :
    Prog.Triple (Ready dir m p i content state) (hardLink p candidate)
      (fun _ s => Linked dir m i content state candidate s ∧ candidate ≠ p)
      (Ready dir m p i content state) (Disk.Tidy dir m) := by
  refine .atomic (fun _ h => h) (fun _ h => h.toTidy) ?_
  intro s _ t hs hok
  rw [hs.entry] at hok
  split at hok
  · cases hok
  · cases hok
  · cases hok
  rename_i k heq hnone
  rw [← Entry.file.inj (Option.some.inj heq)] at hok
  cases hok
  have hne : ∀ q, s.entries q ≠ none → candidate ≠ q := by
    rintro q hq rfl
    exact hq hnone
  have htidy := hs.toTidy.link hcand hs.lt_next fun _ =>
    hs.apart p hp i (.of_entry hs.entry)
  refine ⟨⟨⟨htidy, ?_, hne _ hs.state, hs.view, hs.pending⟩, hne _ (by simp [hs.entry])⟩, htidy⟩
  rw [Disk.entries_setEntry, if_pos rfl]

theorem publishLoop_spec (hp : p ∈ partPaths dir m) (maxSuffix : Nat) (candidates : List Path)
    (hcands : ∀ q ∈ candidates, q ≠ tmpPath dir m) :
    Prog.Spec (Ready dir m p i content state) (publishLoop p maxSuffix candidates)
      (fun target => Linked dir m i content state target) (Disk.Tidy dir m) := by
  induction candidates with
  | nil => exact .throw fun _ h => h.toTidy
  | cons candidate rest ih =>
    have hrest := ih fun q hq => hcands q (.tail _ hq)
    refine Prog.Triple.attempt_bind (hardLink_spec hp (hcands candidate (.head _))) ?_ ?_
    · intro _
      refine .of_imp (φ := candidate ≠ p) (fun hne => ?_) fun _ h => h.2
      refine .bind ((removeFile_spec fun _ h => h.remove hne).conseq (fun _ h => h.1)
        (fun _ _ h => h) (fun _ h => h.toTidy)) fun _ => ?_
      exact .pure fun _ h => h
    · intro err
      dsimp only
      split
      · exact hrest
      refine .bind (R := fun _ => Ready dir m p i content state)
        (.attempt (Prog.Triple.exits (symlinkMetadata_spec candidate) (fun _ h => h)
          fun _ h => h.toTidy) fun _ _ h => h) ?_
      intro found
      cases found with
      | ok => exact hrest
      | error metadataErr =>
        dsimp only
        split
        · exact .throw fun _ h => h.toTidy
        · exact .throw fun _ h => h.toTidy

/-- The file under `path` is synced, and it is the file that the manifest describes. -/
def Published (c : Crypto) (m : FileManifest) (path : Path) (s : Disk) : Prop :=
  ∃ i, s.entries path = some (.file i) ∧ (s.files i).pending = [] ∧
    (s.files i).view.length = m.totalLen.toNat ∧
    ∀ index, index < m.count → ∃ offset len, m.chunkRange index = some (offset, len) ∧
      m.chunks[index.toNat]? = some (c.hash (slice (s.files i).view offset.toNat len.toNat))

/-- A content that holds a complete bitmap has every chunk. -/
theorem Linked.published {bitmap : ChunkBitmap} {target : Path} {s : Disk}
    (h : Linked dir m i content state target s) (hvalid : m.Valid c)
    (hholds : Holds c m content bitmap) (hcomplete : bitmap.isComplete = true) :
    Published c m target s := by
  refine ⟨i, h.entry, h.pending, ?_, ?_⟩
  · rw [h.view, hholds.length]
  · intro index hindex
    rw [← hholds.count] at hindex
    have hset := ChunkBitmap.isComplete_iff.mp hcomplete index hindex
    obtain ⟨offset, len, hrange, hver⟩ := hholds.chunks index hset
    obtain ⟨-, -, -, -, hhash⟩ := hvalid.verifyChunk_iff.mp hver
    refine ⟨offset, len, hrange, ?_⟩
    rw [h.view]
    exact hhash

/-- On Unix the name `path` is what it is for good.  The empty path has no directory. -/
def Lasting (platform : Platform) (path : Path) (s : Disk) : Prop :=
  platform = .unix → path ≠ [] → s.older path = []

theorem Lasting.settle {platform : Platform} {path : Path} {s : Disk} (h : Lasting platform path s)
    (q : Path) : Lasting platform path (s.settle q) := by
  intro hunix hne
  unfold Disk.settle
  dsimp only
  rw [h hunix hne, ite_self]

theorem Lasting.remove {platform : Platform} {path q : Path} {s : Disk}
    (h : Lasting platform path s) (hq : path ≠ q) : Lasting platform path (s.setEntry q none) := by
  intro hunix hne
  unfold Disk.setEntry
  dsimp only
  rw [Function.update_apply, if_neg hq, h hunix hne]

/-- The sync of its directory settles a name. -/
theorem syncParentDir_lasting {A : Disk → Prop} (hA : ∀ s dir, A s → A (s.settle dir))
    (platform : Platform) (path : Path) : Prog.Spec A (syncParentDir platform path)
      (fun _ s => A s ∧ Lasting platform path s) A := by
  unfold syncParentDir Path.parent
  split
  next parent hparent =>
    cases platform with
    | windows => exact .pure fun s hs => ⟨hs, fun hunix => nomatch hunix⟩
    | unix =>
      have hsync : Prog.Spec A (syncDirectory parent)
          (fun _ s => A s ∧ Lasting .unix path s) A := by
        refine .atomic (fun _ h => h) ?_
        rintro s _ t hs hok
        cases hok
        exact ⟨⟨hA s _ hs, fun _ _ => if_pos hparent⟩, hA s _ hs⟩
      exact hsync
  next hparent =>
    refine .pure fun s hs => ⟨hs, fun _ hne => ?_⟩
    rw [if_neg hne] at hparent
    cases hparent

/-- A published file whose name is settled is not lost. -/
theorem Published.lose {path : Path} {s : Disk} (h : Published c m path s)
    (hsettled : s.older path = []) (keep : Nat → Nat → Bool) (back : Path → Nat) :
    Published c m path (s.lose keep back) := by
  obtain ⟨i, hentry, hpend, hrest⟩ := h
  have hsame : (s.files i).lose (keep i) = s.files i := File.lose_of_synced hpend _
  refine ⟨i, ?_, ?_, ?_⟩
  · show revive (s.entries path) (s.older path) (back path) = _
    rw [hsettled, revive_nil]
    exact hentry
  · show ((s.files i).lose (keep i)).pending = []
    rw [hsame]
    exact hpend
  · show ((s.files i).lose (keep i)).view.length = _ ∧ _
    unfold Disk.lose
    simp only [hsame]
    exact hrest

theorem finalize_spec (platform : Platform) (moment : Moment) :
    Prog.Spec (Open c dir m) (PartialDownload.finalize platform moment)
      (fun path x => (Published c m path x.1 ∧ Lasting platform path x.1) ∧ x.1.Tidy dir m)
      (fun x => x.1.Tidy dir m) := by
  refine of_open ?_
  intro d i content hd hfile hholds
  have htidy : ∀ x, At dir m d i content x → x.1.Tidy dir m := fun _ h => h.2.toTidy
  refine self_bind (fun _ h => h.1) ?_
  split
  next hcomplete =>
    refine .bind ((checkpoint_spec hd hfile platform moment).exits htidy) fun _ => ?_
    rw [hfile]
    -- From here on only the disk matters.
    refine .bind (R := fun _ x => Ready dir m d.tempPath i content d.statePath x.1)
      (.onFst fun b => ?_) fun _ => ?_
    · refine (sync_part_spec (F := fun entries => entries d.statePath ≠ none)).conseq
        (fun _ h => ⟨h.1.2, h.2⟩) ?_ (fun _ h => h.toTidy)
      rintro _ s ⟨hpart, hstate, hpend⟩
      exact ⟨hpart, hstate, hpend⟩
    refine .bind (R := fun _ x => Ready dir m d.tempPath i content d.statePath x.1)
      (.modify fun _ h => h) fun _ => ?_
    refine .bind (R := fun target x => Linked dir m i content d.statePath target x.1)
      (.onFst fun b => ?_) fun target => ?_
    · rw [hd.target]
      exact publishLoop_spec hd.staged.part _ _ fun q hq => candidate_ne_bitmapTmp hq
    refine .bind (R := fun _ x => Linked dir m i content d.statePath target x.1 ∧
      Lasting platform target x.1) (.onFst fun b => ?_) fun _ => ?_
    · exact (syncParentDir_lasting (fun _ q h => h.settle q) platform target).exits
        fun _ h => h.toTidy
    refine .bind (R := fun _ x => Linked dir m i content d.statePath target x.1 ∧
      Lasting platform target x.1) (.onFst fun b => ?_) fun _ => ?_
    · refine .of_imp (φ := target ≠ d.statePath) (fun hne => ?_) fun _ h => h.1.ne
      exact (removeFileIfExists_spec fun _ h => ⟨h.1.remove hne, h.2.remove hne⟩).exits
        fun _ h => h.1.toTidy
    refine .bind (R := fun _ x => Linked dir m i content d.statePath target x.1 ∧
      Lasting platform target x.1) (.onFst fun b => ?_) fun _ => ?_
    · exact (syncParentDir_spec _ (fun _ q h => ⟨h.1.settle q, h.2.settle q⟩) platform).exits
        fun _ h => h.1.toTidy
    exact .pure fun _ h => ⟨⟨h.1.published hd.valid hholds hcomplete, h.2⟩, h.1.toTidy⟩
  · exact .throw htidy

end Publication

theorem discard_spec :
    Prog.Spec (fun x => x.1.Tidy dir m) PartialDownload.discard (fun _ x => x.1.Tidy dir m)
      (fun x => x.1.Tidy dir m) := by
  have hremove : ∀ q : Path, Prog.Spec (fun x : Disk × PartialDownload => x.1.Tidy dir m)
      (removeFile q).attempt.onFst (fun _ x => x.1.Tidy dir m) (fun x => x.1.Tidy dir m) := by
    intro q
    exact .onFst fun b => .attempt (removeFile_spec fun _ h => h.remove q) fun _ _ h => h
  refine .bind (R := fun _ x => x.1.Tidy dir m) ?_ fun download => ?_
  · exact .bind (.get fun _ h => h) fun _ => .pure fun _ h => h
  refine .bind (R := fun _ x => x.1.Tidy dir m) (.modify fun _ h => h) fun _ => ?_
  refine .bind (hremove download.tempPath) fun _ => ?_
  refine .bind (hremove download.statePath) fun _ => ?_
  exact .pure fun _ h => h

/-! ## Runs -/

/-- The system started on any disk on which the working files are kept apart. -/
def storageMachine (c : Crypto) (platform : Platform) (dir : Path) (m : FileManifest) :
    Machine System Event :=
  Machine.ofStep (fun s => s.download = none ∧ s.disk.Tidy dir m) (System.step c platform dir m)

/-- The disk is tidy, and an open download has its invariant. -/
structure System.Sound (c : Crypto) (dir : Path) (m : FileManifest) (s : System) : Prop where
  tidy : s.disk.Tidy dir m
  opened : ∀ d, s.download = some d → Open c dir m (s.disk, d)

namespace System.Sound

theorem of_none {disk : Disk} (h : disk.Tidy dir m) : System.Sound c dir m ⟨disk, none⟩ :=
  ⟨h, by simp⟩

theorem of_opened {r : Outcome Error PartialDownload × Disk × List (Fault Error)}
    (h : Prog.Ends (fun d s => Open c dir m (s, d)) (Disk.Tidy dir m) (Disk.Tidy dir m) r) :
    System.Sound c dir m (System.opened r) := by
  obtain ⟨out, disk, rest⟩ := r
  cases out with
  | ok d =>
    refine ⟨Open.tidy h, ?_⟩
    rintro d' heq
    rw [← Option.some.inj heq]
    exact h
  | error err => exact of_none h
  | crashed => exact of_none h

theorem of_called {r : Outcome Error Unit × (Disk × PartialDownload) × List (Fault Error)}
    (h : Prog.Ends (fun _ => Open c dir m) (Open c dir m) (Open c dir m) r) :
    System.Sound c dir m (System.called r) := by
  obtain ⟨out, ⟨disk, d⟩, rest⟩ := r
  have hsome : Open c dir m (disk, d) → System.Sound c dir m ⟨disk, some d⟩ := by
    intro hopen
    refine ⟨hopen.tidy, ?_⟩
    rintro d' heq
    rw [← Option.some.inj heq]
    exact hopen
  cases out with
  | ok => exact hsome h
  | error err => exact hsome h
  | crashed => exact of_none (Open.tidy h)

theorem of_consumed {α : Type} {Q : α → Disk × PartialDownload → Prop}
    {r : Outcome Error α × (Disk × PartialDownload) × List (Fault Error)}
    (hQ : ∀ a x, Q a x → x.1.Tidy dir m)
    (h : Prog.Ends Q (fun x => x.1.Tidy dir m) (fun x => x.1.Tidy dir m) r) :
    System.Sound c dir m (System.consumed r) := by
  obtain ⟨out, ⟨disk, d⟩, rest⟩ := r
  cases out with
  | ok a => exact of_none (hQ a _ h)
  | error err => exact of_none h
  | crashed => exact of_none h

theorem step (hinj : CollisionFree c m) {platform : Platform} {s t : System} {e : Event}
    (h : s.Sound c dir m) (hstep : s.step c platform dir m e = some t) : t.Sound c dir m := by
  cases e with
  | create policy moment plan =>
    simp only [System.step] at hstep
    split at hstep
    · cases hstep
    · cases hstep
      exact of_opened (createWithPolicy_spec platform policy moment s.disk plan h.tidy)
  | createDesktop admission moment plan =>
    simp only [System.step] at hstep
    split at hstep
    · cases hstep
    cases hstep
    refine of_opened (Prog.Triple.bind
      (createInWithAdmission_spec platform true .default admission moment) ?_ s.disk plan h.tidy)
    rintro ⟨d, ⟨⟩⟩
    exact .pure fun _ h => h
  | writeChunk index data moment plan =>
    obtain ⟨d, hd, heq⟩ := Option.bind_eq_some_iff.mp hstep
    cases heq
    exact of_called (writeChunk_spec hinj platform index data moment _ plan (h.opened d hd))
  | checkpoint moment plan =>
    obtain ⟨d, hd, heq⟩ := Option.bind_eq_some_iff.mp hstep
    cases heq
    refine of_called (of_open ?_ _ plan (h.opened d hd))
    intro d i content hfixed hfile hholds
    exact checkpoint_open_spec hfixed hfile hholds platform moment
  | finalize moment plan =>
    obtain ⟨d, hd, heq⟩ := Option.bind_eq_some_iff.mp hstep
    cases heq
    exact of_consumed (fun _ _ h => h.2) (finalize_spec platform moment _ plan (h.opened d hd))
  | discard plan =>
    obtain ⟨d, hd, heq⟩ := Option.bind_eq_some_iff.mp hstep
    cases heq
    exact of_consumed (fun _ _ h => h) (discard_spec (s.disk, d) plan h.tidy)
  | drop =>
    cases hstep
    exact of_none h.tidy
  | crash keep back =>
    cases hstep
    exact of_none (h.tidy.lose keep back)

end System.Sound

theorem run_sound {platform : Platform} (hinj : CollisionFree c m) {es : List Event} {s : System}
    (h : (storageMachine c platform dir m).Run es s) : s.Sound c dir m := by
  refine Machine.Run.inv (I := System.Sound c dir m) ?_ ?_ h
  · rintro s ⟨hnone, htidy⟩
    exact ⟨htidy, by simp [hnone]⟩
  · intro s e t hI hstep
    exact hI.step hinj hstep

/-- **Resume soundness.**  Start from any disk, and let the process create, write any
    data to any chunk, checkpoint, fail and crash at any call, lose any pending writes and
    any changes of names that were not synced, and start again, in any order.  If `finalize`
    then returns a path, the file there has the length of the manifest, it is synced, and
    the bytes of every chunk hash to the digest of the manifest. -/
theorem resume_sound {platform : Platform} (hinj : CollisionFree c m) {es : List Event}
    {s : System} (h : (storageMachine c platform dir m).Run es s) {d : PartialDownload}
    (hd : s.download = some d) {moment : Moment} {plan rest : List (Fault Error)} {path : Path}
    {disk : Disk} {d' : PartialDownload}
    (hfinal : PartialDownload.finalize platform moment (s.disk, d) plan =
      (.ok path, (disk, d'), rest)) :
    ∃ i, disk.entries path = some (.file i) ∧ (disk.files i).pending = [] ∧
      (disk.files i).view.length = m.totalLen.toNat ∧
      ∀ index, index < m.count → ∃ offset len, m.chunkRange index = some (offset, len) ∧
        m.chunks[index.toNat]? =
          some (c.hash (slice (disk.files i).view offset.toNat len.toNat)) := by
  have hopen := (run_sound hinj h).opened d hd
  exact ((finalize_spec platform moment).ends hopen hfinal).1.1

/-- On Unix what `finalize` has returned is there after every loss of power. -/
theorem resume_durable (hinj : CollisionFree c m) {es : List Event} {s : System}
    (h : (storageMachine c .unix dir m).Run es s) {d : PartialDownload} (hd : s.download = some d)
    {moment : Moment} {plan rest : List (Fault Error)} {path : Path} {disk : Disk}
    {d' : PartialDownload} (hfinal : PartialDownload.finalize .unix moment (s.disk, d) plan =
      (.ok path, (disk, d'), rest)) (hpath : path ≠ []) (keep : Nat → Nat → Bool)
    (back : Path → Nat) : Published c m path (disk.lose keep back) := by
  have hopen := (run_sound hinj h).opened d hd
  obtain ⟨⟨hpublished, hlasting⟩, -⟩ := (finalize_spec .unix moment).ends hopen hfinal
  exact hpublished.lose (hlasting rfl hpath) keep back

/-! ## A run over a stale file -/

namespace Sample

def folder : Path := ["d"]

/-- One chunk of three bytes. -/
def manifest : FileManifest where
  fileName := "x"
  totalLen := 3
  chunkSize := 16384
  chunks := [Crypto.sample.hash [1, 2, 3]]
  rootHash := rootHashOf .sample "x" 3 16384 [Crypto.sample.hash [1, 2, 3]]

/-- A `.part` file with other bytes, and a `.bitmap` file that says it is complete. -/
def stale : Disk where
  entries p :=
    if p = tempPathFor folder manifest then some (.file 0)
    else if p = statePathFor folder manifest then some (.file 1)
    else none
  older _ := []
  files i := if i = 0 then ⟨[9, 9, 9], []⟩ else ⟨[1], []⟩
  next := 2

theorem stale_tidy : stale.Tidy folder manifest where
  bound := by
    intro p i hi
    have hi := (List.mem_singleton.mp hi).symm
    show i < 2
    simp only [stale] at hi
    split at hi
    · obtain rfl : 0 = i := Entry.file.inj (Option.some.inj hi)
      omega
    split at hi
    · obtain rfl : 1 = i := Entry.file.inj (Option.some.inj hi)
      omega
    · cases hi
  apart := by
    intro p _ i _ htmp
    have htmp := (List.mem_singleton.mp htmp).symm
    simp only [stale] at htmp
    rw [if_neg (partPath_ne_tmpPath tempPathFor_mem).symm,
      if_neg (statePath_ne_tmpPath statePathFor_mem).symm] at htmp
    cases htmp

/-- The sample hash of a short string starts with the string. -/
theorem collisionFree : CollisionFree .sample manifest := by
  have hvalid : manifest.Valid .sample := FileManifest.validate_ok (by decide +kernel)
  have hread : ∀ index data, manifest.verifyChunk .sample index data = true → data = [1, 2, 3] := by
    intro index data hver
    obtain ⟨len, hlen, hindex, hdata, hhash⟩ := hvalid.verifyChunk_iff.mp hver
    obtain rfl : index = 0 := by
      have hlt : index.toNat < 1 := hindex
      exact UInt32.toNat_inj.mp (by simpa using hlt)
    obtain rfl : len = 3 := Option.some.inj (hlen.symm.trans (by decide +kernel))
    have hthree : data.length = 3 := hdata
    have hsame : Crypto.sample.hash [1, 2, 3] = Crypto.sample.hash data := Option.some.inj hhash
    have htake := congrArg (fun h : Bytes 32 => h.toList.take 3) hsame
    have hmin : min 3 32 = 3 := rfl
    simp only [Crypto.sample, List.take_take, hmin] at htake
    rw [List.take_append_of_le_length (by simp), List.take_append_of_le_length (by omega),
      List.take_of_length_le (by simp), List.take_of_length_le (by omega)] at htake
    exact htake.symm
  intro index data data' hdata hdata'
  rw [hread index data hdata, hread index data' hdata']

def moment : Moment := ⟨0, 0, 0⟩

/-- The stale chunk is found out; the process dies two bytes into the first write, and
    the first of them is lost; the second attempt writes the chunk. -/
def events : List Event :=
  [.create .default moment [],
   .writeChunk 0 [1, 2, 3] moment [.done, .crash 2],
   .crash (fun _ k => k != 0) fun _ => 1,
   .create .default moment [],
   .writeChunk 0 [1, 2, 3] moment []]

def exec : Option System :=
  Machine.exec (System.step .sample .unix folder manifest) ⟨stale, none⟩ events

theorem exec_isSome : exec.isSome = true := by decide +kernel

def system : System := exec.get exec_isSome

theorem system_run : (storageMachine .sample .unix folder manifest).Run events system :=
  Machine.run_of_exec ⟨rfl, stale_tidy⟩ (Option.some_get exec_isSome).symm

theorem download_isSome : system.download.isSome = true := by decide +kernel

def download : PartialDownload := system.download.get download_isSome

/-- What `finalize` does then. -/
def result : Outcome Error Path × (Disk × PartialDownload) × List (Fault Error) :=
  PartialDownload.finalize .unix moment (system.disk, download) []

theorem result_eq : result = (.ok ["d", "x"], result.2) := by
  have hok : result.1 = .ok ["d", "x"] := by decide +kernel
  rw [← hok]

end Sample

open Sample in
/-- In the sample run the file is published, and its three bytes are those of the
    manifest. -/
theorem resume_sound_sample : result.1 = .ok ["d", "x"] ∧ ∃ i,
      result.2.1.1.entries ["d", "x"] = some (.file i) ∧
      (result.2.1.1.files i).view.length = 3 ∧
      ∃ offset len, manifest.chunkRange 0 = some (offset, len) ∧
        manifest.chunks[0]? = some (Crypto.sample.hash
          (slice (result.2.1.1.files i).view offset.toNat len.toNat)) := by
  obtain ⟨i, hentry, -, hlen, hchunks⟩ := resume_sound collisionFree system_run
    (Option.some_get download_isSome).symm result_eq
  obtain ⟨offset, len, hrange, hhash⟩ := hchunks 0 (by decide)
  refine ⟨?_, i, hentry, hlen, offset, len, hrange, hhash⟩
  rw [result_eq]

end P2pFile.Storage
