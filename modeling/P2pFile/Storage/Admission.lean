/-
  P2pFile.Storage.Admission

  Opening a download asks for the space before it changes anything.

  `create_in_with_admission` has three parts: one that only reads, the callback, and one
  that creates, resizes and repairs.  The callback gets the bytes of exactly the chunks
  that did not verify.
-/

import P2pFile.Storage.ResumeSound
import P2pFile.Transfer.Tiling

namespace P2pFile.Storage

open Lib Protocol Transfer

/-! ## The three parts -/

/-- What is known when the callback is called. -/
structure ReadyToOpen where
  tempPath : Path
  statePath : Path
  existing : Existing
  /-- The argument of the callback. -/
  demand : UInt64

section

variable (c : Crypto) (platform : Platform) (directory : DownloadDirectory)

variable (manifest : FileManifest)

/-- The part before the callback. -/
def prepare : DiskProg ReadyToOpen := do
  .ofExcept (manifest.validate c)
  let (tempPath, statePath) ← stagingPaths directory manifest
  let existing ← inspect c directory manifest tempPath statePath
  let verified ← .ofExcept (verifiedBytes manifest existing.bitmap.present 0)
  pure ⟨tempPath, statePath, existing, saturatingSub manifest.totalLen verified⟩

variable (checkpointPolicy : CheckpointPolicy)

/-- The part after the callback. -/
def complete (moment : Moment) (ready : ReadyToOpen) : DiskProg PartialDownload := do
  let i ← openPart ready.tempPath ready.existing.file
  repair platform directory manifest ready.statePath ready.existing moment.random i
  pure {
    manifest
    directory
    targetPath := targetPathFor directory.path manifest
    tempPath := ready.tempPath
    statePath := ready.statePath
    file := some i
    writtenBitmap := ready.existing.bitmap
    durableBitmap := ready.existing.bitmap
    dirtyBytes := 0
    lastCheckpoint := moment.later
    checkpointPolicy }

variable {σ T : Type} (admission : UInt64 → σ → Except Error T × σ)

/-- A callback with a state of its own is called. -/
def callback (demand : UInt64) :
    Prog (Disk × σ) Error T := fun s plan =>
  match admission demand s.2 with
  | (.ok admitted, state) => (.ok admitted, (s.1, state), plan)
  | (.error err, state) => (.error err, (s.1, state), plan)

/-- `create_in_with_admission` with a callback that has a state of its own. -/
def createWithCallback (moment : Moment) : Prog (Disk × σ) Error (PartialDownload × T) := do
  let ready ← (prepare c directory manifest).onFst
  let admitted ← callback admission ready.demand
  let download ← (complete platform directory manifest checkpointPolicy moment ready).onFst
  pure (download, admitted)

/-- The three parts in a row are the function. -/
theorem createInWithAdmission_parts (admission : UInt64 → Except Error T) (moment : Moment) :
    createInWithAdmission c platform directory manifest checkpointPolicy admission moment = (do
      let ready ← prepare c directory manifest
      let admitted ← .ofExcept (admission ready.demand)
      let download ← complete platform directory manifest checkpointPolicy moment ready
      pure (download, admitted)) := by
  unfold createInWithAdmission prepare complete
  simp only [Prog.bind_assoc, Prog.pure_bind]

/-- The state of the callback does not get in the way: the result, the disk and the calls
    are those of the function with the answers that the callback gives. -/
theorem createWithCallback_eq (moment : Moment) (s : Disk) (state : σ) (plan : List (Fault Error)) :
    ∃ state', createWithCallback c platform directory manifest checkpointPolicy admission moment
        (s, state) plan =
      let r := createInWithAdmission c platform directory manifest checkpointPolicy
        (fun demand => (admission demand state).1) moment s plan
      (r.1, (r.2.1, state'), r.2.2) := by
  rw [createInWithAdmission_parts]
  unfold createWithCallback
  simp only [bind, Prog.bind, Prog.onFst]
  generalize prepare c directory manifest s plan = x
  obtain ⟨out, s₁, rest⟩ := x
  cases out with
  | error err | crashed => exact ⟨state, rfl⟩
  | ok ready =>
    unfold callback
    dsimp only
    obtain ⟨result, state'⟩ := admission ready.demand state
    refine ⟨state', ?_⟩
    cases result with
    | error err => rfl
    | ok admitted =>
      simp only [Prog.ofExcept, Prog.pure]
      generalize complete platform directory manifest checkpointPolicy moment ready s₁ rest = y
      obtain ⟨out', s₂, rest'⟩ := y
      cases out' with
      | _ => rfl

/-- A callback that also writes down its calls. -/
def logged (demand : UInt64) (state : σ × List UInt64) : Except Error T × (σ × List UInt64) :=
  ((admission demand state.1).1, ((admission demand state.1).2, state.2 ++ [demand]))

end

variable {c : Crypto} {platform : Platform} {m : FileManifest}

/-! ## The demand -/

/-- The length of a chunk. -/
def lenAt (m : FileManifest) (index : UInt32) : Nat :=
  ((m.chunkRange index).map fun r => r.2.toNat).getD 0

theorem sum_filter_add_sum_filter_not {α : Type} (p : α → Bool) (f : α → Nat) (l : List α) :
    ((l.filter p).map f).sum + ((l.filter fun a => !p a).map f).sum = (l.map f).sum := by
  induction l with
  | nil => rfl
  | cons a l ih =>
    cases hp : p a with
    | true =>
      simp only [List.filter_cons, hp, Bool.not_true, if_true, Bool.false_eq_true, if_false,
        List.map_cons, List.sum_cons]
      omega
    | false =>
      simp only [List.filter_cons, hp, Bool.not_false, if_true, Bool.false_eq_true, if_false,
        List.map_cons, List.sum_cons]
      omega

/-- The present and the missing chunks together are the file. -/
theorem present_add_missing {bitmap : ChunkBitmap} (hvalid : m.Valid c)
    (hcount : bitmap.chunkCount = m.count) :
    (bitmap.present.map (lenAt m)).sum + (bitmap.missing.map (lenAt m)).sum = m.totalLen.toNat := by
  unfold ChunkBitmap.present ChunkBitmap.missing
  rw [sum_filter_add_sum_filter_not, ← (tiles_of_valid hvalid).sum]
  unfold ChunkBitmap.indexes
  rw [List.map_map, hcount]
  rfl

/-- Adding up lengths does not overflow below `2 ^ 64`. -/
theorem verifiedBytes_ok (hvalid : m.Valid c) (l : List UInt32) (sum : UInt64)
    (hl : ∀ index ∈ l, index < m.count) (hsum : sum.toNat + (l.map (lenAt m)).sum < 2 ^ 64) :
    ∃ verified, verifiedBytes m l sum = .ok verified ∧
      verified.toNat = sum.toNat + (l.map (lenAt m)).sum := by
  induction l generalizing sum with
  | nil => exact ⟨sum, rfl, rfl⟩
  | cons index rest ih =>
    obtain ⟨offset, len, hrange, -⟩ := hvalid.chunkRange_eq (hl index (.head _))
    have hlen : lenAt m index = len.toNat := by
      unfold lenAt
      rw [hrange]
      rfl
    rw [List.map_cons, List.sum_cons, hlen] at hsum ⊢
    have hwide : len.toUInt64.toNat = len.toNat := UInt32.toNat_toUInt64 _
    have hadd : checkedAdd sum len.toUInt64 = some (sum + len.toUInt64) :=
      if_pos (by rw [hwide]; omega)
    have hnat := checkedAdd_toNat hadd
    obtain ⟨verified, hrun, hverified⟩ := ih (sum + len.toUInt64)
      (fun j hj => hl j (.tail _ hj)) (by omega)
    refine ⟨verified, ?_, by omega⟩
    rw [verifiedBytes, hrange]
    dsimp only
    rw [hadd]
    exact hrun

/-- The bitmap after the chunks were verified again: every chunk that is set is in the
    `.part` file, which has its full length. -/
structure Reverified (c : Crypto) (m : FileManifest) (p : Path) (s : Disk) (bitmap : ChunkBitmap) :
    Prop where
  count : bitmap.chunkCount = m.count
  chunks : ∀ index, bitmap.isSet index = true → ∃ i, s.entries p = some (.file i) ∧
    (s.files i).view.length = m.totalLen.toNat ∧ ChunkAt c m (s.files i).view index

theorem Found.reverified {p : Path} {e : Existing} {s : Disk} (h : Found c m p e s) :
    Reverified c m p s e.bitmap := by
  refine ⟨h.count, ?_⟩
  intro index hset
  have hreset : e.reset = false := by
    by_contra hreset
    rw [h.empty (Bool.not_eq_false _ ▸ hreset) index] at hset
    cases hset
  cases hfile : e.file with
  | none =>
    rw [h.missing hfile] at hreset
    cases hreset
  | some i =>
    have hholds := h.kept hreset i hfile
    exact ⟨i, h.entry i hfile, hholds.length, hholds.chunks index hset⟩

/-- What the callback is asked for. -/
structure Demands (c : Crypto) (m : FileManifest) (s : Disk) (ready : ReadyToOpen) : Prop where
  reverified : Reverified c m ready.tempPath s ready.existing.bitmap
  /-- The bytes of the missing chunks. -/
  missing : ready.demand.toNat = (ready.existing.bitmap.missing.map (lenAt m)).sum
  /-- The subtraction has not saturated. -/
  exact : ready.demand.toNat + (ready.existing.bitmap.present.map (lenAt m)).sum = m.totalLen.toNat

/-- The part before the callback leaves the disk as it is. -/
theorem prepare_spec {s : Disk} (hvalid : m.Valid c) (directory : DownloadDirectory) :
    Prog.Spec (· = s) (prepare c directory m) (fun ready s' => s' = s ∧ Demands c m s ready)
      (· = s) := by
  refine .bind (R := fun _ => (· = s)) (.ofExcept (fun _ _ _ h => h) fun _ h => h) fun _ => ?_
  refine .bind ((stagingPaths_spec directory).post fun _ _ h => h.1) ?_
  rintro ⟨tempPath, statePath⟩
  refine .bind (inspect_found directory tempPath statePath) fun e => ?_
  refine .of_imp (φ := Found c m tempPath e s) (fun hfound => ?_) ?_
  · have hpresent : ∀ index ∈ e.bitmap.present, index < m.count := by
      intro index hindex
      rw [← hfound.count]
      exact ChunkBitmap.lt_of_isSet (ChunkBitmap.mem_present.mp hindex)
    have htotal := present_add_missing hvalid hfound.count
    have hlt := m.totalLen.toNat_lt
    obtain ⟨verified, hverified, hsum⟩ := verifiedBytes_ok hvalid e.bitmap.present 0 hpresent (by
      show 0 + _ < _
      omega)
    have hsum : verified.toNat = (e.bitmap.present.map (lenAt m)).sum := hsum.trans (Nat.zero_add _)
    rw [hverified]
    refine .bind (R := fun v s' => s' = s ∧ v = verified)
      (.ofExcept (fun v hv s' h => ⟨h.1, (Except.ok.inj hv).symm⟩) fun _ h => h.1) fun v => ?_
    refine .pure ?_
    rintro s' ⟨rfl, rfl⟩
    have hle : v ≤ m.totalLen := by
      show v.toNat ≤ m.totalLen.toNat
      omega
    have hdemand : (saturatingSub m.totalLen v).toNat = m.totalLen.toNat - v.toNat := by
      unfold saturatingSub
      rw [if_pos hle]
      exact UInt64.toNat_sub_of_le _ _ hle
    refine ⟨rfl, hfound.reverified, ?_, ?_⟩
    · dsimp only
      omega
    · dsimp only
      omega
  · rintro _ ⟨rfl, hfound⟩
    exact hfound

/-! ## Opening -/

/-- The download has the bitmap that the callback was asked for. -/
theorem complete_bitmap (directory : DownloadDirectory) (policy : CheckpointPolicy)
    (moment : Moment) (ready : ReadyToOpen) :
    Prog.Triple (fun _ => True) (complete platform directory m policy moment ready)
      (fun d _ => d.writtenBitmap = ready.existing.bitmap) (fun _ => True) fun _ => True := by
  have hany : ∀ {α : Type} (p : DiskProg α),
      Prog.Triple (fun _ => True) p (fun _ _ => True) (fun _ => True) fun _ => True := by
    intro α p s plan _
    generalize p s plan = r
    obtain ⟨out, t, rest⟩ := r
    cases out with
    | _ => exact trivial
  refine .bind (hany _) fun i => .bind (hany _) fun _ => ?_
  exact .pure fun _ _ => rfl

/-- The callback is called once, after the part that only reads has succeeded, with the
    bytes of the chunks that are missing from the verified bitmap; if it fails, or if
    anything before it fails, the disk is as it was. -/
theorem admission_before_changes {σ T : Type} (hvalid : m.validate c = .ok ())
    (directory : DownloadDirectory) (policy : CheckpointPolicy)
    (admission : UInt64 → σ → Except Error T × σ) (moment : Moment) (s : Disk) (state : σ)
    (plan : List (Fault Error)) :
    let r := createWithCallback c platform directory m policy (logged admission) moment
      (s, state, []) plan
    ((∀ ready, (prepare c directory m s plan).1 ≠ .ok ready) →
      r.2.1 = (s, state, []) ∧ ∀ x, r.1 ≠ .ok x) ∧
    ∀ ready, (prepare c directory m s plan).1 = .ok ready →
      Demands c m s ready ∧
      r.2.1.2 = ((admission ready.demand state).2, [ready.demand]) ∧
      (∀ err, (admission ready.demand state).1 = .error err → r.1 = .error err ∧ r.2.1.1 = s) ∧
      ∀ d t, r.1 = .ok (d, t) →
        d.writtenBitmap = ready.existing.bitmap ∧ (admission ready.demand state).1 = .ok t := by
  have hprepare := prepare_spec (s := s) (FileManifest.validate_ok hvalid) directory s plan rfl
  intro r
  have hr : r = createWithCallback c platform directory m policy (logged admission) moment
    (s, state, []) plan := rfl
  unfold createWithCallback at hr
  simp only [bind, Prog.bind, Prog.onFst] at hr
  generalize prepare c directory m s plan = x at hprepare hr
  obtain ⟨out, s₁, rest⟩ := x
  cases out with
  | ok ready =>
    obtain ⟨rfl, hdemands⟩ : s₁ = s ∧ Demands c m s ready := hprepare
    refine ⟨fun hnone => absurd rfl (hnone ready), ?_⟩
    intro ready' hready
    obtain rfl := Outcome.ok.inj hready
    refine ⟨hdemands, ?_⟩
    unfold callback logged at hr
    dsimp only at hr
    cases hcalled : admission ready.demand state with
    | mk result state' =>
      rw [hcalled] at hr
      cases result with
      | error err =>
        rw [hr]
        refine ⟨rfl, ?_, fun d t hd => nomatch hd⟩
        intro err' herr
        cases herr
        exact ⟨rfl, rfl⟩
      | ok admitted =>
        dsimp only at hr
        have hcomplete : Prog.Ends (fun d _ => d.writtenBitmap = ready.existing.bitmap)
            (fun _ => True) (fun _ => True)
            (complete platform directory m policy moment ready s₁ rest) :=
          complete_bitmap directory policy moment ready s₁ rest trivial
        generalize complete platform directory m policy moment ready s₁ rest = y at hr hcomplete
        obtain ⟨out', s₂, rest'⟩ := y
        cases out' with
        | ok download =>
          rw [hr]
          refine ⟨rfl, (fun err herr => nomatch herr), ?_⟩
          intro d t hd
          obtain ⟨rfl, rfl⟩ := Prod.mk.inj (Outcome.ok.inj hd)
          exact ⟨hcomplete, rfl⟩
        | error err | crashed =>
          rw [hr]
          exact ⟨rfl, (fun err herr => nomatch herr), fun d t hd => nomatch hd⟩
  | _ =>
    obtain rfl : s₁ = s := hprepare
    refine ⟨fun _ => ?_, fun ready hready => nomatch hready⟩
    rw [hr]
    exact ⟨rfl, fun x hx => nomatch hx⟩

/-- The part of the file is found to need so many bytes. -/
def asksFor (bytes : UInt64) : Outcome Error ReadyToOpen → Bool
  | .ok ready => ready.demand == bytes
  | _ => false

open Sample in
/-- Over the stale file all three bytes are asked for; the callback refuses, and the disk is
    as it was. -/
theorem admission_before_changes_refused :
    ∃ ready, Demands .sample manifest stale ready ∧ ready.demand = 3 ∧
      let r := createWithCallback .sample .unix ⟨folder, false⟩ manifest .default
        (logged fun _ (calls : Nat) => ((.error (.protocol "full") : Except Error Unit), calls + 1))
        moment (stale, 0, []) []
      r.1 = .error (.protocol "full") ∧ r.2.1.2 = (1, [3]) ∧ r.2.1.1 = stale := by
  have hready : asksFor 3 (prepare .sample ⟨folder, false⟩ manifest stale []).1 = true := by
    decide +kernel
  cases hprepare : (prepare .sample ⟨folder, false⟩ manifest stale []).1 with
  | ok ready =>
    rw [hprepare] at hready
    have hdemand : ready.demand = 3 := by simpa [asksFor] using hready
    have hvalid : manifest.validate .sample = .ok () := by decide +kernel
    have hresult := (@admission_before_changes .sample .unix _ _ _ hvalid ⟨folder, false⟩
      .default (fun _ (calls : Nat) =>
        ((.error (.protocol "full") : Except Error Unit), calls + 1))
      moment stale 0 []).2 ready hprepare
    obtain ⟨hdemands, hlog, hrefused, -⟩ := hresult
    obtain ⟨hout, hdisk⟩ := hrefused _ rfl
    refine ⟨ready, hdemands, hdemand, hout, ?_, hdisk⟩
    rw [hlog, hdemand]
  | _ =>
    rw [hprepare] at hready
    cases hready

end P2pFile.Storage
