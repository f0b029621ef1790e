/-
  P2pFile.Storage.Path

  Paths, and the names of the files of a download (`src/storage/mod.rs`).

  A path is the list of its components, as `std::path` reads it.  A download works
  with a `.part` file, a `.bitmap` file and the temporary file that replaces it, and is
  published under one of the candidate names.
-/

import P2pFile.Protocol.Manifest

namespace P2pFile.Storage

open Lib Protocol
open String (append_assoc length_append ofList toList toList_append)

/-! ## `std::path` -/

abbrev Path := List String

namespace Path

variable (path : Path)

/-- `Path::join` of a name without separators; the component `.` is dropped. -/
def join (name : String) : Path :=
  if name = "." ∨ name = "" then path else path ++ [name]

/-- `Path::file_name`. -/
def fileName : Option String :=
  match path.getLast? with
  | none => none
  | some name => if name = ".." then none else some name

/-- `Path::parent`. -/
def parent : Option Path := if path = [] then none else some path.dropLast

end Path

variable (name : String)

/-- The name before its last dot, and what follows the dot.  A dot in front does not
    count. -/
def splitName : String × Option String :=
  let after := (name.toList.reverse.takeWhile fun ch => ch != '.').reverse
  let rest := (name.toList.reverse.dropWhile fun ch => ch != '.').tail.reverse
  if rest = [] then (name, none) else (ofList rest, some (ofList after))

variable (path : Path)

/-- `Path::file_stem`. -/
def Path.fileStem : Option String := (Path.fileName path).map fun n => (splitName n).1

/-- `Path::extension`. -/
def Path.extension : Option String := (Path.fileName path).bind fun n => (splitName n).2

/-- `Path::with_extension`. -/
def Path.withExtension (ext : String) : Path :=
  match Path.fileStem path with
  | none => path
  | some stem => path.dropLast ++ [stem ++ "." ++ ext]

/-! ## The names of a download -/

-- The unifier must not evaluate names: the paths are opened by rewriting only.
section

variable (dir : Path) (manifest : FileManifest)

/-- The first 16 hex digits of the root hash. -/
def tag : String := hexEncode (manifest.rootHash.toList.take 8)

@[irreducible] def targetPathFor : Path := Path.join dir (safeFileName manifest.fileName)

@[irreducible] def tempPathFor : Path :=
  Path.join dir (safeFileName manifest.fileName ++ "." ++ tag manifest ++ ".part")

@[irreducible] def statePathFor : Path :=
  Path.join dir (safeFileName manifest.fileName ++ "." ++ tag manifest ++ ".bitmap")

end

/-- The temporary file of `save_bitmap`. -/
def bitmapTmpPath (statePath : Path) : Path := Path.withExtension statePath "bitmap.tmp"

/-- `candidate_paths`. -/
def candidatePaths (target : Path) (maxSuffix : Nat) : List Path :=
  let dir := (Path.parent target).getD []
  let stem := (Path.fileStem target).getD "download"
  let ext := Path.extension target
  target :: (List.range maxSuffix).map fun k =>
    let name := match ext with
      | some ext => stem ++ " (" ++ toString (k + 1) ++ ")." ++ ext
      | none => stem ++ " (" ++ toString (k + 1) ++ ")"
    Path.join dir name

/-! ## Names that differ -/

theorem splitName_spec : name.toList = (splitName name).1.toList ++
      (match (splitName name).2 with
      | none => []
      | some ext => '.' :: ext.toList) := by
  unfold splitName
  simp only
  split
  · simp
  rename_i hrest
  have hsplit := List.takeWhile_append_dropWhile (p := fun ch => ch != '.')
    (l := name.toList.reverse)
  cases hdrop : name.toList.reverse.dropWhile fun ch => ch != '.' with
  | nil =>
    rw [hdrop] at hrest
    exact absurd rfl hrest
  | cons ch rest =>
    have hdot : ch = '.' := by
      have hhead := List.head?_dropWhile_not (fun ch => ch != '.') name.toList.reverse
      rw [hdrop] at hhead
      simpa using hhead
    rw [hdrop, hdot] at hsplit
    have hname := congrArg List.reverse hsplit
    simp only [List.reverse_reverse, List.reverse_append, List.reverse_cons,
      List.append_assoc, List.singleton_append] at hname
    simp only [List.tail_cons, String.toList_ofList]
    exact hname.symm

/-- Names with different endings differ. -/
theorem append_ne_of_suffix {x y a b : String} (hab : ¬ a.toList <:+ b.toList)
    (hba : ¬ b.toList <:+ a.toList) : x ++ a ≠ y ++ b := by
  intro heq
  have hlist := congrArg toList heq
  rw [toList_append, toList_append] at hlist
  have ha : a.toList <:+ x.toList ++ a.toList := List.suffix_append _ _
  have hb : b.toList <:+ x.toList ++ a.toList := hlist ▸ List.suffix_append _ _
  rcases List.suffix_or_suffix_of_suffix ha hb with h | h
  · exact hab h
  · exact hba h

/-- A name with a suffix is neither empty nor the current directory. -/
theorem join_append (dir : Path) (x : String) {a : String} (ha : 2 ≤ a.length) :
    Path.join dir (x ++ a) = dir ++ [x ++ a] := by
  have hlen : (x ++ a).length = x.length + a.length := length_append ..
  have hdot : x ++ a ≠ "." := by
    intro heq
    rw [heq] at hlen
    have hone : ".".length = 1 := by decide
    omega
  have hempty : x ++ a ≠ "" := by
    intro heq
    rw [heq] at hlen
    have hzero : "".length = 0 := by decide
    omega
  rw [Path.join, if_neg (by tauto)]

theorem safeFileName_ne_empty : safeFileName name ≠ "" := by
  unfold safeFileName
  simp only
  split
  · decide
  rename_i hne
  intro heq
  have hlist := congrArg toList heq
  rw [String.toList_ofList] at hlist
  exact hne hlist

theorem splitName_bitmap {x : String} (hx : x ≠ "") :
    splitName (x ++ ".bitmap") = (x, some "bitmap") := by
  have hlist : (x ++ ".bitmap").toList.reverse =
      ['p', 'a', 'm', 't', 'i', 'b', '.'] ++ x.toList.reverse := by
    rw [toList_append, List.reverse_append]
    rfl
  have hne : x.toList ≠ [] := fun heq => hx (String.toList_inj.mp heq)
  unfold splitName
  simp [hne]

/-- The temporary file of the `.bitmap` file. -/
theorem bitmapTmpPath_statePathFor (dir : Path) (m : FileManifest) :
    bitmapTmpPath (statePathFor dir m) =
      dir ++ [safeFileName m.fileName ++ "." ++ tag m ++ ".bitmap.tmp"] := by
  have hne : safeFileName m.fileName ++ "." ++ tag m ≠ "" := by
    intro heq
    have hlen := congrArg String.length heq
    have hdot : ".".length = 1 := by decide
    have hempty : "".length = 0 := by decide
    rw [length_append, length_append, hdot, hempty] at hlen
    omega
  have hup : safeFileName m.fileName ++ "." ++ tag m ++ ".bitmap" ≠ ".." :=
    append_ne_of_suffix (x := safeFileName m.fileName ++ "." ++ tag m) (y := "") (b := "..")
      (by decide) (by decide)
  unfold bitmapTmpPath statePathFor
  rw [join_append _ _ (by decide)]
  unfold Path.withExtension Path.fileStem Path.fileName
  rw [List.getLast?_concat]
  have hsuffix : ∀ x : String, x ++ "." ++ "bitmap.tmp" = x ++ ".bitmap.tmp" := by
    intro x
    rw [append_assoc]
    rfl
  simp only [if_neg hup, Option.map_some, splitName_bitmap hne, List.dropLast_concat, hsuffix]

/-- The name of a numbered candidate. -/
theorem candidate_cases {target p : Path} {maxSuffix : Nat}
    (h : p ∈ candidatePaths target maxSuffix) :
    p = target ∨ ∃ suffix : String, p = (Path.parent target).getD [] ++
      [(Path.fileStem target).getD "download" ++ " (" ++ suffix] := by
  rcases List.mem_cons.mp h with heq | hmem
  · exact .inl heq
  right
  obtain ⟨k, -, rfl⟩ := List.mem_map.mp hmem
  have hjoin : ∀ stem rest : String, Path.join ((Path.parent target).getD [])
      (stem ++ " (" ++ rest) = (Path.parent target).getD [] ++ [stem ++ " (" ++ rest] := by
    intro stem rest
    rw [append_assoc]
    refine join_append _ _ ?_
    have htwo : " (".length = 2 := by decide
    rw [length_append, htwo]
    omega
  cases hext : Path.extension target with
  | none =>
    refine ⟨toString (k + 1) ++ ")", ?_⟩
    rw [← hjoin]
    simp only [append_assoc]
  | some ext =>
    refine ⟨toString (k + 1) ++ ")." ++ ext, ?_⟩
    rw [← hjoin]
    simp only [append_assoc]

variable {p : Path}

/-- No download is published under the name of the temporary bitmap file: after the stem
    of the target a candidate goes on with a blank, and the temporary name with a dot. -/
theorem candidate_ne_bitmapTmp {dir : Path} {m : FileManifest} {maxSuffix : Nat}
    (h : p ∈ candidatePaths (targetPathFor dir m) maxSuffix) :
    p ≠ bitmapTmpPath (statePathFor dir m) := by
  have hname := safeFileName_ne_empty m.fileName
  rw [bitmapTmpPath_statePathFor]
  unfold targetPathFor at h
  generalize safeFileName m.fileName = name at h hname ⊢
  have htmp : ∀ x, (name ++ "." ++ x ++ ".bitmap.tmp").toList =
      name.toList ++ '.' :: (x.toList ++ ".bitmap.tmp".toList) := by
    intro x
    simp [toList_append]
  intro heq
  by_cases hdot : name = "."
  · -- The target is the directory itself.
    have htarget : Path.join dir name = dir := if_pos (.inl hdot)
    rw [htarget] at h
    rcases candidate_cases h with rfl | ⟨suffix, rfl⟩
    · have hlen := congrArg List.length heq
      rw [List.length_append, List.length_singleton] at hlen
      omega
    obtain ⟨hparent, hlast⟩ := List.append_inj' heq rfl
    rcases List.eq_nil_or_concat dir with rfl | ⟨init, last, rfl⟩
    · have hhead := congrArg (fun s : String => s.toList.head?) (List.singleton_inj.mp hlast)
      simp only [hdot] at hhead
      simp [Path.fileStem, Path.fileName] at hhead
    · have hlen := congrArg List.length hparent
      simp [Path.parent] at hlen
  · have htarget : Path.join dir name = dir ++ [name] := if_neg (by tauto)
    rw [htarget] at h
    rcases candidate_cases h with rfl | ⟨suffix, rfl⟩
    · have hsame := congrArg toList (List.singleton_inj.mp (List.append_cancel_left heq))
      simp at hsame
    obtain ⟨-, hlast⟩ := List.append_inj' heq rfl
    have hlast := congrArg toList (List.singleton_inj.mp hlast)
    unfold Path.fileStem Path.fileName at hlast
    rw [List.getLast?_concat] at hlast
    by_cases hup : name = ".."
    · have hhead := congrArg List.head? hlast
      simp [hup] at hhead
    have hspec := splitName_spec name
    simp only [if_neg hup, Option.map_some, Option.getD_some, toList_append,
      List.append_assoc] at hlast
    rw [hspec, List.append_assoc] at hlast
    have hrest := List.append_cancel_left hlast
    cases hext : (splitName name).2 with
    | none =>
      rw [hext] at hrest
      simp at hrest
    | some ext =>
      rw [hext] at hrest
      simp at hrest

/-! ## The working files -/

section

variable (dir : Path) (m : FileManifest)

/-- The names that the `.part` file can have. -/
def partPaths : List Path := [tempPathFor dir m, Path.join dir "data.part"]

/-- The names that the `.bitmap` file can have. -/
def statePaths : List Path := [statePathFor dir m, Path.join dir "data.bitmap"]

/-- The name that `save_bitmap` truncates. -/
def tmpPath : Path := bitmapTmpPath (statePathFor dir m)

end

variable {dir : Path} {m : FileManifest}

theorem tempPathFor_mem : tempPathFor dir m ∈ partPaths dir m := by simp [partPaths]

theorem dataPart_mem : Path.join dir "data.part" ∈ partPaths dir m := by simp [partPaths]

theorem statePathFor_mem : statePathFor dir m ∈ statePaths dir m := by simp [statePaths]

theorem dataBitmap_mem : Path.join dir "data.bitmap" ∈ statePaths dir m := by simp [statePaths]

theorem partPath_eq (h : p ∈ partPaths dir m) : ∃ x, p = dir ++ [x ++ ".part"] := by
  simp only [partPaths, List.mem_cons, List.not_mem_nil, or_false] at h
  rcases h with h | h
  · refine ⟨safeFileName m.fileName ++ "." ++ tag m, ?_⟩
    rw [h, tempPathFor, join_append _ _ (by decide)]
  · have hname : "data.part" = "data" ++ ".part" := by decide +kernel
    refine ⟨"data", ?_⟩
    rw [h, hname, join_append _ _ (by decide)]

theorem statePath_eq (h : p ∈ statePaths dir m) : ∃ x, p = dir ++ [x ++ ".bitmap"] := by
  simp only [statePaths, List.mem_cons, List.not_mem_nil, or_false] at h
  rcases h with h | h
  · refine ⟨safeFileName m.fileName ++ "." ++ tag m, ?_⟩
    rw [h, statePathFor, join_append _ _ (by decide)]
  · have hname : "data.bitmap" = "data" ++ ".bitmap" := by decide +kernel
    refine ⟨"data", ?_⟩
    rw [h, hname, join_append _ _ (by decide)]

theorem partPath_ne_statePath {p q : Path} (hp : p ∈ partPaths dir m) (hq : q ∈ statePaths dir m) :
    p ≠ q := by
  obtain ⟨x, rfl⟩ := partPath_eq hp
  obtain ⟨y, rfl⟩ := statePath_eq hq
  intro heq
  exact append_ne_of_suffix (by decide) (by decide)
    (List.singleton_inj.mp (List.append_cancel_left heq))

theorem partPath_ne_tmpPath (hp : p ∈ partPaths dir m) : p ≠ tmpPath dir m := by
  obtain ⟨x, rfl⟩ := partPath_eq hp
  rw [tmpPath, bitmapTmpPath_statePathFor]
  intro heq
  exact append_ne_of_suffix (by decide) (by decide)
    (List.singleton_inj.mp (List.append_cancel_left heq))

theorem statePath_ne_tmpPath (hp : p ∈ statePaths dir m) : p ≠ tmpPath dir m := by
  obtain ⟨x, rfl⟩ := statePath_eq hp
  rw [tmpPath, bitmapTmpPath_statePathFor]
  intro heq
  exact append_ne_of_suffix (by decide) (by decide)
    (List.singleton_inj.mp (List.append_cancel_left heq))

end P2pFile.Storage
