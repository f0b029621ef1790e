/-
  P2pFile.Node.DropSend

  Paths that are dropped on the window (`src/node/core/drop_send.rs`).

  `normalize` keeps the first of equal paths and `classify` drops what lies inside a dropped
  directory.  `PathBuf` compares, hashes and tests `starts_with` by components, so a
  normalized path is the list of its components here.
-/

import P2pFile.Node.TaskStore

namespace P2pFile.Node.DropSend

def maxPaths : Nat := 128

def maxPathBytes : Nat := 32768

def maxBatchBytes : Nat := 1024 * 1024

/-- The loop of `validate_paths`, with the bytes so far. -/
def validateFrom : Nat → List PathBuf → Except Error Unit
  | _, [] => .ok ()
  | bytes, path :: rest =>
    let bytes := bytes + path.bytes.length
    if path.bytes.length > maxPathBytes ∨ bytes > maxBatchBytes then
      .error (fail "拖入路径过长或本批次路径总量超过 1 MiB")
    else if !path.isAbsolute || path.toStr.isNone || path.fileName.isNone
        || path.components.contains .parentDir then
      .error (fail "拖入项必须是绝对 UTF-8 文件或目录路径，不支持父目录跳转")
    else validateFrom bytes rest

variable (paths : List PathBuf)

def validatePaths : Except Error Unit :=
  if paths = [] ∨ paths.length > maxPaths then .error (fail "每次拖入 1..128 个文件或目录")
  else validateFrom 0 paths

/-- The loop of `normalize`, with what it has seen. -/
def uniqueFrom (seen : List (List Component)) : List PathBuf → List (List Component)
  | [] => []
  | path :: rest =>
    if path.components ∈ seen then uniqueFrom seen rest
    else path.components :: uniqueFrom (path.components :: seen) rest

def normalize : Except Error (List (List Component)) := do
  validatePaths paths
  return uniqueFrom [] paths

/-- What `symlink_metadata` finds; a reparse point counts as a link. -/
inductive FileKind where
  | link
  | file
  | directory
  | other

inductive Selection where
  | file (path : List Component)
  | directory (path : List Component)

def Selection.path : Selection → List Component
  | .file path | .directory path => path

def Selection.directory? : Selection → Option (List Component)
  | .file _ => none
  | .directory path => some path

/-- The metadata of a path, or none if there are none. -/
abbrev Metadata := List Component → Option FileKind

def selectionOf (metadata : Metadata) (path : List Component) : Except Error Selection :=
  match metadata path with
  | none => .error (fail "拖入项已移走或无法访问；本批次尚未加入任务")
  | some .link => .error (fail "拖入项不能是链接或 reparse point；本批次尚未加入任务")
  | some .file => .ok (.file path)
  | some .directory => .ok (.directory path)
  | some .other => .error (fail "拖入项必须是普通文件或目录；本批次尚未加入任务")

def selectAll (metadata : Metadata) : List (List Component) → Except Error (List Selection)
  | [] => .ok []
  | path :: rest => do
    let selection ← selectionOf metadata path
    let selections ← selectAll metadata rest
    return selection :: selections

/-- The test of `retain`. -/
def retains (directories : List (List Component)) (selection : Selection) : Bool :=
  !directories.any fun parent => selection.path != parent && parent.isPrefixOf selection.path

/-- `classify`.  A path is looked up once, so the file system may change in between. -/
def classify (metadata : Metadata) (paths : List PathBuf) : Except Error (List Selection) := do
  let unique ← normalize paths
  let selections ← selectAll metadata unique
  return selections.filter (retains (selections.filterMap Selection.directory?))

/-! ## The two passes -/

theorem uniqueFrom_spec (seen : List (List Component)) :
    (uniqueFrom seen paths).Sublist (paths.map PathBuf.components) ∧
      (uniqueFrom seen paths).Nodup ∧ ∀ path, path ∈ uniqueFrom seen paths ↔
        path ∈ paths.map PathBuf.components ∧ path ∉ seen := by
  induction paths generalizing seen with
  | nil => simp [uniqueFrom]
  | cons path rest ih =>
    rw [uniqueFrom, List.map_cons]
    split <;> grind

section Passes

variable {metadata : Metadata} {paths : List PathBuf} {selections : List Selection}

theorem selectAll_ok {unique : List (List Component)}
    (h : selectAll metadata unique = .ok selections) : selections.map Selection.path = unique ∧
      ∀ s ∈ selections, selectionOf metadata s.path = .ok s := by
  induction unique generalizing selections with
  | nil =>
    cases h
    exact ⟨rfl, nofun⟩
  | cons path rest ih =>
    obtain ⟨s, hs, h⟩ := bind_eq_ok.mp h
    obtain ⟨others, hothers, h⟩ := bind_eq_ok.mp h
    cases h
    have hpath : s.path = path := by grind [selectionOf, Selection.path]
    grind

theorem retains_iff {s : Selection} : retains (selections.filterMap Selection.directory?) s = true ↔
      ∀ parent, .directory parent ∈ selections → parent <+: s.path → s.path = parent := by
  have hmem : ∀ parent, parent ∈ selections.filterMap Selection.directory? ↔
      .directory parent ∈ selections := by
    intro parent
    rw [List.mem_filterMap]
    refine ⟨?_, fun h => ⟨_, h, rfl⟩⟩
    rintro ⟨_ | path, hs, heq⟩ <;> cases heq
    exact hs
  simp only [retains, Bool.not_eq_true', List.any_eq_false, hmem, Bool.and_eq_true, bne_iff_ne,
    List.isPrefixOf_iff_prefix, not_and', ne_eq, not_not]

/-- The path is the item or lies in the directory. -/
def Selection.Covers (path : List Component) : Selection → Prop
  | .file item => path = item
  | .directory item => item <+: path

theorem Selection.Covers.under {path : List Component} {s : Selection} (h : s.Covers path) :
    s.path <+: path := by
  cases s with
  | file => exact h ▸ List.prefix_rfl
  | directory => exact h

end Passes

/-- **Dropped paths.**  What is classified keeps the order of the dropped paths; no item is or
    lies in another retained directory; and every dropped path is, or lies in, exactly one
    retained item. -/
theorem dropped_paths_covered (metadata : Metadata) (paths : List PathBuf)
    (selections : List Selection) (h : classify metadata paths = .ok selections) :
    (selections.map Selection.path).Sublist (paths.map PathBuf.components) ∧
      (selections.map Selection.path).Nodup ∧
      (∀ s ∈ selections, ∀ parent, .directory parent ∈ selections → s ≠ .directory parent →
        ¬ parent <+: s.path) ∧
      ∀ path ∈ paths, ∃! s, s ∈ selections ∧ s.Covers path.components := by
  obtain ⟨unique, hnormalize, h⟩ := bind_eq_ok.mp h
  obtain ⟨_, -, hunique⟩ := bind_eq_ok.mp hnormalize
  cases hunique
  obtain ⟨all, hall, h⟩ := bind_eq_ok.mp h
  obtain ⟨hpaths, hkinds⟩ := selectAll_ok hall
  obtain ⟨hsub, hnodup, hmem⟩ := uniqueFrom_spec paths []
  rw [← hpaths] at hsub hnodup hmem
  have hfilter : (selections.map Selection.path).Sublist (all.map Selection.path) := by
    rw [← Except.ok.inj h]
    exact List.filter_sublist.map _
  have hretained : ∀ s, s ∈ selections ↔ s ∈ all ∧
      ∀ parent, .directory parent ∈ all → parent <+: s.path → s.path = parent := by
    intro s
    rw [← Except.ok.inj h, List.mem_filter, retains_iff]
  have hsame : ∀ s ∈ all, ∀ t ∈ all, s.path = t.path → s = t := by grind
  have hapart : ∀ s ∈ selections, ∀ parent, .directory parent ∈ selections → parent <+: s.path →
      s = .directory parent := by
    intro s hs parent hparent hle
    have hparent := ((hretained _).mp hparent).1
    obtain ⟨hs, hout⟩ := (hretained s).mp hs
    exact hsame s hs _ hparent (hout parent hparent hle)
  refine ⟨hfilter.trans hsub, hnodup.sublist hfilter,
    fun s hs parent hparent hne hle => hne (hapart s hs parent hparent hle), fun path hpath => ?_⟩
  -- An item that is not retained has a shorter directory above it.
  have hcovered : ∀ s ∈ all, s.Covers path.components →
      ∃ t ∈ selections, t.Covers path.components := by
    intro s hs hcovers
    induction hlength : s.path.length using Nat.strong_induction_on generalizing s with
    | _ n ih =>
    by_cases hin : s ∈ selections
    · exact ⟨s, hin, hcovers⟩
    obtain ⟨parent, hparent, hle, hne⟩ : ∃ parent, .directory parent ∈ all ∧
        parent <+: s.path ∧ s.path ≠ parent := by grind
    have hshort : parent.length < s.path.length :=
      lt_of_le_of_ne hle.length_le fun heq => hne (hle.eq_of_length heq).symm
    exact ih _ (hlength ▸ hshort) (.directory parent) hparent (hle.trans hcovers.under) rfl
  obtain ⟨s, hs, heq⟩ := List.mem_map.mp
    ((hmem path.components).mpr ⟨List.mem_map_of_mem hpath, nofun⟩)
  obtain ⟨t, ht, hcovers⟩ := hcovered s hs (by cases s <;> grind [Selection.Covers, Selection.path])
  refine ⟨t, ⟨ht, hcovers⟩, ?_⟩
  rintro u ⟨hu, hcovers'⟩
  -- Of two prefixes of one path, one is a prefix of the other.
  have hle := List.prefix_or_prefix_of_prefix hcovers.under hcovers'.under
  cases t <;> cases u <;> grind [Selection.Covers, Selection.path]

namespace Sample

def metadata (path : List Component) : Option FileKind :=
  if path.length = 2 then some .directory else some .file

def inner : PathBuf := ⟨[0x2f, 0x61, 0x2f, 0x2f, 0x62]⟩

def outer : PathBuf := ⟨[0x2f, 0x61]⟩

end Sample

open Sample in
/-- The file `/a//b` lies in the directory `/a`. -/
theorem dropped_paths_covered_nested :
    ∃ selections, classify metadata [inner, outer] = .ok selections ∧ selections.length = 1 ∧
      ∃! s, s ∈ selections ∧ s.Covers inner.components := by
  have hclassify : classify metadata [inner, outer] = .ok [.directory outer.components] :=
    rfl
  exact ⟨_, hclassify, rfl, (dropped_paths_covered _ _ _ hclassify).2.2.2 inner (.head _)⟩

end P2pFile.Node.DropSend
