/-
  P2pFile.Storage.SecureFs

  Resolving a received relative path below the receive root (`src/storage/secure_fs.rs`),
  and where the object that is opened or made can be.

  A file system is a finite map from locations to nodes; a location is the list of the
  stored names that lead to it.  A handle of an open directory is its location.  The
  calls read a name as the system does: pieces between slashes, `.` and `..`, an absolute
  name from the top, links in the middle of a name are followed to wherever they lead.
  The calls of `cap_std` refuse some of this, and never do more.

  How a file system compares a name with a stored one is a parameter: exactly, or up to
  case and normal form.  So are the tables of Unicode that `name_key` uses.
-/

import Mathlib.Data.List.Induction
import P2pFile.Storage.PartialDownload
import P2pFile.Storage.RelativePath

namespace P2pFile.Storage

open Lib Protocol
open String (ofList)

/-! ## File systems -/

/-- A stored name: a text, or bytes that are not UTF-8. -/
inductive EntryName where
  | text (name : String)
  | raw (bytes : List UInt8)
  deriving DecidableEq

abbrev Location := List EntryName

inductive FsNode where
  | dir
  | file
  /-- A symbolic link and the location it leads to. -/
  | link (target : Location)
  /-- A device, a pipe or a socket. -/
  | special
  deriving DecidableEq

structure FileSystem where
  nodes : List (Location × FsNode)
  /-- The links that have been followed. -/
  followed : List Location

/-- A name that is neither empty nor a step to the directory itself or to its parent, and
    in which there is no separator. -/
def Plain (name : List Char) : Prop := '/' ∉ name ∧ name ≠ [] ∧ name ≠ ['.'] ∧ name ≠ ['.', '.']

instance (name : List Char) : Decidable (Plain name) :=
  inferInstanceAs (Decidable ('/' ∉ name ∧ name ≠ [] ∧ name ≠ ['.'] ∧ name ≠ ['.', '.']))

/-- What `Path::file_name` returns. -/
abbrev FileName := { name : String // Plain name.toList }

/-- The tables of Unicode. -/
structure Unicode where
  /-- The composed normal form. -/
  nfc : List Char → List Char
  toUppercase : Char → List Char
  toLowercase : Char → List Char

/-- `secure_fs::name_key`. -/
def nameKey (unicode : Unicode) (name : String) : String :=
  ofList (unicode.nfc (((unicode.nfc name.toList).flatMap unicode.toUppercase).flatMap
    unicode.toLowercase))

/-- How names are compared. -/
structure NameRules where
  unicode : Unicode
  /-- Whether the file system finds the stored name for the name that is asked for. -/
  same : String → EntryName → Bool
  /-- A name finds itself. -/
  same_self : ∀ name, same name (.text name) = true

/-- The key that `reject_alias` compares. -/
abbrev NameRules.key (rules : NameRules) : String → String := nameKey rules.unicode

namespace FileSystem

def node (fs : FileSystem) (loc : Location) : Option FsNode := fs.nodes.lookup loc

/-- The last name of a location below `loc`. -/
def entryOf (loc : Location) (p : Location × FsNode) : Option EntryName :=
  if p.1.dropLast = loc then p.1.getLast? else none

/-- The entries of a directory. -/
def entries (fs : FileSystem) (loc : Location) : List EntryName := fs.nodes.filterMap (entryOf loc)

variable (rules : NameRules) (fs : FileSystem) (loc : Location) (name : String)

def lookup : Option EntryName := (fs.entries loc).find? (rules.same name)

/-- Where one piece of a name leads from a directory. -/
def enter (piece : List Char) : Option Location :=
  if piece = [] ∨ piece = ['.'] then some loc
  else if piece = ['.', '.'] then some loc.dropLast
  else (fs.lookup rules loc (ofList piece)).map fun entry => loc ++ [entry]

/-- Where the pieces of a name lead, and the links on the way.  A link at the end is not
    followed. -/
def walk (loc : Location) : List (List Char) → Option (Location × List Location)
  | [] => some (loc, [])
  | [piece] => (fs.enter rules loc piece).map fun here => (here, [])
  | piece :: rest =>
    match fs.enter rules loc piece with
    | none => none
    | some here =>
      match fs.node here with
      | some .dir => walk here rest
      | some (.link target) => (walk target rest).map fun r => (r.1, here :: r.2)
      | _ => none

/-- Where a name leads from an open directory; an absolute name starts at the top. -/
def reach : Option (Location × List Location) :=
  match splitAt '/' name.toList with
  | [] :: next :: rest => fs.walk rules [] (next :: rest)
  | pieces => fs.walk rules loc pieces

/-- The location of a new entry with the given name. -/
def newEntry : Option (Location × List Location) :=
  let pieces := splitAt '/' name.toList
  let start := if pieces.length > 1 ∧ pieces.head? = some [] then [] else loc
  match fs.walk rules start (pieces.dropLast), pieces.getLast? with
  | some (parent, links), some last =>
    match fs.node parent with
    | some .dir => some (parent ++ [.text (ofList last)], links)
    | some (.link target) =>
      if fs.node target = some .dir then
        some (target ++ [.text (ofList last)], links ++ [parent])
      else none
    | _ => none
  | _, _ => none

def follow (links : List Location) : FileSystem := { fs with followed := fs.followed ++ links }

def insert (node : FsNode) : FileSystem :=
  { fs with nodes := fs.nodes ++ [(loc, node)] }

end FileSystem

/-! ## Calls -/

abbrev FsCall := Prog FileSystem Error

variable (rules : NameRules)

/-- A call that changes nothing. -/
def fsTouch : FsCall Unit := .atomic fun fs => .ok ((), fs)

variable (base : Location)

/-- `std::fs::symlink_metadata`, from where the parent of the path leads. -/
def nodeMetadata (name : String) : FsCall FsNode :=
  .atomic fun fs =>
    match (fs.lookup rules base name).bind fun entry => fs.node (base ++ [entry]) with
    | none => .error (.io .notFound "No such file or directory")
    | some kind => .ok (kind, fs)

variable (loc : Location) (name : String)

/-- `Dir::open_dir_nofollow`. -/
def openDirNofollow : FsCall Location :=
  .atomic fun fs =>
    match fs.reach rules loc name with
    | none => .error (.io .notFound "No such file or directory")
    | some (here, links) =>
      if fs.node here = some .dir then .ok (here, fs.follow links)
      else .error (.io .other "Not a directory")

/-- `Dir::create_dir`. -/
def createDir : FsCall Unit :=
  .atomic fun fs =>
    match fs.reach rules loc name, fs.newEntry rules loc name with
    | some _, _ => .error (.io .alreadyExists "File exists")
    | none, none => .error (.io .notFound "No such file or directory")
    | none, some (here, links) => .ok ((), (fs.insert here .dir).follow links)

/-- `Dir::open_with` without following a link at the end: what is opened, and its kind.
    A new file needs `write`. -/
def openWith (write create : Bool) : FsCall (Location × FsNode) :=
  .atomic fun fs =>
    if create = true ∧ write = false then .error (.io .other "invalid input parameter")
    else
      match fs.reach rules loc name with
      | some (here, links) =>
        match fs.node here with
        | some .dir =>
          if write then .error (.io .other "Is a directory")
          else .ok ((here, .dir), fs.follow links)
        | some (.link _) => .error (.io .other "Too many levels of symbolic links")
        | some kind => .ok ((here, kind), fs.follow links)
        | none => .error (.io .notFound "No such file or directory")
      | none =>
        match create, fs.newEntry rules loc name with
        | true, some (here, links) =>
          .ok ((here, .file), (fs.insert here .file).follow links)
        | _, _ => .error (.io .notFound "No such file or directory")

/-! ## `secure_fs` -/

/-- The loop of `reject_alias`. -/
def scanAliases (name : String) : Nat → List EntryName → Except Error Unit
  | _, [] => .ok ()
  | count, entry :: rest =>
    if count ≥ 65536 then .error (.protocol "目录条目超过扫描上限")
    else
      match entry with
      | .raw _ => .error (.protocol "目录包含不支持的路径编码")
      | .text existing =>
        if existing ≠ name ∧ rules.key existing = rules.key name then
          .error (.protocol "路径存在大小写或 Unicode 规范化冲突")
        else scanAliases name (count + 1) rest

def rejectAlias : FsCall Unit := do
  let entries ← .atomic fun fs => .ok (fs.entries loc, fs)
  .ofExcept (scanAliases rules name 0 entries)

/-- `secure_fs::root`; `base` is where the parent of the chosen path leads. -/
def rootDir (name : FileName) : FsCall Location := do
  let kind ← nodeMetadata rules base name
  if kind ≠ .dir then .throw (.protocol "目录或接收根不能是链接")
  fsTouch -- `Dir::open_ambient_dir`
  openDirNofollow rules base name

/-- `secure_fs::sync`. -/
def syncDir : FsCall Unit := do
  fsTouch
  fsTouch

def child (create : Bool) : FsCall Location := do
  rejectAlias rules loc name
  if create then
    match ← (createDir rules loc name).attempt with
    | .ok () => syncDir
    | .error err => if hasKind .alreadyExists err then pure () else .throw err
  openDirNofollow rules loc name

/-- The loop of `parent` over the directories of the path. -/
def descend (create : Bool) (loc : Location) : List (List Char) → FsCall Location
  | [] => pure loc
  | part :: rest => do
    let next ← child rules loc (ofList part) create
    descend create next rest

def parent (root : Location) (relative : String) (create : Bool) : FsCall (Location × String) := do
  .ofExcept (validateRelativePath relative)
  fsTouch -- `try_clone`
  let dir ← descend rules create root (components relative).dropLast
  let name := lastComponent relative
  rejectAlias rules dir name
  return (dir, name)

/-- `secure_fs::open`. -/
def openIn (write create : Bool) : FsCall Location := do
  let (here, kind) ← openWith rules loc name write create
  fsTouch -- `metadata`
  if kind ≠ .file then .throw (.protocol "存储条目不是普通文件")
  return here

/-- What is made of a received path. -/
inductive Target where
  | file (write create : Bool)
  | dir (create : Bool)

def Target.kind : Target → FsNode
  | .file _ _ => .file
  | .dir _ => .dir

/-- A received path is resolved: `parent`, and then `open` or `child`. -/
def resolve (root : Location) (relative : String) (makeParents : Bool) (target : Target) :
    FsCall Location := do
  let (dir, name) ← parent rules root relative makeParents
  match target with
  | .file write create => openIn rules dir name write create
  | .dir create => child rules dir name create

/-- The receive root is opened, and a received path is resolved below it. -/
def receive (name : FileName) (relative : String) (makeParents : Bool) (target : Target) :
    FsCall (Location × Location) := do
  let root ← rootDir rules base name
  let here ← resolve rules root relative makeParents target
  return (root, here)

/-! ## Pieces of a name -/

variable {chars : List Char}

theorem splitAt_of_not_mem {sep : Char} (h : sep ∉ chars) : splitAt sep chars = [chars] := by
  induction chars with
  | nil => rfl
  | cons ch rest ih =>
    rw [List.mem_cons, not_or] at h
    unfold splitAt
    rw [if_neg (fun heq => h.1 heq.symm), ih h.2]

theorem not_mem_of_mem_splitAt {sep : Char} {piece : List Char} (h : piece ∈ splitAt sep chars) :
    sep ∉ piece := by
  induction chars generalizing piece with
  | nil =>
    obtain rfl : piece = [] := by simpa [splitAt] using h
    exact List.not_mem_nil
  | cons ch rest ih =>
    unfold splitAt at h
    split at h
    · rcases List.mem_cons.mp h with rfl | h
      · exact List.not_mem_nil
      · exact ih h
    rename_i hne
    -- the character goes in front of the first piece
    cases hs : splitAt sep rest with
    | nil =>
      rw [hs] at h
      obtain rfl : piece = [ch] := by simpa using h
      exact fun hmem => hne (List.mem_singleton.mp hmem).symm
    | cons first others =>
      rw [hs] at h
      rcases List.mem_cons.mp h with rfl | h
      · intro hmem
        rcases List.mem_cons.mp hmem with heq | hmem
        · exact hne heq.symm
        · exact ih (hs ▸ (.head _)) hmem
      · exact ih (hs ▸ .tail _ h)

variable (component : List Char)

/-- The stored name of a component. -/
def entryText : EntryName := .text (ofList component)

/-- The program's own directory below the receive root. -/
def privateEntry : EntryName := .text ".p2p-desktop"

/-- The name of that directory, in any case of its letters. -/
def isPrivate : Bool := component.map Char.toLower == ".p2p-desktop".toList

theorem validateComponents_ok {pieces : List (List Char)} (h : validateComponents pieces = .ok ()) :
    ∀ piece ∈ pieces, componentRefused piece = false := by
  induction pieces with
  | nil => exact fun piece hmem => absurd hmem List.not_mem_nil
  | cons first rest ih =>
    unfold validateComponents at h
    split at h
    · cases h
    split at h
    · cases h
    rename_i hfirst _
    intro piece hmem
    rcases List.mem_cons.mp hmem with rfl | hmem
    · exact Bool.not_eq_true _ ▸ hfirst
    · exact ih h piece hmem

/-- What the string check says about each component. -/
theorem validateRelativePath_ok {relative : String} (h : validateRelativePath relative = .ok ()) :
    ∀ piece ∈ components relative, Plain piece ∧ isPrivate piece = false := by
  intro piece hmem
  unfold validateRelativePath at h
  split at h
  · cases h
  have href := validateComponents_ok h piece hmem
  have hsep : '/' ∉ piece := not_mem_of_mem_splitAt hmem
  simp only [componentRefused, Bool.or_eq_false_iff, beq_eq_false_iff_ne] at href
  obtain ⟨⟨⟨⟨⟨⟨hprivate, hempty⟩, hdot⟩, hdots⟩, -⟩, -⟩, -⟩ := href
  exact ⟨⟨hsep, hempty, hdot, hdots⟩, beq_eq_false_iff_ne.mpr hprivate⟩

theorem components_ne_nil (relative : String) : components relative ≠ [] := by
  unfold components
  cases relative.toList with
  | nil => simp [splitAt]
  | cons ch rest =>
    unfold splitAt
    split
    · simp
    · split <;> simp

/-! ## Entries and nodes -/

namespace FileSystem

variable {rules} {fs : FileSystem}

@[simp] theorem follow_nil (fs : FileSystem) : fs.follow [] = fs := by
  simp [follow]

theorem entryOf_concat (loc dir : Location) (entry : EntryName) (node : FsNode) :
    entryOf loc (dir ++ [entry], node) = if dir = loc then some entry else none := by
  simp [entryOf]

theorem entries_insert (loc dir : Location) (entry : EntryName) (node : FsNode) :
    (fs.insert (dir ++ [entry]) node).entries loc =
      fs.entries loc ++ if dir = loc then [entry] else [] := by
  have hnew : [(dir ++ [entry], node)].filterMap (entryOf loc) =
      if dir = loc then [entry] else [] := by
    by_cases h : dir = loc <;> simp [entryOf_concat, h]
  show (fs.nodes ++ [(dir ++ [entry], node)]).filterMap (entryOf loc) = _
  rw [List.filterMap_append, hnew]
  rfl

variable {loc : Location} {node kind : FsNode}

theorem node_insert_of_some {p : Location} (h : fs.node loc = some kind) :
    (fs.insert p node).node loc = some kind := by
  show (fs.nodes ++ [(p, node)]).lookup loc = some kind
  rw [List.lookup_append]
  have hold : fs.nodes.lookup loc = some kind := h
  rw [hold]
  rfl

theorem node_insert_self (h : fs.node loc = none) : (fs.insert loc node).node loc = some node := by
  show (fs.nodes ++ [(loc, node)]).lookup loc = some node
  rw [List.lookup_append]
  have hold : fs.nodes.lookup loc = none := h
  rw [hold]
  exact List.lookup_cons_self

theorem mem_of_lookup_eq_some {nodes : List (Location × FsNode)}
    (h : nodes.lookup loc = some kind) : (loc, kind) ∈ nodes := by
  obtain ⟨l₁, l₂, hnodes, -⟩ := List.lookup_eq_some_iff.mp h
  rw [hnodes]
  simp

/-- A node is an entry of the directory above it. -/
theorem mem_entries_of_node {entry : EntryName} (h : fs.node (loc ++ [entry]) = some kind) :
    entry ∈ fs.entries loc := by
  refine List.mem_filterMap.mpr ⟨(loc ++ [entry], kind), mem_of_lookup_eq_some h, ?_⟩
  rw [entryOf_concat, if_pos rfl]

/-- A name that is not found is free. -/
theorem node_eq_none_of_lookup {name : String} (h : fs.lookup rules loc name = none) :
    fs.node (loc ++ [.text name]) = none := by
  by_contra hne
  obtain ⟨kind, hkind⟩ := Option.ne_none_iff_exists'.mp hne
  have hmiss := List.find?_eq_none.mp h (.text name) (mem_entries_of_node hkind)
  exact hmiss (rules.same_self name)

variable {piece : List Char} (hpiece : Plain piece)

include hpiece

theorem enter_plain :
    fs.enter rules loc piece = (fs.lookup rules loc (ofList piece)).map fun entry =>
      loc ++ [entry] := by
  unfold enter
  rw [if_neg (not_or.mpr ⟨hpiece.2.1, hpiece.2.2.1⟩), if_neg hpiece.2.2.2]

theorem pieces_plain : splitAt '/' (ofList piece).toList = [piece] := by
  rw [String.toList_ofList]
  exact splitAt_of_not_mem hpiece.1

/-- A plain name leads to the entry that the file system finds for it, over no link. -/
theorem reach_plain :
    fs.reach rules loc (ofList piece) = (fs.lookup rules loc (ofList piece)).map
      fun entry => (loc ++ [entry], []) := by
  have hwalk : fs.reach rules loc (ofList piece) =
      (fs.enter rules loc piece).map fun here => (here, []) := by
    unfold reach
    rw [pieces_plain hpiece]
    cases piece <;> rfl
  rw [hwalk, enter_plain hpiece, Option.map_map]
  rfl

theorem newEntry_plain (hloc : fs.node loc = some .dir) :
    fs.newEntry rules loc (ofList piece) = some (loc ++ [entryText piece], []) := by
  unfold newEntry
  rw [pieces_plain hpiece]
  simp [walk, hloc, entryText]

end FileSystem

/-! ## Where a path leads -/

namespace FileSystem

variable (fs : FileSystem)

/-- What the file system has for a component: the entry that it finds, or a new one. -/
def found (component : List Char) : EntryName :=
  (fs.lookup rules loc (ofList component)).getD (entryText component)

/-- Where the components lead, one after the other. -/
def resolution (path : List (List Char)) : Location :=
  path.foldl (fun loc component => loc ++ [fs.found rules loc component]) loc

/-- Each component finds nothing, or an entry with its key, in the directory that the
    components before it spell. -/
def recognises (loc : Location) : List (List Char) → Bool
  | [] => true
  | component :: rest =>
    (match fs.lookup rules loc (ofList component) with
      | some (.text stored) => rules.key stored == rules.key (ofList component)
      | _ => true) && recognises (loc ++ [entryText component]) rest

variable {rules fs loc}

theorem resolution_snoc (path : List (List Char)) (component : List Char) :
    fs.resolution rules loc (path ++ [component]) = fs.resolution rules loc path ++
      [fs.found rules (fs.resolution rules loc path) component] := by
  unfold resolution
  rw [List.foldl_concat]

theorem prefix_resolution (loc : Location) (path : List (List Char)) :
    loc <+: fs.resolution rules loc path := by
  induction path using List.reverseRecOn with
  | nil => exact List.prefix_refl _
  | append_singleton path component ih =>
    rw [resolution_snoc]
    exact ih.trans (List.prefix_append _ _)

theorem recognises_append (path rest : List (List Char)) : fs.recognises rules loc (path ++ rest) =
    (fs.recognises rules loc path && fs.recognises rules (loc ++ path.map entryText) rest) := by
  induction path generalizing loc with
  | nil => rw [List.map_nil, List.append_nil, recognises, Bool.true_and, List.nil_append]
  | cons component path ih =>
    rw [List.cons_append, recognises, recognises, ih, Bool.and_assoc, List.map_cons,
      List.append_assoc, List.singleton_append]

/-- What is found depends on the entries only. -/
theorem lookup_congr {fs' : FileSystem} (h : fs'.entries loc = fs.entries loc) (name : String) :
    fs'.lookup rules loc name = fs.lookup rules loc name := by
  unfold lookup
  rw [h]

end FileSystem

/-! ## One name in an open directory -/

/-- No entry of the directory has the key of the name under another spelling. -/
def Unaliased (loc : Location) (name : String) (fs : FileSystem) : Prop :=
  ∀ entry ∈ fs.entries loc,
    ∃ stored, entry = .text stored ∧ (rules.key stored = rules.key name → stored = name)

variable {rules}

variable {name : String} {loc : Location} {fs : FileSystem}

/-- Where nothing has an alias, a path leads to the object that it spells exactly if each of
    its components is recognised. -/
theorem resolution_eq_iff {path : List (List Char)}
    (halias : ∀ dirs component rest, path = dirs ++ component :: rest →
      Unaliased rules (fs.resolution rules loc dirs) (ofList component) fs) :
    fs.resolution rules loc path = loc ++ path.map entryText ↔
      fs.recognises rules loc path = true := by
  induction path using List.reverseRecOn with
  | nil => simp [FileSystem.resolution, FileSystem.recognises]
  | append_singleton path component ih =>
    have ih := ih fun dirs c rest heq => halias dirs c (rest ++ [component]) (by simp [heq])
    have hlast := halias path component [] rfl
    rw [FileSystem.resolution_snoc, FileSystem.recognises_append, Bool.and_eq_true, ← ih,
      List.map_append, ← List.append_assoc]
    constructor
    · intro heq
      obtain ⟨hpath, hfound⟩ := List.append_inj' heq rfl
      refine ⟨hpath, ?_⟩
      rw [hpath] at hfound
      unfold FileSystem.found at hfound
      unfold FileSystem.recognises
      cases hlookup : fs.lookup rules (loc ++ path.map entryText) (ofList component) with
      | none => rfl
      | some entry =>
        rw [hlookup] at hfound
        obtain rfl : entry = entryText component := List.singleton_inj.mp hfound
        simp [entryText, FileSystem.recognises]
    · rintro ⟨hpath, hkey⟩
      rw [hpath] at hlast ⊢
      refine congrArg _ (congrArg (fun entry => [entry]) ?_)
      unfold FileSystem.found
      cases hlookup : fs.lookup rules (loc ++ path.map entryText) (ofList component) with
      | none => rfl
      | some entry =>
        obtain ⟨stored, rfl, hsame⟩ := hlast entry (List.mem_of_find?_eq_some hlookup)
        unfold FileSystem.recognises at hkey
        rw [hlookup] at hkey
        dsimp only at hkey
        rw [Bool.and_eq_true, beq_iff_eq] at hkey
        rw [Option.getD_some, hsame hkey.1]
        rfl

theorem scanAliases_ok {count : Nat} {entries : List EntryName}
    (h : scanAliases rules name count entries = .ok ()) : ∀ entry ∈ entries,
      ∃ stored, entry = .text stored ∧ (rules.key stored = rules.key name → stored = name) := by
  induction entries generalizing count with
  | nil => exact fun entry hmem => absurd hmem List.not_mem_nil
  | cons first rest ih =>
    unfold scanAliases at h
    split at h
    · cases h
    cases first with
    | raw bytes => cases h
    | text stored =>
      dsimp only at h
      split at h
      · cases h
      rename_i hkey
      intro entry hmem
      rcases List.mem_cons.mp hmem with rfl | hmem
      · refine ⟨stored, rfl, fun heq => ?_⟩
        by_contra hne
        exact hkey ⟨hne, heq⟩
      · exact ih h entry hmem

/-- `here` is the object that the components name below the root: every directory on the
    way is one, under exactly the spelling of its component. -/
structure Located (links : List Location) (root : Location) (path : List (List Char))
    (kind : FsNode) (here : Location) (fs : FileSystem) : Prop where
  spelled : here = root ++ path.map entryText
  dirs : ∀ k < path.length, fs.node (root ++ (path.take k).map entryText) = some .dir
  kind_eq : fs.node here = some kind
  /-- No further link has been followed. -/
  followed_eq : fs.followed = links

/-- `here` is where the components have led from the root on the file system `start`: over
    directories, and without an alias for a component. -/
structure Walked (rules : NameRules) (start : FileSystem) (root : Location)
    (path : List (List Char)) (kind : FsNode) (here : Location) (fs : FileSystem) : Prop where
  reached : here = start.resolution rules root path
  steps : ∀ dirs component rest, path = dirs ++ component :: rest →
    fs.node (start.resolution rules root dirs) = some .dir ∧
      Unaliased rules (start.resolution rules root dirs) (ofList component) start
  kind_eq : fs.node here = some kind
  followed_eq : fs.followed = start.followed

section Walked

variable {start : FileSystem} {root loc : Location} {path : List (List Char)}
  {component : List Char} {kind : FsNode} {fs : FileSystem}

theorem Walked.snoc (h : Walked rules start root path .dir loc fs)
    (halias : Unaliased rules loc (ofList component) start)
    (hkind : fs.node (loc ++ [start.found rules loc component]) = some kind) :
    Walked rules start root (path ++ [component]) kind
      (loc ++ [start.found rules loc component]) fs where
  reached := by rw [FileSystem.resolution_snoc, ← h.reached]
  steps := by
    intro dirs c rest heq
    rcases List.eq_nil_or_concat' rest with rfl | ⟨rest', last, rfl⟩
    · obtain ⟨rfl, hc⟩ := List.append_inj' heq rfl
      obtain rfl := List.singleton_inj.mp hc
      rw [← h.reached]
      exact ⟨h.kind_eq, halias⟩
    · rw [← List.cons_append, ← List.append_assoc] at heq
      exact h.steps dirs c rest' (List.append_inj' heq rfl).1
  kind_eq := hkind
  followed_eq := h.followed_eq

theorem Walked.insert (h : Walked rules start root path kind loc fs) (p : Location)
    (node : FsNode) : Walked rules start root path kind loc (fs.insert p node) where
  reached := h.reached
  steps := fun dirs c rest heq =>
    (h.steps dirs c rest heq).imp_left FileSystem.node_insert_of_some
  kind_eq := FileSystem.node_insert_of_some h.kind_eq
  followed_eq := h.followed_eq

/-- What was reached is what the path spells, exactly if its components are recognised. -/
theorem Walked.located_iff (h : Walked rules start root path kind loc fs) :
    Located start.followed root path kind loc fs ↔ start.recognises rules root path = true := by
  have halias : ∀ dirs component rest, path = dirs ++ component :: rest →
      Unaliased rules (start.resolution rules root dirs) (ofList component) start :=
    fun dirs c rest heq => (h.steps dirs c rest heq).2
  rw [← resolution_eq_iff halias]
  constructor
  · intro hlocated
    rw [← h.reached]
    exact hlocated.spelled
  · intro hspelled
    refine ⟨h.reached.trans hspelled, fun k hk => ?_, h.kind_eq, h.followed_eq⟩
    have hsplit : path = path.take k ++ path[k] :: path.drop (k + 1) := by
      rw [← List.drop_eq_getElem_cons hk, List.take_append_drop]
    have hprefix : start.resolution rules root (path.take k) =
        root ++ (path.take k).map entryText := by
      rw [resolution_eq_iff halias, hsplit, FileSystem.recognises_append, Bool.and_eq_true]
        at hspelled
      refine (resolution_eq_iff fun dirs c rest heq => ?_).mpr hspelled.1
      exact halias dirs c (rest ++ path.drop k) (by
        rw [← List.cons_append, ← List.append_assoc, ← heq, List.take_append_drop])
    rw [← hprefix]
    exact (h.steps _ _ _ hsplit).1

theorem entryText_private {component : List Char} (h : entryText component = privateEntry) :
    isPrivate component = true := by
  have hname : ofList component = ".p2p-desktop" := EntryName.text.inj h
  have hchars : component = ".p2p-desktop".toList := by
    rw [← hname, String.toList_ofList]
  rw [hchars]
  decide

/-- A path without the private name stays outside of the private directory. -/
theorem Located.outside {links : List Location} (h : Located links root path kind loc fs)
    (hpath : ∀ component ∈ path, isPrivate component = false) :
    ∀ tail, loc ≠ root ++ privateEntry :: tail := by
  intro tail heq
  have hspelled : path.map entryText = privateEntry :: tail :=
    List.append_cancel_left (h.spelled.symm.trans heq)
  obtain ⟨first, rest, hcons, hfirst, -⟩ := List.map_eq_cons_iff.mp hspelled
  have hmem : first ∈ path := hcons ▸ (.head _)
  have hclash := hpath first hmem
  rw [entryText_private hfirst] at hclash
  cases hclash

end Walked

/-! ## The programs -/

/-- What holds when a program returns a value. -/
def Gives {α : Type} (P : FileSystem → Prop) (p : FsCall α) (Q : α → FileSystem → Prop) : Prop :=
  Prog.Triple P p Q (fun _ => True) (fun _ => True)

section Gives

variable {α β : Type} {P : FileSystem → Prop} {Q : α → FileSystem → Prop}

theorem Gives.bind {p : FsCall β} {f : β → FsCall α} {R : β → FileSystem → Prop}
    (hp : Gives P p R) (hf : ∀ b, Gives (R b) (f b) Q) : Gives P (p >>= f) Q :=
  Prog.Triple.bind hp hf

theorem Gives.pure {a : α} (h : ∀ fs, P fs → Q a fs) : Gives P (Pure.pure a) Q := Prog.Triple.pure h

theorem Gives.throw {err : Error} : Gives P (Prog.throw err) Q :=
  Prog.Triple.throw fun _ _ => trivial

theorem Gives.ofExcept {e : Except Error α} (h : ∀ a, e = .ok a → ∀ fs, P fs → Q a fs) :
    Gives P (Prog.ofExcept e) Q :=
  Prog.Triple.ofExcept h fun _ _ => trivial

theorem Gives.atomic {f : FileSystem → Except Error (α × FileSystem)}
    (h : ∀ fs a fs', P fs → f fs = .ok (a, fs') → Q a fs') : Gives P (Prog.atomic f) Q :=
  Prog.Triple.atomic (fun _ _ => trivial) (fun _ _ => trivial)
    fun fs a fs' hP hf => ⟨h fs a fs' hP hf, trivial⟩

theorem Gives.touch : Gives P fsTouch fun _ => P := by
  apply Gives.atomic
  intro fs _ fs' hP hf
  cases hf
  exact hP

end Gives

variable {start : FileSystem} {root loc : Location} {path : List (List Char)}
  {component : List Char}

theorem rejectAlias_spec {P : FileSystem → Prop} :
    Gives P (rejectAlias rules loc name) fun _ fs => P fs ∧ Unaliased rules loc name fs := by
  have hread : Gives P (Prog.atomic fun fs => .ok (fs.entries loc, fs) : FsCall _)
      fun entries fs => P fs ∧ entries = fs.entries loc := by
    apply Gives.atomic
    intro fs entries fs' hP hf
    cases hf
    exact ⟨hP, rfl⟩
  apply Gives.bind hread
  intro entries
  apply Gives.ofExcept
  rintro _ hscan fs ⟨hP, rfl⟩
  exact ⟨hP, scanAliases_ok hscan⟩

/-- A directory is open, and there is nothing new in it or below it. -/
structure Entered (rules : NameRules) (start : FileSystem) (root : Location)
    (path : List (List Char)) (loc : Location) (fs : FileSystem) : Prop
    extends Walked rules start root path .dir loc fs where
  untouched : ∀ tail, fs.entries (loc ++ tail) = start.entries (loc ++ tail)

/-- A directory is open, and a name is looked up in it: there is nothing new below, and only
    the name itself can be new. -/
structure Prepared (rules : NameRules) (start : FileSystem) (root : Location)
    (path : List (List Char)) (loc : Location) (component : List Char) (fs : FileSystem) : Prop
    extends Walked rules start root path .dir loc fs where
  unaliased : Unaliased rules loc (ofList component) start
  below : ∀ entry tail, fs.entries (loc ++ entry :: tail) = start.entries (loc ++ entry :: tail)
  found : ∀ entry, fs.lookup rules loc (ofList component) = some entry →
    entry = start.found rules loc component
  missing : fs.lookup rules loc (ofList component) = none →
    start.lookup rules loc (ofList component) = none

theorem Entered.prepared {fs : FileSystem} (h : Entered rules start root path loc fs)
    (halias : Unaliased rules loc (ofList component) fs) :
    Prepared rules start root path loc component fs := by
  have hentries : fs.entries loc = start.entries loc := by
    have hsame := h.untouched []
    rwa [List.append_nil] at hsame
  have hlookup : fs.lookup rules loc (ofList component) =
      start.lookup rules loc (ofList component) := FileSystem.lookup_congr hentries _
  refine ⟨h.toWalked, ?_, fun entry tail => h.untouched (entry :: tail), fun entry hentry => ?_,
    fun hnone => hlookup ▸ hnone⟩
  · unfold Unaliased at halias ⊢
    rwa [hentries] at halias
  · rw [hlookup] at hentry
    rw [FileSystem.found, hentry, Option.getD_some]

/-- After a directory has been made, and after it has not, the name can be opened. -/
theorem createDir_spec (hplain : Plain component) :
    Prog.Triple (Prepared rules start root path loc component)
      (createDir rules loc (ofList component))
      (fun _ => Prepared rules start root path loc component)
      (Prepared rules start root path loc component) (fun _ => True) := by
  apply Prog.Triple.atomic (fun _ h => h) (fun _ _ => trivial)
  rintro fs _ fs' hs hf
  rw [FileSystem.newEntry_plain hplain hs.kind_eq, FileSystem.reach_plain hplain] at hf
  cases hlookup : fs.lookup rules loc (ofList component) with
  | some entry =>
    rw [hlookup] at hf
    cases hf
  | none =>
    rw [hlookup] at hf
    cases hf
    rw [FileSystem.follow_nil]
    have hnew : (fs.insert (loc ++ [entryText component]) .dir).lookup rules loc
        (ofList component) = some (entryText component) := by
      unfold FileSystem.lookup at hlookup ⊢
      rw [FileSystem.entries_insert, if_pos rfl, List.find?_append, hlookup, Option.none_or]
      exact List.find?_cons_of_pos (rules.same_self _)
    refine ⟨⟨hs.toWalked.insert _ _, hs.unaliased, fun entry tail => ?_, fun entry hentry => ?_,
      fun hnone => ?_⟩, trivial⟩
    · rw [FileSystem.entries_insert, if_neg (by simp), List.append_nil]
      exact hs.below entry tail
    · rw [hnew] at hentry
      rw [FileSystem.found, hs.missing hlookup, Option.getD_none, Option.some.inj hentry]
    · rw [hnew] at hnone
      cases hnone

variable {create write : Bool}

theorem openDirNofollow_spec (hplain : Plain component) :
    Gives (Prepared rules start root path loc component)
      (openDirNofollow rules loc (ofList component))
      (Entered rules start root (path ++ [component])) := by
  apply Gives.atomic
  rintro fs here fs' hs hf
  rw [FileSystem.reach_plain hplain] at hf
  cases hlookup : fs.lookup rules loc (ofList component) with
  | none =>
    rw [hlookup] at hf
    cases hf
  | some entry =>
    obtain rfl := hs.found entry hlookup
    rw [hlookup] at hf
    simp only [Option.map_some] at hf
    split at hf
    next hdir =>
      cases hf
      rw [FileSystem.follow_nil]
      refine ⟨hs.toWalked.snoc hs.unaliased hdir, fun tail => ?_⟩
      rw [List.append_assoc]
      exact hs.below _ tail
    · cases hf

theorem rejectAlias_prepares : Gives (Entered rules start root path loc)
    (rejectAlias rules loc (ofList component))
    fun _ => Prepared rules start root path loc component :=
  Prog.Triple.post rejectAlias_spec fun _ _ h => h.1.prepared h.2

theorem child_spec (hplain : Plain component) : Gives (Entered rules start root path loc)
      (child rules loc (ofList component) create)
      (Entered rules start root (path ++ [component])) := by
  apply Gives.bind rejectAlias_prepares
  intro _
  have hopen : Gives (Prepared rules start root path loc component)
      (openDirNofollow rules loc (ofList component))
      (Entered rules start root (path ++ [component])) := openDirNofollow_spec hplain
  cases create with
  | false => exact hopen
  | true =>
    refine .bind (R := fun _ => Prepared rules start root path loc component)
      (.attempt (createDir_spec hplain) fun _ _ h => h) ?_
    intro made
    cases made with
    | ok _ => exact .bind (.bind Gives.touch fun _ => .touch) fun _ => hopen
    | error err =>
      dsimp only
      split
      · exact hopen
      · exact .bind (R := fun _ _ => False) Gives.throw fun _ _ _ h => h.elim

/-- The directories of the path, one after the other. -/
theorem descend_spec (parts : List (List Char)) (hplain : ∀ part ∈ parts, Plain part) :
    Gives (Entered rules start root path loc) (descend rules create loc parts)
      (Entered rules start root (path ++ parts)) := by
  induction parts generalizing path loc with
  | nil =>
    apply Gives.pure
    intro fs h
    rwa [List.append_nil]
  | cons part rest ih =>
    have hrest : ∀ part ∈ rest, Plain part := fun _ h => hplain _ (.tail _ h)
    apply Gives.bind (child_spec (hplain part (.head _)))
    intro next
    have hnext : Gives (Entered rules start root (path ++ [part]) next)
        (descend rules create next rest)
        (Entered rules start root (path ++ [part] ++ rest)) := ih hrest
    rwa [List.append_assoc, List.singleton_append] at hnext

/-- What `parent` returns: the path was accepted, its directories are open, and its last
    name has no alias. -/
def Parted (rules : NameRules) (start : FileSystem) (root : Location) (relative : String)
    (r : Location × String) (fs : FileSystem) : Prop :=
  ∃ dirs last, components relative = dirs ++ [last] ∧ r.2 = ofList last ∧
    Entered rules start root dirs r.1 fs ∧ Prepared rules start root dirs r.1 last fs

theorem parent_spec (relative : String) :
    Gives (Entered rules start root [] root) (parent rules root relative create)
      fun r fs => validateRelativePath relative = .ok () ∧
        Parted rules start root relative r fs := by
  obtain ⟨dirs, last, hparts⟩ : ∃ dirs last, components relative = dirs ++ [last] :=
    ⟨_, _, (List.dropLast_append_getLast (components_ne_nil relative)).symm⟩
  have hname : lastComponent relative = ofList last := by simp [lastComponent, hparts]
  have hdirs : (components relative).dropLast = dirs := by simp [hparts]
  refine .bind (R := fun _ fs => validateRelativePath relative = .ok () ∧
    Entered rules start root [] root fs) (.ofExcept fun _ h _ hs => ⟨h, hs⟩) ?_
  intro _
  refine .of_imp (fun hvalid => ?_) fun _ h => h.1
  have hplain : ∀ part ∈ dirs, Plain part := by
    intro part hmem
    exact (validateRelativePath_ok hvalid part (by simp [hparts, hmem])).1
  apply Gives.bind Gives.touch
  intro _
  rw [hdirs, hname]
  refine Gives.bind (R := Entered rules start root dirs) ?_ ?_
  · refine .pre ?_ fun _ h => h.2
    exact descend_spec dirs hplain
  intro dir
  apply Gives.bind rejectAlias_spec
  intro _
  exact Gives.pure fun fs h => ⟨hvalid, dirs, last, hparts, rfl, h.1, h.1.prepared h.2⟩

theorem openWith_spec (hplain : Plain component) :
    Gives (Prepared rules start root path loc component)
      (openWith rules loc (ofList component) write create)
      fun r => Walked rules start root (path ++ [component]) r.2 r.1 := by
  apply Gives.atomic
  rintro fs ⟨here, kind⟩ fs' hs hf
  split at hf
  · cases hf
  rw [FileSystem.reach_plain hplain, FileSystem.newEntry_plain hplain hs.kind_eq] at hf
  cases hlookup : fs.lookup rules loc (ofList component) with
  | some entry =>
    obtain rfl := hs.found entry hlookup
    rw [hlookup] at hf
    simp only [Option.map_some, FileSystem.follow_nil] at hf
    split at hf
    · split at hf
      · cases hf
      next hkind _ =>
        cases hf
        exact hs.toWalked.snoc hs.unaliased hkind
    · cases hf
    next hkind =>
      cases hf
      exact hs.toWalked.snoc hs.unaliased hkind
    · cases hf
  | none =>
    rw [hlookup] at hf
    cases create with
    | false => cases hf
    | true =>
      cases hf
      rw [FileSystem.follow_nil]
      -- nothing was found under the name, so the new file is the only one
      have hfree : fs.node (loc ++ [entryText component]) = none :=
        FileSystem.node_eq_none_of_lookup hlookup
      have hnew : (fs.insert (loc ++ [entryText component]) .file).node
          (loc ++ [entryText component]) = some .file := FileSystem.node_insert_self hfree
      have hfound : start.found rules loc component = entryText component := by
        rw [FileSystem.found, hs.missing hlookup, Option.getD_none]
      rw [← hfound] at hnew ⊢
      exact (hs.toWalked.insert _ _).snoc hs.unaliased hnew

theorem openIn_spec (hplain : Plain component) :
    Gives (Prepared rules start root path loc component)
      (openIn rules loc (ofList component) write create)
      (Walked rules start root (path ++ [component]) .file) := by
  apply Gives.bind (openWith_spec hplain)
  rintro ⟨here, kind⟩
  apply Gives.bind Gives.touch
  intro _
  by_cases hkind : kind = .file
  · subst hkind
    exact .pure fun fs h => h
  · simp only [if_pos hkind]
    exact .bind (R := fun _ _ => False) Gives.throw fun _ _ _ h => h.elim

theorem resolve_spec (relative : String) {target : Target} :
    Gives (Entered rules start root [] root) (resolve rules root relative create target)
      fun here fs => validateRelativePath relative = .ok () ∧
        Walked rules start root (components relative) target.kind here fs := by
  apply Gives.bind (parent_spec relative)
  rintro ⟨dir, name⟩
  refine Prog.Triple.of_imp (fun hvalid => ?_) fun _ h => h.1
  refine .pre ?_ fun _ h => h.2
  apply Prog.Triple.ex
  intro dirs
  apply Prog.Triple.ex
  intro last
  refine .of_imp (fun hparts => ?_) fun _ h => And.intro h.1 h.2.1
  obtain ⟨hparts, hname⟩ := hparts
  obtain rfl : name = ofList last := hname
  have hplain : Plain last := (validateRelativePath_ok hvalid last (by simp [hparts])).1
  rw [hparts]
  cases target with
  | file write create =>
    refine (Prog.Triple.pre (openIn_spec hplain) fun _ h => h.2.2.2).post ?_
    exact fun here fs h => ⟨hvalid, h⟩
  | dir create =>
    refine (Prog.Triple.pre (child_spec hplain) fun _ h => h.2.2.1).post ?_
    exact fun here fs h => ⟨hvalid, h.toWalked⟩

theorem rootDir_spec {base : Location} {name : FileName} :
    Gives (· = start) (rootDir rules base name)
      fun root => Entered rules start root [] root := by
  refine .bind (R := fun _ => (· = start)) ?_ ?_
  · apply Gives.atomic
    intro fs kind fs' hfs hf
    split at hf
    · cases hf
    · cases hf
      exact hfs
  intro kind
  have hopen : Gives (· = start) (openDirNofollow rules base name.val)
      fun root => Entered rules start root [] root := by
    apply Gives.atomic
    rintro fs here fs' rfl hf
    rw [← String.ofList_toList (s := name.val), FileSystem.reach_plain name.property] at hf
    cases hfound : fs.lookup rules base (ofList name.val.toList) with
    | none =>
      rw [hfound] at hf
      cases hf
    | some entry =>
      rw [hfound] at hf
      simp only [Option.map_some, FileSystem.follow_nil] at hf
      split at hf
      next hdir =>
        cases hf
        refine ⟨⟨rfl, fun dirs c rest heq => ?_, hdir, rfl⟩, fun _ => rfl⟩
        exact absurd heq.symm (List.append_ne_nil_of_right_ne_nil _ (List.cons_ne_nil _ _))
      · cases hf
  by_cases hkind : kind = .dir
  · simp only [hkind, ne_eq, not_true_eq_false, if_false]
    exact .bind Gives.touch fun _ => hopen
  · simp only [ne_eq, hkind, not_false_eq_true, if_true]
    exact .bind (R := fun _ _ => False) Gives.throw fun _ _ _ h => h.elim

/-! ## Confinement -/

variable (rules) in
/-- What is opened or made for a path of a peer lies below the receive root, no link has been
    followed, and no component is the private directory in any case of its letters.  It is
    the object that the components spell, with every directory on the way stored under the
    spelling of its component and outside of the private directory, exactly if each
    component finds nothing or an entry with its key. -/
theorem receive_confined (base : Location) (name : FileName) (relative : String)
    (makeParents : Bool) (target : Target) (fs fs' : FileSystem) (plan rest : List (Fault Error))
    (root here : Location) (hrun : receive rules base name relative makeParents target fs plan =
      (.ok (root, here), fs', rest)) :
    (root <+: here ∧ fs'.followed = fs.followed ∧
      ∀ component ∈ components relative, isPrivate component = false) ∧
    (Located fs.followed root (components relative) target.kind here fs' ∧
      (∀ tail, here ≠ root ++ privateEntry :: tail) ↔
        fs.recognises rules root (components relative) = true) := by
  have hspec : Gives (· = fs) (receive rules base name relative makeParents target)
      fun r s => validateRelativePath relative = .ok () ∧
        Walked rules fs r.1 (components relative) target.kind r.2 s := by
    apply Gives.bind rootDir_spec
    intro root
    apply Gives.bind (resolve_spec relative)
    intro here
    exact .pure fun s h => h
  obtain ⟨hvalid, hwalked⟩ : validateRelativePath relative = .ok () ∧
    Walked rules fs root (components relative) target.kind here fs' :=
      Prog.Triple.ends hspec rfl hrun
  have hprivate : ∀ component ∈ components relative, isPrivate component = false :=
    fun component hmem => (validateRelativePath_ok hvalid component hmem).2
  refine ⟨⟨?_, hwalked.followed_eq, hprivate⟩, ?_⟩
  · rw [hwalked.reached]
    exact FileSystem.prefix_resolution _ _
  · rw [← hwalked.located_iff]
    exact ⟨fun h => h.1, fun h => ⟨h, h.outside hprivate⟩⟩

namespace Sample

variable (ignored : Char → Bool)

/-- Names are folded to lower case, and what `ignored` says is left out. -/
def fold (name : String) : List Char :=
  (name.toList.filter fun ch => !ignored ch).map Char.toLower

/-- Letters have two cases, on a file system that compares folded names. -/
def folding : NameRules where
  unicode := ⟨fun name => name, fun ch => [ch.toUpper], fun ch => [ch.toLower]⟩
  same
    | name, .text stored => fold ignored stored == fold ignored name
    | _, .raw _ => false
  same_self := fun _ => beq_self_eq_true _

def receiveRoot : FileName := ⟨"receive", by decide⟩

/-- A receive root with a private directory and a link out of it. -/
def desk : FileSystem where
  nodes :=
    [([.text "receive"], .dir),
     ([.text "receive", .text ".p2p-desktop"], .dir),
     ([.text "receive", .text "out"], .link [])]
  followed := []

end Sample

open Sample in
/-- The file system ignores the zero width non-joiner, but there is none in this path. -/
theorem receive_confined_new_file : ∃ fs' rest,
    receive (folding fun ch => ch == '\u200c') [] receiveRoot "Docs/a.txt" true
      (.file true true) desk [] =
        (.ok ([.text "receive"], [.text "receive", .text "Docs", .text "a.txt"]), fs', rest) ∧
    Located [] [.text "receive"] (components "Docs/a.txt") .file
      [.text "receive", .text "Docs", .text "a.txt"] fs' := by
  have hok : (receive (folding fun ch => ch == '\u200c') [] receiveRoot "Docs/a.txt" true
      (.file true true) desk []).1 =
        .ok ([.text "receive"], [.text "receive", .text "Docs", .text "a.txt"]) := by
    decide +kernel
  obtain ⟨⟨out, fs', rest⟩, hrun⟩ : ∃ r, receive (folding fun ch => ch == '\u200c') []
      receiveRoot "Docs/a.txt" true (.file true true) desk [] = r := ⟨_, rfl⟩
  rw [hrun] at hok
  obtain rfl := hok
  exact ⟨fs', rest, hrun, ((receive_confined _ [] receiveRoot "Docs/a.txt" true
    (.file true true) desk fs' [] rest _ _ hrun).2.mpr (by decide +kernel)).1⟩

/-- A file system may ignore the zero width non-joiner in names, as casefolded directories
    do; `name_key` keeps it.  The path is accepted, no alias is seen, and the file is made
    inside the private directory. -/
theorem ignored_character_enters_private : validateRelativePath ".p2p-desk\u200ctop/x" = .ok () ∧
    (receive (Sample.folding fun ch => ch == '\u200c') [] Sample.receiveRoot
      ".p2p-desk\u200ctop/x" false (.file true true) Sample.desk []).1 =
        .ok ([.text "receive"], [.text "receive", privateEntry, .text "x"]) := by
  decide +kernel

end P2pFile.Storage
