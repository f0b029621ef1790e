/-
  P2pFile.Lib.JsonValue

  JSON values, the sizes of their compact and their indented text, and reading records from
  them.

  An object is read as a strict reader does it: no unknown names, no name twice.  A field
  is required, optional (absent or `null` is no value) or has a default.
-/

import P2pFile.Lib.Json

namespace P2pFile.Lib.Json

inductive Value where
  | null
  | bool (b : Bool)
  | num (n : Nat)
  | int (n : Int)
  | str (text : String)
  | arr (items : List Value)
  | obj (fields : List (String × Value))

/-! ## The size of the compact text -/

/-- A writer of compact texts, by their sizes: there are no blanks between the tokens. -/
structure Writer where
  len : Value → Nat
  len_null : len .null = 4
  len_bool : ∀ b, len (.bool b) = boolSize b
  len_num : ∀ n, len (.num n) = natSize n
  len_int : ∀ n, len (.int n) = intSize n
  len_str : ∀ text, len (.str text) = stringSize text
  len_arr : ∀ items, len (.arr items) = 2 + (items.map len).sum + (items.length - 1)
  len_obj : ∀ fields, len (.obj fields) =
    2 + (fields.map fun f => stringSize f.1 + 1 + len f.2).sum + (fields.length - 1)

mutual

def compactSize : Value → Nat
  | .null => 4
  | .bool b => boolSize b
  | .num n => natSize n
  | .int n => intSize n
  | .str text => stringSize text
  | .arr items => 2 + compactItems items + (items.length - 1)
  | .obj fields => 2 + compactFields fields + (fields.length - 1)

def compactItems : List Value → Nat
  | [] => 0
  | v :: rest => compactSize v + compactItems rest

def compactFields : List (String × Value) → Nat
  | [] => 0
  | (name, v) :: rest => stringSize name + 1 + compactSize v + compactFields rest

end

theorem compactItems_eq (items : List Value) :
    compactItems items = (items.map compactSize).sum := by
  induction items with
  | nil => rfl
  | cons v rest ih => rw [compactItems, List.map_cons, List.sum_cons, ih]

theorem compactFields_eq (fields : List (String × Value)) : compactFields fields =
    (fields.map fun f => stringSize f.1 + 1 + compactSize f.2).sum := by
  induction fields with
  | nil => rfl
  | cons field rest ih =>
    obtain ⟨name, v⟩ := field
    rw [compactFields, List.map_cons, List.sum_cons, ih]

/-- The writer that counts the bytes of the tokens. -/
def Writer.compact : Writer where
  len := compactSize
  len_null := rfl
  len_bool _ := rfl
  len_num _ := rfl
  len_int _ := rfl
  len_str _ := rfl
  len_arr _ := by rw [compactSize, compactItems_eq]
  len_obj _ := by rw [compactSize, compactFields_eq]

/-! ## The size of the indented text -/

/-- The brackets of a block with `n` entries at `depth`, the commas between the entries
    and the line of the closing bracket; an empty block has no lines. -/
def blockSize (depth n entries : Nat) : Nat :=
  if n = 0 then 2 else 2 + entries + (n - 1) + 1 + 2 * depth

mutual

/-- The bytes of a value whose first line is at `depth`: two blanks for each level, one
    entry on a line. -/
def prettySize (depth : Nat) : Value → Nat
  | .null => 4
  | .bool b => boolSize b
  | .num n => natSize n
  | .int n => intSize n
  | .str text => stringSize text
  | .arr items => blockSize depth items.length (itemsSize (depth + 1) items)
  | .obj fields => blockSize depth fields.length (fieldsSize (depth + 1) fields)

def itemsSize (depth : Nat) : List Value → Nat
  | [] => 0
  | v :: rest => 1 + 2 * depth + prettySize depth v + itemsSize depth rest

def fieldsSize (depth : Nat) : List (String × Value) → Nat
  | [] => 0
  | (name, v) :: rest =>
    1 + 2 * depth + stringSize name + 2 + prettySize depth v + fieldsSize depth rest

end

/-- Every item of an array counts. -/
theorem mul_le_itemsSize {depth k : Nat} :
    ∀ {items : List Value}, (∀ v ∈ items, k ≤ prettySize depth v) →
      k * items.length ≤ itemsSize depth items := by
  intro items
  induction items with
  | nil =>
    simp [itemsSize]
  | cons v rest ih =>
    intro h
    have hv := h v List.mem_cons_self
    have hrest := ih fun u hu => h u (.tail _ hu)
    rw [itemsSize, List.length_cons, Nat.mul_succ]
    omega

theorem itemsSize_le_prettySize (depth : Nat) (items : List Value) :
    itemsSize (depth + 1) items ≤ prettySize depth (.arr items) := by
  rw [prettySize, blockSize]
  split
  next hlength =>
    rw [List.eq_nil_of_length_eq_zero hlength, itemsSize]
    omega
  · omega

variable {name : String} {v : Value}

/-- Every field of an object counts. -/
theorem prettySize_le_fieldsSize {depth : Nat} :
    ∀ {fields : List (String × Value)}, (name, v) ∈ fields →
      stringSize name + prettySize depth v ≤ fieldsSize depth fields := by
  intro fields
  induction fields with
  | nil =>
    intro h
    cases h
  | cons field rest ih =>
    intro h
    obtain ⟨name', v'⟩ := field
    rw [fieldsSize]
    rcases List.mem_cons.mp h with heq | h
    · cases heq
      omega
    · have hrest := ih h
      omega

theorem fieldsSize_le_prettySize (depth : Nat) (fields : List (String × Value)) :
    fieldsSize (depth + 1) fields ≤ prettySize depth (.obj fields) := by
  rw [prettySize, blockSize]
  split
  next hlength =>
    rw [List.eq_nil_of_length_eq_zero hlength, fieldsSize]
    omega
  · omega

/-! ## Reading -/

abbrev Fields := List (String × Value)

/-- The names of an object that a reader of `known` accepts. -/
def namesOk (known names : List String) : Bool := names.all known.contains && decide names.Nodup

/-- The fields of an object whose names are all known. -/
def Value.fields (known : List String) : Value → Option Fields
  | .obj fields => if namesOk known (fields.map Prod.fst) then some fields else none
  | _ => none

def Value.asBool : Value → Option Bool
  | .bool b => some b
  | _ => none

/-- A number below the bound. -/
def Value.asNat (bound : Nat) : Value → Option Nat
  | .num n => if n < bound then some n else none
  | _ => none

def Value.asStr : Value → Option String
  | .str text => some text
  | _ => none

def Value.asList {α : Type} (read : Value → Option α) : Value → Option (List α)
  | .arr items => items.mapM read
  | _ => none

def Value.asOption {α : Type} (read : Value → Option α) : Value → Option (Option α)
  | .null => some none
  | v => (read v).map some

variable {α : Type} (fields : Fields) (name : String) (read : Value → Option α)

def required : Option α := (fields.lookup name).bind read

/-- A field of an optional type. -/
def nullable : Option (Option α) :=
  match fields.lookup name with
  | none => some none
  | some v => v.asOption read

def defaulted (default : α) (read : Value → Option α) : Option α :=
  match fields.lookup name with
  | none => some default
  | some v => read v

/-- A reader goes on with what it has read. -/
theorem bind_some_eq {β : Type} {x : Option α} {f : α → Option β} {a : α} {r : Option β}
    (hx : x = some a) (hf : f a = r) : (x >>= f) = r := by
  rw [hx]
  exact hf

variable {name} {read : Value → Option α} {fields : Fields} (hlookup : fields.lookup name = some v)

include hlookup

theorem required_of_lookup {a : α} (hread : read v = some a) :
    required fields name read = some a := by
  unfold required
  rw [hlookup, Option.bind_some, hread]

theorem nullable_of_lookup {o : Option α} (hread : v.asOption read = some o) :
    nullable fields name read = some o := by
  unfold nullable
  rw [hlookup]
  exact hread

theorem defaulted_of_lookup {default : α} {a : α} (hread : read v = some a) :
    defaulted fields name default read = some a := by
  unfold defaulted
  rw [hlookup]
  exact hread

omit hlookup

/-- A value that may be missing. -/
def ofOption (write : α → Value) : Option α → Value
  | none => .null
  | some a => write a

/-- A field that is not written without a value. -/
def skipNone (name : String) (write : α → Value) : Option α → Fields
  | none => []
  | some a => [(name, write a)]

/-- A flag that is not written unless it is set. -/
def skipFalse (name : String) (flag : Bool) : Fields :=
  if flag then [(name, .bool true)] else []

variable {write : α → Value}

/-- An optional value comes back, if `null` is not the text of a value. -/
theorem asOption_ofOption {o : Option α} (hnull : ∀ a ∈ o, write a ≠ .null)
    (h : ∀ a ∈ o, read (write a) = some a) : (ofOption write o).asOption read = some o := by
  cases o with
  | none => rfl
  | some a =>
    have hread := h a rfl
    have hne := hnull a rfl
    show Value.asOption read (write a) = some (some a)
    unfold Value.asOption
    split
    next heq =>
      exact absurd heq hne
    · rw [hread]
      rfl

/-- A list is read item by item. -/
theorem asList_map {f : α → α} :
    ∀ {items : List α}, (∀ a ∈ items, read (write a) = some (f a)) →
      (Value.arr (items.map write)).asList read = some (items.map f) := by
  intro items
  induction items with
  | nil =>
    intro _
    rfl
  | cons a rest ih =>
    intro h
    have hrest : (rest.map write).mapM read = some (rest.map f) := ih fun b hb => h b (.tail _ hb)
    show ((a :: rest).map write).mapM read = some (f a :: rest.map f)
    rw [List.map_cons, List.mapM_cons, h a (.head _), hrest]
    rfl

theorem map_eq_self_iff {f : α → α} {items : List α} :
    items.map f = items ↔ ∀ a ∈ items, f a = a := by
  have hid := @List.map_eq_map_iff _ _ f items id
  rw [List.map_id] at hid
  exact hid

/-- A list comes back if each of its items does. -/
theorem asList_map_self {items : List α} (h : ∀ a ∈ items, read (write a) = some a) :
    (Value.arr (items.map write)).asList read = some items := by
  rw [asList_map h, List.map_id']

end P2pFile.Lib.Json
