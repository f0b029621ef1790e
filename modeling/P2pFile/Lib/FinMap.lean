/-
  P2pFile.Lib.FinMap

  Finite maps: what Mathlib's `AList` lacks for modelling hash maps that are
  pruned and counted.

  `retain` is `HashMap::retain`, `countP p m` is `m.iter().filter(p).count()`,
  `sumBy f m` is `m.iter().map(f).sum()`, and `size` is `len()`.  The counting
  lemmas say how one insertion, one removal and one pruning change a count, which
  is all that quota arguments need.  Lookups after an insertion or a removal are left to
  `grind`.
-/

import Mathlib.Algebra.GroupWithZero.Nat
import Mathlib.Data.List.AList

universe u v

/-- A finite map, the model of a `HashMap`. -/
abbrev P2pFile.Lib.FinMap (α : Type u) (β : Type v) := AList fun _ : α => β

namespace AList

open P2pFile.Lib

variable {α : Type u} {β : Type v}

/-- Number of entries. -/
def size (m : FinMap α β) : Nat := m.entries.length

/-- Number of entries that satisfy `p`. -/
def countP (p : α → β → Bool) (m : FinMap α β) : Nat := m.entries.countP fun e => p e.1 e.2

/-- Sum of `f` over the entries. -/
def sumBy (f : α → β → Nat) (m : FinMap α β) : Nat := (m.entries.map fun e => f e.1 e.2).sum

/-- Keep the entries that satisfy `p`. -/
def retain (p : α → β → Bool) (m : FinMap α β) : FinMap α β :=
  ⟨m.entries.filter fun e => p e.1 e.2, List.NodupKeys.sublist List.filter_sublist m.nodupKeys⟩

@[simp] theorem size_empty : (∅ : FinMap α β).size = 0 := rfl

@[simp] theorem countP_empty (p : α → β → Bool) : countP p (∅ : FinMap α β) = 0 := rfl

theorem countP_true (m : FinMap α β) : m.countP (fun _ _ => true) = m.size := by
  simp [countP, size]

variable {p : α → β → Bool} {m : FinMap α β}

/-- A weaker predicate counts more. -/
theorem countP_mono {q : α → β → Bool} (h : ∀ e ∈ m.entries, p e.1 e.2 = true → q e.1 e.2 = true) :
    m.countP p ≤ m.countP q :=
  List.countP_mono_left fun e he hp => h e he hp

theorem countP_retain_le (p q : α → β → Bool) (m : FinMap α β) :
    (m.retain q).countP p ≤ m.countP p :=
  List.Sublist.countP_le List.filter_sublist

theorem size_retain_le (q : α → β → Bool) (m : FinMap α β) : (m.retain q).size ≤ m.size :=
  List.length_filter_le _ _

theorem sumBy_retain_le (f : α → β → Nat) (q : α → β → Bool) (m : FinMap α β) :
    (m.retain q).sumBy f ≤ m.sumBy f := by
  simp only [sumBy, retain]
  induction m.entries with
  | nil => simp
  | cons e es ih =>
    rw [List.filter_cons]
    split
    · simpa using ih
    · simp only [List.map_cons, List.sum_cons]
      omega

variable [DecidableEq α]

/-! ## Lookups -/

@[grind =] theorem lookup_insert_eq_ite (m : FinMap α β) (k k' : α) (v : β) :
    (m.insert k v).lookup k' = if k' = k then some v else m.lookup k' := by
  by_cases h : k' = k
  · subst h; simp
  · rw [lookup_insert_ne h, if_neg h]

@[grind =] theorem lookup_erase_eq_ite (m : FinMap α β) (k k' : α) :
    (m.erase k).lookup k' = if k' = k then none else m.lookup k' := by
  by_cases h : k' = k
  · subst h; simp
  · rw [lookup_erase_ne h, if_neg h]

variable {k : α}

theorem erase_eq_self (h : m.lookup k = none) : m.erase k = m := by
  have hnot : k ∉ m.entries.keys := mem_keys.not.mp (lookup_eq_none.mp h)
  exact AList.ext (List.kerase_of_notMem_keys hnot)

theorem mem_iff_lookup : k ∈ m ↔ ∃ v, m.lookup k = some v := by
  rw [← lookup_isSome, Option.isSome_iff_exists]

variable {v : β}

theorem lookup_eq_some_iff : m.lookup k = some v ↔ (⟨k, v⟩ : Σ _ : α, β) ∈ m.entries :=
  mem_lookup_iff

theorem mem_keys_iff_lookup : k ∈ m.keys ↔ ∃ v, m.lookup k = some v := by
  rw [← mem_keys, mem_iff_lookup]

theorem lookup_retain (p : α → β → Bool) (m : FinMap α β) (k : α) :
    (m.retain p).lookup k = (m.lookup k).filter (p k) := by
  apply Option.ext
  intro v
  rw [Option.filter_eq_some_iff, lookup_eq_some_iff, lookup_eq_some_iff]
  simp [retain]

theorem lookup_retain_eq_some :
    (m.retain p).lookup k = some v ↔ m.lookup k = some v ∧ p k v = true := by
  rw [lookup_retain, Option.filter_eq_some_iff]

theorem lookup_of_retain (h : (m.retain p).lookup k = some v) : m.lookup k = some v :=
  (lookup_retain_eq_some.mp h).1

theorem lookup_insert_some {k' : α} {w : β} (h : (m.insert k v).lookup k' = some w) :
    (k' = k ∧ w = v) ∨ (k' ≠ k ∧ m.lookup k' = some w) := by
  rw [lookup_insert_eq_ite] at h
  split at h
  next heq =>
    exact .inl ⟨heq, (Option.some.inj h).symm⟩
  next hne =>
    exact .inr ⟨hne, h⟩

theorem lookup_erase_some {k' : α} (h : (m.erase k).lookup k' = some v) :
    k' ≠ k ∧ m.lookup k' = some v := by
  rw [lookup_erase_eq_ite] at h
  split at h
  · cases h
  next hne =>
    exact ⟨hne, h⟩

theorem lookup_erase_none {k' : α} (h : m.lookup k' = none) : (m.erase k).lookup k' = none := by
  rw [lookup_erase_eq_ite, h, ite_self]

/-! ## Counting -/

theorem countP_erase_le (p : α → β → Bool) (m : FinMap α β) (k : α) :
    (m.erase k).countP p ≤ m.countP p :=
  List.Sublist.countP_le (List.kerase_sublist k m.entries)

theorem size_erase_le (m : FinMap α β) (k : α) : (m.erase k).size ≤ m.size :=
  (List.kerase_sublist k m.entries).length_le

theorem countP_insert (p : α → β → Bool) (m : FinMap α β) (k : α) (v : β) :
    (m.insert k v).countP p = (m.erase k).countP p + if p k v then 1 else 0 := by
  simp only [countP, entries_insert, List.countP_cons]
  rfl

/-- An absent key adds one entry. -/
theorem countP_insert_of_lookup_none (h : m.lookup k = none) (v : β) :
    (m.insert k v).countP p = m.countP p + if p k v then 1 else 0 := by
  have hnot : k ∉ m := lookup_eq_none.mp h
  simp only [countP, entries_insert_of_notMem hnot, List.countP_cons]

theorem countP_insert_le (p : α → β → Bool) (m : FinMap α β) (k : α) (v : β) :
    (m.insert k v).countP p ≤ m.countP p + if p k v then 1 else 0 := by
  rw [countP_insert]
  have herase := countP_erase_le p m k
  omega

/-- An insertion keeps a bound on a count if there is room whenever it counts. -/
theorem countP_insert_le_of_room {bound : Nat} (h : m.countP p ≤ bound)
    (hroom : p k v = true → m.countP p < bound) : (m.insert k v).countP p ≤ bound := by
  have hle := countP_insert_le p m k v
  by_cases hp : p k v = true
  · have hlt := hroom hp
    rw [if_pos hp] at hle
    omega
  · rw [if_neg hp] at hle
    omega

theorem size_insert_le (m : FinMap α β) (k : α) (v : β) : (m.insert k v).size ≤ m.size + 1 := by
  have h := countP_insert_le (fun _ _ => true) m k v
  rw [countP_true, countP_true] at h
  simpa using h

variable {w : β} (h : m.lookup k = some w)

include h

/-- A present key has one entry, and removing the key takes it out. -/
theorem entries_of_lookup :
    ∃ l₁ l₂, m.entries = l₁ ++ ⟨k, w⟩ :: l₂ ∧ (m.erase k).entries = l₁ ++ l₂ := by
  have hmem : k ∈ m.entries.keys := List.mem_keys.mpr ⟨w, lookup_eq_some_iff.mp h⟩
  obtain ⟨b, l₁, l₂, _, heq, hker⟩ := List.exists_of_kerase hmem
  -- The entry found by key is the one that `lookup` finds, because keys are distinct.
  have hb : b = w := by
    have hmk : (⟨k, b⟩ : Σ _ : α, β) ∈ m.entries := by rw [heq]; simp
    have hb' := lookup_eq_some_iff.mpr hmk
    rw [h] at hb'
    exact (Option.some.inj hb').symm
  subst hb
  exact ⟨l₁, l₂, heq, hker⟩

/-- Removing a present key removes its own contribution and nothing else. -/
theorem countP_erase_of_lookup : m.countP p = (m.erase k).countP p + if p k w then 1 else 0 := by
  obtain ⟨l₁, l₂, heq, herase⟩ := entries_of_lookup h
  rw [countP, countP, heq, herase]
  simp only [List.countP_append, List.countP_cons]
  omega

/-- Overwriting a value of the same kind leaves the count as it was. -/
theorem countP_insert_of_lookup_some (v : β) (hp : p k v = p k w) :
    (m.insert k v).countP p = m.countP p := by
  rw [countP_insert, countP_erase_of_lookup h, hp]

theorem size_insert_of_lookup_some (v : β) : (m.insert k v).size = m.size := by
  have hcount := countP_insert_of_lookup_some (p := fun _ _ => true) h v rfl
  simpa [countP_true] using hcount

omit h

/-- Removing a key takes its own summand out of a sum. -/
theorem sumBy_erase (f : α → β → Nat) (m : FinMap α β) (k : α) :
    (m.erase k).sumBy f + (m.lookup k).elim 0 (f k) = m.sumBy f := by
  cases h : m.lookup k with
  | none =>
    rw [erase_eq_self h]
    rfl
  | some w =>
    obtain ⟨l₁, l₂, heq, herase⟩ := entries_of_lookup h
    rw [sumBy, sumBy, heq, herase, Option.elim_some]
    simp only [List.map_append, List.sum_append, List.map_cons, List.sum_cons]
    omega

/-- An insertion replaces one summand. -/
theorem sumBy_insert (f : α → β → Nat) (m : FinMap α β) (k : α) (v : β) :
    (m.insert k v).sumBy f + (m.lookup k).elim 0 (f k) = m.sumBy f + f k v := by
  have herase := sumBy_erase f m k
  have hinsert : (m.insert k v).sumBy f = f k v + (m.erase k).sumBy f := by
    rfl
  omega

/-- Entries picked out by `p`, whose keys are mapped injectively into a short
    list, are few. -/
theorem countP_le_of_keys_inj {γ : Type*} [DecidableEq γ] {f : α → γ} {l : List γ}
    (hinj : ∀ k k' v v', m.lookup k = some v → m.lookup k' = some v' →
      p k v = true → p k' v' = true → f k = f k' → k = k')
    (hmem : ∀ k v, m.lookup k = some v → p k v = true → f k ∈ l) : m.countP p ≤ l.length := by
  -- The images of the counted keys form a list without repetitions inside `l`.
  have hlen : m.countP p = (((m.retain p).keys).map f).length := by
    simp [countP, retain, keys, List.keys, List.countP_eq_length_filter]
  have hkey : ∀ k ∈ (m.retain p).keys, ∃ v, m.lookup k = some v ∧ p k v = true := by
    intro k hk
    obtain ⟨v, hv⟩ := mem_keys_iff_lookup.mp hk
    exact ⟨v, lookup_retain_eq_some.mp hv⟩
  have hnodup : (((m.retain p).keys).map f).Nodup := by
    refine List.Nodup.map_on ?_ (m.retain p).keys_nodup
    intro a ha b hb hab
    obtain ⟨v, hv, hpv⟩ := hkey a ha
    obtain ⟨w, hw, hpw⟩ := hkey b hb
    exact hinj a b v w hv hw hpv hpw hab
  rw [hlen]
  refine (List.subperm_of_subset hnodup ?_).length_le
  intro c hc
  obtain ⟨k, hk, rfl⟩ := List.mem_map.mp hc
  obtain ⟨v, hv, hpv⟩ := hkey k hk
  exact hmem k v hv hpv

/-- A sum is at most another one if each of its summands is matched by one there that is
    as large, and no two by the same. -/
theorem sumBy_le_of_match {γ : Type*} {δ : Type*} [DecidableEq γ] {f : α → β → Nat}
    {g : γ → δ → Nat} (R : α → γ → Prop)
    (hinj : ∀ a b c, R a c → R b c → a = b) {m' : FinMap γ δ}
    (hmatch : ∀ k v, m.lookup k = some v →
      ∃ k' v', R k k' ∧ m'.lookup k' = some v' ∧ f k v ≤ g k' v') : m.sumBy f ≤ m'.sumBy g := by
  -- Induction on the entries; the match of the first one is taken out of `m'`.
  obtain ⟨entries, hnodup⟩ := m
  induction entries generalizing m' with
  | nil => exact Nat.zero_le _
  | cons entry rest ih =>
    obtain ⟨k, v⟩ := entry
    have hkeys : k ∉ rest.keys ∧ rest.NodupKeys := List.nodupKeys_cons.mp hnodup
    obtain ⟨k', v', hR, hv', hle⟩ := hmatch k v (List.dlookup_cons_eq _ _ _)
    have herase := sumBy_erase g m' k'
    rw [hv', Option.elim_some] at herase
    have hrest : (⟨rest, hkeys.2⟩ : FinMap α β).sumBy f ≤ (m'.erase k').sumBy g := by
      refine ih hkeys.2 ?_
      intro k₂ v₂ hv₂
      have hmem : k₂ ∈ rest.keys := List.mem_keys.mpr ⟨v₂, lookup_eq_some_iff.mp hv₂⟩
      have hne : k₂ ≠ k := fun heq => hkeys.1 (heq ▸ hmem)
      have hlater : (⟨⟨k, v⟩ :: rest, hnodup⟩ : FinMap α β).lookup k₂ = some v₂ := by
        rw [lookup_eq_some_iff] at hv₂ ⊢
        exact .tail _ hv₂
      obtain ⟨k₂', v₂', hR₂, hv₂', hle₂⟩ := hmatch k₂ v₂ hlater
      refine ⟨k₂', v₂', hR₂, ?_, hle₂⟩
      have hne' : k₂' ≠ k' := by
        rintro rfl
        exact hne (hinj k₂ k k₂' hR₂ hR)
      rw [lookup_erase_eq_ite, if_neg hne']
      exact hv₂'
    have hsum : (⟨⟨k, v⟩ :: rest, hnodup⟩ : FinMap α β).sumBy f =
        f k v + (⟨rest, hkeys.2⟩ : FinMap α β).sumBy f := rfl
    omega

end AList
