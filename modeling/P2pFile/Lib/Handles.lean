/-
  P2pFile.Lib.Handles

  Values that are owned through handles: guards, permits and leases that are given out
  and given back.

  A handle is a number that is never given out twice, so that a value that has been given
  back stays apart from those that come after it.  `next` is how many were given out; the
  handles in use are below it.
-/

import P2pFile.Lib.FinMap

namespace P2pFile.Lib

structure Handles (β : Type) where
  live : FinMap Nat β
  next : Nat
  lt_next : ∀ h v, live.lookup h = some v → h < next

namespace Handles

variable {β : Type} (t : Handles β)

/-- No handle was given out. -/
def empty : Handles β := ⟨∅, 0, fun _ _ h => by cases h⟩

/-- The value that a handle stands for, while it is in use. -/
def get (h : Nat) : Option β := t.live.lookup h

/-- Give out the handle `t.next`. -/
def issue (v : β) : Handles β where
  live := t.live.insert t.next v
  next := t.next + 1
  lt_next h w hw := by
    rw [AList.lookup_insert_eq_ite] at hw
    split at hw
    · omega
    · exact Nat.lt_succ_of_lt (t.lt_next h w hw)

/-- Give a handle back. -/
def release (h : Nat) : Handles β where
  live := t.live.erase h
  next := t.next
  lt_next h' w hw := by
    exact t.lt_next h' w (AList.lookup_erase_some hw).2

/-- Change the value of a handle, if it is in use. -/
def modify (h : Nat) (f : β → β) : Handles β :=
  match hget : t.live.lookup h with
  | none => t
  | some v =>
    { live := t.live.insert h (f v)
      next := t.next
      lt_next := by
        intro h' w hw
        rcases AList.lookup_insert_some hw with ⟨rfl, rfl⟩ | ⟨-, hw⟩
        · exact t.lt_next h' v hget
        · exact t.lt_next h' w hw }

variable {t} {h h' : Nat} {v w : β}

@[grind →] theorem lt_of_get (hget : t.get h = some v) : h < t.next := t.lt_next h v hget

@[simp] theorem next_issue : (t.issue v).next = t.next + 1 := rfl

@[grind =] theorem get_issue : (t.issue v).get h = if h = t.next then some v else t.get h :=
  AList.lookup_insert_eq_ite t.live t.next h v

@[grind =] theorem get_release : (t.release h').get h = if h = h' then none else t.get h :=
  AList.lookup_erase_eq_ite t.live h' h

theorem get_issue_some (hget : (t.issue v).get h = some w) :
    (h = t.next ∧ w = v) ∨ t.get h = some w :=
  (AList.lookup_insert_some hget).imp_right And.right

theorem get_release_some (hget : (t.release h').get h = some w) : h ≠ h' ∧ t.get h = some w :=
  AList.lookup_erase_some hget

/-- A handle in use keeps its value when others are given out. -/
theorem get_issue_of_get (hget : t.get h = some v) : (t.issue w).get h = some v := by
  have hlt := lt_of_get hget
  rw [get_issue, if_neg (by omega)]
  exact hget

/-- A handle not yet given out is not in use. -/
theorem get_next : t.get t.next = none := by
  cases hget : t.get t.next with
  | none => rfl
  | some v => exact absurd (lt_of_get hget) (Nat.lt_irrefl _)

theorem countP_issue (p : Nat → β → Bool) :
    (t.issue v).live.countP p = t.live.countP p + if p t.next v then 1 else 0 :=
  AList.countP_insert_of_lookup_none get_next v

theorem countP_release (p : Nat → β → Bool) (hget : t.get h = some v) :
    t.live.countP p = (t.release h).live.countP p + if p h v then 1 else 0 :=
  AList.countP_erase_of_lookup hget

@[grind =] theorem get_modify (f : β → β) :
    (t.modify h' f).get h = if h = h' then (t.get h).map f else t.get h := by
  unfold modify
  split
  next hnone =>
    split
    next heq =>
      subst heq
      rw [get, hnone, Option.map_none]
    · rfl
  next u hsome =>
    show (t.live.insert h' (f u)).lookup h = _
    rw [AList.lookup_insert_eq_ite]
    split
    next heq =>
      subst heq
      rw [get, hsome, Option.map_some]
    · rfl

theorem get_modify_some {f : β → β} (hget : (t.modify h' f).get h = some w)
    (hv : t.get h' = some v) : (h = h' ∧ w = f v) ∨ (h ≠ h' ∧ t.get h = some w) := by
  rw [get_modify] at hget
  split at hget
  next heq =>
    subst heq
    rw [hv] at hget
    exact .inl ⟨rfl, (Option.some.inj hget).symm⟩
  next hne =>
    exact .inr ⟨hne, hget⟩

variable (f : Nat → β → Nat)

theorem sumBy_issue : (t.issue v).live.sumBy f = t.live.sumBy f + f t.next v := by
  have hinsert := AList.sumBy_insert f t.live t.next v
  have hnone : t.live.lookup t.next = none := get_next
  rw [hnone, Option.elim_none] at hinsert
  exact hinsert

theorem sumBy_release (hget : t.get h = some v) :
    t.live.sumBy f = (t.release h).live.sumBy f + f h v := by
  have herase := AList.sumBy_erase f t.live h
  have hsome : t.live.lookup h = some v := hget
  rw [hsome, Option.elim_some] at herase
  exact herase.symm

theorem sumBy_modify (g : β → β) (hget : t.get h = some v) :
    (t.modify h g).live.sumBy f + f h v = t.live.sumBy f + f h (g v) := by
  have hsome : t.live.lookup h = some v := hget
  have hinsert := AList.sumBy_insert f t.live h (g v)
  rw [hsome, Option.elim_some] at hinsert
  unfold modify
  split
  next hnone =>
    rw [hsome] at hnone
    cases hnone
  next u hu =>
    rw [hsome] at hu
    cases hu
    exact hinsert

/-- In use or not, as a number: what remains of the one time that it was given out. -/
def liveCount (t : Handles β) (h : Nat) : Nat := if (t.get h).isSome then 1 else 0

/-- How often a handle was given out. -/
def issued (t : Handles β) (h : Nat) : Nat := if h < t.next then 1 else 0

theorem liveCount_issue : (t.issue v).liveCount h + t.issued h =
    (t.issue v).issued h + t.liveCount h := by
  unfold liveCount issued
  rw [get_issue, next_issue]
  by_cases heq : h = t.next
  · subst heq
    rw [get_next]
    simp
  rw [if_neg heq]
  by_cases hlt : h < t.next
  · rw [if_pos hlt, if_pos (by omega : h < t.next + 1)]
    omega
  · rw [if_neg hlt, if_neg (by omega : ¬ h < t.next + 1)]
    omega

theorem liveCount_release (hget : t.get h' = some v) :
    (t.release h').liveCount h + (if h = h' then 1 else 0) = t.liveCount h := by
  unfold liveCount
  rw [get_release]
  by_cases heq : h = h'
  · subst heq
    rw [if_pos rfl, hget]
    simp
  · rw [if_neg heq, if_neg heq]
    omega

end Handles

end P2pFile.Lib
