/-
  P2pFile.Lib.Sort

  Sorting and filtering commute: insertion sort is stable, so what a filter keeps of the
  sorted list is the sorted list of what it keeps.
-/

import Mathlib.Data.List.Sort

namespace P2pFile.Lib

variable {α : Type} {r : α → α → Prop} [DecidableRel r] [IsTrans α r]

/-- Inserting an element in a sorted list and filtering. -/
theorem filter_orderedInsert (p : α → Bool) (a : α) : ∀ {l : List α}, l.Pairwise r →
      (l.orderedInsert r a).filter p =
        if p a then (l.filter p).orderedInsert r a else l.filter p := by
  intro l
  induction l with
  | nil =>
    cases hp : p a <;> simp [hp]
  | cons b l ih =>
    intro hsorted
    have hih := ih hsorted.of_cons
    by_cases hab : r a b
    · rw [List.orderedInsert_cons, if_pos hab]
      cases hpa : p a with
      | false => simp [hpa]
      | true =>
        -- `a` goes before `b`, hence before everything that is left.
        have hbefore : ∀ x ∈ (b :: l).filter p, r a x := by
          intro x hx
          rcases List.mem_cons.mp (List.mem_filter.mp hx).1 with rfl | hx
          · exact hab
          · exact trans_of r hab (List.rel_of_pairwise_cons hsorted hx)
        rw [List.filter_cons_of_pos hpa, if_pos rfl]
        cases hkept : (b :: l).filter p with
        | nil => simp
        | cons x rest =>
          rw [hkept] at hbefore
          rw [List.orderedInsert_cons, if_pos (hbefore x (.head _))]
    · rw [List.orderedInsert_cons, if_neg hab]
      cases hpb : p b with
      | false => simp [hpb, hih]
      | true =>
        rw [List.filter_cons_of_pos hpb, hih, List.filter_cons_of_pos hpb]
        split
        · rw [List.orderedInsert_cons, if_neg hab]
        · rfl

theorem filter_insertionSort [Std.Total r] (p : α → Bool) (l : List α) :
    (l.insertionSort r).filter p = (l.filter p).insertionSort r := by
  induction l with
  | nil => rfl
  | cons a l ih =>
    rw [List.insertionSort_cons, filter_orderedInsert p a (List.pairwise_insertionSort r l), ih]
    cases hp : p a <;> simp [hp]

end P2pFile.Lib
