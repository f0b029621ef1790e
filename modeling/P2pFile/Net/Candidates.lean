/-
  P2pFile.Net.Candidates

  The candidates that a device announces (`bound_candidates` of `src/net/mod.rs`, with
  `sort_candidates` of `src/discovery/signal.rs`).

  The IPv6 and the IPv4 candidates take turns, and a turn goes to the other family when its
  own has nothing left.  So a family gets more than its half of the places only where the
  other one cannot fill its own.
-/

import P2pFile.Discovery.Signal
import Mathlib.Data.List.Sort
import Mathlib.Data.Prod.Lex

namespace P2pFile.Discovery

/-! ## The order of the candidates -/

/-- `CandidateKind::priority`. -/
def CandidateKind.priority : CandidateKind → Nat
  | .serverReflexive => 0
  | .host => 1
  | .predicted => 2
  | .relay => 3

namespace Candidate

def isIpv6 (c : Candidate) : Bool := !c.addr.isIpv4

def isIpv4 (c : Candidate) : Bool := c.addr.isIpv4

def sortKey (c : Candidate) : Nat ×ₗ Nat :=
  toLex (c.kind.priority, if c.isIpv6 then 0 else 1)

/-- The order that `sort_candidates` sorts by. -/
def le (c c' : Candidate) : Prop := c.sortKey ≤ c'.sortKey

instance : DecidableRel le := fun c c' => inferInstanceAs (Decidable (c.sortKey ≤ c'.sortKey))

instance : Std.Total le := ⟨fun c c' => le_total c.sortKey c'.sortKey⟩

instance : IsTrans Candidate le := ⟨fun _ _ _ h h' => le_trans h h'⟩

end Candidate

open Candidate

/-- `sort_candidates`: `sort_by_key` is a stable sort. -/
def sortCandidates (candidates : List Candidate) : List Candidate := candidates.insertionSort le

/-! ## Selection -/

def maxCandidates : Nat := 32

/-- `v6.next().or_else(|| v4.next())` in an even turn, `v4.next().or_else(|| v6.next())` in an
    odd one: what is taken, and what the two iterators have left. -/
def takeTurn (even : Bool) (v6 v4 : List Candidate) :
    Option (Candidate × List Candidate × List Candidate) :=
  match even, v6, v4 with
  | true, c :: v6, v4 => some (c, v6, v4)
  | true, [], c :: v4 => some (c, [], v4)
  | false, v6, c :: v4 => some (c, v6, v4)
  | false, c :: v6, [] => some (c, v6, [])
  | _, [], [] => none

/-- The `while` loop of `bound_candidates`. -/
def boundLoop (v6 v4 selected : List Candidate) : List Candidate :=
  if selected.length < maxCandidates then
    match takeTurn (selected.length % 2 == 0) v6 v4 with
    | none => selected
    | some (next, v6, v4) => boundLoop v6 v4 (selected ++ [next])
  else selected
termination_by maxCandidates - selected.length
decreasing_by
  rw [List.length_append, List.length_singleton]
  omega

/-- `bound_candidates`. -/
def boundCandidates (candidates : List Candidate) : List Candidate :=
  sortCandidates (boundLoop (candidates.filter isIpv6) (candidates.filter isIpv4) [])

variable {v6 v4 v6' v4' selected : List Candidate} {next : Candidate} {even : Bool}

/-- Who can get a turn. -/
theorem takeTurn_some (h : takeTurn even v6 v4 = some (next, v6', v4')) :
    (v6 = next :: v6' ∧ v4' = v4 ∧ (even = true ∨ v4 = [])) ∨
      (v4 = next :: v4' ∧ v6' = v6 ∧ (even = false ∨ v6 = [])) := by
  unfold takeTurn at h
  split at h <;> cases h <;> simp

theorem takeTurn_none (h : takeTurn even v6 v4 = none) : v6 = [] ∧ v4 = [] := by
  unfold takeTurn at h
  split at h <;> cases h
  exact ⟨rfl, rfl⟩

/-- The first `i` of `a` IPv6 and the first `j` of `b` IPv4 candidates have got a turn.  A
    family is ahead of the other one only if that has nothing left. -/
structure Balanced (a b i j : Nat) : Prop where
  room : i + j ≤ maxCandidates
  ahead6 : i ≤ (i + j + 1) / 2 ∨ j = b
  ahead4 : j ≤ (i + j) / 2 ∨ i = a

/-- How many of `a` IPv6 candidates are kept beside `b` IPv4 candidates: as many as half of
    the places, rounded up, or as many as the others leave. -/
def share6 (a b : Nat) : Nat := min a (max ((maxCandidates + 1) / 2) (maxCandidates - b))

def share4 (a b : Nat) : Nat := min b (max (maxCandidates / 2) (maxCandidates - a))

/-- What is kept of `a` IPv6 and `b` IPv4 candidates. -/
structure Selects (candidates kept : List Candidate) (a b : Nat) : Prop where
  sorted : kept.Pairwise le
  first : kept.Perm ((candidates.filter isIpv6).take (share6 a b) ++
    (candidates.filter isIpv4).take (share4 a b))
  once : kept.Subperm candidates
  bounded : kept.length ≤ maxCandidates
  fits : candidates.length ≤ maxCandidates → kept.Perm candidates
  fair6 : min a ((maxCandidates + 1) / 2) ≤ (kept.filter isIpv6).length
  fair4 : min b (maxCandidates / 2) ≤ (kept.filter isIpv4).length

/-- No share is more than there is or less than the family's half, and together they fill the
    places. -/
theorem shares_spec (a b : Nat) : share6 a b ≤ a ∧ share4 a b ≤ b ∧
    share6 a b + share4 a b = min (a + b) maxCandidates ∧
    min a ((maxCandidates + 1) / 2) ≤ share6 a b ∧ min b (maxCandidates / 2) ≤ share4 a b := by
  unfold share6 share4
  omega

/-- The split at the end: there is no room, or there are no candidates. -/
theorem Balanced.shares {a b i j : Nat} (h : Balanced a b i j) (hi : i ≤ a) (hj : j ≤ b)
    (hend : i + j = maxCandidates ∨ i = a ∧ j = b) : i = share6 a b ∧ j = share4 a b := by
  obtain ⟨hroom, h6, h4⟩ := h
  unfold share6 share4
  omega

/-- The loop takes the first candidates that are left of each family, and each gets its
    share. -/
theorem boundLoop_spec {a b i j : Nat} (h6 : i + v6.length = a) (h4 : j + v4.length = b)
    (hlen : selected.length = i + j) (h : Balanced a b i j) :
    ∃ m n, (boundLoop v6 v4 selected).Perm (selected ++ (v6.take m ++ v4.take n)) ∧
      i + m = share6 a b ∧ j + n = share4 a b := by
  fun_induction boundLoop v6 v4 selected generalizing i j with
  | case1 v6 v4 selected hroom hnone =>
    obtain ⟨rfl, rfl⟩ := takeTurn_none hnone
    exact ⟨0, 0, by simp, h.shares (by omega) (by omega) (.inr ⟨h6, h4⟩)⟩
  | case2 v6 v4 selected hroom next v6' v4' hturn ih =>
    rw [List.length_append, List.length_singleton] at ih
    obtain ⟨-, hahead6, hahead4⟩ := h
    rcases takeTurn_some hturn with ⟨rfl, rfl, heven⟩ | ⟨rfl, rfl, hodd⟩
    · rw [List.length_cons] at h6
      have hnext : Balanced a b (i + 1) j := by
        refine ⟨by omega, ?_, by omega⟩
        rcases heven with heven | rfl
        · have := beq_iff_eq.mp heven
          omega
        · exact .inr h4
      obtain ⟨m, n, hperm, hm, hn⟩ := ih (by omega) h4 (by omega) hnext
      refine ⟨m + 1, n, ?_, by omega, hn⟩
      rwa [List.append_assoc] at hperm
    · rw [List.length_cons] at h4
      have hnext : Balanced a b i (j + 1) := by
        refine ⟨by omega, by omega, ?_⟩
        rcases hodd with hodd | rfl
        · have := beq_eq_false_iff_ne.mp hodd
          omega
        · exact .inr h6
      obtain ⟨m, n, hperm, hm, hn⟩ := ih h6 (by omega) (by omega) hnext
      refine ⟨m, n + 1, ?_, hm, by omega⟩
      rw [List.append_assoc, List.singleton_append] at hperm
      exact hperm.trans (List.perm_middle.symm.append_left selected)
  | case3 v6 v4 selected hfull =>
    exact ⟨0, 0, by simp, h.shares (by omega) (by omega) (.inl (by have := h.room; omega))⟩

variable (candidates : List Candidate)

/-- The two families are all the candidates. -/
theorem perm_families :
    (candidates.filter isIpv6 ++ candidates.filter isIpv4).Perm candidates := by
  have hsplit := List.filter_append_perm isIpv6 candidates
  have hother : (fun c => !isIpv6 c) = isIpv4 := by
    funext c
    exact Bool.not_not _
  rwa [hother] at hsplit

theorem length_families :
    (candidates.filter isIpv6).length + (candidates.filter isIpv4).length = candidates.length := by
  rw [← List.length_append, (perm_families candidates).length_eq]

/-- Selection is balanced: the first candidates of each family are kept and sorted, each used
    once, for each family as many as its share; nothing is dropped that fits, and no family
    crowds out the other. -/
theorem selection_balanced : Selects candidates (boundCandidates candidates)
    (candidates.filter isIpv6).length (candidates.filter isIpv4).length := by
  generalize hv6 : candidates.filter isIpv6 = v6
  generalize hv4 : candidates.filter isIpv4 = v4
  generalize hkept : boundCandidates candidates = kept
  have hcount := length_families candidates
  have hkept4 := length_families kept
  have hstart : Balanced v6.length v4.length 0 0 :=
    ⟨Nat.zero_le _, .inl (Nat.zero_le _), .inl (Nat.zero_le _)⟩
  obtain ⟨m, n, hloop, hm, hn⟩ :=
    boundLoop_spec (Nat.zero_add _) (Nat.zero_add _) (List.length_nil.trans rfl) hstart
  rw [Nat.zero_add] at hm hn
  have hperm : kept.Perm (v6.take m ++ v4.take n) := by
    rw [← hkept, boundCandidates, hv6, hv4]
    exact (List.perm_insertionSort le _).trans hloop
  have hsub : kept.Subperm candidates := by
    have htake := ((v6.take_sublist m).append (v4.take_sublist n)).subperm
    rw [← hv6, ← hv4] at htake hperm
    exact hperm.subperm.trans (htake.trans (perm_families candidates).subperm)
  obtain ⟨hle6, hle4, hsum, hhalf6, hhalf4⟩ := shares_spec v6.length v4.length
  rw [← hm, ← hn] at hsum
  rw [← hm] at hle6 hhalf6
  rw [← hn] at hle4 hhalf4
  have hlen : kept.length = m + n := by
    rw [hperm.length_eq, List.length_append, List.length_take_of_le hle6,
      List.length_take_of_le hle4]
  have hkept6 : (kept.filter isIpv6).length = m := by
    rw [(hperm.filter isIpv6).length_eq, List.filter_append, List.filter_eq_self.mpr,
      List.filter_eq_nil_iff.mpr, List.append_nil, List.length_take_of_le hle6]
    · intro c hc
      have h4 : isIpv4 c = true := (List.mem_filter.mp (hv4 ▸ List.mem_of_mem_take hc)).2
      simpa [isIpv6, isIpv4] using h4
    · exact fun c hc => (List.mem_filter.mp (hv6 ▸ List.mem_of_mem_take hc)).2
  have hsorted : kept.Pairwise le := hkept ▸ List.pairwise_insertionSort le _
  rw [hv6, hv4] at hcount
  refine ⟨hsorted, ?_, hsub, by omega, fun hfits => ?_, by omega, by omega⟩
  · rwa [hv6, hv4, ← hm, ← hn]
  · exact hsub.perm_of_length_le (by omega)

end P2pFile.Discovery
