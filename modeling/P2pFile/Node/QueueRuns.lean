/-
  P2pFile.Node.QueueRuns

  What holds of the send queue after any operations.

  `QueueStep` says once what an operation can do.  The limits, the uniqueness of
  identifiers and the order of the queue all follow from it, one step at a time.
-/

import P2pFile.Node.Queue

namespace P2pFile.Node

open Lib Protocol
open AList (countP_erase_le lookup_erase_eq_ite lookup_erase_some lookup_insert_eq_ite
  lookup_insert_some)

/-! ## Lists -/

/-- The first element that satisfies `p`, and the list without it. -/
theorem find_eraseP {α : Type} {p : α → Bool} {l : List α} {a : α} (h : l.find? p = some a) :
    ∃ l₁ l₂, l = l₁ ++ a :: l₂ ∧ l.eraseP p = l₁ ++ l₂ ∧ (∀ b ∈ l₁, p b = false) ∧ p a = true := by
  obtain ⟨ha, l₁, l₂, rfl, hl₁⟩ := List.find?_eq_some_iff_append.mp h
  have hfalse : ∀ b ∈ l₁, p b = false := fun b hb => by simpa using hl₁ b hb
  refine ⟨l₁, l₂, rfl, ?_, hfalse, ha⟩
  have hskip : (l₁ ++ a :: l₂).eraseP p = l₁ ++ (a :: l₂).eraseP p :=
    List.eraseP_append_right _ fun b hb => by simp [hfalse b hb]
  rw [hskip, List.eraseP_cons_of_pos ha]

namespace TaskQueue

variable {q q' : TaskQueue}

/-! ## What an operation does -/

/-- The new entries of a batch: those that are neither active nor waiting. -/
theorem enqueueAll_ok {active : FinMap TaskId QueueEntry} {entries : List QueueEntry}
    {candidate candidate' : List QueueEntry}
    (h : enqueueAll active candidate entries = .ok candidate') :
    ∃ new, candidate' = candidate ++ new ∧ new.Sublist entries ∧
      (∀ e ∈ new, active.lookup e.id = none) ∧
      ((candidate.map QueueEntry.id).Nodup → (candidate'.map QueueEntry.id).Nodup) ∧
      (candidate.length ≤ maxQueued → candidate'.length ≤ maxQueued) ∧
      ∀ e ∈ entries, active.lookup e.id = some e ∨ e ∈ candidate' := by
  induction entries generalizing candidate with
  | nil =>
    cases h
    exact ⟨[], by simp, .refl _, by simp, fun hnodup => hnodup, fun hlen => hlen, by simp⟩
  | cons entry rest ih =>
    unfold enqueueAll at h
    split at h
    next existing hexisting =>
      split at h
      · cases h
      rename_i hsame
      obtain rfl := not_not.mp hsame
      obtain ⟨new, rfl, hsub, hfresh, hnodup, hlen, hthere⟩ := ih h
      refine ⟨new, rfl, hsub.cons _, hfresh, hnodup, hlen, ?_⟩
      intro e he
      rcases List.mem_cons.mp he with rfl | he
      · rcases Option.or_eq_some_iff.mp hexisting with hact | ⟨-, hfind⟩
        · exact .inl hact
        · exact .inr (List.mem_append_left _ (List.mem_of_find?_eq_some hfind))
      · exact hthere e he
    next hnone =>
      obtain ⟨hact, hfind⟩ := Option.or_eq_none_iff.mp hnone
      split at h
      · cases h
      rename_i hroom
      obtain ⟨new, rfl, hsub, hfresh, hnodup, hlen, hthere⟩ := ih h
      refine ⟨entry :: new, by simp, hsub.cons_cons _, ?_, ?_, ?_, ?_⟩
      · intro e he
        rcases List.mem_cons.mp he with rfl | he
        · exact hact
        · exact hfresh e he
      · intro hcand
        refine hnodup ?_
        have hother : entry.id ∉ candidate.map QueueEntry.id := by
          intro hmem
          obtain ⟨e, he, hid⟩ := List.mem_map.mp hmem
          have hne := List.find?_eq_none.mp hfind e he
          simp [hid] at hne
        rw [List.map_append, List.map_singleton, List.nodup_append]
        refine ⟨hcand, List.nodup_singleton _, ?_⟩
        rintro a ha b hb rfl
        rw [List.mem_singleton.mp hb] at ha
        exact hother ha
      · intro hle
        refine hlen ?_
        rw [List.length_append, List.length_singleton]
        omega
      · intro e he
        rcases List.mem_cons.mp he with rfl | he
        · exact .inr (by simp)
        · exact hthere e he

/-- The queue without the entry: it was waiting, or no entry with its identifier was. -/
def Without (pending : List QueueEntry) (entry : QueueEntry) (rest : List QueueEntry) : Prop :=
  (∃ l₁ l₂, pending = l₁ ++ entry :: l₂ ∧ rest = l₁ ++ l₂) ∨
    (rest = pending ∧ ∀ e ∈ pending, e.id ≠ entry.id)

/-- What an operation can do. -/
inductive QueueStep (q : TaskQueue) : QueueOp → TaskQueue → Prop
  | failed {op : QueueOp} (hfails : q.Fails op) : QueueStep q op q
  | enqueued {entries new : List QueueEntry} (hsub : new.Sublist entries)
      (hfresh : ∀ e ∈ new, q.active.lookup e.id = none)
      (hnodup : (q.pending.map QueueEntry.id).Nodup → ((q.pending ++ new).map QueueEntry.id).Nodup)
      (hlen : q.pending.length ≤ maxQueued → (q.pending ++ new).length ≤ maxQueued)
      (hthere : ∀ e ∈ entries, q.active.lookup e.id = some e ∨ e ∈ q.pending ++ new) :
      QueueStep q (.enqueue entries) { q with pending := q.pending ++ new }
  | dispatched {connected : NodeId → Bool} {entry : QueueEntry} {generation : UInt64}
      {l₁ l₂ : List QueueEntry} (hpending : q.pending = l₁ ++ entry :: l₂)
      (hearlier : ∀ e ∈ l₁, q.eligible connected e = false)
      (heligible : q.eligible connected entry = true)
      (hgeneration : checkedAdd q.nextGeneration 1 = some generation) :
      QueueStep q (.dispatch connected) ({ q with pending := l₁ ++ l₂ }.activate entry generation)
  | reserved {entry : QueueEntry} {generation : UInt64} {rest : List QueueEntry}
      (hfree : q.active.lookup entry.id = none) (hroom : q.hasRoom entry = true)
      (hgeneration : checkedAdd q.nextGeneration 1 = some generation)
      (hrest : Without q.pending entry rest) :
      QueueStep q (.reserveDirect entry) ({ q with pending := rest }.activate entry generation)
  | finished {id : TaskId} {generation : UInt64} (hslot : q.slotGeneration id = some generation) :
      QueueStep q (.finishIf id generation)
        { q with active := q.active.erase id, generations := q.generations.erase id }
  | removed {entry : QueueEntry} {l₁ l₂ : List QueueEntry}
      (hpending : q.pending = l₁ ++ entry :: l₂) :
      QueueStep q (.removeQueued entry.id) { q with pending := l₁ ++ l₂ }
  | limited {value : UInt8} (hvalue : 1 ≤ value ∧ value ≤ 3) :
      QueueStep q (.setLimit value) { q with limit := value }
  | cleared : QueueStep q .clear q.clear

theorem removeQueued_cases (q : TaskQueue) (id : TaskId) :
    ((q.removeQueued id).1 = none ∧ (q.removeQueued id).2 = q ∧ ∀ e ∈ q.pending, e.id ≠ id) ∨
    ∃ entry l₁ l₂, (q.removeQueued id).1 = some entry ∧ entry.id = id ∧
      q.pending = l₁ ++ entry :: l₂ ∧
      (q.removeQueued id).2 = { q with pending := l₁ ++ l₂ } := by
  unfold removeQueued
  cases hfind : q.pending.find? fun e => e.id == id with
  | none =>
    refine .inl ⟨rfl, rfl, ?_⟩
    intro e he
    simpa using List.find?_eq_none.mp hfind e he
  | some entry =>
    obtain ⟨l₁, l₂, hpend, herase, -, hid⟩ := find_eraseP hfind
    refine .inr ⟨entry, l₁, l₂, rfl, by simpa using hid, hpend, ?_⟩
    rw [herase]

theorem enqueue_cases (q : TaskQueue) (entries : List QueueEntry) :
    (∃ err, q.enqueue entries = (.error err, q)) ∨
    ∃ candidate, enqueueAll q.active q.pending entries = .ok candidate ∧
      q.enqueue entries = (.ok (), { q with pending := candidate }) := by
  unfold enqueue
  cases enqueueAll q.active q.pending entries with
  | error err => exact .inl ⟨err, rfl⟩
  | ok candidate => exact .inr ⟨candidate, rfl, rfl⟩

/-- `dispatch` takes the first entry that is eligible, if there is one and a generation is
    left, and keeps the others in their order. -/
theorem dispatch_cases (q : TaskQueue) (connected : NodeId → Bool) :
    (q.dispatch connected = (none, q) ∧ ((∀ e ∈ q.pending, q.eligible connected e = false) ∨
      checkedAdd q.nextGeneration 1 = none)) ∨
    ∃ entry generation l₁ l₂, q.pending = l₁ ++ entry :: l₂ ∧
      (∀ e ∈ l₁, q.eligible connected e = false) ∧ q.eligible connected entry = true ∧
      checkedAdd q.nextGeneration 1 = some generation ∧
      q.dispatch connected =
        (some entry, { q with pending := l₁ ++ l₂ }.activate entry generation) := by
  unfold dispatch
  cases hfind : q.pending.find? (q.eligible connected) with
  | none =>
    refine .inl ⟨rfl, .inl ?_⟩
    intro e he
    simpa using List.find?_eq_none.mp hfind e he
  | some entry =>
    cases hgen : checkedAdd q.nextGeneration 1 with
    | none => exact .inl ⟨rfl, .inr rfl⟩
    | some generation =>
      obtain ⟨l₁, l₂, hpend, herase, hearlier, helig⟩ := find_eraseP hfind
      rw [herase]
      exact .inr ⟨entry, generation, l₁, l₂, hpend, hearlier, helig, rfl, rfl⟩

/-- A slot is reserved for an entry without one.  It may wait, but then as the same entry. -/
theorem reserveDirect_cases (q : TaskQueue) (entry : QueueEntry) :
    (∃ err, q.reserveDirect entry = (.error err, q)) ∨
    ∃ generation rest, q.active.lookup entry.id = none ∧ q.hasRoom entry = true ∧
      checkedAdd q.nextGeneration 1 = some generation ∧ Without q.pending entry rest ∧
      q.reserveDirect entry =
        (.ok generation, { q with pending := rest }.activate entry generation) := by
  unfold reserveDirect
  split
  · exact .inl ⟨_, rfl⟩
  rename_i hact
  split
  · exact .inl ⟨_, rfl⟩
  rename_i hroom
  split
  · exact .inl ⟨_, rfl⟩
  rename_i generation hgen
  split
  · exact .inl ⟨_, rfl⟩
  rename_i hbound
  have hfree : q.active.lookup entry.id = none := by simpa using hact
  have hroom : q.hasRoom entry = true := by simpa using hroom
  rcases removeQueued_cases q entry.id with ⟨-, hq, hother⟩ | hqueued
  · rw [hq]
    exact .inr ⟨generation, _, hfree, hroom, hgen, .inr ⟨rfl, hother⟩, rfl⟩
  obtain ⟨existing, l₁, l₂, hfirst, -, hpend, hq⟩ := hqueued
  have hsame : existing = entry := by
    unfold removeQueued at hfirst
    split at hfirst
    next found hfind =>
      cases hfirst
      rw [hfind] at hbound
      simpa using hbound
    · cases hfirst
  subst hsame
  rw [hq]
  exact .inr ⟨generation, _, hfree, hroom, hgen, .inl ⟨l₁, l₂, hpend, rfl⟩, rfl⟩

theorem step_cases (q : TaskQueue) (op : QueueOp) : QueueStep q op (q.step op) := by
  cases op with
  | enqueue entries =>
    rcases q.enqueue_cases entries with ⟨err, heq⟩ | ⟨candidate, hall, heq⟩
    · rw [step, heq]
      exact .failed ⟨err, congrArg Prod.fst heq⟩
    · obtain ⟨new, rfl, hsub, hfresh, hnodup, hlen, hthere⟩ := enqueueAll_ok hall
      rw [step, heq]
      exact .enqueued hsub hfresh hnodup hlen hthere
  | dispatch connected =>
    rcases q.dispatch_cases connected with ⟨heq, -⟩ |
      ⟨entry, generation, l₁, l₂, hpend, hearlier, helig, hgen, heq⟩
    · rw [step, heq]
      exact .failed (congrArg Prod.fst heq)
    · rw [step, heq]
      exact .dispatched hpend hearlier helig hgen
  | reserveDirect entry =>
    rcases q.reserveDirect_cases entry with ⟨err, heq⟩ |
      ⟨generation, rest, hfree, hroom, hgen, hrest, heq⟩
    · rw [step, heq]
      exact .failed ⟨err, congrArg Prod.fst heq⟩
    · rw [step, heq]
      exact .reserved hfree hroom hgen hrest
  | finishIf id generation =>
    rw [step, finishIf]
    split
    next hslot =>
      exact .finished hslot
    next hslot =>
      exact .failed hslot
  | removeQueued id =>
    rcases removeQueued_cases q id with ⟨hnone, hq, -⟩ | hqueued
    · rw [step, hq]
      exact .failed hnone
    · obtain ⟨entry, l₁, l₂, -, rfl, hpend, hq⟩ := hqueued
      rw [step, hq]
      exact .removed hpend
  | setLimit value =>
    by_cases hvalue : 1 ≤ value ∧ value ≤ 3
    · rw [step, setLimit, if_pos hvalue]
      exact .limited hvalue
    · rw [step, setLimit, if_neg hvalue]
      exact .failed ⟨_, congrArg Prod.fst (if_neg hvalue)⟩
  | clear => exact .cleared

variable {op : QueueOp}

/-- A call that fails changes nothing. -/
theorem step_of_fails (h : q.Fails op) : q.step op = q := by
  cases op with
  | enqueue entries =>
    obtain ⟨err, h⟩ := h
    rcases q.enqueue_cases entries with ⟨_, heq⟩ | ⟨_, -, heq⟩
    · rw [step, heq]
    · rw [heq] at h
      cases h
  | dispatch connected =>
    rcases q.dispatch_cases connected with ⟨heq, -⟩ | ⟨_, _, _, _, -, -, -, -, heq⟩
    · rw [step, heq]
    · exact absurd (h.symm.trans (congrArg Prod.fst heq)) (by simp)
  | reserveDirect entry =>
    obtain ⟨err, h⟩ := h
    rcases q.reserveDirect_cases entry with ⟨_, heq⟩ | ⟨_, _, -, -, -, -, heq⟩
    · rw [step, heq]
    · rw [heq] at h
      cases h
  | finishIf id generation => exact if_neg h
  | removeQueued id =>
    rcases q.removeQueued_cases id with ⟨-, hq, -⟩ | ⟨_, _, _, hfirst, -⟩
    · rw [step, hq]
    · exact absurd (h.symm.trans hfirst) (by simp)
  | setLimit value =>
    obtain ⟨err, h⟩ := h
    unfold setLimit at h
    split at h
    · cases h
    next hvalue =>
      rw [step, setLimit, if_neg hvalue]
  | clear => exact h.elim

/-! ## The invariant -/

/-- The files that are being sent. -/
def files (q : TaskQueue) : Nat := q.active.countP fun _ e => !e.metadata

/-- The directory entries that are being sent. -/
def directories (q : TaskQueue) : Nat := q.active.countP fun _ e => e.metadata

structure Inv (q : TaskQueue) : Prop where
  unique : (q.pending.map QueueEntry.id).Nodup
  waits : ∀ e ∈ q.pending, q.active.lookup e.id = none
  keys : ∀ id, (q.active.lookup id).isSome = (q.generations.lookup id).isSome
  owned : ∀ id e, q.active.lookup id = some e → e.id = id
  queued : q.pending.length ≤ maxQueued
  limit : 1 ≤ q.limit ∧ q.limit ≤ 3
  files : q.files ≤ 3
  directories : q.directories ≤ maxMetadataActive
  peers : ∀ peer, q.peerMetadata peer ≤ 2
  issued : ∀ id g, q.generations.lookup id = some g → g.toNat ≤ q.nextGeneration.toNat
  distinct : ∀ id id' g, q.generations.lookup id = some g → q.generations.lookup id' = some g →
    id = id'

theorem metrics_files (q : TaskQueue) : q.metrics.activeFiles = q.files := rfl

/-- What is not a file is a directory entry. -/
theorem metrics_directories (q : TaskQueue) : q.metrics.activeMetadata = q.directories := by
  have hsplit : q.active.size = q.directories + q.files := by
    unfold AList.size directories files AList.countP
    rw [List.length_eq_countP_add_countP fun e => e.2.metadata]
    congr 1
    refine List.countP_congr fun e _ => ?_
    simp
  show q.active.size - q.files = q.directories
  omega

variable {entry : QueueEntry}

/-- Whether there is room, in the counts of the invariant. -/
theorem hasRoom_iff : q.hasRoom entry = true ↔
      (entry.metadata = true → q.directories < maxMetadataActive ∧ q.peerMetadata entry.peer < 2) ∧
      (entry.metadata = false → q.files < q.limit.toNat) := by
  unfold hasRoom
  rw [metrics_directories, metrics_files]
  cases entry.metadata <;> simp

theorem new_inv : Inv new where
  unique := List.nodup_nil
  waits := by simp [new]
  keys := by simp [new]
  owned := by simp [new]
  queued := by decide
  limit := by decide
  files := by decide
  directories := by decide
  peers := by simp [new, peerMetadata]
  issued := by simp [new]
  distinct := by simp [new]

variable {generation : UInt64}

/-- An entry that is not active gets a slot. -/
theorem Inv.activate (h : q.Inv) (hfree : q.active.lookup entry.id = none)
    (hwaits : ∀ e ∈ q.pending, e.id ≠ entry.id) (hroom : q.hasRoom entry = true)
    (hgen : checkedAdd q.nextGeneration 1 = some generation) :
    (q.activate entry generation).Inv := by
  have hnext : generation.toNat = q.nextGeneration.toNat + 1 := checkedAdd_one_toNat hgen
  obtain ⟨hdirectory, hfile⟩ := hasRoom_iff.mp hroom
  have hlimit : q.limit.toNat ≤ 3 := UInt8.le_iff_toNat_le.mp h.limit.2
  refine ⟨h.unique, ?_, ?_, ?_, h.queued, h.limit, ?_, ?_, ?_, ?_, ?_⟩
  · intro e he
    show (q.active.insert entry.id entry).lookup e.id = none
    rw [lookup_insert_eq_ite, if_neg (hwaits e he)]
    exact h.waits e he
  · intro id
    show ((q.active.insert entry.id entry).lookup id).isSome =
      ((q.generations.insert entry.id generation).lookup id).isSome
    rw [lookup_insert_eq_ite, lookup_insert_eq_ite]
    split
    · rfl
    · exact h.keys id
  · intro id e he
    rcases lookup_insert_some he with ⟨hid, rfl⟩ | ⟨-, he⟩
    · exact hid.symm
    · exact h.owned id e he
  · refine AList.countP_insert_le_of_room h.files ?_
    intro hcounts
    have hless := hfile (by simpa using hcounts)
    exact lt_of_lt_of_le hless hlimit
  · refine AList.countP_insert_le_of_room h.directories ?_
    intro hcounts
    exact (hdirectory hcounts).1
  · intro peer
    refine AList.countP_insert_le_of_room (h.peers peer) ?_
    intro hcounts
    obtain ⟨hmetadata, hpeer⟩ := Bool.and_eq_true_iff.mp hcounts
    rw [← eq_of_beq hpeer]
    exact (hdirectory hmetadata).2
  · intro id g hg
    show g.toNat ≤ generation.toNat
    rcases lookup_insert_some hg with ⟨-, rfl⟩ | ⟨-, hg⟩
    · exact Nat.le_refl _
    · have hle := h.issued id g hg
      omega
  · intro id id' g hg hg'
    -- The new generation is greater than all the others.
    rcases lookup_insert_some hg with ⟨rfl, rfl⟩ | ⟨-, hold⟩
    · rcases lookup_insert_some hg' with ⟨rfl, -⟩ | ⟨-, hold'⟩
      · rfl
      · have hle := h.issued id' g hold'
        omega
    · rcases lookup_insert_some hg' with ⟨-, rfl⟩ | ⟨-, hold'⟩
      · have hle := h.issued id g hold
        omega
      · exact h.distinct id id' g hold hold'

variable {rest : List QueueEntry}

/-- Entries leave the queue. -/
theorem Inv.sublist (h : q.Inv) (hsub : rest.Sublist q.pending) : Inv { q with pending := rest } :=
  { h with
    unique := (hsub.map _).nodup h.unique
    waits := fun e he => h.waits e (hsub.subset he)
    queued := le_trans hsub.length_le h.queued }

theorem sublist_without (l₁ l₂ : List QueueEntry) (entry : QueueEntry) :
    (l₁ ++ l₂).Sublist (l₁ ++ entry :: l₂) :=
  (List.Sublist.refl l₁).append (List.sublist_cons_self entry l₂)

variable {l₁ l₂ : List QueueEntry}

/-- No other entry that waits has its identifier. -/
theorem Inv.others (h : q.Inv) (hpend : q.pending = l₁ ++ entry :: l₂) :
    ∀ e ∈ l₁ ++ l₂, e.id ≠ entry.id := by
  have huniq := h.unique
  rw [hpend, List.map_append, List.map_cons, List.nodup_middle] at huniq
  have hnot := (List.nodup_cons.mp huniq).1
  intro e he hid
  refine hnot ?_
  rw [← hid, ← List.map_append]
  exact List.mem_map_of_mem he

theorem Without.sublist {pending : List QueueEntry} (h : Without pending entry rest) :
    rest.Sublist pending := by
  rcases h with ⟨l₁, l₂, rfl, rfl⟩ | ⟨rfl, -⟩
  · exact sublist_without l₁ l₂ entry
  · exact .refl _

theorem Inv.without (h : q.Inv) (hrest : Without q.pending entry rest) :
    Inv { q with pending := rest } ∧ ∀ e ∈ rest, e.id ≠ entry.id := by
  refine ⟨h.sublist hrest.sublist, ?_⟩
  rcases hrest with ⟨l₁, l₂, hpend, rfl⟩ | ⟨rfl, hother⟩
  · exact h.others hpend
  · exact hother

/-- A slot is given back. -/
theorem Inv.finish (h : q.Inv) (id : TaskId) :
    Inv { q with active := q.active.erase id, generations := q.generations.erase id } := by
  refine ⟨h.unique, ?_, ?_, ?_, h.queued, h.limit, ?_, ?_, ?_, ?_, ?_⟩
  · intro e he
    rw [lookup_erase_eq_ite]
    split
    · rfl
    · exact h.waits e he
  · intro id'
    rw [lookup_erase_eq_ite, lookup_erase_eq_ite]
    split
    · rfl
    · exact h.keys id'
  · intro id' e he
    exact h.owned id' e (lookup_erase_some he).2
  · exact le_trans (countP_erase_le _ _ _) h.files
  · exact le_trans (countP_erase_le _ _ _) h.directories
  · exact fun peer => le_trans (countP_erase_le _ _ _) (h.peers peer)
  · intro id' g hg
    exact h.issued id' g (lookup_erase_some hg).2
  · intro id₁ id₂ g hg hg'
    exact h.distinct id₁ id₂ g (lookup_erase_some hg).2 (lookup_erase_some hg').2

/-- Every operation keeps the invariant. -/
theorem Inv.step (h : q.Inv) (hstep : QueueStep q op q') : q'.Inv := by
  cases hstep with
  | failed hfails => exact h
  | enqueued hsub hfresh hnodup hlen hthere =>
    refine { h with unique := hnodup h.unique, waits := ?_, queued := hlen h.queued }
    intro e he
    rcases List.mem_append.mp he with he | he
    · exact h.waits e he
    · exact hfresh e he
  | @dispatched connected entry generation l₁ l₂ hpend hearlier helig hgen =>
    obtain ⟨-, hroom⟩ := Bool.and_eq_true_iff.mp helig
    have hfree : q.active.lookup entry.id = none := by
      refine h.waits entry ?_
      rw [hpend]
      simp
    obtain ⟨hinv, hother⟩ := h.without (.inl ⟨l₁, l₂, hpend, rfl⟩)
    exact hinv.activate hfree hother hroom hgen
  | reserved hfree hroom hgen hrest =>
    obtain ⟨hinv, hother⟩ := h.without hrest
    exact hinv.activate hfree hother hroom hgen
  | finished hslot => exact h.finish _
  | removed hpend => exact h.sublist (Without.sublist (.inl ⟨_, _, hpend, rfl⟩))
  | limited hvalue =>
    exact { h with limit := hvalue }
  | cleared =>
    exact ⟨List.nodup_nil, by simp [clear], by simp [clear], by simp [clear], by simp [clear],
      h.limit, Nat.zero_le _, Nat.zero_le _, fun _ => Nat.zero_le _, by simp [clear],
      by simp [clear]⟩

/-! ## Slots -/

theorem files_step_le (h : q.limit.toNat ≤ q.files) (hstep : QueueStep q op q') :
    q'.files ≤ q.files := by
  -- A new slot for a file needs room, and there is none.
  have hnoRoom : ∀ {entry : QueueEntry}, q.hasRoom entry = true → entry.metadata = true := by
    intro entry hroom
    by_contra hfile
    have hless := (hasRoom_iff.mp hroom).2 (by simpa using hfile)
    omega
  have hactivate : ∀ {entry : QueueEntry}, q.hasRoom entry = true →
      (q.active.insert entry.id entry).countP (fun _ e => !e.metadata) ≤ q.files := by
    intro entry hroom
    refine AList.countP_insert_le_of_room (Nat.le_refl _) ?_
    intro hcounts
    simp [hnoRoom hroom] at hcounts
  cases hstep with
  | dispatched hpend hearlier helig hgen =>
    exact hactivate (Bool.and_eq_true_iff.mp helig).2
  | reserved hfree hroom hgen hrest => exact hactivate hroom
  | finished hslot => exact countP_erase_le _ _ _
  | cleared => exact Nat.zero_le _
  | _ => exact Nat.le_refl _

/-- A slot is an old one, or its generation is new. -/
theorem slot_step (hstep : QueueStep q op q') : q.nextGeneration.toNat ≤ q'.nextGeneration.toNat ∧
    ∀ id g, q'.slotGeneration id = some g →
      q.slotGeneration id = some g ∨ q.nextGeneration.toNat < g.toNat := by
  have hactivate : ∀ {entry : QueueEntry} {generation : UInt64},
      checkedAdd q.nextGeneration 1 = some generation →
      q.nextGeneration.toNat ≤ generation.toNat ∧
      ∀ id g, (q.generations.insert entry.id generation).lookup id = some g →
        q.slotGeneration id = some g ∨ q.nextGeneration.toNat < g.toNat := by
    intro entry generation hgen
    have hnext := checkedAdd_one_toNat hgen
    refine ⟨by omega, ?_⟩
    intro id g hg
    rcases lookup_insert_some hg with ⟨-, rfl⟩ | ⟨-, hg⟩
    · exact .inr (by omega)
    · exact .inl hg
  cases hstep with
  | dispatched hpend hearlier helig hgen => exact hactivate hgen
  | reserved hfree hroom hgen hrest => exact hactivate hgen
  | finished hslot =>
    refine ⟨Nat.le_refl _, ?_⟩
    intro id g hg
    exact .inl (lookup_erase_some hg).2
  | cleared =>
    refine ⟨Nat.le_refl _, ?_⟩
    intro id g hg
    cases hg
  | _ => exact ⟨Nat.le_refl _, fun _ _ hg => .inl hg⟩

/-- The same over any number of operations. -/
theorem slot_steps {ops : List QueueOp} (h : queueMachine.Steps q ops q') :
    q.nextGeneration.toNat ≤ q'.nextGeneration.toNat ∧
    ∀ id g, q'.slotGeneration id = some g →
      q.slotGeneration id = some g ∨ q.nextGeneration.toNat < g.toNat := by
  induction h with
  | nil => exact ⟨Nat.le_refl _, fun _ _ hg => .inl hg⟩
  | @snoc q₁ q₂ _ op _ hstep ih =>
    obtain rfl : q₁.step op = q₂ := Option.some.inj hstep
    obtain ⟨hnext, hslots⟩ := ih
    obtain ⟨hnext', hslots'⟩ := slot_step (q₁.step_cases op)
    refine ⟨by omega, ?_⟩
    intro id g hg
    rcases hslots' id g hg with hold | hnew
    · exact hslots id g hold
    · exact .inr (by omega)

/-! ## Entries -/

/-- The entry waits, or has a slot. -/
def Bound (q : TaskQueue) (entry : QueueEntry) : Prop :=
  entry ∈ q.pending ∨ q.active.lookup entry.id = some entry

/-- What becomes of an entry that waits. -/
inductive Passes (q q' : TaskQueue) (entry : QueueEntry) : QueueOp → Prop
  | waits {op : QueueOp} (h : entry ∈ q'.pending) : Passes q q' entry op
  | dispatched {connected : NodeId → Bool} (h : (q.dispatch connected).1 = some entry)
      (hactive : q'.active.lookup entry.id = some entry) : Passes q q' entry (.dispatch connected)
  | reserved (hactive : q'.active.lookup entry.id = some entry) :
      Passes q q' entry (.reserveDirect entry)
  | removed (h : (q.removeQueued entry.id).1 = some entry) :
      Passes q q' entry (.removeQueued entry.id)
  | cleared : Passes q q' entry .clear

variable {e : QueueEntry}

/-- The identifiers of the queue are those of different entries. -/
theorem Inv.bound_unique (h : q.Inv) {e' : QueueEntry} (he : q.Bound e) (he' : q.Bound e')
    (hid : e.id = e'.id) : e = e' := by
  rcases he with he | he
  · rcases he' with he' | he'
    · exact List.inj_on_of_nodup_map h.unique he he' hid
    · rw [← hid, h.waits e he] at he'
      cases he'
  · rcases he' with he' | he'
    · rw [hid, h.waits e' he'] at he
      cases he
    · rw [hid, he'] at he
      exact (Option.some.inj he).symm

theorem mem_without (h : e ∈ l₁ ++ entry :: l₂) : e = entry ∨ e ∈ l₁ ++ l₂ := by
  rcases List.mem_append.mp h with h | h
  · exact .inr (List.mem_append_left _ h)
  · rcases List.mem_cons.mp h with rfl | h
    · exact .inl rfl
    · exact .inr (List.mem_append_right _ h)

theorem removeQueued_first (h : q.Inv) (he : entry ∈ q.pending) :
    (q.removeQueued entry.id).1 = some entry := by
  rcases removeQueued_cases q entry.id with ⟨-, -, hother⟩ | hqueued
  · exact absurd rfl (hother entry he)
  obtain ⟨found, l₁, l₂, hfirst, hid, hpend, -⟩ := hqueued
  have hfound : found ∈ q.pending := by
    rw [hpend]
    simp
  rw [hfirst, h.bound_unique (.inl hfound) (.inl he) hid]

theorem dispatch_first {connected : NodeId → Bool} (hpend : q.pending = l₁ ++ entry :: l₂)
    (hearlier : ∀ e ∈ l₁, q.eligible connected e = false)
    (helig : q.eligible connected entry = true)
    (hgen : checkedAdd q.nextGeneration 1 = some generation) :
    (q.dispatch connected).1 = some entry := by
  have hfind : q.pending.find? (q.eligible connected) = some entry := by
    refine List.find?_eq_some_iff_append.mpr ⟨helig, l₁, l₂, hpend, ?_⟩
    intro e he
    simp [hearlier e he]
  unfold dispatch
  rw [hfind, hgen]

/-- No entry that waits is lost. -/
theorem Inv.passes (h : q.Inv) (he : entry ∈ q.pending) (hstep : QueueStep q op q') :
    Passes q q' entry op := by
  cases hstep with
  | enqueued hsub hfresh hnodup hlen hthere => exact .waits (List.mem_append_left _ he)
  | dispatched hpend hearlier helig hgen =>
    rw [hpend] at he
    rcases mem_without he with rfl | he
    · exact .dispatched (dispatch_first hpend hearlier helig hgen) (AList.lookup_insert _)
    · exact .waits he
  | @reserved taken generation rest hfree hroom hgen hrest =>
    rcases hrest with ⟨l₁, l₂, hpend, rfl⟩ | ⟨rfl, hother⟩
    · rw [hpend] at he
      rcases mem_without he with rfl | he
      · exact .reserved (AList.lookup_insert _)
      · exact .waits he
    · exact .waits he
  | @removed found l₁ l₂ hpend =>
    rcases mem_without (hpend ▸ he) with rfl | hkept
    · exact .removed (removeQueued_first h he)
    · exact .waits hkept
  | cleared => exact .cleared
  | _ => exact .waits he

/-- A slot is given back by its own generation or by `clear` only. -/
theorem Inv.slot_kept (h : q.Inv) (he : q.active.lookup entry.id = some entry)
    (hstep : QueueStep q op q') : q'.active.lookup entry.id = some entry ∨
      (∃ g, op = .finishIf entry.id g ∧ q.slotGeneration entry.id = some g) ∨ op = .clear := by
  have hactivate : ∀ {other : QueueEntry}, q.active.lookup other.id = none →
      (q.active.insert other.id other).lookup entry.id = some entry := by
    intro other hfree
    rw [lookup_insert_eq_ite, if_neg]
    · exact he
    · intro hid
      rw [← hid, he] at hfree
      cases hfree
  cases hstep with
  | dispatched hpend hearlier helig hgen =>
    refine .inl (hactivate (h.waits _ ?_))
    rw [hpend]
    simp
  | reserved hfree hroom hgen hrest => exact .inl (hactivate hfree)
  | @finished id generation hslot =>
    by_cases hid : entry.id = id
    · exact .inr (.inl ⟨generation, by rw [hid], by rw [hid]; exact hslot⟩)
    left
    rw [lookup_erase_eq_ite, if_neg hid]
    exact he
  | cleared => exact .inr (.inr rfl)
  | _ => exact .inl he

/-- What comes new is what the call was given. -/
theorem bound_step (he : q'.Bound entry) (hstep : QueueStep q op q') :
    q.Bound entry ∨ (∃ entries, op = .enqueue entries ∧ entry ∈ entries) ∨
      op = .reserveDirect entry := by
  have hactivate : ∀ {other : QueueEntry} {rest : List QueueEntry}, rest.Sublist q.pending →
      entry ∈ rest ∨ (q.active.insert other.id other).lookup entry.id = some entry →
      q.Bound entry ∨ entry = other := by
    intro other rest hsub he
    rcases he with he | he
    · exact .inl (.inl (hsub.subset he))
    rcases lookup_insert_some he with ⟨-, rfl⟩ | ⟨-, he⟩
    · exact .inr rfl
    · exact .inl (.inr he)
  cases hstep with
  | failed hfails => exact .inl he
  | enqueued hsub hfresh hnodup hlen hthere =>
    rcases he with he | he
    · rcases List.mem_append.mp he with he | he
      · exact .inl (.inl he)
      · exact .inr (.inl ⟨_, rfl, hsub.subset he⟩)
    · exact .inl (.inr he)
  | @dispatched connected taken generation l₁ l₂ hpend hearlier helig hgen =>
    rcases hactivate (Without.sublist (.inl ⟨l₁, l₂, hpend, rfl⟩)) he with he | rfl
    · exact .inl he
    · refine .inl (.inl ?_)
      rw [hpend]
      simp
  | @reserved taken generation rest hfree hroom hgen hrest =>
    rcases hactivate hrest.sublist he with he | rfl
    · exact .inl he
    · exact .inr (.inr rfl)
  | @finished id generation hslot =>
    exact .inl (he.imp_right fun he => (lookup_erase_some he).2)
  | @removed found l₁ l₂ hpend =>
    exact .inl (he.imp_left fun he =>
      (Without.sublist (.inl ⟨l₁, l₂, hpend, rfl⟩)).subset he)
  | limited hvalue => exact .inl he
  | cleared =>
    rcases he with he | he
    · cases he
    · cases he

/-- After a call that succeeds every entry of the batch waits or has a slot. -/
theorem enqueue_bound {entries : List QueueEntry} (hok : (q.enqueue entries).1 = .ok ()) :
    ∀ e ∈ entries, (q.enqueue entries).2.Bound e := by
  rcases q.enqueue_cases entries with ⟨err, heq⟩ | ⟨candidate, hall, heq⟩
  · rw [heq] at hok
    cases hok
  · obtain ⟨new, rfl, -, -, -, -, hthere⟩ := enqueueAll_ok hall
    intro e he
    rw [heq]
    exact (hthere e he).symm

/-- The queue keeps its order: a batch is added at its end, and all else only removes. -/
theorem pending_step (hstep : QueueStep q op q') : q'.pending.Sublist q.pending ∨
      ∃ entries new, op = .enqueue entries ∧ new.Sublist entries ∧
        q'.pending = q.pending ++ new := by
  cases hstep with
  | enqueued hsub hfresh hnodup hlen hthere => exact .inr ⟨_, _, rfl, hsub, rfl⟩
  | dispatched hpend hearlier helig hgen =>
    exact .inl (Without.sublist (.inl ⟨_, _, hpend, rfl⟩))
  | reserved hfree hroom hgen hrest => exact .inl hrest.sublist
  | removed hpend => exact .inl (Without.sublist (.inl ⟨_, _, hpend, rfl⟩))
  | cleared => exact .inl (List.nil_sublist _)
  | _ => exact .inl (.refl _)

end TaskQueue

theorem queue_inv {ops : List QueueOp} {q : TaskQueue} (h : queueMachine.Run ops q) : q.Inv := by
  refine Machine.Run.inv ?_ ?_ h
  · rintro q rfl
    exact TaskQueue.new_inv
  · intro q op q' hinv hstep
    cases hstep
    exact hinv.step (q.step_cases op)

/-- **The send queue.**  After any operations: the identifiers of the queue and of the
    slots are unique and the limits hold (`Inv`).  A call that fails changes nothing.  The
    files being sent do not become more while they are at the limit.  A slot that is not
    there now will have a generation that was never given out, so that the generation of
    an old slot frees nothing.  After an `enqueue` that succeeds all its entries are there.
    An entry that waits is not lost, one that has a slot keeps it until it is given back,
    what is new is what was asked for, and the order is kept; `dispatch` takes the first
    entry that is eligible. -/
theorem send_queue_sound {ops : List QueueOp} {q : TaskQueue} (h : queueMachine.Run ops q) : q.Inv ∧
    (∀ op, q.Fails op → q.step op = q) ∧
    (∀ op, q.limit.toNat ≤ q.metrics.activeFiles →
      (q.step op).metrics.activeFiles ≤ q.metrics.activeFiles) ∧
    (∀ ops' q', queueMachine.Steps q ops' q' →
      q.nextGeneration.toNat ≤ q'.nextGeneration.toNat ∧
      (∀ id g, q'.slotGeneration id = some g →
        q.slotGeneration id = some g ∨ q.nextGeneration.toNat < g.toNat) ∧
      (∀ id g, g.toNat ≤ q.nextGeneration.toNat → q.slotGeneration id ≠ some g →
        q'.finishIf id g = q')) ∧
    (∀ entries, (q.enqueue entries).1 = .ok () →
      ∀ entry ∈ entries, (q.enqueue entries).2.Bound entry) ∧
    (∀ op entry, entry ∈ q.pending → TaskQueue.Passes q (q.step op) entry op) ∧
    (∀ op entry, q.active.lookup entry.id = some entry →
      (q.step op).active.lookup entry.id = some entry ∨
        (∃ g, op = .finishIf entry.id g ∧ q.slotGeneration entry.id = some g) ∨ op = .clear) ∧
    (∀ op entry, (q.step op).Bound entry → q.Bound entry ∨
      (∃ entries, op = .enqueue entries ∧ entry ∈ entries) ∨ op = .reserveDirect entry) ∧
    (∀ op, (q.step op).pending.Sublist q.pending ∨
      ∃ entries new, op = .enqueue entries ∧ new.Sublist entries ∧
        (q.step op).pending = q.pending ++ new) ∧
    (∀ connected entry, (q.dispatch connected).1 = some entry → ∃ l₁ l₂,
      q.pending = l₁ ++ entry :: l₂ ∧ (∀ e ∈ l₁, q.eligible connected e = false) ∧
      q.eligible connected entry = true ∧ (q.dispatch connected).2.pending = l₁ ++ l₂) ∧
    (∀ connected, (q.dispatch connected).1 = none →
      (∀ e ∈ q.pending, q.eligible connected e = false) ∨
        checkedAdd q.nextGeneration 1 = none) := by
  have hinv := queue_inv h
  refine ⟨hinv, fun op => TaskQueue.step_of_fails, ?_, ?_, fun _ => TaskQueue.enqueue_bound,
    ?_, ?_, ?_, ?_, ?_, ?_⟩
  · intro op hfull
    exact TaskQueue.files_step_le hfull (q.step_cases op)
  · intro ops' q' hsteps
    obtain ⟨hnext, hslots⟩ := TaskQueue.slot_steps hsteps
    refine ⟨hnext, hslots, ?_⟩
    intro id g hissued hold
    refine if_neg ?_
    intro hslot
    rcases hslots id g hslot with hsame | hnew
    · exact hold hsame
    · omega
  · intro op entry he
    exact hinv.passes he (q.step_cases op)
  · intro op entry he
    exact hinv.slot_kept he (q.step_cases op)
  · intro op entry he
    exact TaskQueue.bound_step he (q.step_cases op)
  · intro op
    exact TaskQueue.pending_step (q.step_cases op)
  · intro connected entry htaken
    rcases q.dispatch_cases connected with ⟨heq, -⟩ |
      ⟨found, _, l₁, l₂, hpending, hearlier, heligible, -, heq⟩
    · rw [heq] at htaken
      cases htaken
    · rw [heq] at htaken ⊢
      cases htaken
      exact ⟨l₁, l₂, hpending, hearlier, heligible, rfl⟩
  · intro connected hnone
    rcases q.dispatch_cases connected with ⟨-, hwhy⟩ | ⟨_, _, _, _, -, -, -, -, heq⟩
    · exact hwhy
    · rw [heq] at hnone
      cases hnone

namespace QueueSample

def file : QueueEntry := ⟨⟨_, canonical_ascending⟩, Bytes.fill 16 1, false⟩

def folder : QueueEntry := ⟨⟨_, canonical_descending⟩, Bytes.fill 16 2, true⟩

/-- The file is sent, gives its slot back and is sent again, before the folder. -/
def ops : List QueueOp :=
  [.enqueue [file, folder], .dispatch fun _ => true, .finishIf file.id 1, .reserveDirect file]

/-- The queue after `ops`. -/
def queue : TaskQueue := ops.foldl TaskQueue.step .new

end QueueSample

open QueueSample in
/-- The first slot of a file that is sent again does not free the second. -/
theorem send_queue_sound_retry : queueMachine.Run ops queue ∧
      queue.slotGeneration file.id = some 2 ∧
      queue.finishIf file.id 1 = queue := by
  have hrun : queueMachine.Run ops queue := Machine.run_of_exec rfl rfl
  have hslot : queue.slotGeneration file.id = some 2 := by
    decide +kernel
  have hissued : (1 : UInt64).toNat ≤ queue.nextGeneration.toNat := by
    decide +kernel
  obtain ⟨-, -, -, hsteps, -⟩ := send_queue_sound hrun
  obtain ⟨-, -, hstale⟩ := hsteps [] queue (.nil _)
  refine ⟨hrun, hslot, hstale _ 1 hissued ?_⟩
  decide

end P2pFile.Node
