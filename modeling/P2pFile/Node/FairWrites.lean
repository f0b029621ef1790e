/-
  P2pFile.Node.FairWrites

  The ring of the writers that can write (`FairWrites` of `src/node/core/queue.rs`).

  `poll_write` takes the lock twice: it joins the ring and looks whether it is its turn,
  then polls its stream without the lock, and takes the lock again to book what was
  written.  The machine has one event for each of the two sections, so that the calls of
  other tickets come between them.  `writing` holds the allowances of the polls that are
  between their sections.

  The second section takes the front of the ring for the ticket itself.  That is so unless
  another ticket has put itself at the front in the meantime.
-/

import P2pFile.Lib.FinMap
import P2pFile.Lib.Machine
import P2pFile.Node.TaskModel

namespace P2pFile.Node

open Lib

def maxDataWriters : Nat := 3

def byteQuantum : Nat := 64 * 1024

theorem byteQuantum_pos : 1 ≤ byteQuantum := by decide

structure WriteCredit where
  credit : Nat
  ready : Bool
  hasWritten : Bool
  startupShare : Bool

structure FairState where
  tasks : FinMap TaskId WriteCredit
  ready : List TaskId
  polling : Option TaskId
  hasWritten : Bool

/-- What the stream answers when it is polled.  A write of nothing is an error. -/
inductive WriteResult where
  | pending
  | failed
  | wrote (n : Nat)

namespace FairState

variable (s : FairState) (id : TaskId)

/-- `FairState::default`. -/
def new : FairState := ⟨∅, [], none, false⟩

/-- `FairWrites::ticket`. -/
def ticket : Except String FairState :=
  if (s.tasks.lookup id).isSome then .error "同一任务已有数据写入"
  else if s.tasks.size ≥ maxDataWriters then .error "数据写入资源已达上限"
  else .ok { s with tasks := s.tasks.insert id ⟨byteQuantum, false, false, !s.hasWritten⟩ }

variable (credit : WriteCredit)

/-- A writer that was not ready joins the ring: the initial participants with their first
    share at its front, the others at its end. -/
def join : FairState :=
  if credit.ready then s
  else
    { s with
      tasks := s.tasks.insert id { credit with ready := true }
      ready :=
        if credit.startupShare && !credit.hasWritten then id :: s.ready else s.ready ++ [id] }

/-- The first section of `poll_write`: how much may be written, if it is this writer's
    turn. -/
def beginWrite (len : Nat) : Option Nat × FairState :=
  let s := s.join id credit
  if s.polling.isSome || s.ready.head? != some id then (none, s)
  else (some (min credit.credit len), { s with polling := some id })

/-- The second section of `poll_write`. -/
def endWrite : WriteResult → FairState
  | .wrote (n + 1) =>
    let left := credit.credit - (n + 1)
    if left = 0 then
      { tasks := s.tasks.insert id { credit with hasWritten := true, credit := byteQuantum }
        ready := s.ready.tail ++ [id]
        polling := none
        hasWritten := true }
    else
      { s with
        tasks := s.tasks.insert id { credit with hasWritten := true, credit := left }
        polling := none
        hasWritten := true }
  | _ =>
    { s with
      tasks := s.tasks.insert id { credit with ready := false }
      ready := s.ready.tail
      polling := none }

/-- `WriteTicket::park`. -/
def park : FairState :=
  { s with
    tasks := s.tasks.insert id { credit with ready := false }
    ready := s.ready.filter (· != id) }

/-- `WriteTicket::drop`. -/
def drop : FairState :=
  { tasks := s.tasks.erase id
    ready := s.ready.filter (· != id)
    polling := if s.polling = some id then none else s.polling
    hasWritten := (s.tasks.erase id).size != 0 && s.hasWritten }

end FairState

/-! ## The machine -/

structure FairWorld where
  state : FairState
  writing : FinMap TaskId Nat

inductive FairEvent where
  | ticket (id : TaskId)
  | beginWrite (id : TaskId) (len : Nat)
  | endWrite (id : TaskId) (result : WriteResult)
  | park (id : TaskId)
  | drop (id : TaskId)

/-- A stream takes no more than it is given. -/
def WriteResult.fits : WriteResult → Nat → Bool
  | .wrote n, allowance => n ≤ allowance
  | _, _ => true

/-- A ticket is used by one task: while it is between the sections of a poll it is not
    parked nor polled again.  It is dropped then only if its stream panics. -/
def FairWorld.step (w : FairWorld) : FairEvent → Option FairWorld
  | .ticket id =>
    match w.state.ticket id with
    | .ok s => some { w with state := s }
    | .error _ => some w
  | .beginWrite id len =>
    match w.state.tasks.lookup id, w.writing.lookup id with
    | some credit, none =>
      if len = 0 then some w
      else
        match w.state.beginWrite id credit len with
        | (some allowance, s) => some ⟨s, w.writing.insert id allowance⟩
        | (none, s) => some { w with state := s }
    | _, _ => none
  | .endWrite id result =>
    match w.state.tasks.lookup id, w.writing.lookup id with
    | some credit, some allowance =>
      if result.fits allowance then
        some ⟨w.state.endWrite id credit result, w.writing.erase id⟩
      else none
    | _, _ => none
  | .park id =>
    match w.state.tasks.lookup id, w.writing.lookup id with
    | some credit, none => some { w with state := w.state.park id credit }
    | _, _ => none
  | .drop id =>
    if (w.state.tasks.lookup id).isSome then some ⟨w.state.drop id, w.writing.erase id⟩
    else none

def fairMachine : Machine FairWorld FairEvent := .ofStep (fun w => w = ⟨.new, ∅⟩) FairWorld.step

/-! ## What the ring is for -/

/-- The ring has no duplicates and contains the tickets whose ready flag is set, one ticket
    at most is being polled, and a credit is neither used up nor saved. -/
structure FairWorld.Sound (w : FairWorld) : Prop where
  nodup : w.state.ready.Nodup
  ready : ∀ id, id ∈ w.state.ready ↔
    ∃ credit, w.state.tasks.lookup id = some credit ∧ credit.ready = true
  single : ∀ id id', (w.writing.lookup id).isSome → (w.writing.lookup id').isSome → id = id'
  credits : ∀ id credit, w.state.tasks.lookup id = some credit →
    1 ≤ credit.credit ∧ credit.credit ≤ byteQuantum

/-- The poll puts its ticket before another one that is being polled. -/
def FairWorld.Overtakes (w : FairWorld) : FairEvent → Prop
  | .beginWrite id _ => w.state.polling.isSome ∧ ∃ credit, w.state.tasks.lookup id = some credit ∧
      credit.ready = false ∧ (credit.startupShare && !credit.hasWritten) = true
  | _ => False

/-! ## Polls and credits

These hold in every run: a poll begins its write only while no other is writing, and what
it writes is within its credit. -/

namespace FairWorld

variable {w w' : FairWorld} {e : FairEvent} {id : TaskId} {credit : WriteCredit}

/-- Who is writing is the ticket that the scheduler takes to be polled. -/
structure Polls (w : FairWorld) : Prop where
  polled : ∀ id allowance, w.writing.lookup id = some allowance → w.state.polling = some id ∧
    ∃ credit, w.state.tasks.lookup id = some credit ∧ allowance ≤ credit.credit
  writes : ∀ id, w.state.polling = some id → ∃ allowance, w.writing.lookup id = some allowance
  credits : ∀ id credit, w.state.tasks.lookup id = some credit →
    1 ≤ credit.credit ∧ credit.credit ≤ byteQuantum

variable (h : w.Polls)

include h

theorem Polls.single {id id' : TaskId} (hid : (w.writing.lookup id).isSome)
    (hid' : (w.writing.lookup id').isSome) : id = id' := by
  obtain ⟨allowance, hallow⟩ := Option.isSome_iff_exists.mp hid
  obtain ⟨allowance', hallow'⟩ := Option.isSome_iff_exists.mp hid'
  have hpolled := (h.polled id allowance hallow).1
  rw [(h.polled id' allowance' hallow').1] at hpolled
  exact (Option.some.inj hpolled).symm

/-- Nobody writes while the scheduler takes nobody to be polled. -/
theorem Polls.idle (hpoll : w.state.polling = none) (id : TaskId) : w.writing.lookup id = none := by
  cases hwriting : w.writing.lookup id with
  | none => rfl
  | some allowance =>
    have hpolled := (h.polled id allowance hwriting).1
    rw [hpoll] at hpolled
    cases hpolled

/-- Entries of the tickets that do not write may change, within the bounds of a credit. -/
theorem Polls.insert (hwriting : w.writing.lookup id = none) (hlow : 1 ≤ credit.credit)
    (hhigh : credit.credit ≤ byteQuantum) (ready : List TaskId) :
    Polls ⟨{ w.state with tasks := w.state.tasks.insert id credit, ready := ready },
      w.writing⟩ := by
  refine ⟨?_, h.writes, ?_⟩
  · intro id' allowance hallow
    obtain ⟨hpoll, credit', hcred', hle⟩ := h.polled id' allowance hallow
    refine ⟨hpoll, credit', ?_, hle⟩
    have hne : id' ≠ id := by
      rintro rfl
      rw [hwriting] at hallow
      cases hallow
    rw [AList.lookup_insert_eq_ite, if_neg hne]
    exact hcred'
  · intro id' credit' hcred'
    rcases AList.lookup_insert_some hcred' with ⟨-, rfl⟩ | ⟨-, hcred'⟩
    · exact ⟨hlow, hhigh⟩
    · exact h.credits id' credit' hcred'

theorem Polls.join (hcred : w.state.tasks.lookup id = some credit)
    (hwriting : w.writing.lookup id = none) : Polls { w with state := w.state.join id credit } := by
  unfold FairState.join
  split
  · exact h
  · obtain ⟨hlow, hhigh⟩ := h.credits id credit hcred
    exact @Polls.insert w id { credit with ready := true } h hwriting hlow hhigh _

end FairWorld

namespace FairState

variable {s : FairState} {id : TaskId} {credit : WriteCredit}

@[simp] theorem join_polling : (s.join id credit).polling = s.polling := by
  unfold join
  split <;> rfl

/-- Who has joined has its credit as before. -/
theorem join_lookup (hcred : s.tasks.lookup id = some credit) :
    (s.join id credit).tasks.lookup id = some { credit with ready := true } := by
  unfold join
  split
  next hready =>
    rw [hcred, ← hready]
  · rw [AList.lookup_insert]

/-- A write takes from the credit, and a credit that is used up is renewed. -/
theorem endWrite_tasks (hlow : 1 ≤ credit.credit) (hhigh : credit.credit ≤ byteQuantum)
    (result : WriteResult) : ∃ credit', 1 ≤ credit'.credit ∧ credit'.credit ≤ byteQuantum ∧
      (s.endWrite id credit result).tasks = s.tasks.insert id credit' := by
  unfold FairState.endWrite
  split
  · dsimp only
    split
    · exact ⟨_, byteQuantum_pos, le_refl byteQuantum, rfl⟩
    · exact ⟨_, by dsimp only; omega, by dsimp only; omega, rfl⟩
  · exact ⟨{ credit with ready := false }, hlow, hhigh, rfl⟩

@[simp] theorem endWrite_polling (result : WriteResult) :
    (s.endWrite id credit result).polling = none := by
  unfold FairState.endWrite
  split
  · dsimp only
    split <;> rfl
  · rfl

end FairState

/-! ## The ring -/

namespace FairState

variable {s : FairState} {id : TaskId} {credit : WriteCredit}

/-- The front of the ring is being polled, if any ticket is. -/
structure Ring (s : FairState) : Prop where
  nodup : s.ready.Nodup
  ready : ∀ id, id ∈ s.ready ↔ ∃ credit, s.tasks.lookup id = some credit ∧ credit.ready = true
  front : ∀ id, s.polling = some id → s.ready.head? = some id

variable (h : s.Ring)

include h

/-- One entry and its place in the ring change together. -/
theorem Ring.ready_insert {ring : List TaskId}
    (hmem : ∀ id', id' ∈ ring ↔ id' = id ∧ credit.ready = true ∨ id' ≠ id ∧ id' ∈ s.ready)
    (id' : TaskId) : id' ∈ ring ↔ ∃ credit', (s.tasks.insert id credit).lookup id' = some credit' ∧
      credit'.ready = true := by
  rw [hmem id', AList.lookup_insert_eq_ite]
  by_cases hid : id' = id
  · simp [hid]
  · simp [hid, h.ready id']

theorem Ring.cons (hpoll : s.polling = some id) : ∃ rest, s.ready = id :: rest :=
  List.head?_eq_some_iff.mp (h.front id hpoll)

variable (hcred : s.tasks.lookup id = some credit)

include hcred

theorem Ring.not_mem (hready : credit.ready = false) : id ∉ s.ready := by
  intro hmem
  obtain ⟨credit', hcred', hready'⟩ := (h.ready id).mp hmem
  rw [hcred] at hcred'
  cases hcred'
  rw [hready] at hready'
  cases hready'

/-- At the end of the ring a ticket disturbs nobody; at its front it may stand only while no
    ticket is being polled. -/
theorem Ring.join (hfree : credit.ready = false →
      (credit.startupShare && !credit.hasWritten) = true →
      s.polling = none) : (s.join id credit).Ring := by
  unfold FairState.join
  split
  · exact h
  rename_i hnotReady
  have hready : credit.ready = false := by simpa using hnotReady
  have hnot := h.not_mem hcred hready
  have hne : ∀ id', id' ∈ s.ready → id' ≠ id := fun id' hmem heq => hnot (heq ▸ hmem)
  split
  next hfirst =>
    refine ⟨List.nodup_cons.mpr ⟨hnot, h.nodup⟩, h.ready_insert ?_, ?_⟩
    · intro id'
      rw [List.mem_cons]
      tauto
    · intro id' hpoll
      rw [hfree hready hfirst] at hpoll
      cases hpoll
  · refine ⟨List.nodup_append.mpr ⟨h.nodup, List.nodup_singleton _, ?_⟩, h.ready_insert ?_, ?_⟩
    · intro a ha b hb
      rw [List.mem_singleton.mp hb]
      exact hne a ha
    · intro id'
      rw [List.mem_append, List.mem_singleton]
      tauto
    · intro id' hpoll
      rw [List.head?_append, h.front id' hpoll]
      rfl

omit hcred

/-- The ring without a ticket that is not being polled. -/
theorem Ring.filter_front {id' : TaskId} (hpoll : s.polling = some id') (hne : id' ≠ id) :
    (s.ready.filter (· != id)).head? = some id' := by
  obtain ⟨rest, hring⟩ := h.cons hpoll
  rw [hring, List.filter_cons, if_pos (by simpa using hne)]
  rfl

theorem Ring.park (hpoll : s.polling ≠ some id) : (s.park id credit).Ring := by
  refine ⟨h.nodup.filter _, h.ready_insert ?_, ?_⟩
  · intro id'
    show id' ∈ s.ready.filter (· != id) ↔ _
    simp [and_comm]
  · intro id' hpoll'
    refine h.filter_front hpoll' ?_
    rintro rfl
    exact hpoll hpoll'

theorem Ring.drop : (s.drop id).Ring := by
  refine ⟨h.nodup.filter _, ?_, ?_⟩
  · intro id'
    show id' ∈ s.ready.filter (· != id) ↔
      ∃ credit, (s.tasks.erase id).lookup id' = some credit ∧ credit.ready = true
    rw [List.mem_filter, h.ready id', AList.lookup_erase_eq_ite]
    by_cases hid : id' = id
    · simp [hid]
    · simp [hid]
  · intro id' hpoll
    change (if s.polling = some id then none else s.polling) = some id' at hpoll
    split at hpoll
    · cases hpoll
    rename_i hne
    refine h.filter_front hpoll ?_
    rintro rfl
    exact hne hpoll

/-- The ticket that ends its write is the front of the ring: a turn that is over takes the
    front away, and a full quantum puts it at the end. -/
theorem Ring.endWrite (hcred : s.tasks.lookup id = some credit) (hpoll : s.polling = some id)
    (result : WriteResult) : (s.endWrite id credit result).Ring := by
  obtain ⟨rest, hring⟩ := h.cons hpoll
  have hready : credit.ready = true := by
    obtain ⟨credit', hcred', hready'⟩ := (h.ready id).mp (by rw [hring]; simp)
    rw [hcred] at hcred'
    cases hcred'
    exact hready'
  have hnodup := h.nodup
  rw [hring] at hnodup
  obtain ⟨hnot, hrest⟩ := List.nodup_cons.mp hnodup
  have hne : ∀ id', id' ∈ rest → id' ≠ id := fun id' hmem heq => hnot (heq ▸ hmem)
  have hmem : ∀ id', id' ∈ s.ready ↔ id' = id ∨ id' ∈ rest := by
    intro id'
    rw [hring, List.mem_cons]
  unfold FairState.endWrite
  split
  · dsimp only
    split
    · refine ⟨?_, h.ready_insert ?_, fun id' hnone => by cases hnone⟩
      · rw [hring, List.tail_cons]
        exact List.nodup_append.mpr ⟨hrest, List.nodup_singleton _, by
          intro a ha b hb
          rw [List.mem_singleton.mp hb]
          exact hne a ha⟩
      · intro id'
        rw [hmem id', hring, List.tail_cons, List.mem_append, List.mem_singleton]
        tauto
    · refine ⟨h.nodup, h.ready_insert ?_, fun id' hnone => by cases hnone⟩
      intro id'
      rw [hmem id']
      tauto
  · refine ⟨?_, h.ready_insert ?_, fun id' hnone => by cases hnone⟩
    · rw [hring]
      exact hrest
    · intro id'
      rw [hmem id', hring, List.tail_cons]
      tauto

end FairState

/-! ## Runs -/

namespace FairWorld

variable {w w' : FairWorld} {e : FairEvent} {id : TaskId} {credit : WriteCredit}

/-- What a step can do. -/
inductive FairStep (w : FairWorld) : FairEvent → FairWorld → Prop
  | idle {e : FairEvent} : FairStep w e w
  | ticketed {id : TaskId} (hnone : w.state.tasks.lookup id = none) :
      FairStep w (.ticket id) { w with state :=
        { w.state with
          tasks := w.state.tasks.insert id ⟨byteQuantum, false, false, !w.state.hasWritten⟩ } }
  | waits {id : TaskId} {len : Nat} {credit : WriteCredit}
      (hcredit : w.state.tasks.lookup id = some credit) (hwriting : w.writing.lookup id = none) :
      FairStep w (.beginWrite id len) { w with state := w.state.join id credit }
  | begun {id : TaskId} {len : Nat} {credit : WriteCredit}
      (hcredit : w.state.tasks.lookup id = some credit) (hwriting : w.writing.lookup id = none)
      (hpolling : w.state.polling = none)
      (hfront : (w.state.join id credit).ready.head? = some id) :
      FairStep w (.beginWrite id len)
        ⟨{ w.state.join id credit with polling := some id },
          w.writing.insert id (min credit.credit len)⟩
  | ended {id : TaskId} {result : WriteResult} {credit : WriteCredit} {allowance : Nat}
      (hcredit : w.state.tasks.lookup id = some credit)
      (hwriting : w.writing.lookup id = some allowance) (hfits : result.fits allowance = true) :
      FairStep w (.endWrite id result) ⟨w.state.endWrite id credit result, w.writing.erase id⟩
  | parked {id : TaskId} {credit : WriteCredit}
      (hcredit : w.state.tasks.lookup id = some credit) (hwriting : w.writing.lookup id = none) :
      FairStep w (.park id) { w with state := w.state.park id credit }
  | dropped {id : TaskId} : FairStep w (.drop id) ⟨w.state.drop id, w.writing.erase id⟩

theorem step_cases (h : w.step e = some w') : FairStep w e w' := by
  unfold step at h
  cases e with
  | ticket id =>
    unfold FairState.ticket at h
    dsimp only at h
    split at h
    next s hs =>
      cases h
      split at hs
      · cases hs
      rename_i hnone
      split at hs
      · cases hs
      · cases hs
        exact .ticketed (by simpa using hnone)
    · cases h
      exact .idle
  | beginWrite id len =>
    unfold FairState.beginWrite at h
    dsimp only at h
    split at h
    next credit hcred hwriting =>
      split at h
      · cases h
        exact .idle
      split at h
      next allowance s hs =>
        cases h
        split at hs
        · cases hs
        rename_i hturn
        simp only [FairState.join_polling, Bool.or_eq_true, bne_iff_ne, not_or,
          Bool.not_eq_true, Option.isSome_eq_false_iff, Option.isNone_iff_eq_none,
          not_not] at hturn
        obtain ⟨hallow, rfl⟩ := Prod.mk.inj hs
        cases hallow
        exact .begun hcred hwriting hturn.1 hturn.2
      next s hs =>
        cases h
        split at hs
        · cases hs
          exact .waits hcred hwriting
        · cases hs
    · cases h
  | endWrite id result =>
    dsimp only at h
    split at h
    next credit allowance hcred hwriting =>
      split at h
      next hfits =>
        cases h
        exact .ended hcred hwriting hfits
      · cases h
    · cases h
  | park id =>
    dsimp only at h
    split at h
    next credit hcred hwriting =>
      cases h
      exact .parked hcred hwriting
    · cases h
  | drop id =>
    dsimp only at h
    split at h
    · cases h
      exact .dropped
    · cases h

theorem Polls.step (h : w.Polls) (hstep : FairStep w e w') : w'.Polls := by
  cases hstep with
  | idle => exact h
  | @ticketed id hnone =>
    refine @Polls.insert w id _ h ?_ byteQuantum_pos (le_refl byteQuantum) w.state.ready
    cases hwriting : w.writing.lookup id with
    | none => rfl
    | some allowance =>
      obtain ⟨-, credit, hcred, -⟩ := h.polled id allowance hwriting
      rw [hnone] at hcred
      cases hcred
  | waits hcred hwriting => exact h.join hcred hwriting
  | @begun id len credit hcred hwriting hpoll hfront =>
    refine ⟨?_, ?_, (h.join hcred hwriting).credits⟩
    case refine_2 =>
      intro id' hid'
      obtain rfl : id = id' := Option.some.inj hid'
      exact ⟨_, AList.lookup_insert _⟩
    intro id' allowance hallow
    rw [AList.lookup_insert_eq_ite, h.idle hpoll id'] at hallow
    split at hallow
    next hid =>
      subst hid
      cases hallow
      exact ⟨rfl, _, FairState.join_lookup hcred, Nat.min_le_left _ _⟩
    · cases hallow
  | @ended id result credit allowance hcred hwriting hfits =>
    obtain ⟨hlow, hhigh⟩ := h.credits id credit hcred
    obtain ⟨credit', hlow', hhigh', htasks⟩ :=
      @FairState.endWrite_tasks w.state id credit hlow hhigh result
    refine ⟨?_, ?_, ?_⟩
    · intro id' allowance' hallow'
      obtain ⟨hne, hallow'⟩ := AList.lookup_erase_some hallow'
      have hid : id' = id := h.single (by rw [hallow']; rfl) (by rw [hwriting]; rfl)
      exact absurd hid hne
    · intro id' hid'
      rw [FairState.endWrite_polling] at hid'
      cases hid'
    · intro id' credit'' hcred''
      rw [htasks, AList.lookup_insert_eq_ite] at hcred''
      split at hcred''
      · cases hcred''
        exact ⟨hlow', hhigh'⟩
      · exact h.credits id' credit'' hcred''
  | @parked id credit hcred hwriting =>
    obtain ⟨hlow, hhigh⟩ := h.credits id credit hcred
    exact @Polls.insert w id { credit with ready := false } h hwriting hlow hhigh _
  | @dropped id =>
    refine ⟨?_, ?_, ?_⟩
    · intro id' allowance hallow
      obtain ⟨hne, hallow⟩ := AList.lookup_erase_some hallow
      obtain ⟨hpoll, credit, hcred, hle⟩ := h.polled id' allowance hallow
      refine ⟨?_, credit, ?_, hle⟩
      · show (if w.state.polling = some id then none else w.state.polling) = some id'
        rw [hpoll, if_neg (by simpa using hne)]
      · show (w.state.tasks.erase id).lookup id' = some credit
        rw [AList.lookup_erase_eq_ite, if_neg hne]
        exact hcred
    · intro id' hid'
      change (if w.state.polling = some id then none else w.state.polling) = some id' at hid'
      split at hid'
      · cases hid'
      rename_i hother
      have hne : id' ≠ id := by
        rintro rfl
        exact hother hid'
      rw [AList.lookup_erase_eq_ite, if_neg hne]
      exact h.writes id' hid'
    · intro id' credit hcred
      exact h.credits id' credit (AList.lookup_erase_some hcred).2

/-- A step that does not overtake keeps the ring. -/
theorem ring_step (h : w.Polls) (hring : w.state.Ring) (hstep : FairStep w e w')
    (hturn : ¬ w.Overtakes e) : w'.state.Ring := by
  have hjoin : ∀ {id : TaskId} {len : Nat} {credit : WriteCredit},
      ¬ w.Overtakes (.beginWrite id len) → w.state.tasks.lookup id = some credit →
      (w.state.join id credit).Ring := by
    intro id len credit hturn hcred
    refine hring.join hcred ?_
    intro hready hfirst
    cases hpoll : w.state.polling with
    | none => rfl
    | some other =>
      exact absurd ⟨by rw [hpoll]; rfl, credit, hcred, hready, hfirst⟩ hturn
  cases hstep with
  | idle => exact hring
  | @ticketed id hnone =>
    refine ⟨hring.nodup, hring.ready_insert ?_, hring.front⟩
    intro id'
    have hnot : id ∉ w.state.ready := by
      intro hmem
      obtain ⟨credit, hcred, -⟩ := (hring.ready id).mp hmem
      rw [hnone] at hcred
      cases hcred
    have hne : id' ∈ w.state.ready → id' ≠ id := fun hmem heq => hnot (heq ▸ hmem)
    tauto
  | waits hcred hwriting => exact hjoin hturn hcred
  | @begun id len credit hcred hwriting hpoll hfront =>
    have hjoined := hjoin hturn hcred
    refine ⟨hjoined.nodup, hjoined.ready, ?_⟩
    intro id' hid'
    obtain rfl : id = id' := Option.some.inj hid'
    exact hfront
  | @ended id result credit allowance hcred hwriting hfits =>
    exact hring.endWrite hcred (h.polled id allowance hwriting).1 result
  | @parked id credit hcred hwriting =>
    refine hring.park ?_
    intro hpoll
    obtain ⟨allowance, hallow⟩ := h.writes id hpoll
    rw [hwriting] at hallow
    cases hallow
  | dropped => exact hring.drop

end FairWorld

variable {es : List FairEvent}

theorem fair_polls {w : FairWorld} (h : fairMachine.Run es w) : w.Polls := by
  refine h.inv ?_ ?_
  · rintro w rfl
    exact ⟨nofun, nofun, nofun⟩
  · intro w e w' hpolls hstep
    exact hpolls.step (FairWorld.step_cases hstep)

/-- The ring is kept in every run in which no ticket overtakes another one. -/
theorem fair_ring {C : FairWorld → FairEvent → FairWorld → Prop}
    (hturn : ∀ w e w', C w e w' → ¬ w.Overtakes e) {w : FairWorld}
    (h : (fairMachine.restrict C).Run es w) : w.state.Ring := by
  have hinv : w.Polls ∧ w.state.Ring := by
    refine h.inv (I := fun w => w.Polls ∧ w.state.Ring) ?_ ?_
    · rintro w rfl
      exact ⟨fair_polls (.nil rfl), List.nodup_nil, fun id => ⟨nofun, nofun⟩, nofun⟩
    · rintro w e w' ⟨hpolls, hring⟩ ⟨hstep, hkept⟩
      have hcases := FairWorld.step_cases hstep
      exact ⟨hpolls.step hcases, FairWorld.ring_step hpolls hring hcases (hturn w e w' hkept)⟩
  exact hinv.2

/-- **The ring of ready writers.**  In every run in which no ticket puts itself before one
    that is being polled: the ring has no duplicates and contains exactly the tickets whose
    ready flag is set, one ticket at most is being polled, and every credit is between one
    byte and the quantum. -/
theorem fair_ring_sound {es : List FairEvent} {w : FairWorld}
    (h : (fairMachine.restrict fun w e _ => ¬ w.Overtakes e).Run es w) : w.Sound := by
  have hpolls := fair_polls h.of_restrict
  have hring := fair_ring (fun _ _ _ hturn => hturn) h
  exact ⟨hring.nodup, hring.ready, fun _ _ => hpolls.single, hpolls.credits⟩

namespace FairSample

def a : TaskId := ⟨_, canonical_ascending⟩

def b : TaskId := ⟨_, canonical_descending⟩

/-- Two writers one after the other. -/
def turns : List FairEvent :=
  [.ticket a, .ticket b, .beginWrite a 10, .endWrite a (.wrote 10), .beginWrite b byteQuantum,
    .endWrite b (.wrote byteQuantum), .beginWrite a 5]

/-- The stream of `a` is not ready, and `b` is polled for the first time before `a` is told. -/
def overtaken : List FairEvent :=
  [.ticket a, .ticket b, .beginWrite a 10, .beginWrite b 10, .endWrite a .pending]

/-- Decides `¬ Overtakes`. -/
def keepsTurn (w : FairWorld) : FairEvent → Bool
  | .beginWrite id _ =>
    w.state.polling.isNone || ((w.state.tasks.lookup id).all fun credit =>
      credit.ready || !(credit.startupShare && !credit.hasWritten))
  | _ => true

theorem not_overtakes {w : FairWorld} {e : FairEvent} (h : keepsTurn w e = true) :
    ¬ w.Overtakes e := by
  cases e with
  | beginWrite id len =>
    rintro ⟨hpoll, credit, hcred, hready, hfirst⟩
    simp only [keepsTurn, hcred, Option.all_some, hready, hfirst] at h
    rw [← Option.not_isSome, hpoll] at h
    cases h
  | _ => exact fun hfalse => hfalse

end FairSample

open FairSample in
/-- The ring after two writers have had their turns and the first has begun again. -/
theorem fair_ring_sound_turns :
    ∃ w, (fairMachine.restrict fun w e _ => ¬ w.Overtakes e).Run turns w ∧
      w.Sound ∧ w.state.polling = some a := by
  have hsome : (Machine.exec (fun w e => if keepsTurn w e then w.step e else none)
      ⟨.new, ∅⟩ turns).any (fun w => w.state.polling = some a) = true := by
    decide +kernel
  obtain ⟨w, hexec, hpolling⟩ := (Option.any_eq_true _ _).mp hsome
  have hrun : (fairMachine.restrict fun w e _ => ¬ w.Overtakes e).Run turns w :=
    Machine.restrict_run_of_exec (fun _ _ _ _ _ _ hok => not_overtakes hok) rfl hexec
  exact ⟨w, hrun, fair_ring_sound hrun, by simpa using hpolling⟩

open FairSample in
/-- `b` is overtaken by its own hurry: it stands before `a` when `a` ends its poll, so that
    `b` is taken out of the ring in the place of `a`, with its ready flag set. -/
theorem fair_ring_loses_ticket : ∃ w, fairMachine.Run overtaken w ∧
      (∃ credit, w.state.tasks.lookup b = some credit ∧ credit.ready = true) ∧
      b ∉ w.state.ready ∧ ¬ w.Sound := by
  have hsome : (Machine.exec FairWorld.step ⟨.new, ∅⟩ overtaken).any (fun w =>
      (w.state.tasks.lookup b).any (·.ready) && !w.state.ready.contains b)
      = true := by
    decide +kernel
  obtain ⟨w, hexec, hlost⟩ := (Option.any_eq_true _ _).mp hsome
  rw [Bool.and_eq_true, Option.any_eq_true] at hlost
  obtain ⟨⟨credit, hcredit, hready⟩, hring⟩ := hlost
  have hnot : b ∉ w.state.ready := by simpa using hring
  refine ⟨w, Machine.run_of_exec rfl hexec, ⟨credit, hcredit, hready⟩, hnot, ?_⟩
  intro hsound
  exact hnot ((hsound.ready b).mpr ⟨credit, hcredit, hready⟩)

end P2pFile.Node
