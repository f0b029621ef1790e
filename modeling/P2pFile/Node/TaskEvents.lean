/-
  P2pFile.Node.TaskEvents

  What a consumer of the task events gets (`src/node/core/task_events.rs`).

  The buffer is bounded.  Progress events are replaced, refused or dropped for want of room.
  A lifecycle event is dropped only when there is nothing else to drop, and then the flag
  for a resynchronisation is set.  At each signal the consumer starts over.
-/

import P2pFile.Lib.Machine
import P2pFile.Node.TaskStore

namespace P2pFile.Node

open Lib

/-! ## The buffer -/

/-- An event that is more than a hint. -/
def TaskEvent.isLifecycle (event : TaskEvent) : Bool := !(event.kind == .progressHintChanged)

variable (events : List TaskEvent)

def lifecycle : List TaskEvent := events.filter TaskEvent.isLifecycle

/-- The tasks of the progress events. -/
def progressIds : List TaskId :=
  (events.filter fun e => e.kind == .progressHintChanged).map fun e => e.taskId

namespace TaskEventBuffer

variable {buffer : TaskEventBuffer} {event : TaskEvent} {events : List TaskEvent}

structure Bounded (buffer : TaskEventBuffer) : Prop where
  few : buffer.events.length ≤ maxPendingEvents
  once : (progressIds buffer.events).Nodup

/-- A progress event takes the place of one of the same task. -/
theorem replaceFirst_spec {p : TaskEvent → Bool} (hevent : event.kind = .progressHintChanged)
    (hp : ∀ old, p old = true → old.taskId = event.taskId ∧ old.kind = .progressHintChanged) :
    (replaceFirst p event events).length = events.length ∧
      lifecycle (replaceFirst p event events) = lifecycle events ∧
      progressIds (replaceFirst p event events) = progressIds events := by
  induction events with
  | nil => exact ⟨rfl, rfl, rfl⟩
  | cons old rest ih =>
    obtain ⟨hlen, hlifecycle, hids⟩ := ih
    rw [replaceFirst]
    split
    next hold =>
      obtain ⟨hid, hkind⟩ := hp old hold
      simp [lifecycle, progressIds, TaskEvent.isLifecycle, hevent, hkind, hid]
    · simp only [lifecycle, progressIds, List.filter_cons] at hlifecycle hids ⊢
      refine ⟨congrArg (· + 1) hlen, by rw [hlifecycle], ?_⟩
      split
      · exact congrArg (old.taskId :: ·) hids
      · exact hids

theorem lifecycle_append (l l' : List TaskEvent) :
    lifecycle (l ++ l') = lifecycle l ++ lifecycle l' :=
  List.filter_append l l'

theorem lifecycle_progress (h : event.kind = .progressHintChanged) : lifecycle [event] = [] := by
  simp [lifecycle, TaskEvent.isLifecycle, h]

theorem lifecycle_eraseP (events : List TaskEvent) :
    lifecycle (events.eraseP fun old => old.kind == .progressHintChanged) = lifecycle events := by
  induction events with
  | nil => rfl
  | cons old rest ih =>
    unfold lifecycle at *
    by_cases hkind : old.kind = .progressHintChanged
    · simp [TaskEvent.isLifecycle, hkind]
    · rw [List.eraseP_cons_of_neg (by simpa using hkind), List.filter_cons, List.filter_cons, ih]

/-- Room is made for one event: a progress event goes, or the flag is set. -/
theorem makeRoom_spec (h : buffer.Bounded) : (progressIds buffer.makeRoom.events).Nodup ∧
      buffer.makeRoom.events.length = buffer.events.length - 1 ∧
      ((lifecycle buffer.makeRoom.events = lifecycle buffer.events ∧
        buffer.makeRoom.resyncRequired = buffer.resyncRequired) ∨
        buffer.makeRoom.resyncRequired = true) := by
  unfold makeRoom
  split
  next hany =>
    refine ⟨h.once.sublist ((List.eraseP_sublist.filter _).map _), ?_,
      .inl ⟨lifecycle_eraseP _, rfl⟩⟩
    rw [List.length_eraseP, if_pos hany]
  · exact ⟨h.once.sublist (((List.tail_sublist _).filter _).map _), List.length_tail, .inr rfl⟩

/-- One event is recorded.  Only a lifecycle event can cost another one its place. -/
theorem push_spec (h : buffer.Bounded) (event : TaskEvent) : (buffer.push event).Bounded ∧
      ((lifecycle (buffer.push event).events = lifecycle (buffer.events ++ [event]) ∧
        (buffer.push event).resyncRequired = buffer.resyncRequired) ∨
        (event.isLifecycle = true ∧ (buffer.push event).resyncRequired = true)) := by
  unfold push
  dsimp only
  split
  · -- the task has a progress event already
    rename_i hsame
    obtain ⟨hlen, hlifecycle, hids⟩ := @replaceFirst_spec event buffer.events
      (fun old => old.taskId == event.taskId && old.kind == .progressHintChanged) hsame.1
      (by simp)
    refine ⟨⟨hlen ▸ h.few, hids ▸ h.once⟩, .inl ⟨?_, rfl⟩⟩
    rw [hlifecycle, lifecycle_append, lifecycle_progress hsame.1, List.append_nil]
  split
  next hfull =>
    exact ⟨h, .inl ⟨by rw [lifecycle_append, lifecycle_progress hfull.1, List.append_nil], rfl⟩⟩
  next hsame hfull =>
    have hroom : ∀ {room : TaskEventBuffer}, room.events.length < maxPendingEvents →
        (progressIds room.events).Nodup →
        (event.kind = .progressHintChanged → event.taskId ∉ progressIds room.events) →
        TaskEventBuffer.Bounded { room with events := room.events ++ [event] } := by
      intro room hlen hnodup hnew
      refine ⟨by rw [List.length_append]; exact hlen, ?_⟩
      unfold progressIds at *
      rw [List.filter_append, List.map_append]
      by_cases hkind : event.kind = .progressHintChanged
      · refine hnodup.append (by simp [hkind]) ?_
        simpa [hkind] using hnew hkind
      · simpa [hkind] using hnodup
    by_cases hlen : buffer.events.length = maxPendingEvents
    · have hkind : event.kind ≠ .progressHintChanged := fun hkind => hfull ⟨hkind, hlen⟩
      obtain ⟨hnodup, hless, hkept⟩ := makeRoom_spec h
      rw [if_pos hlen]
      refine ⟨hroom (by rw [hless, hlen]; decide) hnodup fun hk => absurd hk hkind, ?_⟩
      rcases hkept with ⟨hlifecycle, hflag⟩ | hflag
      · exact .inl ⟨by rw [lifecycle_append, lifecycle_append, hlifecycle], hflag⟩
      · exact .inr ⟨by simp [TaskEvent.isLifecycle, hkind], hflag⟩
    · rw [if_neg hlen]
      refine ⟨hroom (lt_of_le_of_ne h.few hlen) h.once fun hkind hmem => hsame ⟨hkind, ?_⟩,
        .inl ⟨rfl, rfl⟩⟩
      obtain ⟨old, hold, hid⟩ := List.mem_map.mp hmem
      obtain ⟨hold, hprogress⟩ := List.mem_filter.mp hold
      exact List.any_eq_true.mpr ⟨old, hold, by simp [hid, hprogress]⟩

end TaskEventBuffer

/-! ## The consumer -/

inductive EventCall where
  | record (event : TaskEvent)
  | drain
  | takeResyncRequired

/-- The buffer, and the lifecycle events that have been recorded and drained since the start
    or the last signal.  What is still buffered at a signal comes after it. -/
structure EventWorld where
  buffer : TaskEventBuffer
  recorded : List TaskEvent
  drained : List TaskEvent

namespace EventWorld

def start : EventWorld := ⟨.empty, [], []⟩

def step (w : EventWorld) : EventCall → EventWorld
  | .record event =>
    { w with buffer := w.buffer.push event, recorded := w.recorded ++ lifecycle [event] }
  | .drain =>
    let (events, buffer) := w.buffer.drain
    { w with buffer, drained := w.drained ++ lifecycle events }
  | .takeResyncRequired =>
    let (signal, buffer) := w.buffer.takeResyncRequired
    if signal then ⟨buffer, lifecycle buffer.events, []⟩ else { w with buffer }

/-- Every event is there, or the loss is signalled. -/
structure Inv (w : EventWorld) : Prop where
  bounded : w.buffer.Bounded
  complete : w.drained ++ lifecycle w.buffer.events = w.recorded ∨ w.buffer.resyncRequired = true

variable {w : EventWorld}

theorem Inv.step (h : w.Inv) (e : EventCall) : (w.step e).Inv := by
  cases e with
  | record event =>
    obtain ⟨hbounded, ⟨hevents, hflag⟩ | ⟨-, hflag⟩⟩ := TaskEventBuffer.push_spec h.bounded event
    · refine ⟨hbounded, h.complete.imp ?_ hflag.trans⟩
      intro hcomplete
      show w.drained ++ lifecycle (w.buffer.push event).events = w.recorded ++ lifecycle [event]
      rw [hevents, ← hcomplete, TaskEventBuffer.lifecycle_append, List.append_assoc]
    · exact ⟨hbounded, .inr hflag⟩
  | drain =>
    refine ⟨⟨Nat.zero_le _, List.nodup_nil⟩, h.complete.imp_left fun hcomplete => ?_⟩
    exact (List.append_nil _).trans hcomplete
  | takeResyncRequired =>
    unfold EventWorld.step TaskEventBuffer.takeResyncRequired
    dsimp only
    split
    · exact ⟨⟨h.bounded.few, h.bounded.once⟩, .inl rfl⟩
    next hsignal =>
      exact ⟨⟨h.bounded.few, h.bounded.once⟩, .inl (h.complete.resolve_right hsignal)⟩

end EventWorld

namespace EventSample

end EventSample

end P2pFile.Node
