/-
  P2pFile.Node.ProtocolSteps

  What the gate does to a task, said once.

  `Accepts` has one constructor for each kind of frame that `observe` lets through,
  with the guards of the source; `Observed` says what becomes of the gate.  Everything
  about the gate is proved against these two.
-/

import P2pFile.Node.Protocol

namespace P2pFile.Node

open Lib Protocol Storage
open Function (update)
open Bool (not_eq_false' or_eq_false_iff or_eq_true)

variable {c : Crypto}

/-! ## Actors and automatic frames -/

theorem Actor.opposite_ne (a : Actor) : a.opposite ≠ a := by
  cases a <;> decide

@[simp] theorem Actor.opposite_opposite (a : Actor) : a.opposite.opposite = a := by
  cases a <;> rfl

theorem Actor.eq_opposite_iff {a b : Actor} : a = b.opposite ↔ a ≠ b := by
  cases a <;> cases b <;> decide

theorem Actor.eq_or_opposite (a b : Actor) : a = b ∨ a = b.opposite := by
  cases a <;> cases b <;> decide

/-- What an offer says about its task: whether it is incremental, its root hash and its
    number of chunks. -/
def Message.offered (c : Crypto) : Message → Option (Bool × ChunkHash × Nat)
  | .offer _ _ relativePath entry | .automaticOffer _ _ relativePath entry =>
    some (false, entry.identity c relativePath)
  | .incrementalOffer _ _ relativePath entry _ => some (true, entry.identity c relativePath)
  | _ => none

namespace Frame

variable (frame : Frame)

@[simp] theorem manual_requestId : frame.manual.requestId = frame.requestId := by
  unfold manual
  cases frame.message.manual <;> rfl

@[simp] theorem manual_taskId : frame.manual.message.taskId = frame.message.taskId := by
  obtain ⟨id, message⟩ := frame
  cases message <;> rfl

@[simp] theorem manual_offered : frame.manual.message.offered c = frame.message.offered c := by
  obtain ⟨id, message⟩ := frame
  cases message <;> rfl

/-- The message that is checked is not automatic. -/
theorem manual_manual : frame.manual.message.manual = none := by
  obtain ⟨id, message⟩ := frame
  cases message <;> rfl

end Frame

/-! ## Accepted frames of a known task -/

/-- The frame that `actor` may send in the state of the binding, and the binding after
    it, but for the request number. -/
inductive Accepts (b : Binding) (actor : Actor) (id : UInt64) : Message → Binding → Prop
  | requestChunk {task : TaskId} {index : UInt32} (hactor : actor ≠ b.sender)
      (hindex : index.toNat < b.chunks) (hflows : b.flows = true) :
      Accepts b actor id (.requestChunk task index) b
  | chunkAck {task : TaskId} {index : UInt32} (hactor : actor ≠ b.sender)
      (hindex : index.toNat < b.chunks) (hflows : b.flows = true) :
      Accepts b actor id (.chunkAck task index) b
  | chunk {task : TaskId} {index : UInt32} {data : List UInt8} (hactor : actor = b.sender)
      (hindex : index.toNat < b.chunks) (hflows : b.flows = true) :
      Accepts b actor id (.chunk task index data) b
  | resume {task : TaskId} {rootHash : ChunkHash} {have' : List UInt8}
      (hactor : actor ≠ b.sender) (hroot : rootHash = b.root)
      (hstate : b.state = .offered ∨ b.state = .resumeRequested ∨ b.state = .interrupted) :
      Accepts b actor id (.resume task rootHash have') { b with state := .transferring }
  | flowWait {task : TaskId} (hactor : actor ≠ b.sender)
      (hstate : b.flows = true ∨ (b.incremental = true ∧ b.state = .offered)) :
      Accepts b actor id (.flowWait task) b
  | pause {task : TaskId} (hflows : b.flows = true) (hfree : b.pauses actor = none) :
      Accepts b actor id (.pause task)
        { b with pauses := update b.pauses actor (some id), state := .pausing }
  | pausedFirst {task : TaskId} {pauseId : UInt64} (hstate : b.state = .pausing)
      (hpause : b.pauses actor.opposite = some pauseId) (hother : b.pauses actor ≠ none) :
      Accepts b actor id (.paused task pauseId)
        { b with pauses := update b.pauses actor.opposite none }
  | pausedLast {task : TaskId} {pauseId : UInt64} (hstate : b.state = .pausing)
      (hpause : b.pauses actor.opposite = some pauseId) (hother : b.pauses actor = none) :
      Accepts b actor id (.paused task pauseId)
        { b with pauses := update b.pauses actor.opposite none, state := .paused }
  | resumeTask {task : TaskId} (hstate : b.state = .paused ∨ b.state = .interrupted) :
      Accepts b actor id (.resumeTask task) { b with state := .resumeRequested }
  | completed {task : TaskId} {rootHash : ChunkHash} {version : UInt16}
      (hactor : actor ≠ b.sender) (hroot : b.root = rootHash)
      (hstate : b.state = .offered ∨ b.flows = true) :
      Accepts b actor id (.completed task rootHash version)
        { b with state := .completed, pauses := fun _ => none }
  | error {task : TaskId} {code : ErrorCode} (hstate : b.state ≠ .completed ∧ b.state ≠ .failed) :
      Accepts b actor id (.error task code) { b with state := .failed }

theorem Binding.flows_iff {b : Binding} :
    b.flows = true ↔ b.state = .transferring ∨ b.state = .pausing := by
  simp only [flows, or_eq_true, beq_iff_eq]

/-- Both slots are empty after the slot of the other actor was cleared exactly if the
    own slot was empty. -/
theorem update_none_iff (pauses : Actor → Option UInt64) (actor : Actor) :
    ((update pauses actor.opposite none .localNode == none) &&
      (update pauses actor.opposite none .remoteNode == none)) = true ↔
      pauses actor = none := by
  cases actor <;> simp [Actor.opposite, update]

variable {b b' : Binding}

/-- A guard that was passed. -/
theorem Binding.passed {refused : Bool} {err : Error}
    (h : (if refused = true then .error err else .ok b) = Except.ok b') :
    refused = false ∧ b = b' := by
  cases refused with
  | true => cases h
  | false => exact ⟨rfl, Except.ok.inj h⟩

theorem Binding.advance_ok {actor : Actor} {id : UInt64} {m : Message}
    (h : b.advance actor id m = .ok b') : Accepts b actor id m b' := by
  cases m with
  | requestChunk task index =>
    obtain ⟨hok, rfl⟩ := passed h
    simp only [or_eq_false_iff, beq_eq_false_iff_ne, decide_eq_false_iff_not, Nat.not_le,
      not_eq_false'] at hok
    exact .requestChunk hok.1.1 hok.1.2 hok.2
  | chunkAck task index =>
    obtain ⟨hok, rfl⟩ := passed h
    simp only [or_eq_false_iff, beq_eq_false_iff_ne, decide_eq_false_iff_not, Nat.not_le,
      not_eq_false'] at hok
    exact .chunkAck hok.1.1 hok.1.2 hok.2
  | chunk task index data =>
    obtain ⟨hok, rfl⟩ := passed h
    simp only [or_eq_false_iff, bne_eq_false_iff_eq, decide_eq_false_iff_not, Nat.not_le,
      not_eq_false'] at hok
    exact .chunk hok.1.1 hok.1.2 hok.2
  | resume task rootHash have' =>
    obtain ⟨hok, rfl⟩ := passed h
    simp only [or_eq_false_iff, beq_eq_false_iff_ne, bne_eq_false_iff_eq,
      not_eq_false', or_eq_true, beq_iff_eq, or_assoc] at hok
    exact .resume hok.1.1.1 hok.1.1.2 hok.1.2
  | flowWait task =>
    obtain ⟨hok, rfl⟩ := passed h
    simp only [or_eq_false_iff, beq_eq_false_iff_ne, Bool.and_eq_false_iff,
      not_eq_false', Bool.and_eq_true, beq_iff_eq] at hok
    exact .flowWait hok.1 hok.2
  | pause task =>
    obtain ⟨hok, rfl⟩ := passed h
    simp only [or_eq_false_iff, not_eq_false', Option.isSome_eq_false_iff,
      Option.isNone_iff_eq_none] at hok
    exact .pause hok.1 hok.2
  | paused task pauseId =>
    simp only [advance, or_eq_true, bne_iff_ne, ne_eq] at h
    split at h
    · cases h
    rename_i hok
    simp only [not_or, not_not] at hok
    split at h
    next hempty =>
      cases h
      exact .pausedLast hok.1 hok.2 ((update_none_iff _ _).mp hempty)
    next hempty =>
      cases h
      exact .pausedFirst hok.1 hok.2 fun hother => hempty ((update_none_iff _ _).mpr hother)
  | resumeTask task =>
    obtain ⟨hok, rfl⟩ := passed h
    simp only [not_eq_false', or_eq_true, beq_iff_eq] at hok
    exact .resumeTask hok
  | completed task rootHash version =>
    obtain ⟨hok, rfl⟩ := passed h
    simp only [or_eq_false_iff, beq_eq_false_iff_ne, bne_eq_false_iff_eq,
      not_eq_false', or_eq_true, beq_iff_eq] at hok
    exact .completed hok.1.1.2 hok.1.2 hok.2
  | error task code =>
    obtain ⟨hok, rfl⟩ := passed h
    simp only [or_eq_false_iff, beq_eq_false_iff_ne] at hok
    exact .error hok
  | _ => exact absurd h (by simp [advance])

/-- What a frame never changes about a task. -/
structure Binding.SameTask (b b' : Binding) : Prop where
  incremental : b'.incremental = b.incremental
  sender : b'.sender = b.sender
  root : b'.root = b.root
  chunks : b'.chunks = b.chunks
  sequence : b'.sequence = b.sequence

theorem Accepts.sameTask {actor : Actor} {id : UInt64} {m : Message} (h : Accepts b actor id m b') :
    b.SameTask b' := by
  cases h <;> exact ⟨rfl, rfl, rfl, rfl, rfl⟩

/-! ## Accepted frames -/

/-- The binding that an offer makes. -/
def Binding.ofOffer (actor : Actor) (incremental : Bool) (root : ChunkHash) (chunks : Nat) :
    Binding :=
  ⟨incremental, actor, root, chunks, .offered, update (fun _ => 0) actor 1, fun _ => none⟩

/-- The binding with the request number of an accepted frame. -/
def Binding.numbered (b : Binding) (actor : Actor) (id : UInt64) : Binding :=
  { b with sequence := update b.sequence actor id }

/-- The gate with a new binding for the task. -/
def TaskProtocol.put (g : TaskProtocol) (task : TaskId) (b : Binding) : TaskProtocol :=
  { g with tasks := g.tasks.insert task b }

theorem TaskProtocol.lookup_put (g : TaskProtocol) (task t : TaskId) (b : Binding) :
    (g.put task b).tasks.lookup t = if t = task then some b else g.tasks.lookup t :=
  AList.lookup_insert_eq_ite ..

/-- The gate after an accepted frame. -/
inductive Observed (c : Crypto) (g : TaskProtocol) (actor : Actor) (frame : Frame) :
    TaskProtocol → Prop
  | offer {incremental : Bool} {root : ChunkHash} {chunks : Nat}
      (hoffer : frame.message.offered c = some (incremental, root, chunks))
      (hfresh : g.tasks.lookup frame.message.taskId = none)
      (hsize : g.tasks.size < maxTasksPerPeer) (hid : frame.requestId = 1) :
      Observed c g actor frame
        (g.put frame.message.taskId (Binding.ofOffer actor incremental root chunks))
  | task {b b' : Binding} (hlookup : g.tasks.lookup frame.message.taskId = some b)
      (hid : checkedAdd (b.sequence actor) 1 = some frame.requestId)
      (haccepts : Accepts b actor frame.requestId frame.manual.message b') :
      Observed c g actor frame (g.put frame.message.taskId (b'.numbered actor frame.requestId))

namespace TaskProtocol

variable {g : TaskProtocol} {peer : NodeId} {actor : Actor} {frame : Frame}

theorem observeOffer_cases (g : TaskProtocol) (actor : Actor) (id : UInt64) (incremental : Bool)
    (task : TaskId) (relativePath : String) (entry : Entry) :
    (∃ err, g.observeOffer c actor id incremental task relativePath entry = (g, .error err)) ∨
      (g.tasks.lookup task = none ∧ g.tasks.size < maxTasksPerPeer ∧ id = 1 ∧
        g.observeOffer c actor id incremental task relativePath entry =
          (g.put task (Binding.ofOffer actor incremental (entry.identity c relativePath).1
            (entry.identity c relativePath).2), .ok ())) := by
  unfold observeOffer
  split
  · exact .inl ⟨_, rfl⟩
  rename_i hok
  simp only [ge_iff_le, or_eq_true, decide_eq_true_eq, bne_iff_ne, ne_eq, not_or,
    Bool.not_eq_true, Option.isSome_eq_false_iff, Option.isNone_iff_eq_none, Nat.not_le,
    not_not] at hok
  exact .inr ⟨hok.1.1, hok.1.2, hok.2, rfl⟩

theorem observeTask_cases (g : TaskProtocol) (actor : Actor) (frame : Frame) :
    (∃ err, g.observeTask actor frame = (g, .error err)) ∨
      ∃ b b', g.tasks.lookup frame.message.taskId = some b ∧
        checkedAdd (b.sequence actor) 1 = some frame.requestId ∧
        Accepts b actor frame.requestId frame.message b' ∧
        g.observeTask actor frame =
          (g.put frame.message.taskId (b'.numbered actor frame.requestId), .ok ()) := by
  unfold observeTask
  cases hlookup : g.tasks.lookup frame.message.taskId with
  | none => exact .inl ⟨_, rfl⟩
  | some b =>
    simp only
    split
    · exact .inl ⟨_, rfl⟩
    rename_i hid
    simp only [bne_iff_ne, ne_eq, not_not] at hid
    cases hadvance : b.advance actor frame.requestId frame.message with
    | error err => exact .inl ⟨_, rfl⟩
    | ok b' =>
      exact .inr ⟨b, b', rfl, hid, Binding.advance_ok hadvance, rfl⟩

/-- A frame is rejected and leaves the gate as it is, or it is accepted. -/
theorem observe_cases (c : Crypto) (g : TaskProtocol) (peer : NodeId) (actor : Actor)
    (frame : Frame) : (∃ err, g.observe c peer actor frame = (g, .error err)) ∨
      (peer = g.peer ∧ ∃ g', g.observe c peer actor frame = (g', .ok ()) ∧
        Observed c g actor frame g') := by
  have htask : frame.manual.message.taskId = frame.message.taskId := frame.manual_taskId
  have hid : frame.manual.requestId = frame.requestId := frame.manual_requestId
  have hoffered : frame.manual.message.offered c = frame.message.offered c := frame.manual_offered
  unfold observe observeManual
  split
  · exact .inl ⟨_, rfl⟩
  rename_i hpeer
  have hpeer : peer = g.peer := not_not.mp hpeer
  split
  · exact .inl ⟨_, rfl⟩
  split
  · -- An offer.
    rename_i task group path entry hmessage
    rw [hmessage] at htask hoffered
    rcases observeOffer_cases g actor frame.manual.requestId false task path entry with
      hrejected | ⟨hfresh, hsize, hone, heq⟩
    · exact .inl hrejected
    refine .inr ⟨hpeer, _, heq, ?_⟩
    subst htask
    exact .offer hoffered.symm hfresh hsize (hid.symm.trans hone)
  · -- An incremental offer.
    rename_i task group path entry automatic hmessage
    rw [hmessage] at htask hoffered
    rcases observeOffer_cases g actor frame.manual.requestId true task path entry with
      hrejected | ⟨hfresh, hsize, hone, heq⟩
    · exact .inl hrejected
    refine .inr ⟨hpeer, _, heq, ?_⟩
    subst htask
    exact .offer hoffered.symm hfresh hsize (hid.symm.trans hone)
  · rcases observeTask_cases g actor frame.manual with
      hrejected | ⟨b, b', hlookup, hnext, haccepts, heq⟩
    · exact .inl hrejected
    · rw [htask, hid] at heq
      rw [htask] at hlookup
      rw [hid] at hnext haccepts
      exact .inr ⟨hpeer, _, heq, .task hlookup hnext haccepts⟩

/-- Only a frame with the number that `next_request_id` gives its sender is accepted. -/
theorem nextRequestId_of_observed {g' : TaskProtocol} (h : Observed c g actor frame g') :
    g.nextRequestId frame.message.taskId actor = .ok frame.requestId := by
  unfold TaskProtocol.nextRequestId
  cases h with
  | offer hoffer hfresh hsize hid => rw [hfresh, hid]
  | task hlookup hid haccepts => simp only [hlookup, hid]

/-- A rejected frame changes nothing. -/
theorem observe_error {err : Error} (h : (g.observe c peer actor frame).2 = .error err) :
    (g.observe c peer actor frame).1 = g := by
  rcases observe_cases c g peer actor frame with ⟨err', heq⟩ | ⟨-, g', heq, -⟩
  · rw [heq]
  · rw [heq] at h
    cases h

theorem observe_ok (h : (g.observe c peer actor frame).2 = .ok ()) :
    Observed c g actor frame (g.observe c peer actor frame).1 := by
  rcases observe_cases c g peer actor frame with ⟨err, heq⟩ | ⟨-, g', heq, hobs⟩
  · rw [heq] at h
    cases h
  · rw [heq]
    exact hobs

/-- The binding that a restored task starts with. -/
def restored (sender : Actor) (root : ChunkHash) (chunks : Nat) (paused : Bool) : Binding :=
  ⟨false, sender, root, chunks, if paused then .paused else .interrupted, fun _ => 0, fun _ => none⟩

theorem restore_cases (g : TaskProtocol) (task : TaskId) (sender : Actor) (root : ChunkHash)
    (chunks : Nat) (paused : Bool) :
    (∃ err, g.restore task sender root chunks paused = (g, .error err)) ∨
      (g.tasks.lookup task = none ∧ g.tasks.size < maxTasksPerPeer ∧
        g.restore task sender root chunks paused =
          (g.put task (restored sender root chunks paused), .ok ())) := by
  unfold restore
  split
  · exact .inl ⟨_, rfl⟩
  rename_i hok
  simp only [ge_iff_le, gt_iff_lt, or_eq_true, decide_eq_true_eq, not_or, Nat.not_le,
    Bool.not_eq_true, Option.isSome_eq_false_iff, Option.isNone_iff_eq_none] at hok
  exact .inr ⟨hok.1.2, hok.1.1, rfl⟩

end TaskProtocol

end P2pFile.Node
