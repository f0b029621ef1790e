/-
  P2pFile.Node.ProtocolGate

  Safety of the frame gate against any frames of both actors.

  The gate is a machine whose events are whole calls of `restore` and `observe` with
  arbitrary arguments.  The log of accepted frames is history: no call reads it.
-/

import P2pFile.Lib.Machine
import P2pFile.Node.ProtocolSteps

namespace P2pFile.Node

open Lib Protocol Storage
open TaskProtocol (lookup_put observe_ok restored)
open Binding (numbered ofOffer)

variable {c : Crypto} {peer : NodeId}

/-! ## The gate as a machine -/

inductive GateEvent where
  | restore (task : TaskId) (sender : Actor) (root : ChunkHash) (chunks : Nat) (paused : Bool)
  | observe (authenticatedPeer : NodeId) (actor : Actor) (frame : Frame)

/-- The gate and the frames it has accepted, oldest first. -/
structure Gate where
  protocol : TaskProtocol
  log : List (Actor × Frame)

namespace Gate

def step (c : Crypto) (s : Gate) : GateEvent → Option Gate
  | .restore task sender root chunks paused =>
    some { s with protocol := (s.protocol.restore task sender root chunks paused).1 }
  | .observe authenticatedPeer actor frame =>
    match s.protocol.observe c authenticatedPeer actor frame with
    | (protocol, .ok ()) => some ⟨protocol, s.log ++ [(actor, frame)]⟩
    | (protocol, .error _) => some ⟨protocol, s.log⟩

/-- The request numbers of the accepted frames of one actor for one task. -/
def acceptedIds (s : Gate) (task : TaskId) (actor : Actor) : List UInt64 :=
  (s.log.filter fun entry => entry.1 == actor && entry.2.message.taskId == task).map
    fun entry => entry.2.requestId

end Gate

def gateMachine (c : Crypto) (peer : NodeId) : Machine Gate GateEvent :=
  Machine.ofStep (fun s => s = ⟨.new peer, []⟩) (Gate.step c)

/-- What one call does: nothing, a restored task, or an accepted frame. -/
inductive GateMove (c : Crypto) (s : Gate) : Gate → Prop
  | same : GateMove c s s
  | restore {task : TaskId} {sender : Actor} {root : ChunkHash} {chunks : Nat} {paused : Bool}
      (hfresh : s.protocol.tasks.lookup task = none)
      (hsize : s.protocol.tasks.size < maxTasksPerPeer) :
      GateMove c s { s with
        protocol := s.protocol.put task (restored sender root chunks paused) }
  | frame {actor : Actor} {frame : Frame} {g : TaskProtocol}
      (hobserved : Observed c s.protocol actor frame g) :
      GateMove c s ⟨g, s.log ++ [(actor, frame)]⟩

variable {s t : Gate}

theorem Gate.step_cases {e : GateEvent} (h : (gateMachine c peer).step s e t) : GateMove c s t := by
  have h : s.step c e = some t := h
  cases e with
  | restore task sender root chunks paused =>
    cases h
    rcases TaskProtocol.restore_cases s.protocol task sender root chunks paused with
      ⟨err, heq⟩ | ⟨hfresh, hsize, heq⟩
    · rw [heq]
      exact .same
    · rw [heq]
      exact .restore hfresh hsize
  | observe p actor frame =>
    simp only [Gate.step] at h
    rcases TaskProtocol.observe_cases c s.protocol p actor frame with
      ⟨err, heq⟩ | ⟨-, g, heq, hobserved⟩
    · rw [heq] at h
      cases h
      exact .same
    · rw [heq] at h
      cases h
      exact .frame hobserved

/-! ## What a call keeps -/

/-- A later binding of the same task: its identity is the same, and an end state is
    final. -/
structure Binding.Later (b b' : Binding) : Prop where
  incremental : b'.incremental = b.incremental
  sender : b'.sender = b.sender
  root : b'.root = b.root
  chunks : b'.chunks = b.chunks
  final : b.state = .completed ∨ b.state = .failed → b'.state = b.state

theorem Binding.Later.refl (b : Binding) : b.Later b := ⟨rfl, rfl, rfl, rfl, fun _ => rfl⟩

variable {b : Binding}

theorem Binding.Later.trans {a d : Binding} (h₁ : a.Later b) (h₂ : b.Later d) : a.Later d where
  incremental := h₂.incremental.trans h₁.incremental
  sender := h₂.sender.trans h₁.sender
  root := h₂.root.trans h₁.root
  chunks := h₂.chunks.trans h₁.chunks
  final := by
    intro hend
    have hb := h₁.final hend
    rw [h₂.final (hb ▸ hend), hb]

variable {b' : Binding} {actor : Actor} {id : UInt64} {m : Message}

/-- No frame is accepted in an end state. -/
theorem Accepts.not_final (h : Accepts b actor id m b') :
    b.state ≠ .completed ∧ b.state ≠ .failed := by
  have hflows : b.flows = true → b.state ≠ .completed ∧ b.state ≠ .failed := by
    intro hflows
    rcases Binding.flows_iff.mp hflows with h | h <;> simp [h]
  cases h with
  | resume _ _ hstate => rcases hstate with h | h | h <;> simp [h]
  | flowWait _ hstate =>
    rcases hstate with h | ⟨-, h⟩
    · exact hflows h
    · simp [h]
  | pausedFirst h => simp [h]
  | pausedLast h => simp [h]
  | resumeTask hstate => rcases hstate with h | h <;> simp [h]
  | completed _ _ hstate =>
    rcases hstate with h | h
    · simp [h]
    · exact hflows h
  | error h => exact h
  | _ => exact hflows ‹_›

theorem Accepts.later (h : Accepts b actor id m b') : b.Later (b'.numbered actor id) := by
  have hsame := h.sameTask
  refine ⟨hsame.incremental, hsame.sender, hsame.root, hsame.chunks, ?_⟩
  rintro (hend | hend)
  · exact absurd hend h.not_final.1
  · exact absurd hend h.not_final.2

variable {g g' : TaskProtocol}

theorem Observed.later {frame : Frame} (h : Observed c g actor frame g') {task : TaskId}
    (hb : g.tasks.lookup task = some b) : ∃ b', g'.tasks.lookup task = some b' ∧ b.Later b' := by
  cases h with
  | offer _ hfresh _ _ =>
    rw [lookup_put]
    by_cases htask : task = frame.message.taskId
    · rw [htask, hfresh] at hb
      cases hb
    · rw [if_neg htask]
      exact ⟨b, hb, .refl b⟩
  | task hlook _ haccepts =>
    rw [lookup_put]
    by_cases htask : task = frame.message.taskId
    · rw [if_pos htask]
      rw [htask, hlook] at hb
      cases hb
      exact ⟨_, rfl, haccepts.later⟩
    · rw [if_neg htask]
      exact ⟨b, hb, .refl b⟩

theorem GateMove.later (h : GateMove c s t) {task : TaskId}
    (hb : s.protocol.tasks.lookup task = some b) :
    ∃ b', t.protocol.tasks.lookup task = some b' ∧ b.Later b' := by
  cases h with
  | same => exact ⟨b, hb, .refl b⟩
  | @restore task' _ _ _ _ hfresh _ =>
    have hne : task ≠ task' := by
      rintro rfl
      rw [hfresh] at hb
      cases hb
    refine ⟨b, ?_, .refl b⟩
    rw [lookup_put, if_neg hne]
    exact hb
  | frame hobserved => exact hobserved.later hb

/-- Along any calls a task stays the same task. -/
theorem steps_later {fs : List GateEvent} (h : (gateMachine c peer).Steps s fs t) {task : TaskId}
    (hb : s.protocol.tasks.lookup task = some b) :
    ∃ b', t.protocol.tasks.lookup task = some b' ∧ b.Later b' := by
  refine h.inv (I := fun t => ∃ b', t.protocol.tasks.lookup task = some b' ∧ b.Later b') ?_
    ⟨b, hb, .refl b⟩
  rintro s e t ⟨b', hb', hlater⟩ hstep
  obtain ⟨b'', hb'', hlater'⟩ := (Gate.step_cases hstep).later hb'
  exact ⟨b'', hb'', hlater.trans hlater'⟩

/-! ## The invariant -/

/-- A task is pausing exactly while a pause is outstanding. -/
def Binding.PausingIff (b : Binding) : Prop :=
  b.state ≠ .failed → (b.state = .pausing ↔ ∃ actor, b.pauses actor ≠ none)

theorem Binding.PausingIff.free (h : b.PausingIff) (hfailed : b.state ≠ .failed)
    (hstate : b.state ≠ .pausing) (actor : Actor) : b.pauses actor = none := by
  by_contra hne
  exact hstate ((h hfailed).mpr ⟨actor, hne⟩)

theorem Accepts.pausingIff (h : Accepts b actor id m b') (hb : b.PausingIff) : b'.PausingIff := by
  cases h with
  | resume _ _ hstate =>
    have hfree : ∀ actor, b.pauses actor = none := by
      rcases hstate with h | h | h <;> exact hb.free (by simp [h]) (by simp [h])
    intro _
    simp [hfree]
  | pause hflows hfree =>
    intro _
    simp only [true_iff]
    exact ⟨actor, by simp⟩
  | pausedFirst hstate hpause hother =>
    intro _
    simp only [hstate, true_iff]
    refine ⟨actor, ?_⟩
    rw [Function.update_of_ne actor.opposite_ne.symm]
    exact hother
  | pausedLast hstate hpause hother =>
    intro _
    simp only [reduceCtorEq, false_iff, not_exists, not_not]
    intro a
    rcases Actor.eq_or_opposite a actor with rfl | rfl
    · rw [Function.update_of_ne a.opposite_ne.symm]
      exact hother
    · rw [Function.update_self]
  | resumeTask hstate =>
    have hfree : ∀ actor, b.pauses actor = none := by
      rcases hstate with h | h <;> exact hb.free (by simp [h]) (by simp [h])
    intro _
    simp [hfree]
  | completed =>
    intro _
    simp
  | error =>
    intro hfailed
    exact absurd rfl hfailed
  | _ => exact hb

/-- The accepted request numbers of an actor are `1, 2, ..., n`. -/
def Numbered (ids : List UInt64) (n : Nat) : Prop := ids.map UInt64.toNat = List.range' 1 n

theorem Numbered.snoc {ids : List UInt64} {last : UInt64} (h : Numbered ids last.toNat)
    (hid : checkedAdd last 1 = some id) : Numbered (ids ++ [id]) id.toNat := by
  have hnext : id.toNat = last.toNat + 1 := checkedAdd_one_toNat hid
  unfold Numbered at h ⊢
  rw [List.map_append, h, hnext, List.range'_concat]
  simp only [List.map_cons, List.map_nil, hnext]
  congr 2
  omega

/-- The last accepted request number of an actor. -/
def TaskProtocol.sequenceOf (g : TaskProtocol) (task : TaskId) (actor : Actor) : Nat :=
  ((g.tasks.lookup task).map fun b => (b.sequence actor).toNat).getD 0

structure GateInv (s : Gate) : Prop where
  size : s.protocol.tasks.size ≤ maxTasksPerPeer
  pausing : ∀ task b, s.protocol.tasks.lookup task = some b → b.PausingIff
  ids : ∀ task actor, Numbered (s.acceptedIds task actor) (s.protocol.sequenceOf task actor)

/-- The log entry of a frame counts for its own task and actor only. -/
theorem acceptedIds_snoc (s : Gate) (g : TaskProtocol) (actor : Actor) (frame : Frame)
    (task : TaskId) (a : Actor) : Gate.acceptedIds ⟨g, s.log ++ [(actor, frame)]⟩ task a =
      s.acceptedIds task a ++
        (if actor = a ∧ frame.message.taskId = task then [frame.requestId] else []) := by
  unfold Gate.acceptedIds
  simp only [List.filter_append, List.map_append]
  congr 1
  by_cases h : actor = a ∧ frame.message.taskId = task
  · rw [if_pos h, List.filter_cons_of_pos (by simp [h.1, h.2])]
    rfl
  · rw [if_neg h, List.filter_cons_of_neg (by simpa using h)]
    rfl

namespace GateInv

theorem init (peer : NodeId) : GateInv ⟨.new peer, []⟩ where
  size := Nat.zero_le _
  pausing := by
    intro task b hb
    exact absurd hb (by simp [TaskProtocol.new])
  ids := by
    intro task actor
    rfl

/-- A new task starts with both numbers at 0, but for its offer. -/
theorem restore {s : Gate} (h : GateInv s) {task : TaskId} {sender : Actor} {root : ChunkHash}
    {chunks : Nat} {paused : Bool} (hfresh : s.protocol.tasks.lookup task = none)
    (hsize : s.protocol.tasks.size < maxTasksPerPeer) : GateInv { s with
      protocol := s.protocol.put task (restored sender root chunks paused) } where
  size := Nat.le_trans (AList.size_insert_le _ _ _) hsize
  pausing := by
    intro task' b hb
    rw [lookup_put] at hb
    split at hb
    · cases hb
      intro _
      cases paused <;> simp [restored]
    · exact h.pausing task' b hb
  ids := by
    intro task' actor
    have hold := h.ids task' actor
    have hseq : TaskProtocol.sequenceOf
        (s.protocol.put task (restored sender root chunks paused)) task' actor =
        s.protocol.sequenceOf task' actor := by
      unfold TaskProtocol.sequenceOf
      rw [lookup_put]
      by_cases htask : task' = task
      · rw [if_pos htask, htask, hfresh]
        rfl
      · rw [if_neg htask]
    rw [hseq]
    exact hold

theorem frame {s : Gate} (h : GateInv s) {actor : Actor} {frame : Frame} {g : TaskProtocol}
    (hobserved : Observed c s.protocol actor frame g) : GateInv ⟨g, s.log ++ [(actor, frame)]⟩ := by
  have hother : ∀ {b : Binding} {task : TaskId} {a : Actor}, task ≠ frame.message.taskId →
      Numbered (Gate.acceptedIds ⟨s.protocol.put frame.message.taskId b,
        s.log ++ [(actor, frame)]⟩ task a)
        ((s.protocol.put frame.message.taskId b).sequenceOf task a) := by
    intro b task a htask
    unfold TaskProtocol.sequenceOf
    rw [lookup_put, if_neg htask, acceptedIds_snoc, if_neg fun h => htask h.2.symm, List.append_nil]
    exact h.ids task a
  cases hobserved with
  | offer hoffer hfresh hsize hid =>
    refine ⟨Nat.le_trans (AList.size_insert_le _ _ _) hsize, ?_, ?_⟩
    · intro task b hb
      rw [lookup_put] at hb
      split at hb
      · cases hb
        intro _
        simp [ofOffer]
      · exact h.pausing task b hb
    · intro task a
      by_cases htask : task = frame.message.taskId
      · subst htask
        have hnone := h.ids frame.message.taskId a
        unfold TaskProtocol.sequenceOf at hnone ⊢
        rw [hfresh] at hnone
        rw [lookup_put, if_pos rfl, acceptedIds_snoc]
        have hempty : s.acceptedIds frame.message.taskId a = [] := List.map_eq_nil_iff.mp hnone
        rw [hempty, List.nil_append]
        -- The offer is number 1 of its actor.
        by_cases ha : actor = a
        · subst ha
          rw [if_pos ⟨rfl, rfl⟩, hid]
          simp [ofOffer, Numbered]
        · rw [if_neg fun h => ha h.1]
          simp [ofOffer, Numbered, Function.update_of_ne (Ne.symm ha)]
      · exact hother htask
  | @task b b' hlook hid haccepts =>
    refine ⟨?_, ?_, ?_⟩
    · show (s.protocol.tasks.insert _ _).size ≤ _
      rw [AList.size_insert_of_lookup_some hlook]
      exact h.size
    · intro task b₁ hb
      rw [lookup_put] at hb
      split at hb
      · cases hb
        exact haccepts.pausingIff (h.pausing _ _ hlook)
      · exact h.pausing task b₁ hb
    · intro task a
      by_cases htask : task = frame.message.taskId
      · subst htask
        have hold := h.ids frame.message.taskId a
        unfold TaskProtocol.sequenceOf at hold ⊢
        rw [hlook] at hold
        rw [lookup_put, if_pos rfl, acceptedIds_snoc]
        have hsame := haccepts.sameTask.sequence
        by_cases ha : actor = a
        · subst ha
          simp only [numbered, Option.map_some, Option.getD_some, Function.update_self]
          exact Numbered.snoc hold hid
        · rw [if_neg fun h => ha h.1, List.append_nil]
          simp only [numbered, Option.map_some, Option.getD_some, hsame,
            Function.update_of_ne (Ne.symm ha)]
          exact hold
      · exact hother htask

end GateInv

theorem run_gateInv {es : List GateEvent} (h : (gateMachine c peer).Run es s) : GateInv s := by
  refine Machine.Run.inv (I := GateInv) ?_ ?_ h
  · rintro s rfl
    exact GateInv.init peer
  · intro s e t hI hstep
    cases Gate.step_cases hstep with
    | same => exact hI
    | restore hfresh hsize => exact hI.restore hfresh hsize
    | frame hobserved => exact hI.frame hobserved

/-! ## Single frames -/

/-- Who may send the message for the task, and for which chunks. -/
def Binding.Permits (b : Binding) (actor : Actor) : Message → Prop
  | .chunk _ index _ => actor = b.sender ∧ index.toNat < b.chunks
  | .requestChunk _ index | .chunkAck _ index =>
    actor = b.sender.opposite ∧ index.toNat < b.chunks
  | .resume .. | .flowWait .. | .completed .. => actor = b.sender.opposite
  | _ => True

theorem Accepts.permits (h : Accepts b actor id m b') : b.Permits actor m := by
  cases h with
  | requestChunk hactor hindex => exact ⟨Actor.eq_opposite_iff.mpr hactor, hindex⟩
  | chunkAck hactor hindex => exact ⟨Actor.eq_opposite_iff.mpr hactor, hindex⟩
  | chunk hactor hindex => exact ⟨hactor, hindex⟩
  | pause | pausedFirst | pausedLast | resumeTask | error => trivial
  | _ => exact Actor.eq_opposite_iff.mpr ‹_›

/-- An automatic message is one of those that everybody may send. -/
theorem Binding.permits_manual {frame : Frame} (h : b.Permits actor frame.manual.message) :
    b.Permits actor frame.message := by
  obtain ⟨id, m⟩ := frame
  cases m <;> exact h

/-- A frame that brings a task to Paused acknowledges the last outstanding pause. -/
theorem Accepts.reaches_paused (h : Accepts b actor id m b') (hpaused : b'.state = .paused)
    (hbefore : b.state ≠ .paused) : ∃ task pauseId, m = .paused task pauseId ∧ b.state = .pausing ∧
      b.pauses actor.opposite = some pauseId ∧ b.pauses actor = none := by
  cases h with
  | pausedLast hstate hpause hother => exact ⟨_, _, rfl, hstate, hpause, hother⟩
  | resume | pause | resumeTask | completed | error => cases hpaused
  | _ => exact absurd hpaused hbefore

/-- The manual frame of an automatic one is no acknowledgement. -/
theorem Frame.message_of_manual_paused {frame : Frame} {task : TaskId} {pauseId : UInt64}
    (h : frame.manual.message = .paused task pauseId) : frame.message = .paused task pauseId := by
  obtain ⟨id, m⟩ := frame
  cases m <;> first | exact h | exact absurd h (by simp [Frame.manual, Message.manual])

theorem Observed.permits {frame : Frame} (h : Observed c g actor frame g')
    (hoffer : frame.message.offered c = none) :
    ∃ b, g.tasks.lookup frame.message.taskId = some b ∧ b.Permits actor frame.message := by
  cases h with
  | offer hsome => rw [hsome] at hoffer; cases hoffer
  | task hlook _ haccepts =>
    exact ⟨_, hlook, Binding.permits_manual haccepts.permits⟩

theorem Observed.reaches_paused {frame : Frame} (h : Observed c g actor frame g') {task : TaskId}
    (hb' : g'.tasks.lookup task = some b') (hpaused : b'.state = .paused) :
    (∃ b, g.tasks.lookup task = some b ∧ b.state = .paused) ∨
      ∃ b pauseId, g.tasks.lookup task = some b ∧ frame.message = .paused task pauseId ∧
        b.state = .pausing ∧ b.pauses actor.opposite = some pauseId ∧ b.pauses actor = none := by
  cases h with
  | offer =>
    rw [lookup_put] at hb'
    split at hb'
    · cases hb'
      exact absurd hpaused (by simp [ofOffer])
    · exact Or.inl ⟨b', hb', hpaused⟩
  | @task b _ hlook _ haccepts =>
    rw [lookup_put] at hb'
    split at hb'
    next htask =>
      cases hb'
      rw [htask]
      by_cases hbefore : b.state = .paused
      · exact Or.inl ⟨b, hlook, hbefore⟩
      obtain ⟨task', pauseId, hm, hstate, hpause, hother⟩ := haccepts.reaches_paused hpaused hbefore
      have hmsg := Frame.message_of_manual_paused hm
      have htask' : frame.message.taskId = task' := by rw [hmsg]; rfl
      exact Or.inr ⟨b, pauseId, hlook, htask' ▸ hmsg, hstate, hpause, hother⟩
    · exact Or.inl ⟨b', hb', hpaused⟩

/-! ## A sample run

A restored task is resumed, paused by its sender, and the pause is acknowledged. -/

namespace GateSample

def other : NodeId := Bytes.fill 16 1

def task : TaskId := ⟨_, canonical_ascending⟩

def root : ChunkHash := Bytes.fill 32 3

def events : List GateEvent :=
  [.restore task .localNode root 1 false,
   .observe other .remoteNode ⟨1, .resume task root [0]⟩,
   .observe other .localNode ⟨1, .pause task⟩,
   .observe other .remoteNode ⟨2, .paused task 1⟩]

theorem exec_isSome : (Machine.exec (Gate.step .sample) ⟨.new other, []⟩ events).isSome = true := by
  decide +kernel

def gate : Gate := (Machine.exec (Gate.step .sample) ⟨.new other, []⟩ events).get exec_isSome

theorem run : (gateMachine .sample other).Run events gate :=
  Machine.run_of_exec rfl (Option.some_get exec_isSome).symm

end GateSample

/-! ## The gate theorem -/

/-- **Gate safety.**  After any calls with any frames of both actors: there are at most
    128 tasks; the accepted numbers of each actor and task are `1, 2, 3, ...`; a task that
    has not failed is pausing exactly while a pause is outstanding; in whatever follows, a
    task keeps its sender, root, chunk count and incremental flag and does not leave an end
    state; and of the next frame: if it is rejected nothing changes, if it is accepted it
    comes from the side that may send it and names a chunk of the task, and only the exact
    acknowledgement of the last outstanding pause brings a task to Paused. -/
theorem task_gate_safe {es : List GateEvent} {s : Gate} (h : (gateMachine c peer).Run es s) :
    s.protocol.tasks.size ≤ 128 ∧
    (∀ task actor, (s.acceptedIds task actor).map UInt64.toNat =
      List.range' 1 (s.acceptedIds task actor).length) ∧
    (∀ task b, s.protocol.tasks.lookup task = some b → b.state ≠ .failed →
      (b.state = .pausing ↔ ∃ actor, b.pauses actor ≠ none)) ∧
    (∀ fs t task b, (gateMachine c peer).Steps s fs t → s.protocol.tasks.lookup task = some b →
      ∃ b', t.protocol.tasks.lookup task = some b' ∧ b'.sender = b.sender ∧ b'.root = b.root ∧
        b'.chunks = b.chunks ∧ b'.incremental = b.incremental ∧
        (b.state = .completed ∨ b.state = .failed → b'.state = b.state)) ∧
    (∀ authenticatedPeer actor frame err,
      (s.protocol.observe c authenticatedPeer actor frame).2 = .error err →
        (s.protocol.observe c authenticatedPeer actor frame).1 = s.protocol) ∧
    (∀ authenticatedPeer actor frame,
      (s.protocol.observe c authenticatedPeer actor frame).2 = .ok () →
        (frame.message.offered c = none → ∃ b,
          s.protocol.tasks.lookup frame.message.taskId = some b ∧ b.Permits actor frame.message) ∧
        (∀ task b',
          (s.protocol.observe c authenticatedPeer actor frame).1.tasks.lookup task = some b' →
          b'.state = .paused →
          (∃ b, s.protocol.tasks.lookup task = some b ∧ b.state = .paused) ∨
            ∃ b pauseId, s.protocol.tasks.lookup task = some b ∧
              frame.message = .paused task pauseId ∧ b.state = .pausing ∧
              b.pauses actor.opposite = some pauseId ∧ b.pauses actor = none)) := by
  have hinv := run_gateInv h
  refine ⟨hinv.size, ?_, hinv.pausing, ?_, ?_, ?_⟩
  · intro task actor
    have hids := hinv.ids task actor
    have hlength := congrArg List.length hids
    rw [List.length_map, List.length_range'] at hlength
    rw [hlength]
    exact hids
  · intro fs t task b hsteps hb
    obtain ⟨b', hb', hlater⟩ := steps_later hsteps hb
    exact ⟨b', hb', hlater.sender, hlater.root, hlater.chunks, hlater.incremental, hlater.final⟩
  · intro p actor frame err herr
    exact TaskProtocol.observe_error herr
  · intro p actor frame hok
    have hobserved := observe_ok hok
    refine ⟨hobserved.permits, ?_⟩
    intro task b' hb' hpaused
    exact hobserved.reaches_paused hb' hpaused

open GateSample in
/-- After the sample run the task is paused, and the numbers of the receiver are 1, 2. -/
theorem task_gate_safe_sample : gate.protocol.state task = some .paused ∧
      (gate.acceptedIds task .remoteNode).map UInt64.toNat = [1, 2] := by
  have hlength : (gate.acceptedIds task .remoteNode).length = 2 := by
    decide +kernel
  refine ⟨by decide +kernel, ?_⟩
  rw [(task_gate_safe run).2.1, hlength]
  rfl

end P2pFile.Node
