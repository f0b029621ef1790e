/-
  P2pFile.Node.ProtocolAgree

  The gates of both ends agree on a task, whatever the order in which they saw the
  frames of the two sides.

  Neighbouring frames do not commute, so the orders are not compared.  Instead the
  binding of a task is read off the two frame sequences, each for itself: `Voice` is
  what one side has said about the task, and `Tracks` says how the two voices determine
  the binding.  The one fact that is about order, whether the task has been paused
  since its last Resume, can be told from the receiver's sequence alone: a pause that
  is over was asked for or acknowledged by the receiver.
-/

import P2pFile.Node.ProtocolSteps

namespace P2pFile.Node

open Lib Protocol Storage
open Function (update update_of_ne update_self)
open Binding (flows_iff numbered ofOffer)

variable {c : Crypto}

/-! ## Voices -/

/-- What one side has said about a task. -/
structure Voice where
  count : Nat
  offer : Option (Bool × ChunkHash × Nat)
  resumes : Nat
  resumeTasks : Nat
  pauses : Nat
  lastPause : UInt64
  acks : Nat
  completed : Bool
  failed : Bool
  /-- It has neither paused nor acknowledged a pause since its last Resume. -/
  quiet : Bool

namespace Voice

def silent : Voice := ⟨0, none, 0, 0, 0, 0, 0, false, false, true⟩

/-- The voice after one more message of the task. -/
def say (c : Crypto) (v : Voice) (id : UInt64) : Message → Voice
  | .offer g t p e => { v with count := v.count + 1, offer := (Message.offer g t p e).offered c }
  | .incrementalOffer g t p e a =>
    { v with count := v.count + 1, offer := (Message.incrementalOffer g t p e a).offered c }
  | .resume .. => { v with count := v.count + 1, resumes := v.resumes + 1, quiet := true }
  | .pause _ =>
    { v with count := v.count + 1, pauses := v.pauses + 1, lastPause := id, quiet := false }
  | .paused .. => { v with count := v.count + 1, acks := v.acks + 1, quiet := false }
  | .resumeTask _ => { v with count := v.count + 1, resumeTasks := v.resumeTasks + 1 }
  | .completed .. => { v with count := v.count + 1, completed := true }
  | .error .. => { v with count := v.count + 1, failed := true }
  | _ => { v with count := v.count + 1 }

/-- The voice after one more frame, which may belong to another task. -/
def hear (c : Crypto) (task : TaskId) (v : Voice) (frame : Frame) : Voice :=
  if frame.message.taskId = task then v.say c frame.requestId frame.manual.message else v

end Voice

/-- The frames of one actor in a sequence of both. -/
def sentBy (actor : Actor) (w : List (Actor × Frame)) : List Frame :=
  (w.filter fun entry => entry.1 == actor).map fun entry => entry.2

/-! ## How the voices determine the binding -/

/-- A pause of the voice is outstanding exactly if it has not been acknowledged, and
    then it is the last one. -/
def Slot (slot : Option UInt64) (v : Voice) (acks : Nat) : Prop :=
  (slot = none ∧ v.pauses = acks) ∨ (slot = some v.lastPause ∧ v.pauses = acks + 1)

/-- Where a task that has not ended is in its cycle. -/
def Cycle (state : WireTaskState) (resumes resumeTasks : Nat) : Prop :=
  match state with
  | .offered => resumes = 0 ∧ resumeTasks = 0
  | .resumeRequested => resumes = resumeTasks ∧ 0 < resumes
  | .transferring | .pausing | .paused => resumes = resumeTasks + 1
  | .interrupted => False
  | .completed | .failed => True

/-- The state of a task and its outstanding pauses, as the sender's and the receiver's
    voices determine them. -/
structure Told (state : WireTaskState) (p q : Option UInt64) (S R : Voice) : Prop where
  slots : state ≠ .completed → Slot p S R.acks ∧ Slot q R S.acks
  cleared : state = .completed → p = none ∧ q = none
  completed : state = .completed ↔ R.completed = true
  failed : state = .failed ↔ S.failed = true ∨ R.failed = true
  cycle : Cycle state R.resumes (S.resumeTasks + R.resumeTasks)
  pausing : state ≠ .failed → (state = .pausing ↔ p ≠ none ∨ q ≠ none)
  quiet : state = .transferring → R.quiet = true
  loud : state = .paused → R.quiet = false
  asked : q ≠ none → R.quiet = false

variable {p p' : Option UInt64}

theorem Slot.eq {v : Voice} {acks : Nat} (h : Slot p v acks) (h' : Slot p' v acks) : p = p' := by
  rcases h with ⟨hp, hn⟩ | ⟨hp, hn⟩ <;> rcases h' with ⟨hp', hn'⟩ | ⟨hp', hn'⟩
  · rw [hp, hp']
  · omega
  · omega
  · rw [hp, hp']

variable {x y : WireTaskState} {q : Option UInt64} {S R : Voice}

theorem Told.pauses_eq {q' : Option UInt64} (h : Told x p q S R) (h' : Told y p' q' S R) :
    p = p' ∧ q = q' := by
  have hcomp : x = .completed ↔ y = .completed := h.completed.trans h'.completed.symm
  by_cases hend : x = .completed
  · obtain ⟨rfl, rfl⟩ := h.cleared hend
    obtain ⟨rfl, rfl⟩ := h'.cleared (hcomp.mp hend)
    exact ⟨rfl, rfl⟩
  · have hslots := h.slots hend
    have hslots' := h'.slots fun he => hend (hcomp.mpr he)
    exact ⟨hslots.1.eq hslots'.1, hslots.2.eq hslots'.2⟩

/-- The counts tell the three parts of the cycle apart, the slots tell Pausing, and the
    receiver's voice tells Transferring from Paused. -/
theorem Told.state_eq (h : Told x p q S R) (h' : Told y p q S R) : x = y := by
  have hcomp : x = .completed ↔ y = .completed := h.completed.trans h'.completed.symm
  have hfailed : x = .failed ↔ y = .failed := h.failed.trans h'.failed.symm
  by_cases hend : x = .failed
  · rw [hend, hfailed.mp hend]
  have hpausing : x = .pausing ↔ y = .pausing :=
    (h.pausing hend).trans (h'.pausing fun he => hend (hfailed.mpr he)).symm
  have hcycle := h.cycle
  have hcycle' := h'.cycle
  have hquiet : x = .transferring ∨ y = .transferring → R.quiet = true :=
    fun he => he.elim h.quiet h'.quiet
  have hloud : x = .paused ∨ y = .paused → R.quiet = false := fun he => he.elim h.loud h'.loud
  clear h h'
  cases x <;> cases y <;> simp_all [Cycle]

/-- The binding of a task that has been offered, as the voices of the two sides
    determine it. -/
structure Tracks (b : Binding) (V : Actor → Voice) : Prop where
  count : ∀ a, (b.sequence a).toNat = (V a).count
  offer : (V b.sender).offer = some (b.incremental, b.root, b.chunks)
  noOffer : (V b.sender.opposite).offer = none
  told : Told b.state (b.pauses b.sender) (b.pauses b.sender.opposite) (V b.sender)
    (V b.sender.opposite)

open Voice (silent)

variable {b : Binding} {V : Actor → Voice}

/-- The sender of a task has offered it. -/
theorem Tracks.not_silent (h : Tracks b V) (hsilent : ∀ a, V a = silent) : False := by
  have hoffer := h.offer
  rw [hsilent] at hoffer
  exact absurd hoffer (by simp [silent])

variable {b' : Binding}

/-- Two voices determine one binding. -/
theorem Tracks.unique (h : Tracks b V) (h' : Tracks b' V) : b = b' := by
  have hsender : b'.sender = b.sender := by
    rcases Actor.eq_or_opposite b'.sender b.sender with heq | heq
    · exact heq
    · have hoffer := h'.offer
      rw [heq, h.noOffer] at hoffer
      cases hoffer
  have hsequence : b.sequence = b'.sequence := by
    funext a
    exact UInt64.toNat_inj.mp ((h.count a).trans (h'.count a).symm)
  have hoffer := h'.offer
  have htold := h'.told
  rw [hsender] at hoffer htold
  rw [h.offer] at hoffer
  have hslots := h.told.pauses_eq htold
  have hstate : b.state = b'.state := by
    rw [← hslots.1, ← hslots.2] at htold
    exact h.told.state_eq htold
  have hpauses : b.pauses = b'.pauses := by
    funext a
    rcases Actor.eq_or_opposite a b.sender with rfl | rfl
    · exact hslots.1
    · exact hslots.2
  obtain ⟨incremental, sender, root, chunks, state, sequence, pauses⟩ := b
  obtain ⟨incremental', sender', root', chunks', state', sequence', pauses'⟩ := b'
  simp_all

/-! ## Seen from the other end -/

/-- The binding as the other end holds it. -/
def Binding.swap (b : Binding) : Binding :=
  { b with
    sender := b.sender.opposite
    sequence := fun a => b.sequence a.opposite
    pauses := fun a => b.pauses a.opposite }

theorem Tracks.swap (h : Tracks b V) : Tracks b.swap fun a => V a.opposite where
  count := fun a => h.count a.opposite
  offer := by
    show (V b.sender.opposite.opposite).offer = _
    rw [Actor.opposite_opposite]
    exact h.offer
  noOffer := by
    rw [Actor.opposite_opposite]
    exact h.noOffer
  told := by
    show Told b.state (b.pauses b.sender.opposite.opposite)
      (b.pauses b.sender.opposite.opposite.opposite) (V b.sender.opposite.opposite)
      (V b.sender.opposite.opposite.opposite)
    rw [Actor.opposite_opposite]
    exact h.told

/-! ## One frame -/

variable {id : UInt64} {m : Message}

variable (h : Told b.state (b.pauses b.sender) (b.pauses b.sender.opposite) S R)

include h

theorem Told.sender (haccepts : Accepts b b.sender id m b') :
    Told b'.state (b'.pauses b.sender) (b'.pauses b.sender.opposite) (S.say c id m) R := by
  have hne : b.sender.opposite ≠ b.sender := b.sender.opposite_ne
  obtain ⟨hslots, hcleared, hcomp, hfailed, hcycle, hpausing, hquiet, hloud, hasked⟩ := h
  cases haccepts with
  | requestChunk hactor | chunkAck hactor | resume hactor | flowWait hactor | completed hactor =>
    exact absurd rfl hactor
  | chunk hactor hindex hflows =>
    exact ⟨hslots, hcleared, hcomp, hfailed, hcycle, hpausing, hquiet, hloud, hasked⟩
  | pause hflows hfree =>
    rw [flows_iff] at hflows
    constructor <;> grind [Voice.say, update, Slot, Cycle]
  | _ =>
    constructor <;> grind [Voice.say, update, Slot, Cycle]

theorem Told.receiver (haccepts : Accepts b b.sender.opposite id m b') :
    Told b'.state (b'.pauses b.sender) (b'.pauses b.sender.opposite) S (R.say c id m) := by
  have hne : b.sender.opposite ≠ b.sender := b.sender.opposite_ne
  have hback : b.sender.opposite.opposite = b.sender := b.sender.opposite_opposite
  obtain ⟨hslots, hcleared, hcomp, hfailed, hcycle, hpausing, hquiet, hloud, hasked⟩ := h
  cases haccepts with
  | requestChunk | chunkAck | flowWait =>
    exact ⟨hslots, hcleared, hcomp, hfailed, hcycle, hpausing, hquiet, hloud, hasked⟩
  | chunk hactor => exact absurd hactor hne
  | pause hflows hfree =>
    rw [flows_iff] at hflows
    constructor <;> grind [Voice.say, update, Slot, Cycle]
  | completed hactor hroot hstate =>
    rw [flows_iff] at hstate
    constructor <;> grind [Voice.say, update, Slot, Cycle]
  | _ =>
    constructor <;> grind [Voice.say, update, Slot, Cycle]

omit h

theorem say_count (v : Voice) (id : UInt64) (m : Message) : (v.say c id m).count = v.count + 1 := by
  cases m <;> rfl

variable {actor : Actor}

/-- Only an offer changes what was offered. -/
theorem Accepts.say_offer (h : Accepts b actor id m b') (v : Voice) :
    (v.say c id m).offer = v.offer := by
  cases h <;> rfl

/-- The voices after a message of `actor`. -/
def spoken (c : Crypto) (V : Actor → Voice) (actor : Actor) (id : UInt64) (m : Message) :
    Actor → Voice :=
  update V actor ((V actor).say c id m)

theorem Tracks.accepts (h : Tracks b V) (hid : checkedAdd (b.sequence actor) 1 = some id)
    (haccepts : Accepts b actor id m b') :
    Tracks (b'.numbered actor id) (spoken c V actor id m) := by
  have hsame := haccepts.sameTask
  have hne : b.sender.opposite ≠ b.sender := b.sender.opposite_ne
  have hcount : ∀ a, ((b'.numbered actor id).sequence a).toNat =
      (spoken c V actor id m a).count := by
    intro a
    by_cases ha : a = actor
    · subst ha
      simp only [numbered, spoken, update_self, say_count]
      rw [← h.count a]
      exact checkedAdd_one_toNat hid
    · simp only [numbered, spoken, update_of_ne ha, hsame.sequence]
      exact h.count a
  have hoffer : ∀ a, (spoken c V actor id m a).offer = (V a).offer := by
    intro a
    by_cases ha : a = actor
    · subst ha
      simp only [spoken, update_self, haccepts.say_offer]
    · simp only [spoken, update_of_ne ha]
  refine ⟨hcount, ?_, ?_, ?_⟩
  · show (spoken c V actor id m b'.sender).offer = some (b'.incremental, b'.root, b'.chunks)
    rw [hoffer, hsame.sender, hsame.incremental, hsame.root, hsame.chunks]
    exact h.offer
  · show (spoken c V actor id m b'.sender.opposite).offer = none
    rw [hoffer, hsame.sender]
    exact h.noOffer
  · show Told b'.state (b'.pauses b'.sender) (b'.pauses b'.sender.opposite)
      (spoken c V actor id m b'.sender) (spoken c V actor id m b'.sender.opposite)
    rw [hsame.sender]
    rcases Actor.eq_or_opposite actor b.sender with rfl | rfl
    · simp only [spoken, update_self, update_of_ne hne]
      exact h.told.sender haccepts
    · simp only [spoken, update_self, update_of_ne hne.symm]
      exact h.told.receiver haccepts

/-- An offer is the first thing that is said about a task. -/
theorem tracks_ofOffer {incremental : Bool} {root : ChunkHash} {chunks : Nat}
    (hoffer : m.offered c = some (incremental, root, chunks)) (hmanual : m.manual = none) :
    Tracks (ofOffer actor incremental root chunks) (spoken c (fun _ => silent) actor 1 m) := by
  have hne : actor.opposite ≠ actor := actor.opposite_ne
  have hsay : silent.say c 1 m =
      { silent with count := 1, offer := some (incremental, root, chunks) } := by
    cases m <;> simp_all [Voice.say, Message.offered, silent, Message.manual]
  have hself : spoken c (fun _ => silent) actor 1 m actor =
      { silent with count := 1, offer := some (incremental, root, chunks) } := by
    simp only [spoken, update_self, hsay]
  have hother : spoken c (fun _ => silent) actor 1 m actor.opposite = silent := by
    simp only [spoken, update_of_ne hne]
  refine ⟨?_, ?_, ?_, ?_⟩
  · intro a
    rcases Actor.eq_or_opposite a actor with rfl | rfl
    · rw [hself]
      simp [ofOffer]
    · rw [hother]
      simp [ofOffer, update_of_ne hne, silent]
  · exact congrArg Voice.offer hself
  · exact congrArg Voice.offer hother
  · show Told .offered none none (spoken c (fun _ => silent) actor 1 m actor)
      (spoken c (fun _ => silent) actor 1 m actor.opposite)
    rw [hself, hother]
    constructor <;> simp [Slot, Cycle, silent]

/-! ## Whole sequences -/

/-- What a gate holds of a task, and what the two sides have said about it. -/
inductive Follows (g : TaskProtocol) (task : TaskId) (V : Actor → Voice) : Prop
  | fresh (hlookup : g.tasks.lookup task = none) (hsilent : V = fun _ => silent)
  | bound {b : Binding} (hlookup : g.tasks.lookup task = some b) (htracks : Tracks b V)

theorem Follows.observed {g g' : TaskProtocol} {task : TaskId} {frame : Frame}
    (h : Follows g task V) (hobs : Observed c g actor frame g') :
    Follows g' task (update V actor ((V actor).hear c task frame)) := by
  by_cases htask : frame.message.taskId = task
  · subst htask
    have hheard : update V actor ((V actor).hear c frame.message.taskId frame) =
        spoken c V actor frame.requestId frame.manual.message := by
      simp only [spoken, Voice.hear, if_true]
    rw [hheard]
    cases hobs with
    | offer hoffer hfresh hsize hid =>
      cases h with
      | bound hlook => exact absurd hlook (by simp [hfresh])
      | fresh hlook hsilent =>
        subst hsilent
        refine .bound (TaskProtocol.lookup_put ..|>.trans (if_pos rfl)) ?_
        rw [hid]
        exact tracks_ofOffer ((frame.manual_offered).trans hoffer) (Frame.manual_manual frame)
    | task hlook' hid haccepts =>
      cases h with
      | fresh hlook => exact absurd hlook' (by simp [hlook])
      | bound hlook htracks =>
        rw [hlook] at hlook'
        cases hlook'
        exact .bound (TaskProtocol.lookup_put ..|>.trans (if_pos rfl))
          (htracks.accepts hid haccepts)
  · -- A frame of another task: neither the binding nor the voices change.
    have hheard : update V actor ((V actor).hear c task frame) = V := by
      simp only [Voice.hear, if_neg htask, Function.update_eq_self]
    have hlook : g'.tasks.lookup task = g.tasks.lookup task := by
      cases hobs <;> rw [TaskProtocol.lookup_put, if_neg (Ne.symm htask)]
    rw [hheard]
    cases h with
    | fresh hnone hsilent => exact .fresh (hlook.trans hnone) hsilent
    | bound hsome htracks => exact .bound (hlook.trans hsome) htracks

/-- A gate is shown the frames one after the other; `none` if it rejects one. -/
def TaskProtocol.observeAll (c : Crypto) (g : TaskProtocol) :
    List (Actor × Frame) → Option TaskProtocol
  | [] => some g
  | (actor, frame) :: rest =>
    match g.observe c g.peer actor frame with
    | (g', .ok ()) => observeAll c g' rest
    | (_, .error _) => none

theorem Follows.observeAll {task : TaskId} {w : List (Actor × Frame)} :
    ∀ {g g' : TaskProtocol} {V : Actor → Voice}, Follows g task V →
      g.observeAll c w = some g' →
      Follows g' task fun a => (sentBy a w).foldl (Voice.hear c task) (V a) := by
  -- By induction on the frames: the voice of the actor of the first one grows, the other's does
  -- not.
  induction w with
  | nil =>
    intro g g' V h hall
    cases hall
    exact h
  | cons entry rest ih =>
    intro g g' V h hall
    obtain ⟨actor, frame⟩ := entry
    simp only [TaskProtocol.observeAll] at hall
    split at hall
    next g₁ hok =>
      have hobs : Observed c g actor frame g₁ := by
        have hobs := TaskProtocol.observe_ok (g := g) (congrArg Prod.snd hok)
        rwa [hok] at hobs
      have hrest := ih (h.observed hobs) hall
      have hvoices : ∀ a, (sentBy a ((actor, frame) :: rest)).foldl (Voice.hear c task) (V a) =
          (sentBy a rest).foldl (Voice.hear c task)
            (update V actor ((V actor).hear c task frame) a) := by
        intro a
        by_cases ha : a = actor
        · subst ha
          simp [sentBy]
        · simp [sentBy, update_of_ne ha, Ne.symm ha]
      simp only [hvoices]
      exact hrest
    · cases hall

/-! ## Agreement -/

/-- The sequence `w` of a gate's frames is an interleaving of its own node's frames and of
    the other node's. -/
structure Interleaves (mine theirs : List Frame) (w : List (Actor × Frame)) : Prop where
  localNode : sentBy .localNode w = mine
  remoteNode : sentBy .remoteNode w = theirs

namespace AgreeSample

def task : TaskId := ⟨_, canonical_ascending⟩

def root : ChunkHash := Crypto.sample.hash "d".toUTF8.data.toList

/-- Both sides pause, and each acknowledges the pause of the other. -/
def offering : List Frame :=
  [⟨1, .offer task none "d" .directory⟩, ⟨2, .pause task⟩, ⟨3, .paused task 2⟩]

def receiving : List Frame := [⟨1, .resume task root []⟩, ⟨2, .pause task⟩, ⟨3, .paused task 2⟩]

/-- The offering side sees its own pause first. -/
def atOffering : List (Actor × Frame) :=
  [(.localNode, ⟨1, .offer task none "d" .directory⟩), (.remoteNode, ⟨1, .resume task root []⟩),
   (.localNode, ⟨2, .pause task⟩), (.remoteNode, ⟨2, .pause task⟩),
   (.localNode, ⟨3, .paused task 2⟩), (.remoteNode, ⟨3, .paused task 2⟩)]

/-- So does the receiving side. -/
def atReceiving : List (Actor × Frame) :=
  [(.remoteNode, ⟨1, .offer task none "d" .directory⟩), (.localNode, ⟨1, .resume task root []⟩),
   (.localNode, ⟨2, .pause task⟩), (.remoteNode, ⟨2, .pause task⟩),
   (.localNode, ⟨3, .paused task 2⟩), (.remoteNode, ⟨3, .paused task 2⟩)]

theorem atOffering_interleaves : Interleaves offering receiving atOffering := ⟨by decide, by decide⟩

theorem atReceiving_interleaves : Interleaves receiving offering atReceiving :=
  ⟨by decide, by decide⟩

def start : TaskProtocol := .new (Bytes.fill 16 1)

theorem offering_isSome : (start.observeAll .sample atOffering).isSome = true := by
  decide +kernel

theorem receiving_isSome : (start.observeAll .sample atReceiving).isSome = true := by
  decide +kernel

def offeringEnd : TaskProtocol := (start.observeAll .sample atOffering).get offering_isSome

def receivingEnd : TaskProtocol := (start.observeAll .sample atReceiving).get receiving_isSome

end AgreeSample

/-- **Agreement.**  Neither gate knows the task yet, and each is shown the frames of the
    two sides in some order of its own that keeps the order within each side.  If both
    accept everything they end with the same binding of the task, up to the swap of the
    actors. -/
theorem both_ends_agree {g₁ g₂ g₁' g₂' : TaskProtocol} {task : TaskId} {s r : List Frame}
    {w₁ w₂ : List (Actor × Frame)} (hfresh₁ : g₁.tasks.lookup task = none)
    (hfresh₂ : g₂.tasks.lookup task = none) (hw₁ : Interleaves s r w₁)
    (hw₂ : Interleaves r s w₂) (hg₁ : g₁.observeAll c w₁ = some g₁')
    (hg₂ : g₂.observeAll c w₂ = some g₂') :
    g₂'.tasks.lookup task = (g₁'.tasks.lookup task).map Binding.swap := by
  have h₁ := (Follows.fresh hfresh₁ rfl).observeAll hg₁
  have h₂ := (Follows.fresh hfresh₂ rfl).observeAll hg₂
  -- The voices that the second gate hears are those of the first with the actors swapped.
  have hvoices : (fun a => (sentBy a w₂).foldl (Voice.hear c task) silent) =
      fun a : Actor => (sentBy a.opposite w₁).foldl (Voice.hear c task) silent := by
    funext a
    cases a with
    | localNode =>
      show (sentBy .localNode w₂).foldl _ _ = (sentBy .remoteNode w₁).foldl _ _
      rw [hw₂.localNode, hw₁.remoteNode]
    | remoteNode =>
      show (sentBy .remoteNode w₂).foldl _ _ = (sentBy .localNode w₁).foldl _ _
      rw [hw₂.remoteNode, hw₁.localNode]
  rw [hvoices] at h₂
  cases h₁ with
  | fresh hnone₁ hsilent₁ =>
    cases h₂ with
    | fresh hnone₂ => rw [hnone₁, hnone₂]; rfl
    | bound hsome₂ htracks₂ =>
      exact htracks₂.not_silent (fun a => congrFun hsilent₁ a.opposite) |>.elim
  | bound hsome₁ htracks₁ =>
    have hswap := htracks₁.swap
    cases h₂ with
    | fresh hnone₂ hsilent₂ => exact hswap.not_silent (congrFun hsilent₂) |>.elim
    | bound hsome₂ htracks₂ =>
      rw [hsome₁, hsome₂, Option.map_some, htracks₂.unique hswap]

open AgreeSample in
/-- Two pauses that cross: both gates end in Paused, with three frames of each side. -/
theorem both_ends_agree_crossing : offeringEnd.state task = some .paused ∧
      receivingEnd.tasks.lookup task = (offeringEnd.tasks.lookup task).map Binding.swap :=
  ⟨by decide +kernel,
    both_ends_agree rfl rfl atOffering_interleaves atReceiving_interleaves
      (Option.some_get offering_isSome).symm
      (Option.some_get receiving_isSome).symm⟩

end P2pFile.Node
