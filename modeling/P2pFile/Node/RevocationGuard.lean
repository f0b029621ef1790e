/-
  P2pFile.Node.RevocationGuard

  The guard of a stream that needs a remote right (`src/node/core/remote_auth.rs`).

  The rights of a connection are in a watch channel, which keeps only their last value.  So
  the publisher counts the revocations of each direction, and a guard compares the count
  with that of its first poll.  One step of the world is a publication or one poll of one
  of the guarded futures.  The channel is a parameter: of `tokio::sync::watch` it is assumed
  what `Watch` says.
-/

import Mathlib.Logic.Function.Basic
import P2pFile.Identity

namespace P2pFile.Node.RemoteAuth

/-! ## The watch channel -/

/-- A watch channel: it keeps the last value, and for each of the receivers `ι` whether it has
    seen that value.  `changed` is ready for a receiver that has not, and fails for one that
    has if there is no sender any more. -/
structure Watch (ι α : Type) where
  State : Type
  value : State → α
  unseen : State → ι → Bool
  closed : State → Bool
  sendModify : (α → α) → State → State
  /-- `send_if_modified` with an update that returns `false`. -/
  alter : (α → α) → State → State
  /-- The sender is dropped. -/
  close : State → State
  /-- `changed` returns for the receiver. -/
  mark : ι → State → State
  value_sendModify : ∀ f s, value (sendModify f s) = f (value s)
  unseen_sendModify : ∀ f s i, unseen (sendModify f s) i = true
  value_alter : ∀ f s, value (alter f s) = f (value s)
  unseen_alter : ∀ f s i, unseen (alter f s) i = unseen s i
  value_close : ∀ s, value (close s) = value s
  unseen_close : ∀ s i, unseen (close s) i = unseen s i
  value_mark : ∀ i s, value (mark i s) = value s
  closed_mark : ∀ i s, closed (mark i s) = closed s
  unseen_mark : ∀ i s, unseen (mark i s) i = false
  unseen_mark_ne : ∀ i s j, j ≠ i → unseen (mark i s) j = unseen s j

namespace Watch

attribute [simp] value_sendModify unseen_sendModify value_alter unseen_alter value_close
  unseen_close value_mark closed_mark unseen_mark

variable {ι α : Type} (W : Watch ι α) (i : ι) (s : W.State)

/-- The receiver has called `changed` until nothing was new. -/
def catchUp : W.State := if W.unseen s i then W.mark i s else s

@[simp]
theorem closed_catchUp : W.closed (W.catchUp i s) = W.closed s := by
  unfold catchUp
  split <;> simp

/-- A flag for each receiver. -/
def flags (ι α : Type) [DecidableEq ι] : Watch ι α where
  State := α × (ι → Bool) × Bool
  value s := s.1
  unseen s := s.2.1
  closed s := s.2.2
  sendModify f s := (f s.1, fun _ => true, s.2.2)
  alter f s := (f s.1, s.2)
  close s := (s.1, s.2.1, true)
  mark i s := (s.1, Function.update s.2.1 i false, s.2.2)
  value_sendModify _ _ := rfl
  unseen_sendModify _ _ _ := rfl
  value_alter _ _ := rfl
  unseen_alter _ _ _ := rfl
  value_close _ := rfl
  unseen_close _ _ := rfl
  value_mark _ _ := rfl
  closed_mark _ _ := rfl
  unseen_mark i _ := Function.update_self i _ _
  unseen_mark_ne _ _ _ hne := Function.update_of_ne hne _ _

end Watch

/-! ## Rights and their publication -/

structure AuthorizationGrant where
  password : Bool
  trustedDevice : Bool
  deriving DecidableEq

def AuthorizationGrant.authorized (g : AuthorizationGrant) : Bool := g.password || g.trustedDevice

structure RemoteAuthorization where
  inbound : AuthorizationGrant
  outbound : AuthorizationGrant
  deriving DecidableEq

/-- `inbound_authorized` and `outbound_authorized`. -/
def RemoteAuthorization.authorized (a : RemoteAuthorization) (inbound : Bool) : Bool :=
  (if inbound then a.inbound else a.outbound).authorized

/-- The change revokes the direction. -/
def revokes (inbound : Bool) (before after : RemoteAuthorization) : Bool :=
  before.authorized inbound && !after.authorized inbound

/-- The counters, which wrap around. -/
structure RevocationEpochs where
  inbound : UInt64
  outbound : UInt64

namespace RevocationEpochs

variable (e : RevocationEpochs)

def get (inbound : Bool) : UInt64 := if inbound then e.inbound else e.outbound

def changed (before after : RemoteAuthorization) : RevocationEpochs where
  inbound := if revokes true before after then e.inbound + 1 else e.inbound
  outbound := if revokes false before after then e.outbound + 1 else e.outbound

end RevocationEpochs

variable {W : Watch Nat RemoteAuthorization}

/-- The sender of the watch channel and the epochs. -/
structure AuthorizationPublisher (W : Watch Nat RemoteAuthorization) where
  sender : W.State
  epochs : RevocationEpochs

/-- A future under guard: not yet polled, waiting in `changed` with the epoch that `denied`
    has read, or at its end. -/
inductive Guard where
  | unpolled
  | waiting (epoch : UInt64)
  | done

namespace AuthorizationPublisher

variable (p : AuthorizationPublisher W)

/-- The rights that were published last. -/
def value : RemoteAuthorization := W.value p.sender

def sendModify (update : RemoteAuthorization → RemoteAuthorization) :
    AuthorizationPublisher W where
  sender := W.sendModify update p.sender
  epochs := p.epochs.changed p.value (update p.value)

def sendIfModified (update : RemoteAuthorization → RemoteAuthorization × Bool) :
    AuthorizationPublisher W :=
  if (update p.value).2 then p.sendModify fun a => (update a).1
  else { p with sender := W.alter (fun a => (update a).1) p.sender }

variable (inbound : Bool) (i : Nat) (epoch : UInt64)

/-- `changed` finds nothing new: it waits, or fails without a sender. -/
def idle (s : W.State) : Guard × W.State := (if W.closed s then .done else .waiting epoch, s)

/-- The loop of `denied`, which goes round after each publication. -/
def denied (s : W.State) : Guard × W.State :=
  if !(W.value s).authorized inbound || p.epochs.get inbound != epoch then (.done, s)
  else if W.unseen s i then denied (W.mark i s)
  else idle epoch s
termination_by (W.unseen s i).toNat
decreasing_by simp_all

/-- Nothing is published during a poll, so the second round waits. -/
theorem denied_eq (s : W.State) : p.denied inbound i epoch s =
    if (W.value s).authorized inbound ∧ p.epochs.get inbound = epoch then
      idle epoch (W.catchUp i s)
    else (.done, s) := by
  unfold denied
  unfold denied
  grind [Watch.catchUp, Watch.value_mark, Watch.unseen_mark]

/-- A poll of `denied`, which goes on where it waited. -/
def pollDenied : Guard → Guard × W.State
  | .unpolled => p.denied inbound i (p.epochs.get inbound) p.sender
  | .waiting epoch =>
    if W.unseen p.sender i then p.denied inbound i epoch (W.mark i p.sender)
    else idle epoch p.sender
  | .done => (.done, p.sender)

end AuthorizationPublisher

/-! ## Publications and polls -/

/-- The publisher and the futures, with the direction that each of them needs. -/
structure World (W : Watch Nat RemoteAuthorization) extends AuthorizationPublisher W where
  inbound : Nat → Bool
  guards : Nat → Guard

/-- What happens.  The only caller of `send_if_modified` reports whether it changes the
    rights; `send_replace` is a `send_modify`. -/
inductive Event (α : Type) where
  | modify (update : RemoteAuthorization → RemoteAuthorization)
  | ifModified (update : RemoteAuthorization → RemoteAuthorization)
  | drop
  | poll (i : Nat) (work : Option (Except Error α))

namespace World

open AuthorizationPublisher

variable {α : Type} (w : World W) (i : Nat) (work : Option (Except Error α))

/-- A poll of `guard`: what it gives, and the future and the channel afterwards.  `denied` is
    polled first; `work` is what the work gives if it is polled then. -/
def poll : Option (Except Error α) × Guard × W.State :=
  match w.guards i, w.pollDenied (w.inbound i) i (w.guards i) with
  | .done, _ => (none, .done, w.sender)
  | _, (.waiting epoch, s) => (work, if work.isSome then .done else .waiting epoch, s)
  | _, (_, s) => (some (.error (.protocol "当前方向的远程授权已撤销")), .done, s)

def step : Event α → World W
  | .modify update => { w with toAuthorizationPublisher := w.sendModify update }
  | .ifModified update =>
    { w with toAuthorizationPublisher := w.sendIfModified fun a => (update a, a != update a) }
  | .drop => { w with sender := W.close w.sender }
  | .poll i work =>
    { w with
      sender := (w.poll i work).2.2
      guards := Function.update w.guards i (w.poll i work).2.1 }

/-- `Since α i w k`: guard `i` was polled, and its direction revoked `k` times since then. -/
inductive Since (α : Type) (i : Nat) : World W → Nat → Prop
  | first {w : World W} (h : w.guards i = .unpolled) (work : Option (Except Error α)) :
      Since α i (w.step (.poll i work)) 0
  | later {w : World W} {k : Nat} (h : Since α i w k) (e : Event α) :
      Since α i (w.step e) (k + (revokes (w.inbound i) w.value (w.step e).value).toNat)

variable {w i}

/-- A poll of `denied` leaves the channel, or its receiver has seen the last value. -/
theorem pollDenied_sender (b : Bool) (g : Guard) : (w.pollDenied b i g).2 = w.sender ∨
    (w.pollDenied b i g).2 = W.mark i w.sender := by
  cases g with
  | done => exact .inl rfl
  | unpolled =>
    rw [pollDenied, denied_eq]
    split
    · unfold Watch.catchUp idle
      split <;> simp
    · exact .inl rfl
  | waiting epoch =>
    rw [pollDenied]
    split
    · rw [denied_eq]
      unfold Watch.catchUp idle
      split <;> simp
    · exact .inl rfl

theorem poll_sender : (w.poll i work).2.2 = w.sender ∨
    (w.poll i work).2.2 = W.mark i w.sender := by
  have hdenied := pollDenied_sender (w := w) (i := i) (w.inbound i) (w.guards i)
  unfold World.poll
  generalize w.pollDenied (w.inbound i) i (w.guards i) = r at hdenied
  obtain ⟨g, s⟩ := r
  split
  · exact .inl rfl
  · rename_i heq _
    cases heq
    exact hdenied
  · rename_i heq _
    cases heq
    exact hdenied

theorem value_poll : (w.step (.poll i work)).value = w.value := by
  show W.value (w.poll i work).2.2 = W.value w.sender
  rcases poll_sender (w := w) (i := i) work with hsame | hmark
  · rw [hsame]
  · rw [hmark, W.value_mark]

/-- What a step that is no poll of the guard does to it: a revocation of its direction is
    counted and published, and nothing else makes its receiver see more. -/
structure Counts (i : Nat) (w t : World W) (n : Nat) : Prop where
  count : n = (revokes (w.inbound i) w.value t.value).toNat
  epochs : t.epochs.get (w.inbound i) = w.epochs.get (w.inbound i) + .ofNat n
  inbound : t.inbound = w.inbound
  guard : t.guards i = w.guards i
  unseen : W.unseen t.sender i = false → n = 0 ∧ W.unseen w.sender i = false

theorem counts_modify (f : RemoteAuthorization → RemoteAuthorization) :
    ∃ n, Counts i w (w.step (.modify f : Event α)) n := by
  have hvalue : (w.step (.modify f : Event α)).value = f w.value := W.value_sendModify f w.sender
  refine ⟨_, rfl, ?_, rfl, rfl, ?_⟩
  · rw [hvalue]
    show (w.epochs.changed w.value (f w.value)).get (w.inbound i) =
      w.epochs.get (w.inbound i) + .ofNat (revokes (w.inbound i) w.value (f w.value)).toNat
    cases h : revokes (w.inbound i) w.value (f w.value) <;> cases hb : w.inbound i <;>
      simp_all [RevocationEpochs.changed, RevocationEpochs.get]
  · intro hseen
    have hunseen := W.unseen_sendModify f w.sender i
    rw [show W.unseen (W.sendModify f w.sender) i = false from hseen] at hunseen
    cases hunseen

/-- A step that leaves the rights, the epochs and the guard alone. -/
theorem counts_same {t : World W} (hvalue : t.value = w.value) (hepochs : t.epochs = w.epochs)
    (hinbound : t.inbound = w.inbound) (hguard : t.guards i = w.guards i)
    (hunseen : W.unseen t.sender i = W.unseen w.sender i) : ∃ n, Counts i w t n := by
  refine ⟨0, ?_, ?_, hinbound, hguard, ?_⟩
  · rw [hvalue]
    simp [revokes]
  · rw [hepochs]
    simp
  · rw [hunseen]
    exact fun h => ⟨rfl, h⟩

theorem counts_step (e : Event α) (he : ∀ work, e ≠ .poll i work) :
    ∃ n, Counts i w (w.step e) n := by
  cases e with
  | modify f => exact counts_modify f
  | ifModified f =>
    by_cases hf : w.value = f w.value
    · have hstep : (w.step (.ifModified f : Event α)) =
          { w with sender := W.alter f w.sender } := by
        simp [step, sendIfModified, ← hf]
      rw [hstep]
      exact counts_same ((W.value_alter f w.sender).trans hf.symm) rfl rfl rfl
        (W.unseen_alter f w.sender i)
    · have hstep : w.step (.ifModified f : Event α) = w.step (.modify f : Event α) := by
        simp [step, sendIfModified, hf]
      rw [hstep]
      exact counts_modify f
  | drop => exact counts_same (W.value_close _) rfl rfl rfl (W.unseen_close _ i)
  | poll j work =>
    have hne : i ≠ j := by
      rintro rfl
      exact he work rfl
    refine counts_same (value_poll work) rfl rfl (Function.update_of_ne hne _ _) ?_
    show W.unseen (w.poll j work).2.2 i = W.unseen w.sender i
    rcases poll_sender (w := w) (i := j) work with hsame | hmark
    · rw [hsame]
    · rw [hmark, W.unseen_mark_ne j _ i hne]

/-- What is known of a guard after `k` revocations: while it waits, it has seen the last
    publication only if there was no revocation. -/
structure Tracks (w : World W) (i k : Nat) : Prop where
  polled : w.guards i ≠ .unpolled
  waiting : ∀ epoch, w.guards i = .waiting epoch →
    w.epochs.get (w.inbound i) = epoch + .ofNat k ∧
      (W.unseen w.sender i = false → k = 0) ∧ (k = 0 → w.value.authorized (w.inbound i))

variable {k : Nat}

/-- A guard fails at the next poll after a revocation; without one, the poll gives what the
    work gives. -/
theorem Tracks.poll (h : w.Tracks i k) (hk : k < 2 ^ 64) :
    (0 < k → (w.poll i work).2.1 = .done ∧ ∀ v, (w.poll i work).1 ≠ some (.ok v)) ∧
    (k = 0 → ∀ epoch, w.guards i = .waiting epoch →
      ((w.poll i work).2.1 = .done ∨ (w.poll i work).2.1 = .waiting epoch) ∧
      (W.closed w.sender = false → (w.poll i work).1 = work)) := by
  obtain ⟨hpolled, hwaiting⟩ := h
  have hwrap : ∀ epoch : UInt64, epoch + .ofNat k = epoch ↔ k = 0 := by
    refine fun epoch => ⟨fun heq => ?_, fun hzero => by simp [hzero]⟩
    have hzero := congrArg UInt64.toNat (UInt64.add_eq_left.mp heq)
    rwa [UInt64.toNat_ofNat', Nat.mod_eq_of_lt hk] at hzero
  unfold World.poll
  cases hg : w.guards i with
  | unpolled => exact absurd hg hpolled
  | done => simp
  | waiting epoch =>
    obtain ⟨hepoch, hnew, hright⟩ := hwaiting epoch hg
    have hvalue : w.value = W.value w.sender := rfl
    simp only [pollDenied, denied_eq, idle, hepoch, hwrap, W.value_mark, Watch.closed_catchUp,
      W.closed_mark]
    grind

/-- The first poll of an authorized guard gives what the work gives; one that waits then is
    authorized. -/
theorem first_poll (h : w.guards i = .unpolled) :
    ((w.poll i work).2.1 = .done ∨ w.value.authorized (w.inbound i) ∧
      (w.poll i work).2.1 = .waiting (w.epochs.get (w.inbound i))) ∧
    (w.value.authorized (w.inbound i) → W.closed w.sender = false →
      (w.poll i work).1 = work) := by
  have hvalue : w.value = W.value w.sender := rfl
  simp only [World.poll, h, pollDenied, denied_eq, idle, Watch.closed_catchUp]
  grind

/-- A step that is no poll of the guard keeps what is known of it. -/
theorem Tracks.step {t : World W} {n : Nat} (h : w.Tracks i k) (hcounts : Counts i w t n) :
    t.Tracks i (k + n) := by
  refine ⟨hcounts.guard ▸ h.polled, fun epoch hg => ?_⟩
  obtain ⟨hepoch, hnew, hright⟩ := h.waiting epoch (hcounts.guard ▸ hg)
  rw [hcounts.inbound, hcounts.epochs, hepoch, UInt64.ofNat_add, UInt64.add_assoc]
  refine ⟨rfl, fun hseen => ?_, fun hzero => ?_⟩
  · obtain ⟨hn, hseen⟩ := hcounts.unseen hseen
    rw [hn, hnew hseen]
  · have hcount := hcounts.count
    grind [revokes]

/-- A guard that has ended is known for good. -/
theorem tracks_done (h : (w.poll i work).2.1 = .done) : (w.step (.poll i work)).Tracks i k := by
  have hguard : (w.step (.poll i work)).guards i = .done := by
    rw [← h]
    exact Function.update_self i _ _
  constructor <;> rw [hguard]
  · nofun
  · nofun

/-- So is one that waits with the present epoch, until its direction is revoked. -/
theorem tracks_waiting (h : (w.poll i work).2.1 = .waiting (w.epochs.get (w.inbound i)))
    (hright : w.value.authorized (w.inbound i)) : (w.step (.poll i work)).Tracks i 0 := by
  have hguard : (w.step (.poll i work)).guards i = .waiting (w.epochs.get (w.inbound i)) := by
    rw [← h]
    exact Function.update_self i _ _
  constructor <;> rw [hguard]
  · nofun
  · intro epoch heq
    cases heq
    refine ⟨(UInt64.add_zero _).symm, fun _ => rfl, fun _ => ?_⟩
    rw [value_poll work]
    exact hright

theorem Since.tracks (h : Since α i w k) (hk : k < 2 ^ 64) : w.Tracks i k := by
  induction h with
  | first h work =>
    rcases (first_poll work h).1 with hdone | ⟨hright, hwaits⟩
    · exact tracks_done work hdone
    · exact tracks_waiting work hwaits hright
  | @later w k h e ih =>
    by_cases hpoll : ∃ work, e = .poll i work
    · obtain ⟨work, rfl⟩ := hpoll
      have hsame : (revokes (w.inbound i) w.value w.value).toNat = 0 := by simp [revokes]
      rw [value_poll work, hsame, Nat.add_zero] at hk ⊢
      have hw := ih hk
      obtain ⟨hfails, hworks⟩ := hw.poll work hk
      rcases Nat.eq_zero_or_pos k with rfl | hpos
      · cases hg : w.guards i with
        | unpolled => exact absurd hg hw.polled
        | done =>
          refine tracks_done work ?_
          simp [World.poll, hg]
        | waiting epoch =>
          obtain ⟨hepoch, -, hright⟩ := hw.waiting epoch hg
          rcases (hworks rfl epoch hg).1 with hdone | hwaits
          · exact tracks_done work hdone
          · refine tracks_waiting work ?_ (hright rfl)
            rw [hwaits, hepoch]
            exact congrArg Guard.waiting (UInt64.add_zero epoch).symm
      · exact tracks_done work (hfails hpos).1
    · obtain ⟨n, hcounts⟩ := counts_step (w := w) e fun work heq => hpoll ⟨work, heq⟩
      rw [← hcounts.count] at hk ⊢
      exact (ih (by omega)).step hcounts

/-- **Revocation guard.**  After the first poll of a guard and any publications and polls,
    with fewer than `2 ^ 64` revocations of its direction among them: after a revocation no
    poll of the guard returns `Ok`.  Without one, and with the sender alive, a poll gives
    what the work gives, as the first poll does if the direction is authorized. -/
theorem revoked_guard_fails :
    (Since α i w k → 0 < k → k < 2 ^ 64 → ∀ v, (w.poll i work).1 ≠ some (.ok v)) ∧
    (Since α i w 0 → W.closed w.sender = false → w.guards i ≠ .done →
      (w.poll i work).1 = work) ∧
    (w.guards i = .unpolled → w.value.authorized (w.inbound i) → W.closed w.sender = false →
      (w.poll i work).1 = work) := by
  refine ⟨fun h hpos hk => ((h.tracks hk).poll work hk).1 hpos |>.2, ?_, ?_⟩
  · intro h hopen hgoes
    have htracks := h.tracks (by decide)
    cases hg : w.guards i with
    | unpolled => exact absurd hg htracks.polled
    | waiting epoch => exact ((htracks.poll work (by decide)).2 rfl epoch hg).2 hopen
    | done => exact absurd hg hgoes
  · exact fun h => (first_poll work h).2

/-- An inbound right, with the guard of one stream that has been polled, after `n`
    revocations and as many grants. -/
def regranted (n : Nat) : World (.flags Nat RemoteAuthorization) where
  sender := (⟨⟨true, false⟩, ⟨false, false⟩⟩, fun _ => decide (0 < n), false)
  epochs := ⟨.ofNat n, 0⟩
  inbound _ := true
  guards := Function.update (fun _ => .unpolled) 0 (.waiting 0)

theorem since_regranted (n : Nat) : Since Unit 0 (regranted n) n := by
  induction n with
  | zero =>
    have hpoll : ({ regranted 0 with guards := fun _ => .unpolled }.poll 0
        (none : Option (Except Error Unit))).2 = (.waiting 0, (regranted 0).sender) := by
      simp [World.poll, pollDenied, denied_eq]
      rfl
    have hfirst := Since.first (w := { regranted 0 with guards := fun _ => .unpolled }) (i := 0)
      rfl (none : Option (Except Error Unit))
    rw [World.step, hpoll] at hfirst
    exact hfirst
  | succ n ih =>
    have hlater := (ih.later (.modify fun _ => ⟨⟨false, false⟩, ⟨false, false⟩⟩)).later
      (.modify fun _ => (regranted 0).value)
    have hnext : regranted (n + 1) = { regranted n with
        sender := ((regranted 0).value, fun _ => true, false)
        epochs := ⟨.ofNat n + 1, 0⟩ } := by
      rw [show UInt64.ofNat n + 1 = .ofNat (n + 1) from (UInt64.ofNat_add n 1).symm]
      simp [regranted, AuthorizationPublisher.value, Watch.flags]
    rw [hnext]
    exact hlater

/-- After `2 ^ 64` revocations, each followed by a grant, the epoch is the old one, and the
    guard lets the work return. -/
theorem epoch_wraps_around : Since Unit 0 (regranted (2 ^ 64)) (2 ^ 64) ∧
    ((regranted (2 ^ 64)).poll 0 (some (.ok ()))).1 = some (.ok ()) := by
  refine ⟨since_regranted _, ?_⟩
  simp only [World.poll, regranted, Function.update_self, pollDenied, denied_eq]
  rfl

theorem revoked_guard_fails_once : ((regranted 1).poll 0 (some (.ok ()))).1 ≠ some (.ok ()) :=
  revoked_guard_fails (some (.ok ())) |>.1 (since_regranted 1) (by decide) (by decide) ()

end World

end P2pFile.Node.RemoteAuth
