/-
  P2pFile.Node.FairShares

  Two writers that stay in the ring of `FairWrites` get equal shares.

  Only the front of the ring writes, and it keeps its turn until its credit is used up;
  then it goes to the end with a new quantum.  Other tickets that join, leave or block do
  not change which of the two comes first.  So the two take turns, and what each has
  written is its first credit and some whole quanta, less the credit it has left.
-/

import P2pFile.Node.FairWrites

namespace P2pFile.Node

open Lib

/-! ## Intervals -/

/-- A poll begins only while no other is between its sections. -/
def FairWorld.Apart (w : FairWorld) (e : FairEvent) : Prop :=
  ∀ id len, e = .beginWrite id len → w.state.polling = none

/-- Both tickets are in the ring. -/
def FairWorld.Both (a b : TaskId) (w : FairWorld) : Prop := a ∈ w.state.ready ∧ b ∈ w.state.ready

variable (id : TaskId)

/-- What the event writes for the ticket. -/
def FairEvent.bytes : FairEvent → Nat
  | .endWrite id' (.wrote n) => if id' = id then n else 0
  | _ => 0

variable (es : List FairEvent)

def written : Nat := (es.map (FairEvent.bytes id)).sum

theorem written_snoc (e : FairEvent) : written id (es ++ [e]) = written id es + e.bytes id := by
  simp [written]

/-! ## Who comes first -/

namespace FairState

/-- The two tickets in the order of the ring. -/
def order (a b : TaskId) (s : FairState) : List TaskId := s.ready.filter fun id => id = a ∨ id = b

variable {s : FairState} {a b id : TaskId} {credit : WriteCredit}

/-- A ticket that is not one of the two comes or goes. -/
theorem order_join (h : s.Ring) (hcred : s.tasks.lookup id = some credit)
    (ha : a ∈ s.ready) (hb : b ∈ s.ready) : (s.join id credit).order a b = s.order a b ∧
      ∀ x, x ∈ s.ready → (s.join id credit).tasks.lookup x = s.tasks.lookup x := by
  obtain ⟨-, hready, -⟩ := h
  unfold join
  split
  · exact ⟨rfl, fun _ _ => rfl⟩
  constructor
  · unfold order
    split <;> grind
  · grind

theorem order_without {ready : List TaskId} (ha : a ∈ ready.filter (· != id))
    (hb : b ∈ ready.filter (· != id)) : (ready.filter (· != id)).filter (fun x => x = a ∨ x = b) =
      ready.filter fun x => x = a ∨ x = b := by
  rw [List.filter_filter]
  refine List.filter_congr fun x _ => ?_
  grind

/-- Who does not write gives up the turn. -/
theorem endWrite_leaves {result : WriteResult} (h : ¬ ∃ n, result = .wrote (n + 1)) :
    (s.endWrite id credit result).ready = s.ready.tail := by
  unfold endWrite
  split
  · exact absurd ⟨_, rfl⟩ h
  · rfl

end FairState

/-! ## The two take turns -/

/-- What the two have written since they had the credits `ca` and `cb`, with `a` before `b`. -/
structure Shares (a b : TaskId) (ca cb : Nat) (es : List FairEvent) (w : FairWorld)
    (x y : WriteCredit) : Prop where
  left : w.state.tasks.lookup a = some x
  right : w.state.tasks.lookup b = some y
  turn : (w.state.order a b = [a, b] ∧
      written a es + x.credit + cb = written b es + y.credit + ca) ∨
    (w.state.order a b = [b, a] ∧ x.credit = byteQuantum ∧
      written a es + cb = written b es + y.credit + ca)

section Shares

variable {a b id : TaskId} {ca cb : Nat} {es : List FairEvent} {w w' : FairWorld}
  {x y credit : WriteCredit}

/-- A step that writes nothing and keeps the two where they are. -/
theorem Shares.quiet (h : Shares a b ca cb es w x y) {e : FairEvent}
    (hbytes : e.bytes a = 0 ∧ e.bytes b = 0) (horder : w'.state.order a b = w.state.order a b)
    (ha : w'.state.tasks.lookup a = w.state.tasks.lookup a)
    (hb : w'.state.tasks.lookup b = w.state.tasks.lookup b) :
    Shares a b ca cb (es ++ [e]) w' x y := by
  refine ⟨ha.trans h.left, hb.trans h.right, ?_⟩
  rw [horder, written_snoc, written_snoc, hbytes.1, hbytes.2]
  exact h.turn

/-- A ticket that is not one of the two ends its write at the front of the ring. -/
theorem order_endWrite {s : FairState} {rest : List TaskId} (hready : s.ready = id :: rest)
    (ha : id ≠ a) (hb : id ≠ b) (result : WriteResult) :
    (s.endWrite id credit result).order a b = s.order a b := by
  unfold FairState.order FairState.endWrite
  split
  · dsimp only
    split <;> simp [hready, ha, hb]
  · simp [hready, ha, hb]

variable (h : Shares a b ca cb es w x y)

include h

/-- One of the two writes.  If that uses up its credit, the other one comes first. -/
theorem Shares.turned (hne : a ≠ b) {rest : List TaskId} {n : Nat}
    (hcred : w.state.tasks.lookup id = some credit) (hready : w.state.ready = id :: rest)
    (hsize : n + 1 ≤ credit.credit)
    (hw' : w'.state = w.state.endWrite id credit (.wrote (n + 1))) (hid : id = a ∨ id = b) :
    ∃ x' y', Shares a b ca cb (es ++ [.endWrite id (.wrote (n + 1))]) w' x' y' := by
  obtain ⟨hleft, hright, hturn⟩ := h
  unfold FairState.order at hturn
  have horder : w'.state.order a b = if credit.credit = n + 1 then
      (rest ++ [id]).filter (fun id => id = a ∨ id = b)
    else (id :: rest).filter (fun id => id = a ∨ id = b) := by
    rw [hw']
    unfold FairState.order FairState.endWrite
    grind
  have htasks : w'.state.tasks = w.state.tasks.insert id { credit with
      hasWritten := true
      credit := if credit.credit = n + 1 then byteQuantum else credit.credit - (n + 1) } := by
    rw [hw']
    unfold FairState.endWrite
    grind
  rcases hid with rfl | rfl
  · refine ⟨_, y, by rw [htasks, AList.lookup_insert], by grind, ?_⟩
    rw [horder, written_snoc, written_snoc]
    simp only [FairEvent.bytes, if_true, if_neg hne]
    grind
  · refine ⟨x, _, by grind, by rw [htasks, AList.lookup_insert], ?_⟩
    rw [horder, written_snoc, written_snoc]
    simp only [FairEvent.bytes, if_true, if_neg hne.symm]
    grind

/-- The front of the ring ends its write. -/
theorem Shares.ended (hne : a ≠ b) (hring : w.state.Ring) (hpolls : w.Polls)
    {result : WriteResult} {allowance : Nat} (hcred : w.state.tasks.lookup id = some credit)
    (hwriting : w.writing.lookup id = some allowance) (hfits : result.fits allowance = true)
    (hw' : w'.state = w.state.endWrite id credit result) (hboth : w'.Both a b) :
    ∃ x' y', Shares a b ca cb (es ++ [.endWrite id result]) w' x' y' := by
  obtain ⟨hpoll, credit', hcred', hle⟩ := hpolls.polled id allowance hwriting
  obtain ⟨hlow, hhigh⟩ := hpolls.credits id credit hcred
  obtain ⟨entry, -, -, htasks⟩ := @FairState.endWrite_tasks w.state id credit hlow hhigh result
  obtain ⟨rest, hready⟩ := hring.cons hpoll
  by_cases hother : id ≠ a ∧ id ≠ b
  · refine ⟨x, y, h.quiet ?_ ?_ ?_ ?_⟩
    · cases result <;> simp [FairEvent.bytes, hother.1, hother.2]
    · rw [hw']
      exact order_endWrite hready hother.1 hother.2 result
    · grind
    · grind
  have hnodup := hring.nodup
  rw [hready] at hnodup
  obtain ⟨ha, hb⟩ := hboth
  by_cases hwrote : ∃ n, result = .wrote (n + 1)
  · -- One of the two had its turn, so it came first.
    obtain ⟨n, rfl⟩ := hwrote
    have hsize : n + 1 ≤ credit.credit := by
      have hbound : n + 1 ≤ allowance := by simpa [WriteResult.fits] using hfits
      rw [hcred] at hcred'
      cases hcred'
      omega
    exact h.turned hne hcred hready hsize hw' (by grind)
  · -- A turn that is given up takes its ticket out of the ring.
    rw [hw', FairState.endWrite_leaves hwrote, hready] at ha hb
    grind

theorem Shares.step (hne : a ≠ b) (hring : w.state.Ring) (hpolls : w.Polls) {e : FairEvent}
    (hstep : w.step e = some w') (hboth : w.Both a b) (hboth' : w'.Both a b) :
    ∃ x' y', Shares a b ca cb (es ++ [e]) w' x' y' := by
  obtain ⟨ha, hb⟩ := hboth
  obtain ⟨ha', hb'⟩ := hboth'
  have hleft := h.left
  have hright := h.right
  by_cases hends : ∃ id result, e = .endWrite id result
  · obtain ⟨id, result, rfl⟩ := hends
    unfold FairWorld.step at hstep
    dsimp only at hstep
    split at hstep
    next credit allowance hcred hwriting =>
      obtain ⟨hfits, hstep⟩ := Option.ite_none_right_eq_some.mp hstep
      cases hstep
      exact h.ended hne hring hpolls hcred hwriting hfits rfl ⟨ha', hb'⟩
    · cases hstep
  refine ⟨x, y, ?_⟩
  have hbytes : e.bytes a = 0 ∧ e.bytes b = 0 := by
    cases e with
    | endWrite id result => exact absurd ⟨id, result, rfl⟩ hends
    | _ => exact ⟨rfl, rfl⟩
  cases FairWorld.step_cases hstep with
  | idle => exact h.quiet hbytes rfl rfl rfl
  | ticketed hnone => exact h.quiet hbytes rfl (by grind) (by grind)
  | waits hcred hwriting =>
    obtain ⟨horder, hsame⟩ := FairState.order_join hring hcred ha hb
    exact h.quiet hbytes horder (hsame a ha) (hsame b hb)
  | begun hcred hwriting hpoll hfront =>
    obtain ⟨horder, hsame⟩ := FairState.order_join hring hcred ha hb
    exact h.quiet hbytes horder (hsame a ha) (hsame b hb)
  | ended hcred hwriting hfits => exact absurd ⟨_, _, rfl⟩ hends
  | parked hcred hwriting =>
    refine h.quiet hbytes (FairState.order_without ha' hb') ?_ ?_
    · grind [FairState.park]
    · grind [FairState.park]
  | dropped =>
    refine h.quiet hbytes (FairState.order_without ha' hb') ?_ ?_
    · grind [FairState.drop]
    · grind [FairState.drop]

/-- Credits are between one byte and a quantum, which bounds the difference. -/
theorem Shares.close (hpolls : w.Polls) (ha : 1 ≤ ca) (ha' : ca ≤ byteQuantum) (hb : 1 ≤ cb)
    (hb' : cb ≤ byteQuantum) :
    written a es < written b es + 2 * byteQuantum ∧
      written b es < written a es + 2 * byteQuantum := by
  have hx := hpolls.credits a x h.left
  have hy := hpolls.credits b y h.right
  rcases h.turn with ⟨-, hturn⟩ | ⟨-, hfull, hturn⟩ <;> omega

end Shares

/-! ## Runs -/

theorem FairWorld.Apart.keepsTurn {w : FairWorld} {e : FairEvent} (h : w.Apart e) :
    ¬ w.Overtakes e := by
  cases e with
  | beginWrite id len =>
    rintro ⟨hpoll, -⟩
    rw [h id len rfl] at hpoll
    cases hpoll
  | _ => exact fun hfalse => hfalse

/-- One of two tickets in the ring comes first. -/
theorem FairState.order_cases {s : FairState} {a b : TaskId} (h : s.Ring) (hne : a ≠ b)
    (ha : a ∈ s.ready) (hb : b ∈ s.ready) : s.order a b = [a, b] ∨ s.order b a = [b, a] := by
  have hcomm : s.order b a = s.order a b := List.filter_congr fun id _ => by simp [or_comm]
  have hnodup : (s.order a b).Nodup := h.nodup.filter _
  have hperm : (s.order a b).Perm [a, b] := by
    refine (List.perm_ext_iff_of_nodup hnodup (by simpa using hne)).mpr fun id => ?_
    unfold FairState.order
    grind
  match hlist : s.order a b, hperm.length_eq with
  | [x, y], _ =>
    grind

/-- What was written in an interval in which both tickets stay in the ring. -/
theorem shares_steps {a b : TaskId} (hne : a ≠ b) {es : List FairEvent} {w w' : FairWorld}
    (hpolls : w.Polls) (hring : w.state.Ring) (hboth : w.Both a b)
    (horder : w.state.order a b = [a, b]) {C : FairWorld → FairEvent → FairWorld → Prop}
    (hkeep : ∀ w e w', C w e w' → w.Apart e ∧ w'.Both a b)
    (h : (fairMachine.restrict C).Steps w es w') : written a es < written b es + 2 * byteQuantum ∧
      written b es < written a es + 2 * byteQuantum := by
  obtain ⟨x, hx, -⟩ := (hring.ready a).mp hboth.1
  obtain ⟨y, hy, -⟩ := (hring.ready b).mp hboth.2
  have hinv : w'.Polls ∧ w'.state.Ring ∧ w'.Both a b ∧
      ∃ x' y', Shares a b x.credit y.credit es w' x' y' := by
    induction h with
    | nil => exact ⟨hpolls, hring, hboth, x, y, hx, hy, .inl ⟨horder, by simp [written]; omega⟩⟩
    | snoc _ hstep ih =>
      obtain ⟨hstep, hkept⟩ := hstep
      obtain ⟨hapart, hboth'⟩ := hkeep _ _ _ hkept
      obtain ⟨hpolls', hring', hboth, x', y', hshares⟩ := ih
      have hcases := FairWorld.step_cases hstep
      exact ⟨hpolls'.step hcases,
        FairWorld.ring_step hpolls' hring' hcases hapart.keepsTurn, hboth',
        hshares.step hne hring' hpolls' hstep hboth hboth'⟩
  obtain ⟨hpolls', -, -, x', y', hshares⟩ := hinv
  have hca := hpolls.credits a x hx
  have hcb := hpolls.credits b y hy
  exact hshares.close hpolls' hca.1 hca.2 hcb.1 hcb.2

/-- **Fair shares.**  After any run whose polls do not overlap: in an interval in which two
    tickets stay in the ring, what they write differs by less than two quanta; and a writer
    whose stream is not ready gives up the turn. -/
theorem writes_are_fair {pre : List FairEvent} {w : FairWorld}
    (h : (fairMachine.restrict fun w e _ => w.Apart e).Run pre w) :
    (∀ a b es w', a ≠ b → w.Both a b →
      (fairMachine.restrict fun w e w' => w.Apart e ∧ w'.Both a b).Steps w es w' →
      written a es < written b es + 2 * byteQuantum ∧
        written b es < written a es + 2 * byteQuantum) ∧
    ∀ id w', w.step (.endWrite id .pending) = some w' →
      w'.state.polling = none ∧ id ∉ w'.state.ready := by
  have hpolls := fair_polls h.of_restrict
  have hring := fair_ring (fun _ _ _ hapart => hapart.keepsTurn) h
  refine ⟨?_, ?_⟩
  · intro a b es w' hne hboth hsteps
    rcases FairState.order_cases hring hne hboth.1 hboth.2 with horder | horder
    · exact shares_steps hne hpolls hring hboth horder (fun _ _ _ hkept => hkept) hsteps
    · exact (shares_steps hne.symm hpolls hring hboth.symm horder
        (fun _ _ _ hkept => ⟨hkept.1, hkept.2.symm⟩) hsteps).symm
  · intro id w' hstep
    unfold FairWorld.step at hstep
    dsimp only at hstep
    split at hstep
    next credit allowance hcredit hwriting =>
      cases hstep
      obtain ⟨rest, hready⟩ := hring.cons (hpolls.polled id allowance hwriting).1
      have hnodup := hring.nodup
      refine ⟨rfl, ?_⟩
      rw [FairState.endWrite_leaves (by simp), hready]
      grind
    · cases hstep

namespace FairSample

/-- `a` writes a little, then `b` a whole quantum. -/
def opening : List FairEvent :=
  [.ticket a, .ticket b, .beginWrite a 10, .endWrite a (.wrote 10), .beginWrite b byteQuantum,
    .endWrite b (.wrote byteQuantum)]

/-- `a` uses up its first credit, and `b` begins its second one. -/
def interval : List FairEvent :=
  [.beginWrite a byteQuantum, .endWrite a (.wrote (byteQuantum - 10)), .beginWrite b 7,
    .endWrite b (.wrote 7)]

/-- Decides `Apart`. -/
def apart (w : FairWorld) : FairEvent → Bool
  | .beginWrite _ _ => w.state.polling.isNone
  | _ => true

theorem apart_sound {w : FairWorld} {e : FairEvent} (h : apart w e = true) : w.Apart e := by
  rintro id len rfl
  exact Option.isNone_iff_eq_none.mp h

end FairSample

open FairSample in
theorem writes_are_fair_interval : ∃ w w',
    (fairMachine.restrict fun w e _ => w.Apart e).Run opening w ∧ w.Both a b ∧
      (fairMachine.restrict fun w e w' => w.Apart e ∧ w'.Both a b).Steps w interval w' ∧
      written a interval < written b interval + 2 * byteQuantum := by
  have hsome : (Machine.exec (fun w e => (FairWorld.step w e).filter fun _ => apart w e)
      ⟨.new, ∅⟩ opening).any (fun w => w.state.ready.contains a && w.state.ready.contains b &&
        (Machine.exec (fun w e => (w.step e).filter fun w' =>
          apart w e && w'.state.ready.contains a && w'.state.ready.contains b) w
          interval).isSome) = true := by
    decide +kernel
  obtain ⟨w, hopening, hrest⟩ := (Option.any_eq_true _ _).mp hsome
  simp only [Bool.and_eq_true, List.contains_iff_mem] at hrest
  obtain ⟨w', hinterval⟩ := Option.isSome_iff_exists.mp hrest.2
  have hrun : (fairMachine.restrict fun w e _ => w.Apart e).Run opening w :=
    ⟨_, rfl, Machine.restrict_steps_of_exec (fun _ _ _ hok => apart_sound hok) hopening⟩
  have hsteps : (fairMachine.restrict fun w e w' => w.Apart e ∧ w'.Both a b).Steps
      w interval w' := by
    refine Machine.restrict_steps_of_exec (fun _ _ _ hok => ?_) hinterval
    simp only [Bool.and_eq_true, List.contains_iff_mem] at hok
    exact ⟨apart_sound hok.1.1, hok.1.2, hok.2⟩
  exact ⟨w, w', hrun, hrest.1, hsteps,
    ((writes_are_fair hrun).1 a b interval w' (by decide) hrest.1 hsteps).1⟩

end P2pFile.Node
