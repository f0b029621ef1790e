/-
  P2pFile.Lib.Prog

  Programs over a store whose calls can fail or be cut short by a crash.

  A program takes the store and a plan: one entry for each call it will make, which
  says whether the call is done, fails, or never returns because the process dies in
  it.  A theorem about every plan is a theorem about every way the calls can go.

  `Triple P p Q E C` has one postcondition for each way to end: with a value (`Q`), with
  an error (`E`) and with a crash (`C`).  Programs always end, so it is total
  correctness.
-/

import Mathlib.Data.List.Basic

namespace P2pFile.Lib

/-- How one call goes.  `progress` says how far it came before it stopped. -/
inductive Fault (ε : Type) where
  | done
  | fail (progress : Nat) (err : ε)
  | crash (progress : Nat)

/-- How a program ends. -/
inductive Outcome (ε α : Type) where
  | ok (a : α)
  | error (err : ε)
  | crashed
  deriving DecidableEq

/-- A program over the store `σ`. -/
def Prog (σ ε α : Type) : Type := σ → List (Fault ε) → Outcome ε α × σ × List (Fault ε)

namespace Prog

variable {σ τ ε α β : Type}

protected def pure (a : α) : Prog σ ε α := fun s plan => (.ok a, s, plan)

protected def bind (p : Prog σ ε α) (f : α → Prog σ ε β) : Prog σ ε β := fun s plan =>
  match p s plan with
  | (.ok a, t, rest) => f a t rest
  | (.error err, t, rest) => (.error err, t, rest)
  | (.crashed, t, rest) => (.crashed, t, rest)

instance : Monad (Prog σ ε) where
  pure := Prog.pure
  bind := Prog.bind

variable (p : Prog σ ε α)

theorem pure_bind (a : α) (f : α → Prog σ ε β) : Pure.pure a >>= f = f a := rfl

theorem bind_assoc {γ : Type} (f : α → Prog σ ε β) (g : β → Prog σ ε γ) :
    (p >>= f) >>= g = p >>= fun a => f a >>= g := by
  funext s plan
  show Prog.bind (Prog.bind p f) g s plan = Prog.bind p (fun a => Prog.bind (f a) g) s plan
  unfold Prog.bind
  cases p s plan with
  | mk out r =>
    cases out with
    | _ => rfl

def throw (err : ε) : Prog σ ε α := fun s plan => (.error err, s, plan)

def ofExcept : Except ε α → Prog σ ε α
  | .ok a => Prog.pure a
  | .error err => throw err

def get : Prog σ ε σ := fun s plan => (.ok s, s, plan)

def modify (f : σ → σ) : Prog σ ε Unit := fun s plan => (.ok (), f s, plan)

/-- A program on the first part of a store. -/
def onFst : Prog (σ × τ) ε α := fun s plan =>
  let (out, t, rest) := p s.1 plan
  (out, (t, s.2), rest)

/-- Errors become values. -/
def attempt : Prog σ ε (Except ε α) := fun s plan =>
  match p s plan with
  | (.ok a, t, rest) => (.ok (.ok a), t, rest)
  | (.error err, t, rest) => (.ok (.error err), t, rest)
  | (.crashed, t, rest) => (.crashed, t, rest)

/-- A call that takes effect at once or not at all.  It can refuse by itself; a crash
    with progress comes after the effect. -/
def atomic (f : σ → Except ε (α × σ)) : Prog σ ε α := fun s plan =>
  match plan with
  | .fail _ err :: rest => (.error err, s, rest)
  | .crash progress :: rest =>
    match f s with
    | .ok (_, t) => (.crashed, if progress = 0 then s else t, rest)
    | .error _ => (.crashed, s, rest)
  | plan =>
    match f s with
    | .ok (a, t) => (.ok a, t, plan.tail)
    | .error err => (.error err, s, plan.tail)

/-- A call whose effect builds up: `part k` is the effect of `k` of its `total` units. -/
def gradual (total : Nat) (part : Nat → σ → σ) : Prog σ ε Unit := fun s plan =>
  match plan with
  | .fail progress err :: rest => (.error err, part (min progress total) s, rest)
  | .crash progress :: rest => (.crashed, part (min progress total) s, rest)
  | plan => (.ok (), part total s, plan.tail)

/-! ## Triples -/

/-- The result has a value and a store in `Q`, or an error and a store in `E`, or it is a
    crash and the store is in `C`. -/
def Ends (Q : α → σ → Prop) (E C : σ → Prop) : Outcome ε α × σ × List (Fault ε) → Prop
  | (.ok a, s, _) => Q a s
  | (.error _, s, _) => E s
  | (.crashed, s, _) => C s

/-- From every store in `P` and under every plan, `p` ends as `Q`, `E` and `C` say. -/
def Triple (P : σ → Prop) (p : Prog σ ε α) (Q : α → σ → Prop) (E C : σ → Prop) : Prop :=
  ∀ s plan, P s → Ends Q E C (p s plan)

/-- An error and a crash leave the same. -/
abbrev Spec (P : σ → Prop) (p : Prog σ ε α) (Q : α → σ → Prop) (E : σ → Prop) : Prop :=
  Triple P p Q E E

variable {P E C : σ → Prop} {p : Prog σ ε α} {Q : α → σ → Prop}

theorem Triple.ends (h : Triple P p Q E C) {s t : σ} {out : Outcome ε α}
    {plan rest : List (Fault ε)} (hs : P s) (hrun : p s plan = (out, t, rest)) :
    Ends Q E C (out, t, rest) :=
  hrun ▸ h s plan hs

variable {Q' : α → σ → Prop}

theorem Triple.conseq {P' E' C' : σ → Prop} (h : Triple P' p Q' E' C') (hP : ∀ s, P s → P' s)
    (hQ : ∀ a s, Q' a s → Q a s) (hE : ∀ s, E' s → E s) (hC : ∀ s, C' s → C s) :
    Triple P p Q E C := by
  intro s plan hs
  have hpost := h s plan (hP s hs)
  generalize p s plan = r at hpost ⊢
  obtain ⟨out, t, rest⟩ := r
  cases out with
  | ok a => exact hQ a t hpost
  | error err => exact hE t hpost
  | crashed => exact hC t hpost

theorem Triple.post (h : Triple P p Q' E C) (hQ : ∀ a s, Q' a s → Q a s) : Triple P p Q E C :=
  h.conseq (fun _ h => h) hQ (fun _ h => h) (fun _ h => h)

theorem Triple.exits {E' C' : σ → Prop} (h : Triple P p Q E' C') (hE : ∀ s, E' s → E s)
    (hC : ∀ s, C' s → C s) : Triple P p Q E C :=
  h.conseq (fun _ h => h) (fun _ _ h => h) hE hC

theorem Triple.pre {R : σ → Prop} (h : Triple R p Q E C) (hP : ∀ s, P s → R s) : Triple P p Q E C :=
  fun s plan hs => h s plan (hP s hs)

theorem Triple.ex {ι : Type} {P : ι → σ → Prop} (h : ∀ x, Triple (P x) p Q E C) :
    Triple (fun s => ∃ x, P x s) p Q E C := by
  rintro s plan ⟨x, hs⟩
  exact h x s plan hs

theorem Spec.conseq {P' E' : σ → Prop} (h : Spec P' p Q' E') (hP : ∀ s, P s → P' s)
    (hQ : ∀ a s, Q' a s → Q a s) (hE : ∀ s, E' s → E s) : Spec P p Q E :=
  Triple.conseq h hP hQ hE hE

theorem Spec.exits {E' : σ → Prop} (h : Spec P p Q E') (hE : ∀ s, E' s → E s) : Spec P p Q E :=
  Triple.exits h hE hE

/-- A precondition that does not speak of the store is a hypothesis. -/
theorem Triple.of_imp {φ : Prop} (h : φ → Triple P p Q E C) (hφ : ∀ s, P s → φ) :
    Triple P p Q E C :=
  fun s plan hs => h (hφ s hs) s plan hs

theorem Triple.pure {a : α} (h : ∀ s, P s → Q a s) : Triple P (Pure.pure a : Prog σ ε α) Q E C :=
  fun s _ hs => h s hs

theorem Triple.throw {err : ε} (h : ∀ s, P s → E s) :
    Triple P (Prog.throw err : Prog σ ε α) Q E C :=
  fun s _ hs => h s hs

theorem Triple.ofExcept {e : Except ε α} (hok : ∀ a, e = .ok a → ∀ s, P s → Q a s)
    (herr : ∀ s, P s → E s) : Triple P (ofExcept e) Q E C := by
  cases e with
  | ok a => exact Triple.pure (hok a rfl)
  | error err => exact Triple.throw herr

variable {f : α → Prog σ ε β} {R : α → σ → Prop}

theorem Triple.bind {Q : β → σ → Prop} (hp : Triple P p R E C)
    (hf : ∀ a, Triple (R a) (f a) Q E C) : Triple P (p >>= f) Q E C := by
  intro s plan hs
  have hpost := hp s plan hs
  show Ends Q E C (Prog.bind p f s plan)
  unfold Prog.bind
  generalize p s plan = r at hpost
  obtain ⟨out, t, rest⟩ := r
  cases out with
  | ok a => exact hf a t rest hpost
  | error err => exact hpost
  | crashed => exact hpost

theorem Spec.bind {Q : β → σ → Prop} (hp : Spec P p R E) (hf : ∀ a, Spec (R a) (f a) Q E) :
    Spec P (p >>= f) Q E :=
  Triple.bind hp hf

theorem Triple.get {Q : σ → σ → Prop} (h : ∀ s, P s → Q s s) : Triple P (get : Prog σ ε σ) Q E C :=
  fun s _ hs => h s hs

theorem Triple.modify {f : σ → σ} {Q : Unit → σ → Prop} (h : ∀ s, P s → Q () (f s)) :
    Triple P (modify f : Prog σ ε Unit) Q E C :=
  fun s _ hs => h s hs

/-- A program on the first part leaves the second as it is. -/
theorem Triple.onFst {P E C : σ × τ → Prop} {Q : α → σ × τ → Prop}
    (h : ∀ b, Triple (fun a => P (a, b)) p (fun r a => Q r (a, b)) (fun a => E (a, b))
      (fun a => C (a, b))) : Triple P p.onFst Q E C := by
  rintro ⟨a, b⟩ plan hs
  have hpost := h b a plan hs
  unfold Prog.onFst
  generalize p a plan = r at hpost
  obtain ⟨out, t, rest⟩ := r
  cases out with
  | _ => exact hpost

/-- A handler sees the store that the error leaves. -/
theorem Triple.attempt {Q : Except ε α → σ → Prop} {F : σ → Prop}
    (h : Triple P p (fun a s => Q (.ok a) s) F C) (herr : ∀ err s, F s → Q (.error err) s) :
    Triple P p.attempt Q E C := by
  intro s plan hs
  have hpost := h s plan hs
  unfold Prog.attempt
  generalize p s plan = r at hpost
  obtain ⟨out, t, rest⟩ := r
  cases out with
  | ok a => exact hpost
  | error err => exact herr err t hpost
  | crashed => exact hpost

/-- The store after a value, and the one after an error that is caught. -/
def Caught (Q : α → σ → Prop) (F : σ → Prop) : Except ε α → σ → Prop
  | .ok a => Q a
  | .error _ => F

/-- Both ways on after a program whose errors are caught. -/
theorem Triple.attempt_bind {f : Except ε α → Prog σ ε β} {R : β → σ → Prop} {F : σ → Prop}
    (h : Triple P p Q F C) (hok : ∀ a, Triple (Q a) (f (.ok a)) R E C)
    (herr : ∀ err, Triple F (f (.error err)) R E C) : Triple P (p.attempt >>= f) R E C := by
  refine .bind (R := Caught Q F) (.attempt h fun _ _ hs => hs) fun r => ?_
  cases r with
  | ok a => exact hok a
  | error err => exact herr err

variable {f : σ → Except ε (α × σ)}

theorem Triple.atomic (herr : ∀ s, P s → E s) (hcrash : ∀ s, P s → C s)
    (hok : ∀ s a t, P s → f s = .ok (a, t) → Q a t ∧ C t) : Triple P (Prog.atomic f) Q E C := by
  intro s plan hs
  unfold Prog.atomic
  split
  · exact herr s hs
  · split
    next hf =>
      split
      · exact hcrash s hs
      · exact (hok s _ _ hs hf).2
    · exact hcrash s hs
  · split
    next hf =>
      exact (hok s _ _ hs hf).1
    · exact herr s hs

theorem Spec.atomic (hstop : ∀ s, P s → E s) (hok : ∀ s a t, P s → f s = .ok (a, t) → Q a t ∧ E t) :
    Spec P (Prog.atomic f) Q E :=
  Triple.atomic hstop hstop hok

theorem Triple.gradual {total : Nat} {part : Nat → σ → σ} {Q : Unit → σ → Prop}
    (herr : ∀ s k, P s → k ≤ total → E (part k s)) (hcrash : ∀ s k, P s → k ≤ total → C (part k s))
    (hok : ∀ s, P s → Q () (part total s)) :
    Triple P (Prog.gradual total part : Prog σ ε Unit) Q E C := by
  intro s plan hs
  unfold Prog.gradual
  split
  · exact herr s _ hs (Nat.min_le_right _ _)
  · exact hcrash s _ hs (Nat.min_le_right _ _)
  · exact hok s hs

end Prog

end P2pFile.Lib
