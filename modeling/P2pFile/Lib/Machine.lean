/-
  P2pFile.Lib.Machine

  Labelled transition systems and their finite runs.

  A machine is a set of initial states and a step relation labelled by events.
  `M.Steps s es t` says that the event list `es` takes `s` to `t`; it grows at
  the right end, because invariants are proved one event at a time from the
  start.  `M.Run es s` is a run from some initial state.

  `M.restrict C` keeps only the steps that meet the side condition `C`.  A claim
  "in every run whose steps all meet `C`" is then a claim about the runs of
  `M.restrict C`, and "while both stay up" is a claim about its `Steps`.
-/

import Mathlib.Data.List.Induction

namespace P2pFile.Lib

universe u v

/-- A labelled transition system. -/
structure Machine (σ : Type u) (ε : Type v) where
  init : σ → Prop
  step : σ → ε → σ → Prop

namespace Machine

variable {σ : Type u} {ε : Type v} (M : Machine σ ε)

/-- `Steps s es t`: the events `es`, in order, take `s` to `t`. -/
inductive Steps : σ → List ε → σ → Prop
  | nil (s : σ) : Steps s [] s
  | snoc {s t u : σ} {es : List ε} {e : ε} : Steps s es t → M.step t e u → Steps s (es ++ [e]) u

/-- A run: a finite event list from an initial state. -/
def Run (es : List ε) (s : σ) : Prop := ∃ s₀, M.init s₀ ∧ M.Steps s₀ es s

/-- The same machine, allowed only the steps that meet `C`. -/
def restrict (C : σ → ε → σ → Prop) : Machine σ ε where
  init := M.init
  step s e t := M.step s e t ∧ C s e t

variable {M}

/-! ## Composing and cutting runs -/

variable {s t : σ} {e : ε}

theorem Steps.single (h : M.step s e t) : M.Steps s [e] t := by
  have h' := Steps.snoc (Steps.nil s) h
  simpa using h'

variable {es fs : List ε}

theorem Steps.append {u : σ} (h₁ : M.Steps s es t) (h₂ : M.Steps t fs u) :
    M.Steps s (es ++ fs) u := by
  induction h₂ with
  | nil => simpa using h₁
  | snoc _ hstep ih =>
    rw [← List.append_assoc]
    exact Steps.snoc ih hstep

theorem Run.nil (h : M.init s) : M.Run [] s := ⟨s, h, Steps.nil s⟩

theorem Run.snoc (h : M.Run es s) (hstep : M.step s e t) : M.Run (es ++ [e]) t := by
  obtain ⟨s₀, hinit, hs⟩ := h
  exact ⟨s₀, hinit, Steps.snoc hs hstep⟩

theorem Run.append (h : M.Run es s) (hs : M.Steps s fs t) : M.Run (es ++ fs) t := by
  obtain ⟨s₀, hinit, h₀⟩ := h
  exact ⟨s₀, hinit, h₀.append hs⟩

/-! ## Invariants -/

variable {I : σ → Prop}

/-- A property kept by every step is kept along `Steps`. -/
theorem Steps.inv (hkeep : ∀ s e t, I s → M.step s e t → I t) (h : M.Steps s es t) (hs : I s) :
    I t := by
  induction h with
  | nil => exact hs
  | snoc _ hstep ih => exact hkeep _ _ _ ih hstep

/-- The invariant rule with history: `I es s` may speak of the events so far,
    and its step may use that the state before was reached by a run. -/
theorem Run.hist {I : List ε → σ → Prop} (hinit : ∀ s, M.init s → I [] s)
    (hkeep : ∀ es s e t, M.Run es s → I es s → M.step s e t → I (es ++ [e]) t) (h : M.Run es s) :
    I es s := by
  obtain ⟨s₀, h₀, hs⟩ := h
  induction hs with
  | nil => exact hinit _ h₀
  | snoc hpre hstep ih => exact hkeep _ _ _ _ ⟨_, h₀, hpre⟩ ih hstep

/-- The plain invariant rule. -/
theorem Run.inv (hinit : ∀ s, M.init s → I s) (hkeep : ∀ s e t, I s → M.step s e t → I t)
    (h : M.Run es s) : I s := by
  obtain ⟨s₀, h₀, hs⟩ := h
  exact hs.inv hkeep (hinit s₀ h₀)

/-! ## Restriction -/

variable {C : σ → ε → σ → Prop}

theorem Steps.of_restrict (h : (M.restrict C).Steps s es t) : M.Steps s es t := by
  induction h with
  | nil => exact Steps.nil _
  | snoc _ hstep ih => exact Steps.snoc ih hstep.1

theorem Run.of_restrict (h : (M.restrict C).Run es s) : M.Run es s := by
  obtain ⟨s₀, h₀, hs⟩ := h
  exact ⟨s₀, h₀, hs.of_restrict⟩

/-! ## Since

`M.Since start keep es s` says that the run `es` to `s` has an event at which
`start` held and that every later step met `keep`.  The rule `Run.since` finds
the event: a property that is false at the beginning and true now was turned on
by some step, and kept by all steps after it. -/

/-- Some event of the run met `start`, and all later steps met `keep`. -/
def Since (M : Machine σ ε) (start : List ε → σ → ε → σ → Prop) (keep : σ → ε → σ → Prop)
    (es : List ε) (s : σ) : Prop :=
  ∃ pre e post s₁ s₂, es = pre ++ e :: post ∧ M.Run pre s₁ ∧ M.step s₁ e s₂ ∧
    start pre s₁ e s₂ ∧ (M.restrict keep).Steps s₂ post s

variable {start : List ε → σ → ε → σ → Prop} {keep : σ → ε → σ → Prop}

theorem Since.snoc (h : M.Since start keep es s) (hstep : M.step s e t) (hkeep : keep s e t) :
    M.Since start keep (es ++ [e]) t := by
  obtain ⟨pre, e₀, post, s₁, s₂, rfl, hpre, hstep₀, hstart, hpost⟩ := h
  exact ⟨pre, e₀, post ++ [e], s₁, s₂, by simp, hpre, hstep₀, hstart, hpost.snoc ⟨hstep, hkeep⟩⟩

theorem Run.since {P : σ → Prop} (hinit : ∀ s, M.init s → ¬ P s)
    (hstep : ∀ es s e t, M.Run es s → M.step s e t → P t → P s ∧ keep s e t ∨ start es s e t)
    (h : M.Run es s) (hP : P s) : M.Since start keep es s := by
  refine Run.hist (I := fun es s => P s → M.Since start keep es s) ?_ ?_ h hP
  · intro s hs hPs
    exact absurd hPs (hinit s hs)
  · intro es s e t hrun ih hst hPt
    rcases hstep es s e t hrun hst hPt with ⟨hPs, hkeep⟩ | hstart
    · exact (ih hPs).snoc hst hkeep
    · -- This step turned the property on: nothing comes after it yet.
      exact ⟨es, e, [], s, t, rfl, hrun, hst, hstart, Steps.nil t⟩

/-! ## Machines given by a function

`step s e = none` means that event `e` is not enabled in `s`.  `exec` folds the
function over an event list, so a concrete run is checked by evaluation. -/

/-- The machine of a partial step function. -/
def ofStep (init : σ → Prop) (step : σ → ε → Option σ) : Machine σ ε where
  init := init
  step s e t := step s e = some t

/-- Fold a partial step function over an event list. -/
def exec (step : σ → ε → Option σ) : σ → List ε → Option σ
  | s, [] => some s
  | s, e :: es => (step s e).bind fun t => exec step t es

variable {init : σ → Prop} {step : σ → ε → Option σ}

theorem steps_of_exec (h : exec step s es = some t) : (ofStep init step).Steps s es t := by
  induction es generalizing s with
  | nil =>
    obtain rfl : s = t := by simpa [exec] using h
    exact Steps.nil s
  | cons e es ih =>
    simp only [exec, Option.bind_eq_some_iff] at h
    obtain ⟨m, hm, hrest⟩ := h
    exact (Steps.single hm).append (ih hrest)

theorem run_of_exec (hinit : init s) (h : exec step s es = some t) : (ofStep init step).Run es t :=
  ⟨s, hinit, steps_of_exec h⟩

/-- A concrete run whose steps all pass the check `ok` is one of the restricted machine. -/
theorem restrict_steps_of_exec {ok : σ → ε → σ → Bool} (hok : ∀ s e t, ok s e t = true → C s e t)
    (h : exec (fun s e => (step s e).filter (ok s e)) s es = some t) :
    ((ofStep init step).restrict C).Steps s es t := by
  induction es generalizing s with
  | nil =>
    obtain rfl : s = t := by simpa [exec] using h
    exact Steps.nil s
  | cons e es ih =>
    simp only [exec, Option.bind_eq_some_iff, Option.filter_eq_some_iff] at h
    obtain ⟨m, ⟨hm, hchecked⟩, hrest⟩ := h
    have hstep : ((ofStep init step).restrict C).step s e m := ⟨hm, hok s e m hchecked⟩
    exact (Steps.single hstep).append (ih hrest)

/-- The same for a run from an initial state, if the check implies the side condition at
    reachable states. -/
theorem restrict_run_of_exec {ok : σ → ε → Bool}
    (hok : ∀ es s e t, (ofStep init step).Run es s → step s e = some t → ok s e = true → C s e t)
    (hinit : init s) (h : exec (fun s e => if ok s e then step s e else none) s es = some t) :
    ((ofStep init step).restrict C).Run es t := by
  -- Induction on the events still to come, with the run so far.
  suffices hgen : ∀ (fs : List ε) {s t : σ} {pre : List ε},
      ((ofStep init step).restrict C).Run pre s →
      exec (fun s e => if ok s e then step s e else none) s fs = some t →
      ((ofStep init step).restrict C).Run (pre ++ fs) t from
    hgen es (Run.nil hinit) h
  intro fs
  induction fs with
  | nil =>
    intro s t pre hrun hexec
    obtain rfl : s = t := by simpa [exec] using hexec
    rw [List.append_nil]
    exact hrun
  | cons e fs ih =>
    intro s t pre hrun hexec
    simp only [exec, Option.bind_eq_some_iff, Option.ite_none_right_eq_some] at hexec
    obtain ⟨m, ⟨hchecked, hm⟩, hrest⟩ := hexec
    have hstep : ((ofStep init step).restrict C).step s e m :=
      ⟨hm, hok pre s e m hrun.of_restrict hm hchecked⟩
    have hlong := ih (hrun.snoc hstep) hrest
    rw [List.append_assoc] at hlong
    exact hlong

end Machine

end P2pFile.Lib
